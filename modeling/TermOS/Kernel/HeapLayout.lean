import TermOS.Kernel.BlockHeader
import TermOS.Kernel.String

/-!
# Heaps of blocks and their clients

What the heap of the kernel and the heap of a process have in common: the search
for a free block, the two ways to resize a block, and what their clients rely on.
A client holds a payload: it knows the address, and how many bytes it asked for.
Each operation keeps the blocks in order and leaves the payloads that are held alone.

## Main Theorems

* `HeapLayout.take`, `HeapLayout.free`, `HeapLayout.absorb`, `HeapLayout.move` -
  the operations keep the layout
* `HeapLayout.disjoint` - what is held does not overlap
-/

namespace TermOS.Kernel

open TermOS.Lib

/-! ## Section 1: The code -/

/-- The search of an allocation: the first free block that is large enough, or
null, and the last block that was looked at before it. `none` means that the loop
needs more turns. -/
def findBlock (m : Memory) (alignedSize : Nat) : Nat → Nat → Nat → Option (Nat × Nat)
  | 0, _, _ => none
  | turns + 1, current, lastBlock =>
    if current = 0 then some (0, lastBlock)
    else if (blockHeader m current).isFree ∧ alignedSize ≤ (blockHeader m current).size then
      some (current, lastBlock)
    else findBlock m alignedSize turns (blockHeader m current).next current

/-- `(size + 15) & ~15` -/
def alignSize (size : Nat) : Nat := (size + 15) % 2 ^ 64 / 16 * 16

/-- The header of a payload. -/
def headerOf (pointer : Nat) : Nat := (pointer + 2 ^ 64 - sizeofHeader) % 2 ^ 64

/-- A block that is to be resized stays where it is: it is large enough, or the
block after it is free and both together are. -/
def resizeInPlace (m : Memory) (current newSize : Nat) : Option Memory :=
  let block := blockHeader m current
  let next := blockHeader m block.next
  if newSize ≤ block.size then some m
  else if block.next ≠ 0 ∧ next.isFree ∧ newSize ≤ (block.size + sizeofHeader + next.size) % 2 ^ 64 then
    some (combineForward m current)
  else none

/-- The end of a resize that has found a new block. -/
def moveBlock (m : Memory) (magic newPointer pointer : Nat) : Memory :=
  freeBlock (memoryCopy m newPointer pointer (blockHeader m (headerOf pointer)).size) magic pointer

/-! ## Section 2: Layout -/

variable {r : Nat → Nat → Prop} {magic start stop listHead : Nat} {m m' : Memory} {bs xs ys : List Block}
  {b c : Block} {live : List (Nat × Nat)} {p n x size newSize : Nat}

/-- The address belongs to the payload of the block. -/
def Block.Holds (b : Block) (x : Nat) : Prop :=
  b.address + sizeofHeader ≤ x ∧ x < b.address + sizeofHeader + b.size

/-- The blocks of a heap, and the payloads that its clients hold. -/
structure HeapLayout (r : Nat → Nat → Prop) (magic start stop listHead : Nat) (m : Memory)
    (bs : List Block) (live : List (Nat × Nat)) : Prop where
  head : listHead = firstAddress 0 bs
  linked : Linked m magic 0 bs 0
  laid : Laid r sizeofHeader start bs stop
  start_ge : 16 ≤ start
  stop_lt : stop < 2 ^ 64
  /-- A payload that is held is that of a block in use, and as large as was asked for. -/
  held : ∀ p n, (p, n) ∈ live →
    ∃ b ∈ bs, b.isFree = false ∧ p = b.address + sizeofHeader ∧ n ≤ b.size
  /-- Nobody holds a payload twice. -/
  nodup : (live.map Prod.fst).Nodup

/-- What is held after a payload has been given back. -/
def withoutPayload (live : List (Nat × Nat)) (p : Nat) : List (Nat × Nat) :=
  live.filter fun holding => holding.1 ≠ p

theorem mem_withoutPayload {q k : Nat} :
    (q, k) ∈ withoutPayload live p ↔ (q, k) ∈ live ∧ q ≠ p := by
  simp [withoutPayload]

theorem nodup_withoutPayload (h : (live.map Prod.fst).Nodup) :
    ((withoutPayload live p).map Prod.fst).Nodup := by
  refine List.Nodup.sublist ?_ h
  exact List.filter_sublist.map _

/-- Every byte of a payload in use is as before. -/
def PayloadsKept (bs : List Block) (m m' : Memory) : Prop :=
  ∀ b ∈ bs, b.isFree = false → ∀ x, Block.Holds b x → m' x = m x

theorem PayloadsKept.trans {m'' : Memory} {cs : List Block} (h : PayloadsKept bs m m')
    (h' : PayloadsKept cs m' m'') (hsub : ∀ b ∈ bs, b.isFree = false → b ∈ cs) :
    PayloadsKept bs m m'' := by
  intro b hb hused x hx
  rw [h' b (hsub b hb hused) hused x hx, h b hb hused x hx]

/-- What an allocation does that finds a place: a new payload is held. -/
structure Allocated (r : Nat → Nat → Prop) (magic start stop listHead : Nat) (m : Memory)
    (bs : List Block) (live : List (Nat × Nat)) (size pointer : Nat) (m' : Memory)
    (bs' : List Block) : Prop where
  layout : HeapLayout r magic start stop listHead m' bs' ((pointer, size) :: live)
  kept : PayloadsKept bs m m'
  used : ∀ b ∈ bs, b.isFree = false → b ∈ bs'
  /-- The payload was not in use before. -/
  fresh : ∀ b ∈ bs, b.isFree = false → pointer ≠ b.address + sizeofHeader
  pointer_ne : pointer ≠ 0

/-- Blocks were added, and nothing else has changed, before the allocation. -/
theorem Allocated.of_grown {stop' listHead' pointer : Nat} {m₁ : Memory} {bs' cs : List Block}
    (h : Allocated r magic start stop' listHead' m₁ (bs ++ cs) live size pointer m' bs')
    (hkept : PayloadsKept bs m m₁) :
    Allocated r magic start stop' listHead' m bs live size pointer m' bs' where
  layout := h.layout
  kept := hkept.trans h.kept fun _ hb _ => List.mem_append_left _ hb
  used := fun b hb hused => h.used b (List.mem_append_left _ hb) hused
  fresh := fun b hb hused => h.fresh b (List.mem_append_left _ hb) hused
  pointer_ne := h.pointer_ne

/-- What a resize of the payload of `c` to a nonzero size does when it returns a pointer. -/
structure Resized (r : Nat → Nat → Prop) (magic start stop listHead : Nat) (m : Memory)
    (bs : List Block) (live : List (Nat × Nat)) (c : Block) (newSize pointer : Nat) (m' : Memory)
    (bs' : List Block) : Prop where
  layout : HeapLayout r magic start stop listHead m' bs'
    ((pointer, newSize) :: withoutPayload live (c.address + sizeofHeader))
  /-- The other payloads in use are kept. -/
  kept : ∀ d ∈ bs, d ≠ c → d.isFree = false → ∀ x, Block.Holds d x → m' x = m x
  /-- The old payload is kept, or moved as a whole. -/
  moved : ∀ i, i < c.size → m' (pointer + i) = m (c.address + sizeofHeader + i)
  pointer_ne : pointer ≠ 0

namespace HeapLayout

theorem arena (hr : Adjacency r) (h : HeapLayout r magic start stop listHead m bs live) :
    Arena start bs stop :=
  ⟨h.laid.weaken hr.le, h.start_ge, h.stop_lt⟩

/-- A payload is apart from every header. -/
theorem outside_header (hlaid : Laid (· ≤ ·) sizeofHeader start bs stop) (hb : b ∈ bs) (hc : c ∈ bs)
    (hx : Block.Holds b x) : x < c.address ∨ c.address + sizeofHeader ≤ x := by
  unfold Block.Holds at hx
  rcases hlaid.separate adjacency_le hb hc with rfl | hbefore | hafter
  · exact .inr hx.1
  · unfold Block.stop at hbefore
    exact .inl (by omega)
  · unfold Block.stop at hafter
    exact .inr (by omega)

/-- Two payloads do not overlap. -/
theorem outside_payload (hlaid : Laid (· ≤ ·) sizeofHeader start bs stop) (hb : b ∈ bs) (hc : c ∈ bs)
    (hne : b ≠ c) (hx : Block.Holds b x) : ¬ Block.Holds c x := by
  unfold Block.Holds at hx ⊢
  rcases hlaid.separate adjacency_le hb hc with heq | hbefore | hafter
  · exact absurd heq hne
  · unfold Block.stop at hbefore
    omega
  · unfold Block.stop at hafter
    omega

/-- Headers are rewritten, of blocks that are there or were there; the payloads
of the blocks that stay in use are kept. -/
theorem payloadsKept (hlaid : Laid (· ≤ ·) sizeofHeader start bs stop) {cs : List Block}
    (honly : HeadersOnly cs m m') (hsub : ∀ c ∈ cs, ∃ b ∈ bs, b.address = c.address) :
    PayloadsKept bs m m' := by
  intro b hb _ x hx
  apply honly
  intro c hc
  obtain ⟨d, hd, heq⟩ := hsub c hc
  rw [← heq]
  exact outside_header hlaid hb hd hx

/-- What is held is a block in use; there is only one at its address. -/
theorem block_of_live (hr : Adjacency r) (h : HeapLayout r magic start stop listHead m bs live)
    (hb : b ∈ bs) (hp : (b.address + sizeofHeader, n) ∈ live) : b.isFree = false ∧ n ≤ b.size := by
  obtain ⟨c, hc, hused, heq, hn⟩ := h.held _ _ hp
  have hsame : b = c := by
    apply h.laid.eq_of_address hr (by decide) hb hc
    omega
  rw [hsame]
  exact ⟨hused, hn⟩

/-! ## Section 3: The operations -/

/-- Blocks in the middle are exchanged for others that fill the same part. -/
theorem firstAddress_middle {zs : List Block} (hfirst : firstAddress 0 zs = firstAddress 0 ys) :
    firstAddress 0 (xs ++ zs) = firstAddress 0 (xs ++ ys) := by
  rw [firstAddress_append, firstAddress_append, hfirst]

/-- Carving leaves the address of the block, and the part that was asked for in use. -/
theorem carve_eq (size : Nat) (c : Block) (hsize : size ≤ c.size) :
    ∃ taken rest, carve sizeofHeader 16 size c = ⟨c.address, taken, false⟩ :: rest ∧
      size ≤ taken ∧ ∀ d ∈ rest, d.isFree = true := by
  unfold carve
  split
  · refine ⟨size, _, rfl, Nat.le_refl _, ?_⟩
    intro d hd
    rw [List.mem_singleton.mp hd]
  · exact ⟨c.size, [], rfl, hsize, by simp⟩

/-- An allocation that has found a free block. -/
theorem take (hr : Adjacency r) (h : HeapLayout r magic start stop listHead m (xs ++ c :: ys) live)
    (hmagic : magic < 2 ^ 64) (hfree : c.isFree = true) (hsize : size ≤ c.size) (hn : n ≤ size) :
    HeapLayout r magic start stop listHead (takeBlock m magic c.address size)
        (xs ++ (carve sizeofHeader 16 size c ++ ys)) ((c.address + sizeofHeader, n) :: live) ∧
      PayloadsKept (xs ++ c :: ys) m (takeBlock m magic c.address size) ∧
      ∀ b ∈ xs ++ c :: ys, b.isFree = false → b ∈ xs ++ (carve sizeofHeader 16 size c ++ ys) := by
  have harena := h.arena hr
  have hmem : c ∈ xs ++ c :: ys := List.mem_append_right _ List.mem_cons_self
  obtain ⟨middle, hxs, hlaid⟩ := (Laid.append_iff adjacency_le).mp harena.laid
  have hmiddle : Arena middle (c :: ys) stop :=
    ⟨hlaid, Nat.le_trans harena.start_ge (hxs.le adjacency_le), harena.stop_lt⟩
  obtain ⟨hlinked, honly⟩ := linked_takeBlock (linked_append.mp h.linked).2 hmiddle hmagic hsize
  obtain ⟨taken, rest, hcarve, htaken, hrest⟩ := carve_eq size c hsize
  have hfirst : firstAddress 0 (carve sizeofHeader 16 size c ++ ys) = firstAddress 0 (c :: ys) := by
    rw [hcarve]
    rfl
  have hlaid' : Laid r sizeofHeader start (xs ++ (carve sizeofHeader 16 size c ++ ys)) stop := by
    rw [← List.append_assoc]
    have hblock : Laid r sizeofHeader start (xs ++ [c] ++ ys) stop := by
      rw [List.append_assoc]
      exact h.laid
    exact Laid.replace hr (fun _ _ => laid_carve hr _ _) hblock
  -- only the free block gives way
  have hstay : ∀ b ∈ xs ++ c :: ys, b.isFree = false →
      b ∈ xs ++ (carve sizeofHeader 16 size c ++ ys) := by
    intro b hb hused
    rcases List.mem_append.mp hb with hb | hb
    · exact List.mem_append_left _ hb
    · rcases List.mem_cons.mp hb with rfl | hb
      · rw [hfree] at hused
        cases hused
      · exact List.mem_append_right _ (List.mem_append_right _ hb)
  have hnew : (⟨c.address, taken, false⟩ : Block) ∈ xs ++ (carve sizeofHeader 16 size c ++ ys) := by
    rw [hcarve]
    exact List.mem_append_right _ (List.mem_append_left _ List.mem_cons_self)
  refine ⟨⟨?_, ?_, hlaid', h.start_ge, h.stop_lt, ?_, ?_⟩, ?_, hstay⟩
  · rw [firstAddress_middle hfirst]
    exact h.head
  · refine linked_behind h.linked hlinked hfirst honly ?_
    intro e he b hb
    rcases List.mem_cons.mp hb with rfl | hb
    · exact (harena.apart he List.mem_cons_self).symm
    · have hbefore := hlaid'.before hr he hb
      unfold Block.stop at hbefore
      exact .inr (by omega)
  · intro p k hp
    rcases List.mem_cons.mp hp with heq | hp
    · cases heq
      exact ⟨_, hnew, rfl, rfl, Nat.le_trans hn htaken⟩
    · obtain ⟨b, hb, hused, heq, hk⟩ := h.held p k hp
      exact ⟨b, hstay b hb hused, hused, heq, hk⟩
  · -- the payload of a free block was not held
    rw [List.map_cons, List.nodup_cons]
    refine ⟨?_, h.nodup⟩
    intro hheld
    obtain ⟨⟨p, k⟩, hp, heq⟩ := List.mem_map.mp hheld
    have hpair : (c.address + sizeofHeader, k) ∈ live := by
      rw [← show p = c.address + sizeofHeader from heq]
      exact hp
    have hused := (h.block_of_live hr hmem hpair).1
    rw [hfree] at hused
    cases hused
  · intro b hb hused x hx
    apply honly
    intro d hd
    rcases List.mem_cons.mp hd with rfl | hd
    · exact outside_header harena.laid hb hmem hx
    · exact outside_header (hlaid'.weaken hr.le) (hstay b hb hused)
        (List.mem_append_right xs hd) hx

/-- Nothing below the heap is written. -/
theorem takeBlock_below (hr : Adjacency r)
    (h : HeapLayout r magic start stop listHead m (xs ++ c :: ys) live) (hmagic : magic < 2 ^ 64)
    (hsize : size ≤ c.size) (hx : x < start) : takeBlock m magic c.address size x = m x := by
  have harena := h.arena hr
  obtain ⟨middle, hxs, hlaid⟩ := (Laid.append_iff adjacency_le).mp harena.laid
  have hle := hxs.le adjacency_le
  have hmiddle : Arena middle (c :: ys) stop :=
    ⟨hlaid, Nat.le_trans harena.start_ge hle, harena.stop_lt⟩
  obtain ⟨-, honly⟩ := linked_takeBlock (linked_append.mp h.linked).2 hmiddle hmagic hsize
  have hcarved : Laid (· ≤ ·) sizeofHeader middle (carve sizeofHeader 16 size c ++ ys) stop := by
    have hblock : Laid (· ≤ ·) sizeofHeader middle ([] ++ [c] ++ ys) stop := hlaid
    exact Laid.replace adjacency_le (fun _ _ => laid_carve adjacency_le _ _) hblock
  -- only headers in the heap are written
  apply honly
  intro d hd
  left
  rcases List.mem_cons.mp hd with rfl | hd
  · have hbounds := (hlaid.bounds adjacency_le List.mem_cons_self).1
    omega
  · have hbounds := (hcarved.bounds adjacency_le hd).1
    omega

theorem firstAddress_absorbNext : firstAddress 0 (absorbNext sizeofHeader c ys) = c.address := by
  obtain ⟨size, rest, heq⟩ := exists_cons_absorbNext sizeofHeader c ys
  rw [heq]
  rfl

theorem firstAddress_giveBack :
    firstAddress 0 (giveBack sizeofHeader xs c ys) = firstAddress 0 (xs ++ c :: ys) := by
  unfold giveBack
  split
  · rename_i a hlast
    have hxs : xs = xs.dropLast ++ [a] := (List.dropLast_append_getLast? a hlast).symm
    split
    · rw [firstAddress_append, firstAddress_absorbNext]
      conv_rhs => rw [hxs]
      rw [List.append_assoc, firstAddress_append]
      rfl
    · exact firstAddress_middle firstAddress_absorbNext
  · exact firstAddress_middle firstAddress_absorbNext

/-- A free of a payload that is held. -/
theorem free (hr : Adjacency r) (h : HeapLayout r magic start stop listHead m (xs ++ c :: ys) live) :
    HeapLayout r magic start stop listHead (freeBlock m magic (c.address + sizeofHeader))
        (giveBack sizeofHeader xs c ys) (withoutPayload live (c.address + sizeofHeader)) ∧
      PayloadsKept (xs ++ c :: ys) m (freeBlock m magic (c.address + sizeofHeader)) := by
  have harena := h.arena hr
  obtain ⟨hlinked, honly⟩ := linked_freeBlock h.linked harena
  refine ⟨⟨?_, hlinked, laid_giveBack hr h.laid, h.start_ge, h.stop_lt, ?_,
    nodup_withoutPayload h.nodup⟩, ?_⟩
  · rw [firstAddress_giveBack]
    exact h.head
  · intro p k hp
    obtain ⟨hp, hne⟩ := mem_withoutPayload.mp hp
    obtain ⟨b, hb, hused, heq, hk⟩ := h.held p k hp
    refine ⟨b, mem_giveBack ?_ hused, hused, heq, hk⟩
    rcases List.mem_append.mp hb with hb | hb
    · exact .inl hb
    · rcases List.mem_cons.mp hb with rfl | hb
      · exact absurd heq hne
      · exact .inr hb
  · exact payloadsKept harena.laid honly fun b hb => ⟨b, hb, rfl⟩

/-- A resize in place, into the free block behind. -/
theorem absorb (hr : Adjacency r) (h : HeapLayout r magic start stop listHead m (xs ++ c :: ys) live)
    (hused : c.isFree = false) (hn : ∀ b ∈ (absorbNext sizeofHeader c ys).head?, newSize ≤ b.size) :
    HeapLayout r magic start stop listHead (combineForward m c.address)
        (xs ++ absorbNext sizeofHeader c ys)
        ((c.address + sizeofHeader, newSize) :: withoutPayload live (c.address + sizeofHeader)) ∧
      PayloadsKept (xs ++ c :: ys) m (combineForward m c.address) := by
  have harena := h.arena hr
  obtain ⟨hlinked, honly⟩ := linked_combineForward_middle h.linked harena
  have hlaid : Laid r sizeofHeader start (xs ++ absorbNext sizeofHeader c ys) stop := by
    obtain ⟨middle, hxs, hrest⟩ := (Laid.append_iff hr).mp h.laid
    exact (Laid.append_iff hr).mpr ⟨middle, hxs, laid_absorbNext hr _ _ hrest⟩
  obtain ⟨size, rest, heq⟩ := exists_cons_absorbNext sizeofHeader c ys
  refine ⟨⟨?_, hlinked, hlaid, h.start_ge, h.stop_lt, ?_, ?_⟩, ?_⟩
  · have hfirst : firstAddress 0 (absorbNext sizeofHeader c ys) = firstAddress 0 (c :: ys) :=
      firstAddress_absorbNext
    rw [firstAddress_middle hfirst]
    exact h.head
  -- The resized payload lies in the grown block; every other one in the block it had.
  · intro p k hp
    rcases List.mem_cons.mp hp with hsame | hp
    · cases hsame
      refine ⟨{ c with size := size }, ?_, hused, rfl, ?_⟩
      · rw [heq]
        exact List.mem_append_right _ List.mem_cons_self
      · apply hn
        rw [heq]
        rfl
    · obtain ⟨hp, hne⟩ := mem_withoutPayload.mp hp
      obtain ⟨b, hb, hbused, hpb, hk⟩ := h.held p k hp
      refine ⟨b, ?_, hbused, hpb, hk⟩
      rcases List.mem_append.mp hb with hb | hb
      · exact List.mem_append_left _ hb
      -- Only `c` starts where the old payload did, and that payload is gone.
      · rcases List.mem_cons.mp hb with rfl | hb
        · exact absurd hpb hne
        · exact List.mem_append_right _ (mem_absorbNext hb hbused)
  · rw [List.map_cons, List.nodup_cons]
    refine ⟨?_, nodup_withoutPayload h.nodup⟩
    intro hheld
    obtain ⟨⟨p, k⟩, hp, hsame⟩ := List.mem_map.mp hheld
    exact (mem_withoutPayload.mp hp).2 hsame
  · exact payloadsKept harena.laid honly fun b hb => ⟨b, List.mem_append_right _ hb, rfl⟩

/-- A block that is large enough stays as it is. -/
theorem stay (h : HeapLayout r magic start stop listHead m bs live) (hb : b ∈ bs)
    (hused : b.isFree = false) (hn : newSize ≤ b.size) :
    HeapLayout r magic start stop listHead m bs
      ((b.address + sizeofHeader, newSize) :: withoutPayload live (b.address + sizeofHeader)) := by
  refine { h with held := ?_, nodup := ?_ }
  · intro p k hp
    rcases List.mem_cons.mp hp with hsame | hp
    · cases hsame
      exact ⟨b, hb, hused, rfl, hn⟩
    · exact h.held p k (mem_withoutPayload.mp hp).1
  · rw [List.map_cons, List.nodup_cons]
    refine ⟨?_, nodup_withoutPayload h.nodup⟩
    intro hheld
    obtain ⟨⟨p, k⟩, hp, hsame⟩ := List.mem_map.mp hheld
    exact (mem_withoutPayload.mp hp).2 hsame

/-- Writes inside a payload do not disturb the headers. -/
theorem write (h : HeapLayout r magic start stop listHead m bs live) (hr : Adjacency r) (hb : b ∈ bs)
    (hsame : ∀ x, ¬ Block.Holds b x → m' x = m x) :
    HeapLayout r magic start stop listHead m' bs live := by
  refine { h with linked := ?_ }
  apply Linked.congr h.linked
  intro c hc x hx₁ hx₂
  apply hsame
  intro hx
  rcases outside_header (h.arena hr).laid hb hc hx with hbefore | hafter
  · omega
  · omega

end HeapLayout

/-! ## Section 4: The code keeps the layout -/

/-- The search finds the first block that fits. -/
theorem findBlock_some {turns previous : Nat} (h : Linked m magic previous bs 0)
    (harena : Arena start bs stop) (hturns : bs.length < turns)
    (hfit : firstFit size bs = some (xs, b, ys)) :
    findBlock m size turns (firstAddress 0 bs) previous =
      some (b.address, lastAddress previous xs) := by
  induction bs generalizing start previous turns xs with
  | nil => cases hfit
  | cons c bs ih =>
    obtain ⟨turns, rfl⟩ : ∃ k, turns = k + 1 := Nat.exists_eq_add_one.mpr (by omega)
    have hpos : c.address ≠ 0 := (harena.address_pos List.mem_cons_self).ne'
    rw [findBlock, firstAddress, if_neg hpos, h.1]
    unfold firstFit at hfit
    split at hfit
    · rename_i hfits
      cases hfit
      rw [if_pos hfits]
      rfl
    · rename_i hfits
      rw [if_neg hfits]
      obtain ⟨⟨xs', c', ys'⟩, hrest, heq⟩ := Option.map_eq_some_iff.mp hfit
      cases heq
      exact ih h.2 harena.tail (by simpa using hturns) hrest

/-- The search comes to the end of the list if no block fits. -/
theorem findBlock_none {turns previous : Nat} (h : Linked m magic previous bs 0)
    (harena : Arena start bs stop) (hturns : bs.length < turns) (hfit : firstFit size bs = none) :
    findBlock m size turns (firstAddress 0 bs) previous = some (0, lastAddress previous bs) := by
  induction bs generalizing start previous turns with
  | nil =>
    obtain ⟨turns, rfl⟩ : ∃ k, turns = k + 1 := Nat.exists_eq_add_one.mpr (by omega)
    rfl
  | cons c bs ih =>
    obtain ⟨turns, rfl⟩ : ∃ k, turns = k + 1 := Nat.exists_eq_add_one.mpr (by omega)
    have hpos : c.address ≠ 0 := (harena.address_pos List.mem_cons_self).ne'
    rw [findBlock, firstAddress, if_neg hpos, h.1]
    unfold firstFit at hfit
    split at hfit
    · cases hfit
    · rename_i hfits
      rw [if_neg hfits]
      exact ih h.2 harena.tail (by simpa using hturns) (Option.map_eq_none_iff.mp hfit)

theorem le_alignSize (hsize : size + 15 < 2 ^ 64) : size ≤ alignSize size := by
  unfold alignSize
  rw [Nat.mod_eq_of_lt hsize]
  omega

/-- The header of a payload in the list. -/
theorem headerOf_payload (harena : Arena start bs stop) (hc : c ∈ bs) :
    headerOf (c.address + sizeofHeader) = c.address := by
  have hlt := harena.address_lt hc
  unfold headerOf
  omega

/-- The header of a block in the list says how large it is. -/
theorem Linked.size_eq {previous : Nat} (h : Linked m magic previous bs 0) (hc : c ∈ bs) :
    (blockHeader m c.address).size = c.size := by
  obtain ⟨xs, ys, rfl⟩ := List.append_of_mem hc
  rw [(linked_append.mp h).2.1]

namespace HeapLayout

/-- An allocation that has found a block carves it up. -/
theorem allocated_carve (hr : Adjacency r) (h : HeapLayout r magic start stop listHead m bs live)
    (hmagic : magic < 2 ^ 64) (hfit : firstFit size bs = some (xs, c, ys)) (hn : n ≤ size) :
    Allocated r magic start stop listHead m bs live n (c.address + sizeofHeader)
      (takeBlock m magic c.address size) (xs ++ (carve sizeofHeader 16 size c ++ ys)) := by
  obtain ⟨rfl, hfree, hfits⟩ := firstFit_eq_some hfit
  obtain ⟨hlayout, hkept, hused⟩ := h.take hr hmagic hfree hfits hn
  refine ⟨hlayout, hkept, hused, ?_, ?_⟩
  · intro b hb hbused heq
    have hmem : c ∈ xs ++ c :: ys := List.mem_append_right _ List.mem_cons_self
    have hsame : c = b :=
      h.laid.eq_of_address hr (by decide) hmem hb (Nat.add_right_cancel heq)
    rw [← hsame, hfree] at hbused
    cases hbused
  · unfold sizeofHeader
    omega

/-- The pointer to a payload does not wrap. -/
theorem pointer_mod (hr : Adjacency r) (h : HeapLayout r magic start stop listHead m bs live)
    (hc : c ∈ bs) : (c.address + sizeofHeader) % 2 ^ 64 = c.address + sizeofHeader := by
  apply Nat.mod_eq_of_lt
  have hstop := (h.arena hr).stop_le hc
  unfold Block.stop at hstop
  omega

/-- A resize that stays where it is leaves the blocks as they are, or absorbs the next one. -/
theorem resizedInPlace_absorb (hr : Adjacency r)
    (h : HeapLayout r magic start stop listHead m (xs ++ c :: ys) live) (hused : c.isFree = false)
    (hresize : resizeInPlace m c.address newSize = some m') :
    ∃ bs', (bs' = xs ++ c :: ys ∨ bs' = xs ++ absorbNext sizeofHeader c ys) ∧
      Resized r magic start stop listHead m (xs ++ c :: ys) live c newSize
        (c.address + sizeofHeader) m' bs' := by
  have hc : c ∈ xs ++ c :: ys := List.mem_append_right _ List.mem_cons_self
  have harena := h.arena hr
  have hheader := (linked_append.mp h.linked).2.1
  have hpointer : c.address + sizeofHeader ≠ 0 := by
    unfold sizeofHeader
    omega
  unfold resizeInPlace at hresize
  rw [hheader] at hresize
  dsimp only at hresize
  split at hresize
  -- The block is large enough as it is.
  · rename_i hlarge
    obtain rfl := Option.some.inj hresize
    exact ⟨_, .inl rfl, h.stay hc hused hlarge, fun _ _ _ _ _ _ => rfl, fun _ _ => rfl, hpointer⟩
  · split at hresize
    · rename_i hnext
      obtain rfl := Option.some.inj hresize
      -- The guard of the source is about the two blocks, so it is about the block they become.
      have hroom : ∀ b ∈ (absorbNext sizeofHeader c ys).head?, newSize ≤ b.size := by
        cases ys with
        | nil => exact absurd rfl hnext.1
        | cons d ys =>
          have hd := (linked_append.mp h.linked).2.2.1
          rw [firstAddress, hd] at hnext
          obtain ⟨-, hfree, hsize⟩ := hnext
          intro b hb
          rw [absorbNext, if_pos hfree] at hb
          obtain rfl : c.absorb sizeofHeader d = b := Option.some.inj hb
          refine Nat.le_trans hsize (Nat.le_trans (Nat.mod_le _ _) ?_)
          show c.size + sizeofHeader + d.size ≤ c.size + (sizeofHeader + d.size)
          omega
      obtain ⟨hlayout, hkept⟩ := h.absorb hr hused hroom
      refine ⟨_, .inr rfl, hlayout, fun d hd _ hdused => hkept d hd hdused, ?_, hpointer⟩
      -- What the payload of `c` holds is kept as far as the old size.
      intro i hi
      apply hkept c hc hused
      unfold Block.Holds
      omega
    · cases hresize

theorem resizedInPlace (hr : Adjacency r) (h : HeapLayout r magic start stop listHead m bs live)
    (hc : c ∈ bs) (hused : c.isFree = false)
    (hresize : resizeInPlace m c.address newSize = some m') :
    ∃ bs', Resized r magic start stop listHead m bs live c newSize (c.address + sizeofHeader) m'
      bs' := by
  obtain ⟨xs, ys, rfl⟩ := List.append_of_mem hc
  obtain ⟨bs', -, hresized⟩ := h.resizedInPlace_absorb hr hused hresize
  exact ⟨bs', hresized⟩

theorem lt_of_resizeInPlace (h : HeapLayout r magic start stop listHead m bs live) (hc : c ∈ bs)
    (hresize : resizeInPlace m c.address newSize = none) : c.size < newSize := by
  unfold resizeInPlace at hresize
  simp only [h.linked.size_eq hc] at hresize
  split at hresize
  · cases hresize
  · rename_i hsmall
    exact Nat.lt_of_not_le hsmall

/-- A resize that moves the payload to a larger one gives the old block back. -/
theorem move (hr : Adjacency r)
    (h : HeapLayout r magic start stop listHead m (xs ++ c :: ys) live)
    (hb : b ∈ xs ++ c :: ys) (hbused : b.isFree = false) (hne : b ≠ c) (hsize : c.size ≤ b.size) :
    HeapLayout r magic start stop listHead
        (moveBlock m magic (b.address + sizeofHeader) (c.address + sizeofHeader))
        (giveBack sizeofHeader xs c ys) (withoutPayload live (c.address + sizeofHeader)) ∧
      (∀ d ∈ xs ++ c :: ys, d ≠ b → d.isFree = false → ∀ x, Block.Holds d x →
        moveBlock m magic (b.address + sizeofHeader) (c.address + sizeofHeader) x = m x) ∧
      ∀ i, i < c.size →
        moveBlock m magic (b.address + sizeofHeader) (c.address + sizeofHeader)
          (b.address + sizeofHeader + i) = m (c.address + sizeofHeader + i) := by
  have harena := h.arena hr
  have hc : c ∈ xs ++ c :: ys := List.mem_append_right _ List.mem_cons_self
  -- the copy is a block write into the new payload
  let m₁ := m.blit (b.address + sizeofHeader) c.size fun i => m (c.address + sizeofHeader + i)
  have hcopy : memoryCopy m (b.address + sizeofHeader) (c.address + sizeofHeader)
      (blockHeader m (headerOf (c.address + sizeofHeader))).size = m₁ := by
    rw [headerOf_payload harena hc, h.linked.size_eq hc]
    apply memoryCopy_eq_blit
    unfold CopySafe
    rcases harena.laid.separate adjacency_le hb hc with heq | hbefore | hafter
    · exact absurd heq hne
    · unfold Block.stop at hbefore
      exact .inl (by omega)
    · unfold Block.stop at hafter
      exact .inr (by omega)
  have hkept₁ : ∀ x, ¬ Block.Holds b x → m₁ x = m x := by
    intro x hx
    unfold Block.Holds at hx
    exact Memory.blit_outside _ _ (by omega)
  have h₁ : HeapLayout r magic start stop listHead m₁ (xs ++ c :: ys) live := h.write hr hb hkept₁
  obtain ⟨h₂, hkept₂⟩ := h₁.free hr
  have hmove : moveBlock m magic (b.address + sizeofHeader) (c.address + sizeofHeader) =
      freeBlock m₁ magic (c.address + sizeofHeader) := by
    unfold moveBlock
    rw [hcopy]
  rw [hmove]
  refine ⟨h₂, ?_, ?_⟩
  · intro d hd hdb hdused x hx
    rw [hkept₂ d hd hdused x hx, hkept₁ x (outside_payload harena.laid hd hb hdb hx)]
  · intro i hi
    have hin : Block.Holds b (b.address + sizeofHeader + i) := by
      unfold Block.Holds
      omega
    rw [hkept₂ b hb hbused _ hin]
    have hbyte : m₁ (b.address + sizeofHeader + i) =
        m (c.address + sizeofHeader + (b.address + sizeofHeader + i - (b.address + sizeofHeader))) :=
      Memory.blit_inside _ _ (by omega) (by omega)
    rw [hbyte, Nat.add_sub_cancel_left]

/-- A resize that has allocated a larger payload moves to it, and gives the old block back. -/
theorem move_giveBack (hr : Adjacency r) {pointer : Nat} {bs₁ : List Block} {m₁ : Memory}
    (hc : c ∈ bs) (hused : c.isFree = false) (hsmall : c.size < newSize)
    (h : Allocated r magic start stop listHead m bs live newSize pointer m₁ bs₁) :
    ∃ xs ys, bs₁ = xs ++ c :: ys ∧
      Resized r magic start stop listHead m bs live c newSize pointer
        (moveBlock m₁ magic pointer (c.address + sizeofHeader)) (giveBack sizeofHeader xs c ys) := by
  -- the block of the new payload
  obtain ⟨b, hb, hbused, rfl, hfits⟩ := h.layout.held _ _ List.mem_cons_self
  have hne : b ≠ c := by
    intro heq
    exact h.fresh c hc hused (by rw [heq])
  obtain ⟨xs, ys, rfl⟩ := List.append_of_mem (h.used c hc hused)
  obtain ⟨hlayout, hkept, hmoved⟩ := h.layout.move hr hb hbused hne
    (Nat.le_of_lt (Nat.lt_of_lt_of_le hsmall hfits))
  refine ⟨xs, ys, rfl, ?_, ?_, ?_, h.pointer_ne⟩
  · have hpayload : b.address + sizeofHeader ≠ c.address + sizeofHeader := h.fresh c hc hused
    have hlive : withoutPayload ((b.address + sizeofHeader, newSize) :: live)
        (c.address + sizeofHeader) =
          (b.address + sizeofHeader, newSize) :: withoutPayload live (c.address + sizeofHeader) := by
      unfold withoutPayload
      exact List.filter_cons_of_pos (decide_eq_true hpayload)
    rw [← hlive]
    exact hlayout
  · intro d hd _ hdused x hx
    have hdb : d ≠ b := by
      intro heq
      exact h.fresh d hd hdused (by rw [heq])
    rw [hkept d (h.used d hd hdused) hdb hdused x hx]
    exact h.kept d hd hdused x hx
  · intro i hi
    rw [hmoved i hi]
    apply h.kept c hc hused
    unfold Block.Holds
    omega

theorem move_allocated (hr : Adjacency r) {pointer : Nat} {bs₁ : List Block} {m₁ : Memory}
    (hc : c ∈ bs) (hused : c.isFree = false) (hsmall : c.size < newSize)
    (h : Allocated r magic start stop listHead m bs live newSize pointer m₁ bs₁) :
    ∃ bs', Resized r magic start stop listHead m bs live c newSize pointer
      (moveBlock m₁ magic pointer (c.address + sizeofHeader)) bs' := by
  obtain ⟨xs, ys, -, hresized⟩ := move_giveBack hr hc hused hsmall h
  exact ⟨_, hresized⟩

/-- The arena grows; nothing below its old end has changed. -/
theorem extend (h : HeapLayout (· ≤ ·) magic start stop listHead m bs live)
    (hsame : ∀ x, x < stop → m' x = m x) {stop' : Nat} (hstop : stop ≤ stop')
    (hlt : stop' < 2 ^ 64) :
    HeapLayout (· ≤ ·) magic start stop' listHead m' bs live ∧ PayloadsKept bs m m' := by
  have hbounds : ∀ b ∈ bs, b.address + sizeofHeader + b.size ≤ stop := fun b hb =>
    (h.laid.bounds adjacency_le hb).2
  refine ⟨{ h with linked := ?_, laid := h.laid.of_stop adjacency_le hstop, stop_lt := hlt }, ?_⟩
  · apply h.linked.congr
    intro c hc x _ hx
    apply hsame
    have hc := hbounds c hc
    omega
  · intro b hb _ x hx
    apply hsame
    have hb := hbounds b hb
    unfold Block.Holds at hx
    omega

end HeapLayout

attribute [irreducible] moveBlock

end TermOS.Kernel
