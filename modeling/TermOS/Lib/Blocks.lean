import Mathlib.Data.List.Basic

/-!
# Blocks of an arena

An arena is cut into blocks, each a header and a payload behind it. Blocks are
laid out one after the other: each begins where the one before it ends, or, in an
arena with gaps, not before. A block can be carved up for a request, can absorb
the block after it, and can be given back.

## Main Theorems

* `Laid.separate` - two blocks of an arena do not overlap
* `laid_carve`, `laid_absorbNext`, `laid_giveBack` - the operations keep the layout
-/

namespace TermOS.Lib

structure Block where
  /-- Where the header begins. -/
  address : Nat
  /-- The length of the payload. -/
  size : Nat
  isFree : Bool
  deriving DecidableEq, Repr

/-! ## Section 1: Layout -/

/-- How the end of a block may be related to the start of the next one. -/
structure Adjacency (r : Nat → Nat → Prop) : Prop where
  refl : ∀ a, r a a
  trans : ∀ {a b c}, r a b → r b c → r a c
  add : ∀ {a b} (n : Nat), r a b → r (a + n) (b + n)
  le : ∀ {a b}, r a b → a ≤ b

/-- No gaps. -/
theorem adjacency_eq : Adjacency (· = ·) where
  refl _ := rfl
  trans := Eq.trans
  add n h := congrArg (· + n) h
  le := Nat.le_of_eq

/-- Gaps are allowed. -/
theorem adjacency_le : Adjacency (· ≤ ·) where
  refl := Nat.le_refl
  trans := Nat.le_trans
  add n h := Nat.add_le_add_right h n
  le h := h

variable {r : Nat → Nat → Prop} {header : Nat}

namespace Block

/-- Where the block ends. -/
def stop (header : Nat) (b : Block) : Nat := b.address + header + b.size

/-- A block grows over the header and the payload of the next one. -/
def absorb (header : Nat) (b c : Block) : Block := { b with size := b.size + (header + c.size) }

end Block

/-- The blocks fill the arena from `start` to `stop` in order. -/
def Laid (r : Nat → Nat → Prop) (header : Nat) : Nat → List Block → Nat → Prop
  | start, [], stop => r start stop
  | start, b :: bs, stop => r start b.address ∧ Laid r header (b.stop header) bs stop

namespace Laid

variable {start stop : Nat} {b c : Block} {bs xs ys zs : List Block}

theorem le (hr : Adjacency r) (h : Laid r header start bs stop) : start ≤ stop := by
  induction bs generalizing start with
  | nil => exact hr.le h
  | cons b bs ih =>
    have hstart := hr.le h.1
    have hrest := ih h.2
    unfold Block.stop at hrest
    omega

/-- An arena that begins earlier. -/
theorem of_start (hr : Adjacency r) {earlier : Nat} (hstart : r earlier start)
    (h : Laid r header start bs stop) : Laid r header earlier bs stop := by
  cases bs with
  | nil => exact hr.trans hstart h
  | cons b bs => exact ⟨hr.trans hstart h.1, h.2⟩

/-- An arena that ends later. -/
theorem of_stop (hr : Adjacency r) {later : Nat} (hstop : r stop later)
    (h : Laid r header start bs stop) : Laid r header start bs later := by
  induction bs generalizing start with
  | nil => exact hr.trans h hstop
  | cons b bs ih => exact ⟨h.1, ih h.2⟩

theorem append_iff (hr : Adjacency r) :
    Laid r header start (xs ++ ys) stop ↔
      ∃ middle, Laid r header start xs middle ∧ Laid r header middle ys stop := by
  induction xs generalizing start with
  | nil =>
    constructor
    · intro h
      exact ⟨start, hr.refl start, h⟩
    · rintro ⟨middle, hstart, h⟩
      exact h.of_start hr hstart
  | cons b xs ih =>
    constructor
    · rintro ⟨hb, h⟩
      obtain ⟨middle, hxs, hys⟩ := ih.mp h
      exact ⟨middle, ⟨hb, hxs⟩, hys⟩
    · rintro ⟨middle, ⟨hb, hxs⟩, hys⟩
      exact ⟨hb, ih.mpr ⟨middle, hxs, hys⟩⟩

/-- Some blocks in the middle are exchanged for others that fill the same part. -/
theorem replace (hr : Adjacency r) {ys' : List Block}
    (hys : ∀ start stop, Laid r header start ys stop → Laid r header start ys' stop)
    (h : Laid r header start (xs ++ ys ++ zs) stop) :
    Laid r header start (xs ++ ys' ++ zs) stop := by
  rw [List.append_assoc, append_iff hr] at h ⊢
  obtain ⟨first, hxs, h⟩ := h
  obtain ⟨second, hmiddle, hzs⟩ := (append_iff hr).mp h
  exact ⟨first, hxs, (append_iff hr).mpr ⟨second, hys _ _ hmiddle, hzs⟩⟩

/-- Every block lies in the arena. -/
theorem bounds (hr : Adjacency r) (h : Laid r header start bs stop) (hb : b ∈ bs) :
    start ≤ b.address ∧ b.stop header ≤ stop := by
  induction bs generalizing start with
  | nil => cases hb
  | cons c bs ih =>
    have hstart := hr.le h.1
    rcases List.mem_cons.mp hb with rfl | hb
    · exact ⟨hstart, h.2.le hr⟩
    · have hrest := ih h.2 hb
      unfold Block.stop at hrest ⊢
      exact ⟨by omega, hrest.2⟩

/-- A block ends before every block after it. -/
theorem before (hr : Adjacency r) (h : Laid r header start (xs ++ ys) stop) (hb : b ∈ xs)
    (hc : c ∈ ys) : b.stop header ≤ c.address := by
  obtain ⟨middle, hxs, hys⟩ := (append_iff hr).mp h
  exact Nat.le_trans (hxs.bounds hr hb).2 (hys.bounds hr hc).1

/-- There is room for so many headers only. -/
theorem length_le (hr : Adjacency r) (h : Laid r header start bs stop) :
    start + header * bs.length ≤ stop := by
  induction bs generalizing start with
  | nil => exact hr.le h
  | cons b bs ih =>
    have hstart := hr.le h.1
    have hrest := ih h.2
    unfold Block.stop at hrest
    rw [List.length_cons, Nat.mul_succ]
    omega

/-- A layout without gaps is one with gaps allowed. -/
theorem weaken {r' : Nat → Nat → Prop} (hr : ∀ {a b}, r a b → r' a b)
    (h : Laid r header start bs stop) : Laid r' header start bs stop := by
  induction bs generalizing start with
  | nil => exact hr h
  | cons b bs ih => exact ⟨hr h.1, ih h.2⟩

/-- Two blocks do not overlap. -/
theorem separate (hr : Adjacency r) (h : Laid r header start bs stop) (hb : b ∈ bs) (hc : c ∈ bs) :
    b = c ∨ b.stop header ≤ c.address ∨ c.stop header ≤ b.address := by
  induction bs generalizing start with
  | nil => cases hb
  | cons d bs ih =>
    have hd : ∀ e ∈ bs, d.stop header ≤ e.address := fun e he => (h.2.bounds hr he).1
    rcases List.mem_cons.mp hb with rfl | hbs
    · rcases List.mem_cons.mp hc with rfl | hcs
      · exact .inl rfl
      · exact .inr (.inl (hd c hcs))
    · rcases List.mem_cons.mp hc with rfl | hcs
      · exact .inr (.inr (hd b hbs))
      · exact ih h.2 hbs hcs

/-- The address tells which block it is. -/
theorem eq_of_address (hr : Adjacency r) (hheader : 0 < header)
    (h : Laid r header start bs stop) (hb : b ∈ bs) (hc : c ∈ bs)
    (haddress : b.address = c.address) : b = c := by
  rcases h.separate hr hb hc with heq | hbefore | hafter
  · exact heq
  · unfold Block.stop at hbefore
    omega
  · unfold Block.stop at hafter
    omega

end Laid

/-! ## Section 2: Operations -/

/-- The first free block that is large enough, with the blocks before and after it. -/
def firstFit (size : Nat) : List Block → Option (List Block × Block × List Block)
  | [] => none
  | b :: bs =>
    if b.isFree ∧ size ≤ b.size then some ([], b, bs)
    else (firstFit size bs).map fun (xs, c, ys) => (b :: xs, c, ys)

/-- A block is taken for a request; what is not needed becomes a free block, if
it is larger than `minimum`. -/
def carve (header minimum size : Nat) (b : Block) : List Block :=
  if size + header + minimum < b.size then
    [⟨b.address, size, false⟩, ⟨b.address + header + size, b.size - size - header, true⟩]
  else [⟨b.address, b.size, false⟩]

/-- A block absorbs the next one, if that is free. -/
def absorbNext (header : Nat) (b : Block) : List Block → List Block
  | [] => [b]
  | c :: bs => if c.isFree then b.absorb header c :: bs else b :: c :: bs

/-- A block is given back: it absorbs the block after it, and is absorbed by the
one before it, where these are free. -/
def giveBack (header : Nat) (xs : List Block) (b : Block) (ys : List Block) : List Block :=
  match xs.getLast? with
  | some a =>
    if a.isFree then
      xs.dropLast ++ absorbNext header a (absorbNext header { b with isFree := true } ys)
    else xs ++ absorbNext header { b with isFree := true } ys
  | none => xs ++ absorbNext header { b with isFree := true } ys

variable {b c : Block} {bs xs ys : List Block} {size minimum start stop : Nat}

theorem firstFit_eq_some (h : firstFit size bs = some (xs, b, ys)) :
    bs = xs ++ b :: ys ∧ b.isFree = true ∧ size ≤ b.size := by
  induction bs generalizing xs with
  | nil => cases h
  | cons c bs ih =>
    unfold firstFit at h
    split at h
    · rename_i hfits
      cases h
      exact ⟨rfl, hfits⟩
    · obtain ⟨⟨xs', c', ys'⟩, hrest, heq⟩ := Option.map_eq_some_iff.mp h
      cases heq
      obtain ⟨hbs, hfits⟩ := ih hrest
      exact ⟨congrArg (c :: ·) hbs, hfits⟩

/-- If the search finds nothing, every free block is too small. -/
theorem firstFit_eq_none (h : firstFit size bs = none) (hb : b ∈ bs) (hfree : b.isFree = true) :
    b.size < size := by
  induction bs with
  | nil => cases hb
  | cons c bs ih =>
    unfold firstFit at h
    split at h
    · cases h
    · next hfits =>
      rcases List.mem_cons.mp hb with rfl | hb
      · exact Nat.lt_of_not_le fun hle => hfits ⟨hfree, hle⟩
      · exact ih (Option.map_eq_none_iff.mp h) hb

/-- Every free block is large enough for nothing. -/
theorem firstFit_zero_eq_none : firstFit 0 bs = none ↔ ∀ b ∈ bs, b.isFree = false := by
  constructor
  · intro h b hb
    by_contra hfree
    exact absurd (firstFit_eq_none h hb ((Bool.not_eq_false _).mp hfree)) (Nat.not_lt_zero _)
  · intro h
    cases hfit : firstFit 0 bs with
    | none => rfl
    | some found =>
      obtain ⟨xs, c, ys⟩ := found
      obtain ⟨rfl, hfree, -⟩ := firstFit_eq_some hfit
      rw [h c (by simp)] at hfree
      cases hfree

/-- A block that is carved up is hardly larger than what is asked for. -/
theorem exists_cons_carve (header minimum size : Nat) (c : Block) :
    ∃ taken rest, carve header minimum size c = ⟨c.address, taken, false⟩ :: rest ∧
      taken ≤ size + header + minimum := by
  unfold carve
  split
  · exact ⟨size, _, rfl, by omega⟩
  · next hsmall => exact ⟨c.size, [], rfl, Nat.le_of_not_lt hsmall⟩

/-- A new block at the end is found if no other one fits. -/
theorem firstFit_concat (h : firstFit size bs = none) (hfree : b.isFree = true)
    (hsize : size ≤ b.size) : firstFit size (bs ++ [b]) = some (bs, b, []) := by
  induction bs with
  | nil =>
    show (if b.isFree ∧ size ≤ b.size then _ else _) = _
    rw [if_pos ⟨hfree, hsize⟩]
  | cons c bs ih =>
    unfold firstFit at h
    split at h
    · cases h
    · rename_i hfits
      rw [List.cons_append, firstFit, if_neg hfits, ih (Option.map_eq_none_iff.mp h)]
      rfl

theorem laid_carve (hr : Adjacency r) (start stop : Nat) (h : Laid r header start [b] stop) :
    Laid r header start (carve header minimum size b) stop := by
  obtain ⟨hstart, hstop⟩ := h
  unfold carve
  split
  · refine ⟨hstart, hr.refl _, ?_⟩
    have hend : Block.stop header
        ⟨b.address + header + size, b.size - size - header, true⟩ = b.stop header := by
      unfold Block.stop
      dsimp only
      omega
    unfold Laid
    rw [hend]
    exact hstop
  · exact ⟨hstart, hstop⟩

theorem laid_absorbNext (hr : Adjacency r) (start stop : Nat)
    (h : Laid r header start (b :: bs) stop) :
    Laid r header start (absorbNext header b bs) stop := by
  cases bs with
  | nil => exact h
  | cons c bs =>
    rw [absorbNext]
    split
    · obtain ⟨hstart, hnext, hrest⟩ := h
      refine ⟨hstart, hrest.of_start hr ?_⟩
      -- the gap between the two, if any, is left behind
      have hshift := hr.add (header + c.size) hnext
      unfold Block.stop at hshift ⊢
      unfold Block.absorb
      dsimp only
      rw [show b.address + header + (b.size + (header + c.size)) =
        b.address + header + b.size + (header + c.size) by omega,
        show c.address + header + c.size = c.address + (header + c.size) by omega]
      exact hshift
    · exact h

/-- Whether a block is free does not matter for the layout. -/
theorem laid_setFree (isFree : Bool) (h : Laid r header start (xs ++ b :: ys) stop) :
    Laid r header start (xs ++ { b with isFree := isFree } :: ys) stop := by
  induction xs generalizing start with
  | nil => exact h
  | cons a xs ih => exact ⟨h.1, ih h.2⟩

theorem exists_cons_absorbNext (header : Nat) (b : Block) (bs : List Block) :
    ∃ size rest, absorbNext header b bs = { b with size := size } :: rest := by
  cases bs with
  | nil => exact ⟨b.size, [], rfl⟩
  | cons c bs =>
    rw [absorbNext]
    split
    · exact ⟨_, bs, rfl⟩
    · exact ⟨b.size, c :: bs, rfl⟩

theorem laid_giveBack (hr : Adjacency r) (h : Laid r header start (xs ++ b :: ys) stop) :
    Laid r header start (giveBack header xs b ys) stop := by
  have hfree := laid_setFree true h
  have hjoined : Laid r header start (xs ++ absorbNext header { b with isFree := true } ys) stop := by
    obtain ⟨middle, hxs, hrest⟩ := (Laid.append_iff hr).mp hfree
    exact (Laid.append_iff hr).mpr ⟨middle, hxs, laid_absorbNext hr _ _ hrest⟩
  unfold giveBack
  split
  · rename_i a hlast
    split
    · -- the block before is free as well
      have hxs : xs = xs.dropLast ++ [a] := (List.dropLast_append_getLast? a hlast).symm
      rw [hxs, List.append_assoc] at hjoined
      obtain ⟨middle, hfront, hrest⟩ := (Laid.append_iff hr).mp hjoined
      exact (Laid.append_iff hr).mpr ⟨middle, hfront, laid_absorbNext hr _ _ hrest⟩
    · exact hjoined
  · exact hjoined

/-! ## Section 3: The other blocks -/

/-- No block begins anywhere else than before. -/
theorem address_of_mem_absorbNext (hc : c ∈ absorbNext header b bs) :
    c.address = b.address ∨ c ∈ bs := by
  cases bs with
  | nil =>
    rw [List.mem_singleton.mp hc]
    exact .inl rfl
  | cons d bs =>
    rw [absorbNext] at hc
    split at hc
    · rcases List.mem_cons.mp hc with rfl | hc
      · exact .inl rfl
      · exact .inr (List.mem_cons_of_mem _ hc)
    · rcases List.mem_cons.mp hc with rfl | hc
      · exact .inl rfl
      · exact .inr hc

/-- A block in use is not absorbed. -/
theorem mem_absorbNext (hc : c ∈ bs) (hused : c.isFree = false) : c ∈ absorbNext header b bs := by
  cases bs with
  | nil => cases hc
  | cons d bs =>
    rw [absorbNext]
    split
    · rename_i hfree
      rcases List.mem_cons.mp hc with rfl | hc
      · rw [hused] at hfree
        cases hfree
      · exact List.mem_cons_of_mem _ hc
    · exact List.mem_cons_of_mem _ hc

theorem mem_giveBack (hc : c ∈ xs ∨ c ∈ ys) (hused : c.isFree = false) :
    c ∈ giveBack header xs b ys := by
  have hjoined : c ∈ ys → c ∈ absorbNext header { b with isFree := true } ys :=
    fun hys => mem_absorbNext hys hused
  unfold giveBack
  split
  · rename_i a hlast
    split
    · rename_i hfree
      have hxs : xs = xs.dropLast ++ [a] := (List.dropLast_append_getLast? a hlast).symm
      rcases hc with hc | hc
      · rw [hxs] at hc
        rcases List.mem_append.mp hc with hfront | hlast
        · exact List.mem_append_left _ hfront
        · -- the block that absorbs is free
          rw [List.mem_singleton.mp hlast, hfree] at hused
          cases hused
      · exact List.mem_append_right _ (mem_absorbNext (hjoined hc) hused)
    · exact List.mem_append.mpr (hc.imp_right hjoined)
  · exact List.mem_append.mpr (hc.imp_right hjoined)

/-! ## Section 4: Room -/

/-- Some free block has `room` bytes. -/
def Roomy (room : Nat) (bs : List Block) : Prop := ∃ b ∈ bs, b.isFree = true ∧ room ≤ b.size

namespace Roomy

variable {room : Nat}

theorem append_left (h : Roomy room xs) (ys : List Block) : Roomy room (xs ++ ys) := by
  obtain ⟨b, hb, hfits⟩ := h
  exact ⟨b, List.mem_append_left _ hb, hfits⟩

theorem append_right (xs : List Block) (h : Roomy room ys) : Roomy room (xs ++ ys) := by
  obtain ⟨b, hb, hfits⟩ := h
  exact ⟨b, List.mem_append_right _ hb, hfits⟩

theorem mono {room' : Nat} (h : Roomy room bs) (hle : room' ≤ room) : Roomy room' bs := by
  obtain ⟨b, hb, hfree, hfits⟩ := h
  exact ⟨b, hb, hfree, Nat.le_trans hle hfits⟩

/-- A search finds a block. -/
theorem firstFit (h : Roomy room bs) : ∃ xs c ys, Lib.firstFit room bs = some (xs, c, ys) := by
  obtain ⟨b, hb, hfree, hfits⟩ := h
  cases hfit : Lib.firstFit room bs with
  | none => exact absurd (firstFit_eq_none hfit hb hfree) (Nat.not_lt.mpr hfits)
  | some found => exact ⟨found.1, found.2.1, found.2.2, rfl⟩

/-- What is left of the room when a block was carved up for `size` bytes. -/
theorem carve (h : Roomy (room + size + header + minimum + 1) (xs ++ c :: ys)) :
    Roomy room (xs ++ (carve header minimum size c ++ ys)) := by
  obtain ⟨b, hb, hfree, hfits⟩ := h
  rcases List.mem_append.mp hb with hb | hb
  · exact append_left ⟨b, hb, hfree, by omega⟩ _
  rcases List.mem_cons.mp hb with rfl | hb
  · -- the rest of the block is free
    have hsplit : size + header + minimum < b.size := by omega
    apply append_right
    apply append_left
    unfold Lib.carve
    rw [if_pos hsplit]
    exact ⟨⟨b.address + header + size, b.size - size - header, true⟩, by simp, rfl, by
      show room ≤ b.size - size - header
      omega⟩
  · exact append_right _ (append_right _ ⟨b, hb, hfree, by omega⟩)

/-- Absorbing a block loses no room. -/
theorem absorbNext (header : Nat) (hfree : b.isFree = true) (h : Roomy room (b :: bs)) :
    Roomy room (absorbNext header b bs) := by
  cases bs with
  | nil => exact h
  | cons d bs =>
    rw [Lib.absorbNext]
    split
    · obtain ⟨c, hc, hcfree, hfits⟩ := h
      -- the block has grown by the next one
      have hgrown : b.size + d.size ≤ (b.absorb header d).size :=
        Nat.add_le_add_left (Nat.le_add_left _ _) _
      rcases List.mem_cons.mp hc with rfl | hc
      · exact ⟨_, List.mem_cons_self, hfree, by omega⟩
      · rcases List.mem_cons.mp hc with rfl | hc
        · exact ⟨_, List.mem_cons_self, hfree, by omega⟩
        · exact ⟨c, List.mem_cons_of_mem _ hc, hcfree, hfits⟩
    · exact h

/-- Nor does giving a block back. -/
theorem giveBack (header : Nat) (h : Roomy room (xs ++ b :: ys)) :
    Roomy room (giveBack header xs b ys) := by
  have hfreed : Roomy room (xs ++ { b with isFree := true } :: ys) := by
    obtain ⟨c, hc, hcfree, hfits⟩ := h
    rcases List.mem_append.mp hc with hc | hc
    · exact append_left ⟨c, hc, hcfree, hfits⟩ _
    · rcases List.mem_cons.mp hc with rfl | hc
      · exact append_right _ ⟨_, List.mem_cons_self, rfl, hfits⟩
      · exact append_right _ ⟨c, List.mem_cons_of_mem _ hc, hcfree, hfits⟩
  have hjoined : Roomy room (xs ++ Lib.absorbNext header { b with isFree := true } ys) := by
    obtain ⟨c, hc, hcfree, hfits⟩ := hfreed
    rcases List.mem_append.mp hc with hc | hc
    · exact append_left ⟨c, hc, hcfree, hfits⟩ _
    · exact append_right _ (absorbNext header rfl ⟨c, hc, hcfree, hfits⟩)
  unfold Lib.giveBack
  split
  · rename_i a hlast
    split
    · rename_i hafree
      have hxs : xs = xs.dropLast ++ [a] := (List.dropLast_append_getLast? a hlast).symm
      rw [hxs, List.append_assoc] at hjoined
      obtain ⟨c, hc, hcfree, hfits⟩ := hjoined
      rcases List.mem_append.mp hc with hc | hc
      · exact append_left ⟨c, hc, hcfree, hfits⟩ _
      · exact append_right _ (absorbNext header hafree ⟨c, hc, hcfree, hfits⟩)
    · exact hjoined
  · exact hjoined

end Roomy

end TermOS.Lib
