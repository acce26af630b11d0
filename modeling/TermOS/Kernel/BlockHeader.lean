import TermOS.Lib.Blocks
import TermOS.Lib.Memory

/-!
# Block headers

The heap of the kernel and the heap of a process keep a doubly linked list of
block headers in the memory they hand out. `VMHeapBlockHeader` and
`MemoryBlockHeader` have the same layout, and the code that carves blocks up and
combines them is the same but for the magic. Each write to a header is matched by
what it does to the list of blocks.
-/

namespace TermOS.Kernel

open TermOS.Lib

/-! ## Section 1: One header -/

/-- The fields of a header. -/
@[ext] structure BlockHeader where
  magic : Nat
  next : Nat
  previous : Nat
  size : Nat
  isFree : Bool
  deriving DecidableEq

/-- `sizeof(VMHeapBlockHeader)` and `sizeof(MemoryBlockHeader)` -/
def sizeofHeader : Nat := 40

/-- The header at an address. -/
def blockHeader (m : Memory) (a : Nat) : BlockHeader where
  magic := m.word a
  next := m.word (a + 8)
  previous := m.word (a + 16)
  size := m.word (a + 24)
  isFree := m (a + 32) ≠ 0

def setMagic (m : Memory) (a value : Nat) : Memory := m.setWord a value

def setNext (m : Memory) (a value : Nat) : Memory := m.setWord (a + 8) value

def setPrevious (m : Memory) (a value : Nat) : Memory := m.setWord (a + 16) value

def setSize (m : Memory) (a value : Nat) : Memory := m.setWord (a + 24) value

def setIsFree (m : Memory) (a : Nat) (value : Bool) : Memory :=
  m.setByte (a + 32) (if value then 1 else 0)

section Fields

variable (m : Memory) (a : Nat)

theorem blockHeader_setMagic {value : Nat} (hvalue : value < 2 ^ 64) :
    blockHeader (setMagic m a value) a = { blockHeader m a with magic := value } := by
  apply BlockHeader.ext
  · exact Memory.word_setWord_same m _ hvalue
  · exact Memory.word_setWord_disjoint m value (by omega)
  · exact Memory.word_setWord_disjoint m value (by omega)
  · exact Memory.word_setWord_disjoint m value (by omega)
  · have hflag : m.setWord a value (a + 32) = m (a + 32) :=
      Memory.writeLE_outside m value (by omega)
    unfold blockHeader setMagic
    dsimp only
    rw [hflag]

theorem blockHeader_setNext {value : Nat} (hvalue : value < 2 ^ 64) :
    blockHeader (setNext m a value) a = { blockHeader m a with next := value } := by
  apply BlockHeader.ext
  · exact Memory.word_setWord_disjoint m value (by omega)
  · exact Memory.word_setWord_same m _ hvalue
  · exact Memory.word_setWord_disjoint m value (by omega)
  · exact Memory.word_setWord_disjoint m value (by omega)
  · have hflag : m.setWord (a + 8) value (a + 32) = m (a + 32) :=
      Memory.writeLE_outside m value (by omega)
    unfold blockHeader setNext
    dsimp only
    rw [hflag]

theorem blockHeader_setPrevious {value : Nat} (hvalue : value < 2 ^ 64) :
    blockHeader (setPrevious m a value) a = { blockHeader m a with previous := value } := by
  apply BlockHeader.ext
  · exact Memory.word_setWord_disjoint m value (by omega)
  · exact Memory.word_setWord_disjoint m value (by omega)
  · exact Memory.word_setWord_same m _ hvalue
  · exact Memory.word_setWord_disjoint m value (by omega)
  · have hflag : m.setWord (a + 16) value (a + 32) = m (a + 32) :=
      Memory.writeLE_outside m value (by omega)
    unfold blockHeader setPrevious
    dsimp only
    rw [hflag]

theorem blockHeader_setSize {value : Nat} (hvalue : value < 2 ^ 64) :
    blockHeader (setSize m a value) a = { blockHeader m a with size := value } := by
  apply BlockHeader.ext
  · exact Memory.word_setWord_disjoint m value (by omega)
  · exact Memory.word_setWord_disjoint m value (by omega)
  · exact Memory.word_setWord_disjoint m value (by omega)
  · exact Memory.word_setWord_same m _ hvalue
  · have hflag : m.setWord (a + 24) value (a + 32) = m (a + 32) :=
      Memory.writeLE_outside m value (by omega)
    unfold blockHeader setSize
    dsimp only
    rw [hflag]

theorem blockHeader_setIsFree (value : Bool) :
    blockHeader (setIsFree m a value) a = { blockHeader m a with isFree := value } := by
  have hword : ∀ b, b + 8 ≤ a + 32 → (setIsFree m a value).word b = m.word b := by
    intro b hb
    exact Memory.readLE_setByte_disjoint m _ (.inl hb)
  apply BlockHeader.ext
  · exact hword a (by omega)
  · exact hword (a + 8) (by omega)
  · exact hword (a + 16) (by omega)
  · exact hword (a + 24) (by omega)
  · unfold blockHeader setIsFree
    dsimp only
    rw [Memory.setByte_same]
    cases value <;> rfl

end Fields

/-- A memory that differs from another one in the header at `a` only. -/
def HeaderOnly (a : Nat) (m m' : Memory) : Prop := ∀ x, x < a ∨ a + sizeofHeader ≤ x → m' x = m x

section Frames

variable (m : Memory) (a value : Nat)

theorem headerOnly_setMagic : HeaderOnly a m (setMagic m a value) := by
  intro x hx
  unfold sizeofHeader at hx
  exact Memory.writeLE_outside m value (by omega)

theorem headerOnly_setNext : HeaderOnly a m (setNext m a value) := by
  intro x hx
  unfold sizeofHeader at hx
  exact Memory.writeLE_outside m value (by omega)

theorem headerOnly_setPrevious : HeaderOnly a m (setPrevious m a value) := by
  intro x hx
  unfold sizeofHeader at hx
  exact Memory.writeLE_outside m value (by omega)

theorem headerOnly_setSize : HeaderOnly a m (setSize m a value) := by
  intro x hx
  unfold sizeofHeader at hx
  exact Memory.writeLE_outside m value (by omega)

theorem headerOnly_setIsFree (isFree : Bool) : HeaderOnly a m (setIsFree m a isFree) := by
  intro x hx
  unfold sizeofHeader at hx
  exact Memory.setByte_ne m _ (by omega)

end Frames

variable {m m' m'' : Memory} {a b value : Nat}

theorem HeaderOnly.trans (h : HeaderOnly a m m') (h' : HeaderOnly a m' m'') :
    HeaderOnly a m m'' := by
  intro x hx
  rw [h' x hx, h x hx]

/-- A header is read from its own bytes. -/
theorem blockHeader_congr (h : ∀ x, a ≤ x → x < a + sizeofHeader → m x = m' x) :
    blockHeader m a = blockHeader m' a := by
  unfold sizeofHeader at h
  apply BlockHeader.ext
  · exact Memory.readLE_congr fun x hx₁ hx₂ => h x (by omega) (by omega)
  · exact Memory.readLE_congr fun x hx₁ hx₂ => h x (by omega) (by omega)
  · exact Memory.readLE_congr fun x hx₁ hx₂ => h x (by omega) (by omega)
  · exact Memory.readLE_congr fun x hx₁ hx₂ => h x (by omega) (by omega)
  · unfold blockHeader
    dsimp only
    rw [h (a + 32) (by omega) (by omega)]

/-- Headers that do not overlap. -/
def HeadersApart (a b : Nat) : Prop := a + sizeofHeader ≤ b ∨ b + sizeofHeader ≤ a

theorem HeadersApart.symm (h : HeadersApart a b) : HeadersApart b a := Or.symm h

theorem HeaderOnly.blockHeader (h : HeaderOnly a m m') (hapart : HeadersApart a b) :
    blockHeader m' b = blockHeader m b := by
  apply blockHeader_congr
  intro x hx₁ hx₂
  apply h
  rcases hapart with hbefore | hafter
  · exact .inr (by omega)
  · exact .inl (by omega)

/-! ## Section 2: The list -/

/-- The address of the first block, or what comes after the list. -/
def firstAddress (next : Nat) : List Block → Nat
  | [] => next
  | b :: _ => b.address

/-- The address of the last block, or what comes before the list. -/
def lastAddress (previous : Nat) : List Block → Nat
  | [] => previous
  | b :: bs => lastAddress b.address bs

/-- The blocks are linked in memory: each header has the magic, the size of its
block, and points to the headers of its neighbours. -/
def Linked (m : Memory) (magic : Nat) : Nat → List Block → Nat → Prop
  | _, [], _ => True
  | previous, b :: bs, next =>
    blockHeader m b.address = ⟨magic, firstAddress next bs, previous, b.size, b.isFree⟩ ∧
      Linked m magic b.address bs next

/-- A memory that differs from another one in the headers of some blocks only. -/
def HeadersOnly (bs : List Block) (m m' : Memory) : Prop :=
  ∀ x, (∀ b ∈ bs, x < b.address ∨ b.address + sizeofHeader ≤ x) → m' x = m x

section Lists

variable {magic previous next : Nat} {bs cs xs ys : List Block} {c d : Block}

theorem firstAddress_append (next : Nat) (xs ys : List Block) :
    firstAddress next (xs ++ ys) = firstAddress (firstAddress next ys) xs := by
  cases xs <;> rfl

theorem lastAddress_append (previous : Nat) (xs ys : List Block) :
    lastAddress previous (xs ++ ys) = lastAddress (lastAddress previous xs) ys := by
  induction xs generalizing previous with
  | nil => rfl
  | cons b xs ih => exact ih b.address

theorem linked_append :
    Linked m magic previous (xs ++ ys) next ↔
      Linked m magic previous xs (firstAddress next ys) ∧
        Linked m magic (lastAddress previous xs) ys next := by
  induction xs generalizing previous with
  | nil => simp [Linked, lastAddress]
  | cons b xs ih =>
    simp only [List.cons_append, Linked, lastAddress, firstAddress_append, ih]
    exact and_assoc.symm

theorem HeadersOnly.rfl : HeadersOnly bs m m := fun _ _ => Eq.refl _

theorem HeadersOnly.trans (h : HeadersOnly bs m m') (h' : HeadersOnly bs m' m'') :
    HeadersOnly bs m m'' := by
  intro x hx
  rw [h' x hx, h x hx]

/-- More headers may differ. -/
theorem HeadersOnly.mono (h : HeadersOnly bs m m') (hsub : ∀ b ∈ bs, b ∈ cs) :
    HeadersOnly cs m m' := by
  intro x hx
  apply h
  intro b hb
  exact hx b (hsub b hb)

/-- Only the addresses of the blocks matter. -/
theorem HeadersOnly.of_addresses (h : HeadersOnly bs m m')
    (hsub : ∀ b ∈ bs, ∃ c ∈ cs, c.address = b.address) : HeadersOnly cs m m' := by
  intro x hx
  apply h
  intro b hb
  obtain ⟨c, hc, heq⟩ := hsub b hb
  rw [← heq]
  exact hx c hc

theorem HeaderOnly.single (h : HeaderOnly c.address m m') : HeadersOnly [c] m m' :=
  fun x hx => h x (hx c List.mem_cons_self)

theorem HeaderOnly.headersOnly (h : HeaderOnly c.address m m') (hc : c ∈ bs) :
    HeadersOnly bs m m' :=
  fun x hx => h x (hx c hc)

/-- Headers that do not overlap those that differ are read as before. -/
theorem HeadersOnly.blockHeader (h : HeadersOnly bs m m')
    (hapart : ∀ b ∈ bs, HeadersApart b.address a) : blockHeader m' a = blockHeader m a := by
  apply blockHeader_congr
  intro x hx₁ hx₂
  apply h
  intro b hb
  rcases hapart b hb with hbefore | hafter
  · exact .inr (by omega)
  · exact .inl (by omega)

/-- The list is read from its headers. -/
theorem Linked.congr (h : Linked m magic previous xs next)
    (hsame : ∀ c ∈ xs, ∀ x, c.address ≤ x → x < c.address + sizeofHeader → m' x = m x) :
    Linked m' magic previous xs next := by
  induction xs generalizing previous with
  | nil => trivial
  | cons c xs ih =>
    obtain ⟨hheader, hrest⟩ := h
    refine ⟨?_, ih hrest fun d hd => hsame d (List.mem_cons_of_mem _ hd)⟩
    rw [blockHeader_congr (hsame c List.mem_cons_self)]
    exact hheader

theorem Linked.keep (h : Linked m magic previous xs next) (hsame : HeadersOnly bs m m')
    (hapart : ∀ c ∈ xs, ∀ b ∈ bs, HeadersApart b.address c.address) :
    Linked m' magic previous xs next := by
  induction xs generalizing previous with
  | nil => trivial
  | cons c xs ih =>
    obtain ⟨hheader, hrest⟩ := h
    refine ⟨?_, ih hrest fun d hd => hapart d (List.mem_cons_of_mem _ hd)⟩
    rw [hsame.blockHeader (hapart c List.mem_cons_self)]
    exact hheader

end Lists

/-! ## Section 3: Writing the list -/

/-- `if (next) next->previous = current` -/
def relink (m : Memory) (next current : Nat) : Memory :=
  if next ≠ 0 then setPrevious m next current else m

/-- `sVMHeapCombineForward` and `sMemoryCombineForward` -/
def combineForward (m : Memory) (current : Nat) : Memory :=
  let next := (blockHeader m current).next
  if next = 0 ∨ (blockHeader m next).isFree = false then m
  else
    -- headers of the two blocks and all between them become payload
    let size := (blockHeader m current).size + (sizeofHeader + (blockHeader m next).size)
    let m := setSize m current (size % 2 ^ 64)
    let m := setNext m current (blockHeader m (blockHeader m current).next).next
    relink m (blockHeader m current).next current

/-- The branch of an allocation that leaves the rest of a block to a new one. -/
def splitBlock (m : Memory) (magic current alignedSize : Nat) : Memory :=
  let newBlock := (current + sizeofHeader + alignedSize) % 2 ^ 64
  let size := (blockHeader m current).size + 2 ^ 64 - alignedSize + 2 ^ 64 - sizeofHeader
  let m := setSize m newBlock (size % 2 ^ 64)
  let m := setIsFree m newBlock true
  let m := setNext m newBlock (blockHeader m current).next
  let m := setPrevious m newBlock current
  let m := setMagic m newBlock magic
  -- the block behind must point back to the new one
  let m := relink m (blockHeader m current).next newBlock
  let m := setNext m current newBlock
  setSize m current alignedSize

/-- What an allocation does to the block it has found. -/
def takeBlock (m : Memory) (magic current alignedSize : Nat) : Memory :=
  let m :=
    if (alignedSize + sizeofHeader + 16) % 2 ^ 64 < (blockHeader m current).size then
      splitBlock m magic current alignedSize
    else m
  setIsFree m current false

section Writing

variable {magic previous start stop size : Nat} {xs ys : List Block} {c d : Block}

/-- Blocks as they lie in an arena of 64-bit addresses that does not begin at null. -/
structure Arena (start : Nat) (bs : List Block) (stop : Nat) : Prop where
  laid : Laid (· ≤ ·) sizeofHeader start bs stop
  start_ge : 16 ≤ start
  stop_lt : stop < 2 ^ 64

namespace Arena

theorem tail (h : Arena start (c :: ys) stop) :
    Arena (c.stop sizeofHeader) ys stop where
  laid := h.laid.2
  start_ge := by
    have hpos := h.start_ge
    have hstart : start ≤ c.address := h.laid.1
    unfold Block.stop
    omega
  stop_lt := h.stop_lt

theorem address_pos (h : Arena start xs stop) (hc : c ∈ xs) : 0 < c.address :=
  Nat.lt_of_lt_of_le (Nat.lt_of_lt_of_le (by decide) h.start_ge) (h.laid.bounds adjacency_le hc).1

theorem address_lt (h : Arena start xs stop) (hc : c ∈ xs) : c.address < 2 ^ 64 := by
  have hstop := (h.laid.bounds adjacency_le hc).2
  have hlt := h.stop_lt
  unfold Block.stop at hstop
  omega

theorem firstAddress_lt (h : Arena start xs stop) : firstAddress 0 xs < 2 ^ 64 := by
  cases xs with
  | nil => exact Nat.two_pow_pos 64
  | cons c xs => exact h.address_lt List.mem_cons_self

theorem stop_le (h : Arena start xs stop) (hc : c ∈ xs) : c.stop sizeofHeader < 2 ^ 64 :=
  Nat.lt_of_le_of_lt (h.laid.bounds adjacency_le hc).2 h.stop_lt

/-- The header of a block is apart from those of the blocks after it. -/
theorem apart (h : Arena start (xs ++ ys) stop) (hc : c ∈ xs) (hd : d ∈ ys) :
    HeadersApart c.address d.address := by
  have hbefore := h.laid.before adjacency_le hc hd
  unfold Block.stop at hbefore
  exact .inl (by omega)

theorem apart_head (h : Arena start (c :: ys) stop) (hd : d ∈ ys) :
    HeadersApart c.address d.address := by
  have happend : Arena start ([c] ++ ys) stop := h
  exact happend.apart List.mem_cons_self hd

/-- The rest of a block is a block. -/
theorem split (h : Arena start (c :: ys) stop) (isFree : Bool)
    (hsize : size + sizeofHeader ≤ c.size) :
    Arena start (⟨c.address, size, isFree⟩ ::
      ⟨c.address + sizeofHeader + size, c.size - size - sizeofHeader, true⟩ :: ys) stop := by
  refine ⟨⟨h.laid.1, Nat.le_refl _, ?_⟩, h.start_ge, h.stop_lt⟩
  have hend : Block.stop sizeofHeader
      ⟨c.address + sizeofHeader + size, c.size - size - sizeofHeader, true⟩ =
        c.stop sizeofHeader := by
    unfold Block.stop
    dsimp only
    omega
  rw [hend]
  exact h.laid.2

end Arena

/-- `relink` changes the first header of the list only. -/
theorem linked_relink (h : Linked m magic previous ys 0) (harena : Arena start ys stop)
    {current : Nat} (hcurrent : current < 2 ^ 64) :
    Linked (relink m (firstAddress 0 ys) current) magic current ys 0 ∧
      HeadersOnly ys m (relink m (firstAddress 0 ys) current) := by
  cases ys with
  | nil => exact ⟨trivial, HeadersOnly.rfl⟩
  | cons d zs =>
    have hd : d.address ≠ 0 := (harena.address_pos List.mem_cons_self).ne'
    have honly := headerOnly_setPrevious m d.address current
    unfold relink firstAddress
    rw [if_pos hd]
    refine ⟨⟨?_, ?_⟩, honly.headersOnly List.mem_cons_self⟩
    · rw [blockHeader_setPrevious m _ hcurrent, h.1]
    · refine h.2.keep (HeaderOnly.single (c := d) honly) ?_
      intro c hc b hb
      rw [List.mem_singleton.mp hb]
      exact harena.apart_head hc

/-- Combining forward is absorbing the next block of the list. -/
theorem linked_combineForward (h : Linked m magic previous (c :: ys) 0)
    (harena : Arena start (c :: ys) stop) :
    Linked (combineForward m c.address) magic previous (absorbNext sizeofHeader c ys) 0 ∧
      HeadersOnly (c :: ys) m (combineForward m c.address) := by
  obtain ⟨hheader, hrest⟩ := h
  cases ys with
  | nil =>
    have hlast : combineForward m c.address = m := by
      unfold combineForward
      simp [hheader, firstAddress]
    rw [hlast]
    exact ⟨⟨hheader, trivial⟩, HeadersOnly.rfl⟩
  | cons d zs =>
    obtain ⟨hnext, hzs⟩ := hrest
    have hdpos : d.address ≠ 0 := (harena.tail.address_pos List.mem_cons_self).ne'
    cases hfree : d.isFree with
    | false =>
      have hstay : combineForward m c.address = m := by
        unfold combineForward
        simp [hheader, firstAddress, hnext, hfree]
      rw [hstay, absorbNext, if_neg (by simp [hfree])]
      exact ⟨⟨hheader, hnext, hzs⟩, HeadersOnly.rfl⟩
    | true =>
      -- the size fits: both blocks lie below the end of the arena
      have hsize : c.size + (sizeofHeader + d.size) < 2 ^ 64 := by
        have hstop := harena.stop_le (List.mem_cons_of_mem _ List.mem_cons_self)
        have hbefore : c.stop sizeofHeader ≤ d.address := harena.laid.2.1
        unfold Block.stop at hstop hbefore
        omega
      have hzsarena : Arena (d.stop sizeofHeader) zs stop := harena.tail.tail
      have hfirst : firstAddress 0 zs < 2 ^ 64 := hzsarena.firstAddress_lt
      have hcapart : ∀ e ∈ d :: zs, HeadersApart c.address e.address := fun e he =>
        harena.apart_head he
      -- size, then next
      let m₁ := setSize m c.address (c.size + (sizeofHeader + d.size))
      let m₂ := setNext m₁ c.address (firstAddress 0 zs)
      have honly₁ : HeaderOnly c.address m m₁ := headerOnly_setSize m _ _
      have honly₂ : HeaderOnly c.address m m₂ := honly₁.trans (headerOnly_setNext m₁ _ _)
      have hc₁ : blockHeader m₁ c.address =
          ⟨magic, d.address, previous, c.size + (sizeofHeader + d.size), c.isFree⟩ := by
        rw [blockHeader_setSize m _ hsize, hheader]
        rfl
      have hd₁ : blockHeader m₁ d.address =
          ⟨magic, firstAddress 0 zs, c.address, d.size, d.isFree⟩ := by
        rw [honly₁.blockHeader (hcapart d List.mem_cons_self), hnext]
      have hc₂ : blockHeader m₂ c.address =
          ⟨magic, firstAddress 0 zs, previous, c.size + (sizeofHeader + d.size), c.isFree⟩ := by
        rw [blockHeader_setNext m₁ _ hfirst, hc₁]
      have hcombine : combineForward m c.address = relink m₂ (firstAddress 0 zs) c.address := by
        unfold combineForward
        have hhead : firstAddress 0 (d :: zs) = d.address := rfl
        simp only [hheader, hhead, hnext, hdpos, hfree, Nat.mod_eq_of_lt hsize]
        simp only [Bool.true_eq_false, or_self, if_false]
        rw [show setSize m c.address (c.size + (sizeofHeader + d.size)) = m₁ from rfl]
        simp only [hc₁, hd₁]
        rw [show setNext m₁ c.address (firstAddress 0 zs) = m₂ from rfl]
        simp only [hc₂]
      have hzs₂ : Linked m₂ magic d.address zs 0 := by
        apply hzs.keep (HeaderOnly.single (c := c) honly₂)
        intro e he b hb
        rw [List.mem_singleton.mp hb]
        exact hcapart e (List.mem_cons_of_mem _ he)
      have hcaddress : c.address < 2 ^ 64 := harena.address_lt List.mem_cons_self
      obtain ⟨hzs₃, honly₃⟩ := linked_relink hzs₂ hzsarena hcaddress
      rw [hcombine, absorbNext, if_pos hfree]
      refine ⟨⟨?_, hzs₃⟩, ?_⟩
      · rw [show (c.absorb sizeofHeader d).address = c.address from rfl, honly₃.blockHeader ?_, hc₂]
        · rfl
        · intro e he
          exact (hcapart e (List.mem_cons_of_mem _ he)).symm
      · apply (honly₂.headersOnly List.mem_cons_self).trans
        apply honly₃.mono
        intro e he
        exact List.mem_cons_of_mem _ (List.mem_cons_of_mem _ he)

/-- Splitting a block in use or not puts a free block behind it. -/
theorem linked_splitBlock (h : Linked m magic previous (c :: ys) 0)
    (harena : Arena start (c :: ys) stop) (hmagic : magic < 2 ^ 64)
    (hsize : size + sizeofHeader ≤ c.size) :
    let rest : Block := ⟨c.address + sizeofHeader + size, c.size - size - sizeofHeader, true⟩
    Linked (splitBlock m magic c.address size) magic previous
        (⟨c.address, size, c.isFree⟩ :: rest :: ys) 0 ∧
      HeadersOnly (c :: rest :: ys) m (splitBlock m magic c.address size) := by
  intro rest
  obtain ⟨hheader, hys⟩ := h
  have hstop := harena.stop_le List.mem_cons_self
  have hcaddress : c.address < 2 ^ 64 := harena.address_lt List.mem_cons_self
  unfold Block.stop at hstop
  have hrest : (c.address + sizeofHeader + size) % 2 ^ 64 = rest.address :=
    Nat.mod_eq_of_lt (by omega)
  have hrestlt : rest.address < 2 ^ 64 := by
    show c.address + sizeofHeader + size < 2 ^ 64
    omega
  have hleft : (c.size + 2 ^ 64 - size + 2 ^ 64 - sizeofHeader) % 2 ^ 64 = rest.size := by
    show _ = c.size - size - sizeofHeader
    omega
  have hfirst : firstAddress 0 ys < 2 ^ 64 := harena.tail.firstAddress_lt
  -- the new header lies in the payload of the block
  have hcapart : HeadersApart rest.address c.address := by
    right
    show c.address + sizeofHeader ≤ c.address + sizeofHeader + size
    omega
  have harena' : Arena start (⟨c.address, size, c.isFree⟩ :: rest :: ys) stop :=
    harena.split c.isFree hsize
  have hysarena : Arena (rest.stop sizeofHeader) ys stop := harena'.tail.tail
  -- the five fields of the new header
  let m₁ := setSize m rest.address rest.size
  let m₂ := setIsFree m₁ rest.address true
  let m₃ := setNext m₂ rest.address (firstAddress 0 ys)
  let m₄ := setPrevious m₃ rest.address c.address
  let m₅ := setMagic m₄ rest.address magic
  have honly₂ : HeaderOnly rest.address m m₂ :=
    (headerOnly_setSize m _ _).trans (headerOnly_setIsFree m₁ _ _)
  have honly₅ : HeaderOnly rest.address m m₅ :=
    ((honly₂.trans (headerOnly_setNext m₂ _ _)).trans (headerOnly_setPrevious m₃ _ _)).trans
      (headerOnly_setMagic m₄ _ _)
  have hc₂ : blockHeader m₂ c.address = ⟨magic, firstAddress 0 ys, previous, c.size, c.isFree⟩ := by
    rw [honly₂.blockHeader hcapart, hheader]
  have hc₅ : blockHeader m₅ c.address = ⟨magic, firstAddress 0 ys, previous, c.size, c.isFree⟩ := by
    rw [honly₅.blockHeader hcapart, hheader]
  have hrest₅ : blockHeader m₅ rest.address =
      ⟨magic, firstAddress 0 ys, c.address, rest.size, true⟩ := by
    have hrestsize : rest.size < 2 ^ 64 := by
      show c.size - size - sizeofHeader < 2 ^ 64
      omega
    rw [blockHeader_setMagic m₄ _ hmagic, blockHeader_setPrevious m₃ _ hcaddress,
      blockHeader_setNext m₂ _ hfirst, blockHeader_setIsFree, blockHeader_setSize m _ hrestsize]
  have hys₅ : Linked m₅ magic c.address ys 0 := by
    apply hys.keep (HeaderOnly.single (c := rest) honly₅)
    intro e he b hb
    rw [List.mem_singleton.mp hb]
    exact harena'.tail.apart_head he
  obtain ⟨hys₆, honly₆⟩ := linked_relink hys₅ hysarena hrestlt
  -- the header of the block itself
  let m₆ := relink m₅ (firstAddress 0 ys) rest.address
  let m₇ := setNext m₆ c.address rest.address
  have hsplit : splitBlock m magic c.address size = setSize m₇ c.address size := by
    unfold splitBlock
    simp only [hrest, hheader, hleft]
    rw [show setIsFree (setSize m rest.address rest.size) rest.address true = m₂ from rfl]
    simp only [hc₂]
    rw [show setMagic (setPrevious (setNext m₂ rest.address (firstAddress 0 ys)) rest.address
      c.address) rest.address magic = m₅ from rfl]
    simp only [hc₅]
    rfl
  have honly₇ : HeaderOnly c.address m₆ (setSize m₇ c.address size) :=
    (headerOnly_setNext m₆ _ _).trans (headerOnly_setSize m₇ _ _)
  have hysapart : ∀ e ∈ rest :: ys, HeadersApart c.address e.address := fun e he =>
    harena'.apart_head he
  rw [hsplit]
  refine ⟨⟨?_, ?_, ?_⟩, ?_⟩
  · rw [blockHeader_setSize m₇ _ (by omega), blockHeader_setNext m₆ _ hrestlt, honly₆.blockHeader ?_,
      hc₅]
    · rfl
    · intro e he
      exact (hysapart e (List.mem_cons_of_mem _ he)).symm
  · rw [honly₇.blockHeader (hysapart rest List.mem_cons_self), honly₆.blockHeader ?_, hrest₅]
    intro e he
    exact (harena'.tail.apart_head he).symm
  · apply hys₆.keep (HeaderOnly.single (c := c) honly₇)
    intro e he b hb
    rw [List.mem_singleton.mp hb]
    exact hysapart e (List.mem_cons_of_mem _ he)
  · have hnew : HeadersOnly (c :: rest :: ys) m m₅ :=
      honly₅.headersOnly (List.mem_cons_of_mem _ List.mem_cons_self)
    have hnext : HeadersOnly (c :: rest :: ys) m₅ m₆ := by
      apply honly₆.mono
      intro e he
      exact List.mem_cons_of_mem _ (List.mem_cons_of_mem _ he)
    exact (hnew.trans hnext).trans (honly₇.headersOnly List.mem_cons_self)

/-- Whether a block is free is one byte of its header. -/
theorem linked_setIsFree (h : Linked m magic previous (c :: ys) 0)
    (harena : Arena start (c :: ys) stop) (isFree : Bool) :
    Linked (setIsFree m c.address isFree) magic previous ({ c with isFree := isFree } :: ys) 0 ∧
      HeadersOnly [c] m (setIsFree m c.address isFree) := by
  have honly : HeadersOnly [c] m (setIsFree m c.address isFree) :=
    (headerOnly_setIsFree m c.address isFree).single
  refine ⟨⟨?_, ?_⟩, honly⟩
  · rw [blockHeader_setIsFree, h.1]
  · apply h.2.keep honly
    intro e he b hb
    rw [List.mem_singleton.mp hb]
    exact harena.apart_head he

/-- Taking a block is carving it up. -/
theorem linked_takeBlock (h : Linked m magic previous (c :: ys) 0)
    (harena : Arena start (c :: ys) stop) (hmagic : magic < 2 ^ 64) (hsize : size ≤ c.size) :
    Linked (takeBlock m magic c.address size) magic previous
        (carve sizeofHeader 16 size c ++ ys) 0 ∧
      HeadersOnly (c :: (carve sizeofHeader 16 size c ++ ys)) m
        (takeBlock m magic c.address size) := by
  have hstop := harena.stop_le List.mem_cons_self
  have hstart := (harena.laid.bounds adjacency_le List.mem_cons_self).1
  have hge := harena.start_ge
  unfold Block.stop at hstop
  have hneed : (size + sizeofHeader + 16) % 2 ^ 64 = size + sizeofHeader + 16 :=
    Nat.mod_eq_of_lt (by omega)
  unfold takeBlock carve
  rw [hneed, h.1]
  dsimp only
  by_cases hsplit : size + sizeofHeader + 16 < c.size
  · rw [if_pos hsplit, if_pos hsplit]
    have hroom : size + sizeofHeader ≤ c.size := by omega
    obtain ⟨hlinked, honly⟩ := linked_splitBlock h harena hmagic hroom
    obtain ⟨hused, hflag⟩ := linked_setIsFree hlinked (harena.split c.isFree hroom) false
    refine ⟨hused, ?_⟩
    intro x hx
    -- the flag is in the header of the block
    have hback : setIsFree (splitBlock m magic c.address size) c.address false x =
        splitBlock m magic c.address size x := by
      apply hflag
      intro b hb
      rw [List.mem_singleton.mp hb]
      exact hx c List.mem_cons_self
    rw [hback]
    apply honly
    intro b hb
    apply hx
    rcases List.mem_cons.mp hb with rfl | hb
    · exact List.mem_cons_self
    · exact List.mem_cons_of_mem _ (List.mem_cons_of_mem _ hb)
  · rw [if_neg hsplit, if_neg hsplit]
    obtain ⟨hused, hflag⟩ := linked_setIsFree h harena false
    refine ⟨hused, hflag.mono ?_⟩
    intro b hb
    rw [List.mem_singleton.mp hb]
    exact List.mem_cons_self

/-- What is rewritten behind the first blocks leaves these alone. -/
theorem linked_behind {zs : List Block} (h : Linked m magic previous (xs ++ ys) 0)
    (hnew : Linked m' magic (lastAddress previous xs) zs 0)
    (hfirst : firstAddress 0 zs = firstAddress 0 ys) {bs : List Block} (hsame : HeadersOnly bs m m')
    (hapart : ∀ c ∈ xs, ∀ b ∈ bs, HeadersApart b.address c.address) :
    Linked m' magic previous (xs ++ zs) 0 := by
  obtain ⟨hxs, -⟩ := linked_append.mp h
  rw [linked_append, hfirst]
  exact ⟨hxs.keep hsame hapart, hnew⟩

/-- `linked_combineForward` for a block in the middle of the list. -/
theorem linked_combineForward_middle (h : Linked m magic previous (xs ++ c :: ys) 0)
    (harena : Arena start (xs ++ c :: ys) stop) :
    Linked (combineForward m c.address) magic previous (xs ++ absorbNext sizeofHeader c ys) 0 ∧
      HeadersOnly (c :: ys) m (combineForward m c.address) := by
  obtain ⟨middle, hxs, hlaid⟩ := (Laid.append_iff adjacency_le).mp harena.laid
  have hmiddle : Arena middle (c :: ys) stop :=
    ⟨hlaid, Nat.le_trans harena.start_ge (hxs.le adjacency_le), harena.stop_lt⟩
  obtain ⟨hlinked, honly⟩ := linked_combineForward (linked_append.mp h).2 hmiddle
  refine ⟨linked_behind h hlinked ?_ honly fun e he b hb => (harena.apart he hb).symm, honly⟩
  obtain ⟨size, rest, heq⟩ := exists_cons_absorbNext sizeofHeader c ys
  rw [heq]
  rfl

/-- The test before a call of `combineForward` is made again in it. -/
theorem combineForward_of_test (m : Memory) (current : Nat) :
    (if (blockHeader m current).next ≠ 0 ∧ (blockHeader m (blockHeader m current).next).isFree = true
      then combineForward m current else m) = combineForward m current := by
  split
  · rfl
  · rename_i htest
    have hstay : (blockHeader m current).next = 0 ∨
        (blockHeader m (blockHeader m current).next).isFree = false := by
      by_cases hnext : (blockHeader m current).next = 0
      · exact .inl hnext
      · right
        rw [← Bool.not_eq_true]
        intro hfree
        exact htest ⟨hnext, hfree⟩
    unfold combineForward
    simp only
    rw [if_pos hstay]

end Writing

/-! ## Section 4: Giving a block back -/

/-- The end of a free: the block is combined with the one after it, and the one
before it is combined with the result. -/
def joinBlock (m : Memory) (current : Nat) : Memory :=
  let next := (blockHeader m current).next
  let m := if next ≠ 0 ∧ (blockHeader m next).isFree = true then combineForward m current else m
  let previous := (blockHeader m current).previous
  if previous ≠ 0 ∧ (blockHeader m previous).isFree = true then combineForward m previous else m

/-- `sVMHeapFreeInternal` and `MemoryFree` -/
def freeBlock (m : Memory) (magic pointer : Nat) : Memory :=
  if pointer = 0 then m
  else
    let current := (pointer + 2 ^ 64 - sizeofHeader) % 2 ^ 64
    if (blockHeader m current).magic ≠ magic then m
    else joinBlock (setIsFree m current true) current

section GivingBack

variable {magic start stop : Nat} {xs ys : List Block} {c : Block}

/-- A block in the list is where its payload says. -/
theorem current_of_payload (harena : Arena start (xs ++ c :: ys) stop) :
    (c.address + sizeofHeader + 2 ^ 64 - sizeofHeader) % 2 ^ 64 = c.address := by
  have hlt := harena.address_lt (List.mem_append_right xs List.mem_cons_self)
  omega

/-- A block that is free is joined with the free blocks next to it. -/
theorem linked_join (h : Linked m magic 0 (xs ++ c :: ys) 0)
    (harena : Arena start (xs ++ c :: ys) stop) (hfree : c.isFree = true) :
    Linked (joinBlock m c.address) magic 0 (giveBack sizeofHeader xs c ys) 0 ∧
      HeadersOnly (xs ++ c :: ys) m (joinBlock m c.address) := by
  let m₂ := combineForward m c.address
  let previous := (blockHeader m₂ c.address).previous
  let m₃ := if previous ≠ 0 ∧ (blockHeader m₂ previous).isFree = true then
    combineForward m₂ previous else m₂
  have hjoin : joinBlock m c.address = m₃ := by
    unfold joinBlock
    simp only [combineForward_of_test]
    rfl
  rw [hjoin]
  obtain ⟨h₂, honly₂⟩ := linked_combineForward_middle h harena
  have honly : HeadersOnly (xs ++ c :: ys) m m₂ :=
    honly₂.mono fun b hb => List.mem_append_right xs hb
  have hsame : { c with isFree := true } = c := by rw [← hfree]
  obtain ⟨size, rest, hjoined⟩ := exists_cons_absorbNext sizeofHeader c ys
  have hprevious : previous = lastAddress 0 xs := by
    have hc := (linked_append.mp h₂).2
    rw [hjoined] at hc
    show (blockHeader m₂ c.address).previous = _
    rw [hc.1]
  unfold giveBack
  rw [hsame]
  cases hlast : xs.getLast? with
  | none =>
    -- it is the first block
    have hxs : xs = [] := List.getLast?_eq_none_iff.mp hlast
    have hstay : m₃ = m₂ := by
      apply if_neg
      rw [hprevious, hxs]
      simp [lastAddress]
    rw [hstay]
    exact ⟨h₂, honly⟩
  | some a =>
    have hxs : xs = xs.dropLast ++ [a] := (List.dropLast_append_getLast? a hlast).symm
    have hmem : a ∈ xs := by
      rw [hxs]
      exact List.mem_append_right _ List.mem_cons_self
    have haddress : lastAddress 0 xs = a.address := by
      rw [hxs, lastAddress_append]
      rfl
    have hpos : a.address ≠ 0 := (harena.address_pos (List.mem_append_left _ hmem)).ne'
    have harena₂ : Arena start (xs.dropLast ++ a :: absorbNext sizeofHeader c ys) stop := by
      refine ⟨?_, harena.start_ge, harena.stop_lt⟩
      have hlaid := harena.laid
      obtain ⟨middle, hfront, hback⟩ := (Laid.append_iff adjacency_le).mp hlaid
      have hnew : Laid (· ≤ ·) sizeofHeader start (xs ++ absorbNext sizeofHeader c ys) stop :=
        (Laid.append_iff adjacency_le).mpr ⟨middle, hfront, laid_absorbNext adjacency_le _ _ hback⟩
      rw [hxs, List.append_assoc] at hnew
      exact hnew
    rw [hxs, List.append_assoc] at h₂
    have h₂' : Linked m₂ magic 0 (xs.dropLast ++ a :: absorbNext sizeofHeader c ys) 0 := h₂
    have ha : (blockHeader m₂ a.address).isFree = a.isFree := by
      rw [(linked_append.mp h₂').2.1]
    cases haFree : a.isFree with
    | false =>
      have hstay : m₃ = m₂ := by
        apply if_neg
        rw [hprevious, haddress, ha, haFree]
        simp
      rw [hstay]
      dsimp only
      rw [if_neg (by simp [haFree])]
      refine ⟨?_, honly⟩
      rw [hxs, List.append_assoc]
      exact h₂'
    | true =>
      have hback : m₃ = combineForward m₂ a.address := by
        have htest : previous ≠ 0 ∧ (blockHeader m₂ previous).isFree = true := by
          rw [hprevious, haddress, ha]
          exact ⟨hpos, haFree⟩
        show (if _ then _ else _) = _
        rw [if_pos htest, hprevious, haddress]
      obtain ⟨h₃, honly₃⟩ := linked_combineForward_middle h₂' harena₂
      rw [hback]
      dsimp only
      rw [if_pos haFree]
      refine ⟨h₃, honly.trans (honly₃.of_addresses ?_)⟩
      intro b hb
      rcases List.mem_cons.mp hb with rfl | hb
      · exact ⟨b, List.mem_append_left _ hmem, rfl⟩
      · rcases address_of_mem_absorbNext hb with heq | hb
        · exact ⟨c, List.mem_append_right _ List.mem_cons_self, heq.symm⟩
        · exact ⟨b, List.mem_append_right _ (List.mem_cons_of_mem _ hb), rfl⟩

/-- Freeing a block gives it back to the list. -/
theorem linked_freeBlock (h : Linked m magic 0 (xs ++ c :: ys) 0)
    (harena : Arena start (xs ++ c :: ys) stop) :
    Linked (freeBlock m magic (c.address + sizeofHeader)) magic 0 (giveBack sizeofHeader xs c ys) 0 ∧
      HeadersOnly (xs ++ c :: ys) m (freeBlock m magic (c.address + sizeofHeader)) := by
  have hheader := (linked_append.mp h).2.1
  obtain ⟨middle, hxs, hlaid⟩ := (Laid.append_iff adjacency_le).mp harena.laid
  have hmiddle : Arena middle (c :: ys) stop :=
    ⟨hlaid, Nat.le_trans harena.start_ge (hxs.le adjacency_le), harena.stop_lt⟩
  -- the flag first
  obtain ⟨hc₁, honly₁⟩ := linked_setIsFree (linked_append.mp h).2 hmiddle true
  have h₁ : Linked (setIsFree m c.address true) magic 0 (xs ++ { c with isFree := true } :: ys) 0 := by
    refine linked_behind h hc₁ rfl honly₁ ?_
    intro e he b hb
    rw [List.mem_singleton.mp hb]
    exact (harena.apart he List.mem_cons_self).symm
  have harena₁ : Arena start (xs ++ { c with isFree := true } :: ys) stop :=
    ⟨laid_setFree true harena.laid, harena.start_ge, harena.stop_lt⟩
  obtain ⟨h₂, honly₂⟩ := linked_join h₁ harena₁ rfl
  have hpayload : c.address + sizeofHeader ≠ 0 := by
    unfold sizeofHeader
    omega
  have hfree : freeBlock m magic (c.address + sizeofHeader) =
      joinBlock (setIsFree m c.address true) c.address := by
    unfold freeBlock
    rw [if_neg hpayload, current_of_payload harena]
    simp [hheader]
  rw [hfree]
  refine ⟨h₂, (honly₁.mono ?_).trans (honly₂.of_addresses ?_)⟩
  · intro b hb
    rw [List.mem_singleton.mp hb]
    exact List.mem_append_right _ List.mem_cons_self
  · intro b hb
    rcases List.mem_append.mp hb with hb | hb
    · exact ⟨b, List.mem_append_left _ hb, rfl⟩
    · rcases List.mem_cons.mp hb with rfl | hb
      · exact ⟨c, List.mem_append_right _ List.mem_cons_self, rfl⟩
      · exact ⟨b, List.mem_append_right _ (List.mem_cons_of_mem _ hb), rfl⟩

end GivingBack

-- Callers use what these do to the list; their code is not unfolded again.
attribute [irreducible] combineForward takeBlock freeBlock

end TermOS.Kernel
