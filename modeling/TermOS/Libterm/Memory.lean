import TermOS.Kernel.HeapLayout
import TermOS.OS.UserMemory

/-!
# The heap of a process

`userspace/libterm/src/Memory.c`, over the pages that `OSServiceMemoryAllocate` gives
the process. These follow one another, but the process is not given all that the
kernel took when it runs out of frames in the middle, so that the blocks may have gaps
between them.

## Main Theorems

* `UserHeap.Layout.allocate`, `UserHeap.Layout.reallocate` - the calls keep the blocks in
  order and the payloads that are held
-/

namespace TermOS.Libterm

open TermOS.Lib TermOS.Kernel TermOS.VM
open TermOS.OS (kOSHeapStart OSProcess memoryAllocatePages)

/-! ## Section 1: The code -/

/-- The memory of a process, `sMemoryHeapListHead`, and its `heapCurrentPointer`. -/
structure UserHeap where
  memory : Memory
  listHead : Nat
  heapCurrentPointer : Nat

def kMemoryBlockMagic : Nat := 0x1CE1CE
def kMemoryPageSize : Nat := 4096

namespace UserHeap

/-- What a process sees of `OSServiceMemoryAllocate` when the kernel has `granted` frames
for it: the pages behind `heapCurrentPointer` are there, filled with zeros, and are
returned if they are enough. -/
def osServiceMemoryAllocate (heap : UserHeap) (size granted : Nat) : Nat × UserHeap :=
  if size = 0 then (0, heap)
  else
    let pagesNeeded := wrap64 (size + (kVMPageSize - 1)) / kVMPageSize
    let mapped := min pagesNeeded granted * kVMPageSize
    let heap' : UserHeap :=
      { heap with
        memory := heap.memory.fill heap.heapCurrentPointer mapped 0
        heapCurrentPointer := wrap64 (heap.heapCurrentPointer + mapped) }
    (if pagesNeeded ≤ granted then heap.heapCurrentPointer else 0, heap')

/-- The fields of a new header. -/
def newHeader (m : Memory) (newBlock size lastBlock : Nat) : Memory :=
  let m := setSize m newBlock size
  let m := setIsFree m newBlock true
  let m := setMagic m newBlock kMemoryBlockMagic
  let m := setNext m newBlock 0
  setPrevious m newBlock lastBlock

/-- The new region becomes a block at the end of the list. -/
def appendBlock (heap : UserHeap) (newBlock pageAlignedSize lastBlock : Nat) : UserHeap :=
  let m := newHeader heap.memory newBlock
    ((pageAlignedSize + 2 ^ 64 - sizeofHeader) % 2 ^ 64) lastBlock
  if lastBlock ≠ 0 then { heap with memory := setNext m lastBlock newBlock }
  else { heap with memory := m, listHead := newBlock }

/-- The size of the region for a block. -/
def pageAlign (alignedSize : Nat) : Nat :=
  (alignedSize + sizeofHeader + (kMemoryPageSize - 1)) % 2 ^ 64 / kMemoryPageSize * kMemoryPageSize

/-- `MemoryAllocate`. Each call of `OSServiceMemoryAllocate` takes the next of `grants`; if
there is none left, or the loop has not come to an end, there is no result. -/
def memoryAllocate (size : Nat) (grants : List Nat) (heap : UserHeap) : Option (Nat × UserHeap) :=
  if size = 0 then some (0, heap)
  else
    match findBlock heap.memory (alignSize size) heap.heapCurrentPointer heap.listHead 0 with
    | none => none
    | some (current, lastBlock) =>
      if current ≠ 0 then
        some ((current + sizeofHeader) % 2 ^ 64,
          { heap with memory := takeBlock heap.memory kMemoryBlockMagic current (alignSize size) })
      else
        match grants with
        | [] => none
        | granted :: grants =>
          let pageAlignedSize := pageAlign (alignSize size)
          let (newMemoryAddress, heap) := heap.osServiceMemoryAllocate pageAlignedSize granted
          if newMemoryAddress = 0 then some (0, heap)
          else memoryAllocate size grants (heap.appendBlock newMemoryAddress pageAlignedSize lastBlock)

/-- `MemoryFree` -/
def memoryFree (heap : UserHeap) (pointer : Nat) : UserHeap :=
  { heap with memory := freeBlock heap.memory kMemoryBlockMagic pointer }

/-- `MemoryReallocate` -/
def memoryReallocate (heap : UserHeap) (pointer newSize : Nat) (grants : List Nat) :
    Option (Nat × UserHeap) :=
  if pointer = 0 then memoryAllocate newSize grants heap
  else if newSize = 0 then some (0, heap.memoryFree pointer)
  else
    match resizeInPlace heap.memory (headerOf pointer) newSize with
    | some memory => some (pointer, { heap with memory := memory })
    | none =>
      (memoryAllocate newSize grants heap).map fun (newPointer, heap) =>
        if newPointer = 0 then (0, heap)
        else
          (newPointer,
            { heap with memory := moveBlock heap.memory kMemoryBlockMagic newPointer pointer })

/-! ## Section 2: What the kernel grants -/

/-- The loop of the service advances the heap pointer by a page for each frame that it
gets, and ends early without the next one. -/
theorem memoryAllocatePages_granted (count : Nat) :
    ∀ (s : VMState) (process : OSProcess), process.heapCurrentPointer < 2 ^ 64 →
      ∃ granted s' process', memoryAllocatePages s process count =
        (decide (count ≤ granted), s', process') ∧
        process'.heapCurrentPointer =
          wrap64 (process.heapCurrentPointer + min count granted * kVMPageSize) := by
  induction count with
  | zero =>
    intro s process hlt
    refine ⟨0, s, process, rfl, ?_⟩
    unfold wrap64
    rw [Nat.min_self, Nat.zero_mul, Nat.add_zero, Nat.mod_eq_of_lt hlt]
  | succ count ih =>
    intro s process hlt
    rw [memoryAllocatePages]
    rcases s.allocatePage with ⟨physicalAddress, s₁⟩
    dsimp only
    split
    · -- no frame
      refine ⟨0, s₁, process, ?_, ?_⟩
      · rw [decide_eq_false (by omega)]
      · unfold wrap64
        rw [Nat.min_zero, Nat.zero_mul, Nat.add_zero, Nat.mod_eq_of_lt hlt]
    · have hnext : wrap64 (process.heapCurrentPointer + kVMPageSize) < 2 ^ 64 :=
        Nat.mod_lt _ (Nat.two_pow_pos 64)
      obtain ⟨granted, s', process', heq, hpointer⟩ := ih
        ((vmVirtualMemoryMapPage s₁ process.physicalPML4 physicalAddress process.heapCurrentPointer
          pteUserData).2.clearPage (physToHhdm physicalAddress))
        { process with heapCurrentPointer := wrap64 (process.heapCurrentPointer + kVMPageSize) } hnext
      refine ⟨granted + 1, s', process', ?_, ?_⟩
      · rw [heq]
        simp
      · rw [hpointer, Nat.add_min_add_right, Nat.succ_mul]
        unfold wrap64
        rw [Nat.mod_add_mod]
        congr 1
        omega

/-- The kernel's `OSServiceMemoryAllocate` is what the process sees, for some number of
frames. -/
theorem osServiceMemoryAllocate_granted (s : VMState) (process : OSProcess) (heap : UserHeap)
    (hsame : process.heapCurrentPointer = heap.heapCurrentPointer)
    (hlt : heap.heapCurrentPointer < 2 ^ 64) (size : Nat) :
    ∃ granted, (OS.osServiceMemoryAllocate s process size).1 =
        (heap.osServiceMemoryAllocate size granted).1 ∧
      (OS.osServiceMemoryAllocate s process size).2.2.heapCurrentPointer =
        (heap.osServiceMemoryAllocate size granted).2.heapCurrentPointer := by
  unfold OS.osServiceMemoryAllocate UserHeap.osServiceMemoryAllocate
  by_cases hsize : size = 0
  · refine ⟨0, ?_⟩
    simp [hsize, hsame]
  rw [if_neg hsize]
  obtain ⟨granted, s', process', heq, hpointer⟩ := memoryAllocatePages_granted
    (wrap64 (size + (kVMPageSize - 1)) / kVMPageSize) s process (hsame ▸ hlt)
  refine ⟨granted, ?_⟩
  rw [if_neg hsize]
  dsimp only
  rw [heq]
  by_cases hgranted : wrap64 (size + (kVMPageSize - 1)) / kVMPageSize ≤ granted
  · rw [decide_eq_true hgranted, if_pos hgranted]
    exact ⟨hsame, by rw [hpointer, hsame]⟩
  · rw [decide_eq_false hgranted, if_neg hgranted]
    exact ⟨rfl, by rw [hpointer, hsame]⟩

/-! ## Section 3: The heap grows -/

/-- The blocks of a process, with gaps, and the payloads that are held. -/
abbrev Layout (heap : UserHeap) (bs : List Block) (live : List (Nat × Nat)) : Prop :=
  HeapLayout (· ≤ ·) kMemoryBlockMagic kOSHeapStart heap.heapCurrentPointer heap.listHead
    heap.memory bs live

variable {heap : UserHeap} {bs : List Block} {live : List (Nat × Nat)} {c : Block}
  {size newSize granted : Nat}

/-- A list of blocks is never longer than the loop has turns. -/
theorem Layout.turns (h : heap.Layout bs live) : bs.length < heap.heapCurrentPointer := by
  have hlength := h.laid.length_le adjacency_le
  have hpos : 0 < kOSHeapStart := by decide
  unfold sizeofHeader at hlength
  omega

theorem newHeader_spec (m : Memory) (a : Nat) {size lastBlock : Nat} (hsize : size < 2 ^ 64)
    (hlast : lastBlock < 2 ^ 64) :
    blockHeader (newHeader m a size lastBlock) a = ⟨kMemoryBlockMagic, 0, lastBlock, size, true⟩ ∧
      HeaderOnly a m (newHeader m a size lastBlock) := by
  have hmagic : kMemoryBlockMagic < 2 ^ 64 := by decide
  unfold newHeader
  constructor
  · rw [blockHeader_setPrevious _ _ hlast, blockHeader_setNext _ _ (by decide),
      blockHeader_setMagic _ _ hmagic, blockHeader_setIsFree, blockHeader_setSize _ _ hsize]
  · exact ((((headerOnly_setSize _ _ _).trans (headerOnly_setIsFree _ _ _)).trans
      (headerOnly_setMagic _ _ _)).trans (headerOnly_setNext _ _ _)).trans
        (headerOnly_setPrevious _ _ _)

/-- The end of the list gets a new block. -/
theorem linked_concat {m : Memory} {start stop : Nat} (h : Linked m kMemoryBlockMagic 0 bs 0)
    (harena : Arena start (bs ++ [c]) stop) (hfree : c.isFree = true) :
    let m₁ := newHeader m c.address c.size (lastAddress 0 bs)
    let m₂ := if lastAddress 0 bs ≠ 0 then setNext m₁ (lastAddress 0 bs) c.address else m₁
    Linked m₂ kMemoryBlockMagic 0 (bs ++ [c]) 0 ∧ HeadersOnly (bs ++ [c]) m m₂ := by
  intro m₁ m₂
  have hc : c ∈ bs ++ [c] := List.mem_append_right _ List.mem_cons_self
  have hcsize : c.size < 2 ^ 64 := by
    have hstop := harena.stop_le hc
    unfold Block.stop at hstop
    omega
  have hcaddress := harena.address_lt hc
  rcases List.eq_nil_or_concat' bs with rfl | ⟨front, last, rfl⟩
  · -- the first block of all
    obtain ⟨hheader, honly⟩ := newHeader_spec m c.address hcsize (Nat.two_pow_pos 64)
    have hm₂ : m₂ = m₁ := if_neg (by simp [lastAddress])
    rw [hm₂]
    refine ⟨⟨?_, trivial⟩, honly.headersOnly hc⟩
    rw [← hfree] at hheader
    exact hheader
  · have hlast : lastAddress 0 (front ++ [last]) = last.address := lastAddress_append 0 front [last]
    have hl : last ∈ front ++ [last] := List.mem_append_right _ List.mem_cons_self
    have hlmem : last ∈ front ++ [last] ++ [c] := List.mem_append_left _ hl
    have hlpos : last.address ≠ 0 := (harena.address_pos hlmem).ne'
    obtain ⟨hheader, honly⟩ :=
      newHeader_spec m c.address hcsize (hlast ▸ harena.address_lt hlmem)
    have hm₂ : m₂ = setNext m₁ last.address c.address := by
      show (if _ then _ else _) = _
      rw [hlast, if_pos hlpos]
    rw [hm₂]
    have honly₁ : HeadersOnly [c] m m₁ := honly.single
    have honly₂ : HeadersOnly [last] m₁ (setNext m₁ last.address c.address) :=
      (headerOnly_setNext m₁ last.address c.address).single
    -- the old blocks are apart from the new one, and the last from those before it
    have h₁ : Linked m₁ kMemoryBlockMagic 0 (front ++ [last]) 0 := by
      apply h.keep honly₁
      intro e he b hb
      rw [List.mem_singleton.mp hb]
      exact (harena.apart he List.mem_cons_self).symm
    obtain ⟨hfront, hlink, -⟩ := linked_append.mp h₁
    have harena' : Arena start (front ++ ([last] ++ [c])) stop := by
      rw [← List.append_assoc]
      exact harena
    have hfront₂ : Linked (setNext m₁ last.address c.address) kMemoryBlockMagic 0 front
        last.address := by
      apply hfront.keep honly₂
      intro e he b hb
      rw [List.mem_singleton.mp hb]
      exact (harena'.apart he List.mem_cons_self).symm
    have hapart : HeadersApart last.address c.address := harena.apart hl List.mem_cons_self
    refine ⟨?_, ?_⟩
    · rw [List.append_assoc, linked_append]
      refine ⟨hfront₂, ?_, ?_, trivial⟩
      · rw [blockHeader_setNext _ _ hcaddress, hlink]
        rfl
      · have hkeep : blockHeader (setNext m₁ last.address c.address) c.address =
            blockHeader m₁ c.address := by
          apply honly₂.blockHeader
          intro b hb
          rw [List.mem_singleton.mp hb]
          exact hapart
        rw [hkeep, hheader, hlast, hfree]
        rfl
    · refine (honly₁.mono ?_).trans (honly₂.mono ?_)
      · intro b hb
        rw [List.mem_singleton.mp hb]
        exact hc
      · intro b hb
        rw [List.mem_singleton.mp hb]
        exact hlmem

/-! ## Section 4: Allocation -/

/-- A request whose size can be rounded up to whole pages. -/
def Roundable (size : Nat) : Prop :=
  size + 15 < 2 ^ 64 ∧ alignSize size + sizeofHeader + (kMemoryPageSize - 1) < 2 ^ 64

instance (size : Nat) : Decidable (Roundable size) := inferInstanceAs (Decidable (_ ∧ _))

theorem Roundable.pageAlign (h : Roundable size) :
    alignSize size + sizeofHeader ≤ pageAlign (alignSize size) ∧
      pageAlign (alignSize size) < 2 ^ 64 ∧
      wrap64 (pageAlign (alignSize size) + (kVMPageSize - 1)) / kVMPageSize * kVMPageSize =
        pageAlign (alignSize size) := by
  have hround := h.2
  unfold UserHeap.pageAlign wrap64 kVMPageSize
  unfold kMemoryPageSize at hround ⊢
  rw [Nat.mod_eq_of_lt hround]
  omega

/-- The heap pointer has advanced by at most so many pages. -/
def Advanced (heap : UserHeap) (granted : Nat) (heap' : UserHeap) : Prop :=
  ∃ pages ≤ granted, heap'.heapCurrentPointer = heap.heapCurrentPointer + pages * kVMPageSize

theorem Advanced.rfl : heap.Advanced granted heap := ⟨0, Nat.zero_le _, by simp⟩

/-- The region that the kernel maps holds no block yet. -/
theorem Layout.grow (h : heap.Layout bs live) (size : Nat)
    (hroom : heap.heapCurrentPointer + granted * kVMPageSize < 2 ^ 64) :
    (heap.osServiceMemoryAllocate size granted).2.Layout bs live ∧
      PayloadsKept bs heap.memory (heap.osServiceMemoryAllocate size granted).2.memory ∧
      heap.Advanced granted (heap.osServiceMemoryAllocate size granted).2 := by
  unfold osServiceMemoryAllocate
  by_cases hzero : size = 0
  · rw [if_pos hzero]
    exact ⟨h, fun _ _ _ _ _ => rfl, Advanced.rfl⟩
  rw [if_neg hzero]
  dsimp only
  have hmin := Nat.min_le_right (wrap64 (size + (kVMPageSize - 1)) / kVMPageSize) granted
  have hmapped := Nat.mul_le_mul_right kVMPageSize hmin
  rw [wrap64_of_lt (Nat.lt_of_le_of_lt (Nat.add_le_add_left hmapped _) hroom)]
  have hsame : ∀ x, x < heap.heapCurrentPointer → heap.memory.fill heap.heapCurrentPointer
      (min (wrap64 (size + (kVMPageSize - 1)) / kVMPageSize) granted * kVMPageSize) 0 x =
        heap.memory x := fun x hx => Memory.fill_outside _ _ (.inl hx)
  obtain ⟨hlayout, hkept⟩ := h.extend hsame (Nat.le_add_right _ _)
    (Nat.lt_of_le_of_lt (Nat.add_le_add_left hmapped _) hroom)
  exact ⟨hlayout, hkept, _, hmin, rfl⟩

/-- The heap with a region of zeros behind the blocks that it has. -/
def grownBy (heap : UserHeap) (length : Nat) : UserHeap :=
  { heap with
    memory := heap.memory.fill heap.heapCurrentPointer length 0
    heapCurrentPointer := heap.heapCurrentPointer + length }

/-- The region is of whole pages. -/
theorem pageAlign_div_mul (alignedSize : Nat) :
    pageAlign alignedSize / kVMPageSize * kVMPageSize = pageAlign alignedSize := by
  unfold pageAlign kVMPageSize kMemoryPageSize
  omega

/-- A request that is not rounded to nothing is for whole pages. -/
theorem pageAlign_pages {alignedSize : Nat} (hne : pageAlign alignedSize ≠ 0) :
    kMemoryPageSize ≤ pageAlign alignedSize ∧ pageAlign alignedSize < 2 ^ 64 ∧
      wrap64 (pageAlign alignedSize + (kVMPageSize - 1)) / kVMPageSize * kVMPageSize =
        pageAlign alignedSize := by
  unfold pageAlign wrap64 kVMPageSize at *
  unfold kMemoryPageSize at *
  omega

/-- A call that gets all its pages returns the old heap pointer. -/
theorem osServiceMemoryAllocate_enough (heap : UserHeap) {alignedSize : Nat}
    (hne : pageAlign alignedSize ≠ 0) (hgranted : pageAlign alignedSize ≤ granted * kVMPageSize)
    (hroom : heap.heapCurrentPointer + granted * kVMPageSize < 2 ^ 64) :
    heap.osServiceMemoryAllocate (pageAlign alignedSize) granted =
      (heap.heapCurrentPointer, heap.grownBy (pageAlign alignedSize)) := by
  obtain ⟨-, -, hpages⟩ := pageAlign_pages hne
  have hneeded : wrap64 (pageAlign alignedSize + (kVMPageSize - 1)) / kVMPageSize ≤ granted := by
    apply Nat.le_of_mul_le_mul_right _ (show 0 < kVMPageSize by decide)
    rw [hpages]
    exact hgranted
  unfold osServiceMemoryAllocate grownBy
  dsimp only
  rw [if_neg hne, Nat.min_eq_left hneeded, hpages, if_pos hneeded,
    wrap64_of_lt (Nat.lt_of_le_of_lt (Nat.add_le_add_left hgranted _) hroom)]

/-- A call that asks for nothing, or does not get all its pages, returns zero. -/
theorem osServiceMemoryAllocate_short (heap : UserHeap) {alignedSize : Nat}
    (hshort : pageAlign alignedSize = 0 ∨ granted * kVMPageSize < pageAlign alignedSize) :
    (heap.osServiceMemoryAllocate (pageAlign alignedSize) granted).1 = 0 := by
  unfold osServiceMemoryAllocate
  split
  · rfl
  · next hne =>
    apply if_neg
    intro hneeded
    have hmul := Nat.mul_le_mul_right kVMPageSize hneeded
    rw [(pageAlign_pages hne).2.2] at hmul
    omega

/-- The heap after an allocation has appended a new region. -/
def regionBy (heap : UserHeap) (bs : List Block) (length : Nat) : UserHeap :=
  (heap.grownBy length).appendBlock heap.heapCurrentPointer length (lastAddress 0 bs)

/-- The block that a new region becomes. -/
def regionBlock (heap : UserHeap) (length : Nat) : Block :=
  ⟨heap.heapCurrentPointer, length - sizeofHeader, true⟩

/-- The region becomes a block behind the others. -/
theorem Layout.append_region (h : heap.Layout bs live) {length : Nat} (hlarge : sizeofHeader ≤ length)
    (hroom : heap.heapCurrentPointer + length < 2 ^ 64) :
    (heap.regionBy bs length).Layout (bs ++ [heap.regionBlock length]) live ∧
      PayloadsKept bs heap.memory (heap.regionBy bs length).memory ∧
      (heap.regionBy bs length).heapCurrentPointer = heap.heapCurrentPointer + length := by
  let region := heap.regionBlock length
  let grown := heap.grownBy length
  have hsame : ∀ x, x < heap.heapCurrentPointer → grown.memory x = heap.memory x :=
    fun x hx => Memory.fill_outside _ _ (.inl hx)
  obtain ⟨hgrown, hkept⟩ := h.extend hsame (Nat.le_add_right _ length) hroom
  have hend : region.stop sizeofHeader = heap.heapCurrentPointer + length := by
    show heap.heapCurrentPointer + sizeofHeader + (length - sizeofHeader) = _
    omega
  have hlaid : Laid (· ≤ ·) sizeofHeader kOSHeapStart (bs ++ [region])
      (heap.heapCurrentPointer + length) := by
    rw [Laid.append_iff adjacency_le]
    exact ⟨heap.heapCurrentPointer, h.laid, Nat.le_refl _, Nat.le_of_eq hend⟩
  have harena : Arena kOSHeapStart (bs ++ [region]) (heap.heapCurrentPointer + length) :=
    ⟨hlaid, h.start_ge, hroom⟩
  obtain ⟨hlinked, honly⟩ := linked_concat hgrown.linked harena rfl
  -- the code's own writes
  have hsize : (length + 2 ^ 64 - sizeofHeader) % 2 ^ 64 = length - sizeofHeader := by omega
  have hcode : heap.regionBy bs length =
      ⟨if lastAddress 0 bs ≠ 0 then
          setNext (newHeader grown.memory heap.heapCurrentPointer (length - sizeofHeader)
            (lastAddress 0 bs)) (lastAddress 0 bs) heap.heapCurrentPointer
        else newHeader grown.memory heap.heapCurrentPointer (length - sizeofHeader)
          (lastAddress 0 bs),
        if lastAddress 0 bs ≠ 0 then heap.listHead else heap.heapCurrentPointer,
        heap.heapCurrentPointer + length⟩ := by
    unfold regionBy appendBlock
    rw [hsize]
    split <;> rfl
  rw [hcode]
  refine ⟨⟨?_, hlinked, hlaid, h.start_ge, hroom, ?_, h.nodup⟩, ?_, rfl⟩
  · dsimp only
    cases bs with
    | nil => rfl
    | cons b bs =>
      have hlast : lastAddress 0 (b :: bs) ≠ 0 := by
        rcases List.eq_nil_or_concat' bs with rfl | ⟨front, last, rfl⟩
        · exact (harena.address_pos (c := b) (by simp)).ne'
        · rw [← List.cons_append, lastAddress_append]
          exact (harena.address_pos (c := last) (by simp)).ne'
      rw [if_pos hlast, h.head]
      rfl
  · intro p n hp
    obtain ⟨b, hb, hused, heq, hn⟩ := h.held p n hp
    exact ⟨b, List.mem_append_left _ hb, hused, heq, hn⟩
  · exact hkept.trans (HeapLayout.payloadsKept hlaid honly fun c hc => ⟨c, hc, rfl⟩)
      fun b hb _ => List.mem_append_left _ hb

/-- What an allocation does that finds a place. -/
abbrev Allocated (heap : UserHeap) (bs : List Block) (live : List (Nat × Nat)) (size pointer : Nat)
    (heap' : UserHeap) (bs' : List Block) : Prop :=
  Kernel.Allocated (· ≤ ·) kMemoryBlockMagic kOSHeapStart heap'.heapCurrentPointer heap'.listHead
    heap.memory bs live size pointer heap'.memory bs'

/-- An allocation that finds a block carves it up, and needs nothing from the kernel. What
is held then is as large as the rounded size, also if the rounding has wrapped. -/
theorem Layout.allocate_carve (h : heap.Layout bs live) (hne : size ≠ 0) {xs ys : List Block}
    (hfit : firstFit (alignSize size) bs = some (xs, c, ys)) {n : Nat} (hn : n ≤ alignSize size)
    (grants : List Nat) :
    ∃ heap', memoryAllocate size grants heap = some (c.address + sizeofHeader, heap') ∧
      heap'.heapCurrentPointer = heap.heapCurrentPointer ∧
      heap.Allocated bs live n (c.address + sizeofHeader) heap'
        (xs ++ (carve sizeofHeader 16 (alignSize size) c ++ ys)) := by
  have harena := h.arena adjacency_le
  have hc : c ∈ bs := by
    rw [(firstFit_eq_some hfit).1]
    exact List.mem_append_right _ List.mem_cons_self
  have hpos : c.address ≠ 0 := (harena.address_pos hc).ne'
  have halloc := h.allocated_carve adjacency_le (by decide) hfit hn
  refine ⟨{ heap with memory := takeBlock heap.memory kMemoryBlockMagic c.address (alignSize size) },
    ?_, rfl, halloc⟩
  rw [memoryAllocate.eq_def, if_neg hne, h.head, findBlock_some h.linked harena h.turns hfit]
  dsimp only
  rw [if_pos hpos, HeapLayout.pointer_mod adjacency_le h hc, ← h.head]

/-- An allocation that finds no block and does not get what it asks the kernel for. -/
theorem Layout.allocate_refused (h : heap.Layout bs live) (hne : size ≠ 0)
    (hfit : firstFit (alignSize size) bs = none)
    (hshort : pageAlign (alignSize size) = 0 ∨
      granted * kVMPageSize < pageAlign (alignSize size)) (grants : List Nat) :
    memoryAllocate size (granted :: grants) heap =
      some (0, (heap.osServiceMemoryAllocate (pageAlign (alignSize size)) granted).2) := by
  rw [memoryAllocate.eq_def, if_neg hne, h.head,
    findBlock_none h.linked (h.arena adjacency_le) h.turns hfit]
  dsimp only
  rw [if_neg (by simp), if_pos (osServiceMemoryAllocate_short heap hshort)]

/-- An allocation that finds no block starts over with the region that it got. -/
theorem Layout.allocate_again (h : heap.Layout bs live) (hne : size ≠ 0)
    (hfit : firstFit (alignSize size) bs = none) (hpages : pageAlign (alignSize size) ≠ 0)
    (hgranted : pageAlign (alignSize size) ≤ granted * kVMPageSize)
    (hroom : heap.heapCurrentPointer + granted * kVMPageSize < 2 ^ 64) (grants : List Nat) :
    memoryAllocate size (granted :: grants) heap =
      memoryAllocate size grants (heap.regionBy bs (pageAlign (alignSize size))) := by
  have hpos : heap.heapCurrentPointer ≠ 0 := by
    have hturns := h.turns
    omega
  rw [memoryAllocate.eq_def, if_neg hne, h.head,
    findBlock_none h.linked (h.arena adjacency_le) h.turns hfit]
  dsimp only
  rw [if_neg (by simp), osServiceMemoryAllocate_enough heap hpages hgranted hroom]
  dsimp only
  rw [if_neg hpos]
  rfl

/-- The region is large enough for the block, and the second search finds it. -/
theorem Layout.allocate_region (h : heap.Layout bs live) (hne : size ≠ 0)
    (hfit : firstFit (alignSize size) bs = none) {n : Nat} (hn : n ≤ alignSize size)
    (hlarge : alignSize size + sizeofHeader ≤ pageAlign (alignSize size))
    (hgranted : pageAlign (alignSize size) ≤ granted * kVMPageSize)
    (hroom : heap.heapCurrentPointer + granted * kVMPageSize < 2 ^ 64) (grants : List Nat) :
    ∃ heap', memoryAllocate size (granted :: grants) heap =
        some (heap.heapCurrentPointer + sizeofHeader, heap') ∧
      heap'.heapCurrentPointer = heap.heapCurrentPointer + pageAlign (alignSize size) ∧
      heap.Allocated bs live n (heap.heapCurrentPointer + sizeofHeader) heap'
        (bs ++ carve sizeofHeader 16 (alignSize size)
          (heap.regionBlock (pageAlign (alignSize size)))) := by
  have hpages : pageAlign (alignSize size) ≠ 0 := by
    unfold sizeofHeader at hlarge
    omega
  have hroom' : heap.heapCurrentPointer + pageAlign (alignSize size) < 2 ^ 64 :=
    Nat.lt_of_le_of_lt (Nat.add_le_add_left hgranted _) hroom
  obtain ⟨hlayout, hkept, hpointer⟩ :=
    h.append_region (Nat.le_trans (Nat.le_add_left _ _) hlarge) hroom'
  have hfits : alignSize size ≤ pageAlign (alignSize size) - sizeofHeader := by omega
  obtain ⟨heap', hsome, hpointer', halloc⟩ := hlayout.allocate_carve hne
    (firstFit_concat hfit rfl hfits) hn grants
  rw [List.append_nil] at halloc
  refine ⟨heap', ?_, hpointer'.trans hpointer, ?_⟩
  · rw [h.allocate_again hne hfit hpages hgranted hroom]
    exact hsome
  · exact halloc.of_grown hkept

/-- An allocation asks the kernel at most once. -/
theorem Layout.allocate (h : heap.Layout bs live) (hround : Roundable size)
    (hroom : heap.heapCurrentPointer + granted * kVMPageSize < 2 ^ 64) :
    ∃ pointer heap', memoryAllocate size [granted] heap = some (pointer, heap') ∧
      heap.Advanced granted heap' ∧
      ((pointer = 0 ∧ heap'.Layout bs live ∧ PayloadsKept bs heap.memory heap'.memory) ∨
        ∃ bs', heap.Allocated bs live size pointer heap' bs') := by
  by_cases hzero : size = 0
  · refine ⟨0, heap, ?_, Advanced.rfl, .inl ⟨rfl, h, fun _ _ _ _ _ => rfl⟩⟩
    rw [memoryAllocate.eq_def, if_pos hzero]
  cases hfit : firstFit (alignSize size) bs with
  | some found =>
    obtain ⟨heap', hsome, hpointer, halloc⟩ :=
      h.allocate_carve hzero hfit (le_alignSize hround.1) [granted]
    refine ⟨_, heap', hsome, ⟨0, Nat.zero_le _, ?_⟩, .inr ⟨_, halloc⟩⟩
    rw [hpointer, Nat.zero_mul, Nat.add_zero]
  | none =>
    by_cases hgranted : pageAlign (alignSize size) ≤ granted * kVMPageSize
    · obtain ⟨heap', hsome, hpointer, halloc⟩ := h.allocate_region hzero hfit
        (le_alignSize hround.1) hround.pageAlign.1 hgranted hroom []
      refine ⟨_, heap', hsome, ?_, .inr ⟨_, halloc⟩⟩
      -- the region is of whole pages
      refine ⟨pageAlign (alignSize size) / kVMPageSize, Nat.div_le_of_le_mul ?_, ?_⟩
      · rw [Nat.mul_comm]
        exact hgranted
      · rw [hpointer, pageAlign_div_mul]
    · obtain ⟨hgrown, hkept, hadvanced⟩ := h.grow (pageAlign (alignSize size)) hroom
      exact ⟨0, _, h.allocate_refused hzero hfit (.inr (Nat.lt_of_not_le hgranted)) [], hadvanced,
        .inl ⟨rfl, hgrown, hkept⟩⟩

/-- What a resize to a nonzero size does when it returns a pointer. -/
abbrev Resized (heap : UserHeap) (bs : List Block) (live : List (Nat × Nat)) (c : Block)
    (newSize pointer : Nat) (heap' : UserHeap) (bs' : List Block) : Prop :=
  Kernel.Resized (· ≤ ·) kMemoryBlockMagic kOSHeapStart heap'.heapCurrentPointer heap'.listHead
    heap.memory bs live c newSize pointer heap'.memory bs'

theorem Layout.reallocate (h : heap.Layout bs live) (hc : c ∈ bs) (hused : c.isFree = false)
    (hnew : newSize ≠ 0) (hround : Roundable newSize)
    (hroom : heap.heapCurrentPointer + granted * kVMPageSize < 2 ^ 64) :
    ∃ pointer heap', heap.memoryReallocate (c.address + sizeofHeader) newSize [granted] =
        some (pointer, heap') ∧ heap.Advanced granted heap' ∧
      ((pointer = 0 ∧ heap'.Layout bs live ∧ PayloadsKept bs heap.memory heap'.memory) ∨
        ∃ bs', heap.Resized bs live c newSize pointer heap' bs') := by
  have harena := h.arena adjacency_le
  have hpointer : c.address + sizeofHeader ≠ 0 := by
    unfold sizeofHeader
    omega
  unfold memoryReallocate
  rw [if_neg hpointer, if_neg hnew, headerOf_payload harena hc]
  cases hplace : resizeInPlace heap.memory c.address newSize with
  | some memory =>
    obtain ⟨bs', hresized⟩ := HeapLayout.resizedInPlace adjacency_le h hc hused hplace
    exact ⟨_, { heap with memory := memory }, rfl, Advanced.rfl, .inr ⟨bs', hresized⟩⟩
  | none =>
    have hsmall := h.lt_of_resizeInPlace hc hplace
    obtain ⟨pointer, heap₁, hsome, hadvanced, hcases⟩ := h.allocate hround hroom
    dsimp only
    rw [hsome, Option.map_some]
    dsimp only
    rcases hcases with ⟨rfl, hlayout, hkept⟩ | ⟨bs₁, halloc⟩
    · exact ⟨0, heap₁, rfl, hadvanced, .inl ⟨rfl, hlayout, hkept⟩⟩
    · obtain ⟨bs₂, hresized⟩ :=
        HeapLayout.move_allocated adjacency_le hc hused hsmall halloc
      rw [if_neg halloc.pointer_ne]
      exact ⟨pointer, ⟨moveBlock heap₁.memory kMemoryBlockMagic pointer (c.address + sizeofHeader),
        heap₁.listHead, heap₁.heapCurrentPointer⟩, rfl, hadvanced, .inr ⟨bs₂, hresized⟩⟩

end UserHeap

end TermOS.Libterm
