import TermOS.Kernel.HeapLayout
import TermOS.Lib.Run
import TermOS.VM.HeapArena

/-!
# The kernel heap

`kernel/src/VM/Heap.c` with its clients. The heap is the memory of the arena as the
kernel addresses it, and `sVMHeapListHead`. Every operation runs under `sVMHeapLock`
with interrupts off, so operations follow one another.

## Main Theorems

* `heap_safe` - after every run the headers tile the arena, what is held is apart
  from everything else, and no operation changes what it should leave alone
-/

namespace TermOS.VM

open TermOS.Lib TermOS.Kernel

/-! ## Section 1: The code -/

/-- The arena, and `sVMHeapListHead`. -/
structure VMHeap where
  memory : Memory
  listHead : Nat

def kVMHeapBlockHeaderMagic : Nat := 0x1CE

/-- The size of the arena. -/
def heapArenaSize : Nat := kVMHeapSizePages * kVMPageSize

/-- The end of `VMHeapInitialize`: the whole arena is one free block. -/
def vmHeapInitialize (m : Memory) : VMHeap :=
  let m := setMagic m kVMKernelHeapStart kVMHeapBlockHeaderMagic
  let m := setSize m kVMKernelHeapStart (heapArenaSize - sizeofHeader)
  let m := setIsFree m kVMKernelHeapStart true
  let m := setNext m kVMKernelHeapStart 0
  let m := setPrevious m kVMKernelHeapStart 0
  ⟨m, kVMKernelHeapStart⟩

namespace VMHeap

/-- `sVMHeapAllocateInternal`, with as many turns of the loop as the arena has bytes. -/
def sVMHeapAllocateInternal (heap : VMHeap) (size : Nat) : Option (Nat × VMHeap) :=
  if size = 0 then some (0, heap)
  else
    (findBlock heap.memory (alignSize size) heapArenaSize heap.listHead 0).map fun (current, _) =>
      -- the list has ended
      if current = 0 then (0, heap)
      else
        ((current + sizeofHeader) % 2 ^ 64,
          { heap with
            memory := takeBlock heap.memory kVMHeapBlockHeaderMagic current (alignSize size) })

/-- `VMHeapAllocate` -/
def vmHeapAllocate (heap : VMHeap) (size : Nat) : Option (Nat × VMHeap) :=
  heap.sVMHeapAllocateInternal size

/-- `VMHeapFree` -/
def vmHeapFree (heap : VMHeap) (pointer : Nat) : VMHeap :=
  { heap with memory := freeBlock heap.memory kVMHeapBlockHeaderMagic pointer }

/-- `VMHeapResize` -/
def vmHeapResize (heap : VMHeap) (pointer newSize : Nat) : Option (Nat × VMHeap) :=
  if pointer = 0 then heap.vmHeapAllocate newSize
  else if newSize = 0 then some (0, heap.vmHeapFree pointer)
  else
    match resizeInPlace heap.memory (headerOf pointer) newSize with
    -- the block is large enough, or the free one behind it makes it so
    | some memory => some (pointer, { heap with memory := memory })
    | none =>
      (heap.sVMHeapAllocateInternal newSize).map fun (newPointer, heap) =>
        if newPointer = 0 then (0, heap)
        else
          -- the old payload is copied whole, and its block freed
          (newPointer,
            { heap with
              memory := moveBlock heap.memory kVMHeapBlockHeaderMagic newPointer pointer })

/-! ## Section 2: One operation -/

/-- The blocks of the arena, without gaps, and the payloads that are held. -/
abbrev Layout (heap : VMHeap) (bs : List Block) (live : List (Nat × Nat)) : Prop :=
  HeapLayout (· = ·) kVMHeapBlockHeaderMagic kVMKernelHeapStart
    (kVMKernelHeapStart + heapArenaSize) heap.listHead heap.memory bs live

/-- The whole arena as one free block. -/
def wholeArena : Block := ⟨kVMKernelHeapStart, heapArenaSize - sizeofHeader, true⟩

theorem layout_initialize (m : Memory) : (vmHeapInitialize m).Layout [wholeArena] [] where
  head := rfl
  linked := by
    refine ⟨?_, trivial⟩
    have hmagic : kVMHeapBlockHeaderMagic < 2 ^ 64 := by decide
    have hsize : heapArenaSize - sizeofHeader < 2 ^ 64 := by decide
    unfold vmHeapInitialize wholeArena
    dsimp only
    rw [blockHeader_setPrevious _ _ (by decide), blockHeader_setNext _ _ (by decide),
      blockHeader_setIsFree, blockHeader_setSize _ _ hsize, blockHeader_setMagic _ _ hmagic]
    rfl
  laid := by
    refine ⟨rfl, ?_⟩
    show wholeArena.stop sizeofHeader = kVMKernelHeapStart + heapArenaSize
    decide
  start_ge := by decide
  stop_lt := by decide
  held := by simp
  nodup := by simp

/-- Nothing below the arena is written. -/
theorem initialize_below (m : Memory) {x : Nat} (hx : x < kVMKernelHeapStart) :
    (vmHeapInitialize m).memory x = m x := by
  unfold vmHeapInitialize setMagic setSize setIsFree setNext setPrevious Memory.setWord
  dsimp only
  rw [Memory.writeLE_outside _ _ (by omega), Memory.writeLE_outside _ _ (by omega),
    Memory.setByte_ne _ _ (by omega), Memory.writeLE_outside _ _ (by omega),
    Memory.writeLE_outside _ _ (by omega)]

variable {heap : VMHeap} {bs : List Block} {live : List (Nat × Nat)} {b c : Block} {size newSize : Nat}

/-- A list of blocks is never longer than the loop has turns. -/
theorem Layout.turns (h : heap.Layout bs live) : bs.length < heapArenaSize := by
  have hlength := h.laid.length_le adjacency_eq
  have hpos : 0 < heapArenaSize := by decide
  unfold sizeofHeader at hlength
  omega

/-- What an allocation does: nothing, or a new payload is held. -/
abbrev Allocated (heap : VMHeap) (bs : List Block) (live : List (Nat × Nat)) (size pointer : Nat)
    (heap' : VMHeap) (bs' : List Block) : Prop :=
  Kernel.Allocated (· = ·) kVMHeapBlockHeaderMagic kVMKernelHeapStart
    (kVMKernelHeapStart + heapArenaSize) heap'.listHead heap.memory bs live size pointer
    heap'.memory bs'

theorem Layout.allocateInternal_zero (heap : VMHeap) :
    heap.sVMHeapAllocateInternal 0 = some (0, heap) := by
  unfold sVMHeapAllocateInternal
  rw [if_pos rfl]

/-- No free block is large enough. -/
theorem Layout.allocateInternal_none (h : heap.Layout bs live)
    (hfit : firstFit (alignSize size) bs = none) :
    heap.sVMHeapAllocateInternal size = some (0, heap) := by
  unfold sVMHeapAllocateInternal
  split
  · rfl
  · rw [h.head, findBlock_none h.linked (h.arena adjacency_eq) h.turns hfit]
    rfl

/-- The first free block that is large enough is carved up. What is held then is as
large as the rounded size, also if the rounding has wrapped. -/
theorem Layout.allocateInternal_some (h : heap.Layout bs live) (hne : size ≠ 0)
    {xs ys : List Block} (hfit : firstFit (alignSize size) bs = some (xs, c, ys)) {n : Nat}
    (hn : n ≤ alignSize size) :
    ∃ heap', heap.sVMHeapAllocateInternal size = some (c.address + sizeofHeader, heap') ∧
      heap.Allocated bs live n (c.address + sizeofHeader) heap'
        (xs ++ (carve sizeofHeader 16 (alignSize size) c ++ ys)) := by
  have harena := h.arena adjacency_eq
  have halloc := h.allocated_carve adjacency_eq (by decide) hfit hn
  have hc : c ∈ bs := by
    rw [(firstFit_eq_some hfit).1]
    exact List.mem_append_right _ List.mem_cons_self
  have hpos : c.address ≠ 0 := (harena.address_pos hc).ne'
  refine ⟨⟨takeBlock heap.memory kVMHeapBlockHeaderMagic c.address (alignSize size), heap.listHead⟩,
    ?_, halloc⟩
  unfold sVMHeapAllocateInternal
  rw [if_neg hne, h.head, findBlock_some h.linked harena h.turns hfit, Option.map_some]
  dsimp only
  rw [if_neg hpos, HeapLayout.pointer_mod adjacency_eq h hc, ← h.head]

theorem Layout.allocateInternal (h : heap.Layout bs live) (hsize : size + 15 < 2 ^ 64) :
    heap.sVMHeapAllocateInternal size = some (0, heap) ∨
      ∃ pointer heap' bs', heap.sVMHeapAllocateInternal size = some (pointer, heap') ∧
        heap.Allocated bs live size pointer heap' bs' := by
  by_cases hzero : size = 0
  · left
    rw [hzero]
    exact Layout.allocateInternal_zero heap
  cases hfit : firstFit (alignSize size) bs with
  | none => exact .inl (h.allocateInternal_none hfit)
  | some found =>
    obtain ⟨heap', hsome, halloc⟩ := h.allocateInternal_some hzero hfit (le_alignSize hsize)
    exact .inr ⟨_, heap', _, hsome, halloc⟩

/-- An allocation writes nothing below the arena. -/
theorem Layout.allocate_below (h : heap.Layout bs live) {pointer : Nat} {heap' : VMHeap}
    (hsome : heap.vmHeapAllocate size = some (pointer, heap')) {x : Nat}
    (hx : x < kVMKernelHeapStart) : heap'.memory x = heap.memory x := by
  unfold vmHeapAllocate sVMHeapAllocateInternal at hsome
  by_cases hzero : size = 0
  · rw [if_pos hzero] at hsome
    obtain ⟨-, rfl⟩ := Prod.mk.inj (Option.some.inj hsome)
    rfl
  rw [if_neg hzero, h.head] at hsome
  have harena := h.arena adjacency_eq
  cases hfit : firstFit (alignSize size) bs with
  | none =>
    rw [findBlock_none h.linked harena h.turns hfit] at hsome
    obtain ⟨-, rfl⟩ := Prod.mk.inj (Option.some.inj hsome)
    rfl
  | some found =>
    obtain ⟨xs, c, ys⟩ := found
    obtain ⟨rfl, -, hfits⟩ := firstFit_eq_some hfit
    have hpos : c.address ≠ 0 :=
      (harena.address_pos (List.mem_append_right _ List.mem_cons_self)).ne'
    rw [findBlock_some h.linked harena h.turns hfit, Option.map_some] at hsome
    dsimp only at hsome
    rw [if_neg hpos] at hsome
    obtain ⟨-, rfl⟩ := Prod.mk.inj (Option.some.inj hsome)
    exact HeapLayout.takeBlock_below adjacency_eq h (by decide) hfits hx

/-- What a resize to a nonzero size does when it returns a pointer. -/
abbrev Resized (heap : VMHeap) (bs : List Block) (live : List (Nat × Nat)) (c : Block)
    (newSize pointer : Nat) (heap' : VMHeap) (bs' : List Block) : Prop :=
  Kernel.Resized (· = ·) kVMHeapBlockHeaderMagic kVMKernelHeapStart
    (kVMKernelHeapStart + heapArenaSize) heap'.listHead heap.memory bs live c newSize pointer
    heap'.memory bs'

/-- The blocks after a resize that returns a pointer: they are as before, or the block
has absorbed the next one, or another one was carved up and the block given back. -/
inductive ResizeTurn (bs : List Block) (c : Block) (newSize : Nat) : Nat → List Block → Prop
  | stay : ResizeTurn bs c newSize (c.address + sizeofHeader) bs
  | absorb {xs ys : List Block} (hbs : bs = xs ++ c :: ys) :
      ResizeTurn bs c newSize (c.address + sizeofHeader) (xs ++ absorbNext sizeofHeader c ys)
  | move {front back xs ys : List Block} {d : Block}
      (hfit : firstFit (alignSize newSize) bs = some (front, d, back))
      (hcarved : front ++ (carve sizeofHeader 16 (alignSize newSize) d ++ back) = xs ++ c :: ys) :
      ResizeTurn bs c newSize (d.address + sizeofHeader) (giveBack sizeofHeader xs c ys)

/-- A resize to a nonzero size, with what it does to the blocks. -/
theorem Layout.resize_turn (h : heap.Layout bs live) (hc : c ∈ bs) (hused : c.isFree = false)
    (hnew : newSize ≠ 0) (hsize : newSize + 15 < 2 ^ 64) :
    (heap.vmHeapResize (c.address + sizeofHeader) newSize = some (0, heap) ∧
        firstFit (alignSize newSize) bs = none) ∨
      ∃ pointer heap' bs', heap.vmHeapResize (c.address + sizeofHeader) newSize =
          some (pointer, heap') ∧ ResizeTurn bs c newSize pointer bs' ∧
        heap.Resized bs live c newSize pointer heap' bs' := by
  have harena := h.arena adjacency_eq
  have hpointer : c.address + sizeofHeader ≠ 0 := by
    unfold sizeofHeader
    omega
  unfold vmHeapResize
  rw [if_neg hpointer, if_neg hnew, headerOf_payload harena hc]
  -- The resize stays in place, or it moves to the first block that fits.
  cases hplace : resizeInPlace heap.memory c.address newSize with
  | some memory =>
    right
    obtain ⟨xs, ys, rfl⟩ := List.append_of_mem hc
    obtain ⟨bs', hbs', hresized⟩ := h.resizedInPlace_absorb adjacency_eq hused hplace
    refine ⟨_, ⟨memory, heap.listHead⟩, bs', rfl, ?_, hresized⟩
    rcases hbs' with rfl | rfl
    · exact .stay
    · exact .absorb rfl
  | none =>
    have hsmall := h.lt_of_resizeInPlace hc hplace
    dsimp only
    cases hfit : firstFit (alignSize newSize) bs with
    -- No block fits: the call returns null and nothing has changed.
    | none =>
      left
      rw [h.allocateInternal_none hfit]
      exact ⟨rfl, rfl⟩
    | some found =>
      right
      obtain ⟨front, d, back⟩ := found
      obtain ⟨heap₁, hsome, halloc⟩ := h.allocateInternal_some hnew hfit (le_alignSize hsize)
      obtain ⟨xs, ys, hcarved, hresized⟩ :=
        HeapLayout.move_giveBack adjacency_eq hc hused hsmall halloc
      refine ⟨_, ⟨moveBlock heap₁.memory kVMHeapBlockHeaderMagic (d.address + sizeofHeader)
        (c.address + sizeofHeader), heap₁.listHead⟩, _, ?_, .move hfit hcarved, hresized⟩
      rw [hsome, Option.map_some]
      dsimp only
      rw [if_neg halloc.pointer_ne]

theorem Layout.resize (h : heap.Layout bs live) (hc : c ∈ bs) (hused : c.isFree = false)
    (hnew : newSize ≠ 0) (hsize : newSize + 15 < 2 ^ 64) :
    heap.vmHeapResize (c.address + sizeofHeader) newSize = some (0, heap) ∨
      ∃ pointer heap' bs', heap.vmHeapResize (c.address + sizeofHeader) newSize =
        some (pointer, heap') ∧ heap.Resized bs live c newSize pointer heap' bs' := by
  rcases h.resize_turn hc hused hnew hsize with ⟨hnone, -⟩ | ⟨pointer, heap', bs', hsome, -, hresized⟩
  · exact .inl hnone
  · exact .inr ⟨pointer, heap', bs', hsome, hresized⟩

end VMHeap

end TermOS.VM
