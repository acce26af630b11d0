import Mathlib.Data.Finset.Card
import Mathlib.Order.Interval.Finset.Nat
import TermOS.Lib.Bitmap
import TermOS.Lib.Stride

/-!
# Physical memory manager

Model of `kernel/src/VM/PMM.c`. The free-frame bitmap is a list of bytes,
`gVMPhycalMemoryBitmap[0 .. gVMPhycalMemoryBitmapSize)`; a clear bit is a free
frame. Addresses are natural numbers and arithmetic on 64-bit values read from
the firmware memory map wraps explicitly.

The spinlock brackets of the source do not appear: each operation runs with
interrupts disabled on one CPU and is one step here.
-/

namespace TermOS.VM

open TermOS.Lib

/-! ## Section 1: Constants and bitmap macros -/

def kVMPageSize : Nat := 4096
def kVMSafeSpaceStartAddress : Nat := 0x100000
def kVMBlocksPerByte : Nat := 8

/-- Arithmetic on `UInt64`. -/
def wrap64 (n : Nat) : Nat := n % 2 ^ 64

theorem wrap64_of_lt {n : Nat} (h : n < 2 ^ 64) : wrap64 n = n := Nat.mod_eq_of_lt h

/-- `BITMAP_BYTE_INDEX` -/
def bitmapByteIndex (address : Nat) : Nat := address / kVMPageSize / kVMBlocksPerByte

/-- `BITMAP_BIT_OFFSET` -/
def bitmapBitOffset (address : Nat) : Nat := address / kVMPageSize % kVMBlocksPerByte

/-- `BITMAP_SET` -/
def bitmapSet (bitmap : List UInt8) (address : Nat) : List UInt8 :=
  bitmap.modify (bitmapByteIndex address) fun b => b ||| (1 <<< UInt8.ofNat (bitmapBitOffset address))

/-- `BITMAP_UNSET` -/
def bitmapUnset (bitmap : List UInt8) (address : Nat) : List UInt8 :=
  bitmap.modify (bitmapByteIndex address)
    fun b => b &&& ~~~(1 <<< UInt8.ofNat (bitmapBitOffset address))

theorem bitmapSet_eq (bitmap : List UInt8) (address : Nat) :
    bitmapSet bitmap address = Bitmap.set bitmap (address / kVMPageSize) := rfl

theorem bitmapUnset_eq (bitmap : List UInt8) (address : Nat) :
    bitmapUnset bitmap address = Bitmap.clear bitmap (address / kVMPageSize) := rfl

/-! ## Section 2: The firmware memory map -/

/-- `OSMemoryType`; a descriptor's `type` field is a raw `UInt32`. -/
inductive OSMemoryType where
  | reserved
  | loaderCode
  | loaderData
  | bootServicesCode
  | bootServicesData
  | runtimeServicesCode
  | runtimeServicesData
  | conventional
  | unusable
  | acpiReclaim
  | acpiNonVolatile
  | mappedIo
  | mappedIOPortSpace
  | palCode
  | persistent
  | other (code : UInt32)
  deriving DecidableEq, Repr

/-- The types that the first pass of `VMPhysicalMemoryInitialize` skips. -/
def OSMemoryType.skipped : OSMemoryType → Bool
  | .mappedIo | .mappedIOPortSpace | .unusable | .reserved | .palCode => true
  | _ => false

/-- `OSMemoryDescriptor` -/
structure OSMemoryDescriptor where
  type : OSMemoryType
  physicalStart : Nat
  pageCount : Nat
  deriving DecidableEq, Repr

namespace OSMemoryDescriptor

/-- `descriptor->pageCount * kVMPageSize` -/
def byteCount (d : OSMemoryDescriptor) : Nat := wrap64 (d.pageCount * kVMPageSize)

/-- `descriptor->physicalStart + (descriptor->pageCount * kVMPageSize)` -/
def endAddress (d : OSMemoryDescriptor) : Nat := wrap64 (d.physicalStart + d.byteCount)

/-- The address lies in the range that the descriptor describes. -/
def Contains (d : OSMemoryDescriptor) (address : Nat) : Prop :=
  d.physicalStart ≤ address ∧ address < d.physicalStart + d.pageCount * kVMPageSize

end OSMemoryDescriptor

/-- `KERNEL_VMA` -/
def kernelVMA : Nat := 0xFFFFFFFF80000000

/-- `KERNEL_VIRT_TO_PHYS` -/
def kernelVirtToPhys (virt : Nat) : Nat := wrap64 (virt + 2 ^ 64 - kernelVMA)

/-- The kernel image. The linker script puts `_kernel_start` at a fixed place;
`_kernel_end` depends on the build. Both are virtual addresses. -/
structure KernelImage where
  kernelEnd : Nat
  deriving DecidableEq, Repr

/-- `_kernel_start` -/
def KernelImage.kernelStart (_ : KernelImage) : Nat := kernelVMA + 0x100000

/-! ## Section 3: `VMPhysicalMemoryInitialize` -/

/-- The state of the physical memory manager. `gVMPhycalMemoryBitmapSize` is
the length of `bitmap`. -/
structure VMPhysicalMemory where
  bitmapAddress : Nat
  bitmap : List UInt8
  totalMemorySize : Nat
  deriving DecidableEq, Repr

/-- The body of the first pass: `nominee` replaces the maximum when it is larger. -/
def raiseMaximum (highest : Nat) (d : OSMemoryDescriptor) : Nat :=
  if d.type.skipped then highest
  else if d.endAddress > highest then d.endAddress
  else highest

/-- First pass: the end of the highest descriptor that is not skipped. -/
def maxPhysicalAddress (memoryMap : List OSMemoryDescriptor) : Nat :=
  memoryMap.foldl raiseMaximum 0

/-- `bitmapSize`, one bit for each page below `maxPhysicalAddress`. -/
def bitmapSize (memoryMap : List OSMemoryDescriptor) : Nat :=
  (maxPhysicalAddress memoryMap / kVMPageSize + 7) / 8

/-- Second pass: the first descriptor that can hold the bitmap. -/
def bitmapHostDescriptor (memoryMap : List OSMemoryDescriptor) : Option OSMemoryDescriptor :=
  memoryMap.find? fun d =>
    d.type == .conventional && decide (bitmapSize memoryMap ≤ d.byteCount) &&
      decide (kVMSafeSpaceStartAddress ≤ d.physicalStart)

/-- One `BITMAP_SET` or `BITMAP_UNSET`. -/
inductive BitmapOperation where
  | set (address : Nat)
  | unset (address : Nat)
  deriving DecidableEq, Repr

namespace BitmapOperation

def address : BitmapOperation → Nat
  | .set address => address
  | .unset address => address

def apply (bitmap : List UInt8) : BitmapOperation → List UInt8
  | .set address => bitmapSet bitmap address
  | .unset address => bitmapUnset bitmap address

end BitmapOperation

/-- The addresses of `for (addr = start; addr < stop; addr += kVMPageSize)`. -/
def pageLoop (start stop : Nat) : List Nat := stride kVMPageSize start stop

/-- Third pass and the three reserving loops, in source order: every bitmap
operation that `VMPhysicalMemoryInitialize` performs after `MemorySet`. -/
def initializeOperations (memoryMap : List OSMemoryDescriptor) (image : KernelImage)
    (bitmapStart bitmapEnd : Nat) : List BitmapOperation :=
  -- what the firmware calls conventional is free
  (memoryMap.filter (·.type == .conventional)).flatMap
      (fun d => (pageLoop d.physicalStart d.endAddress).map .unset) ++
    -- but for the low memory, the image and the bitmap itself
    (pageLoop 0 kVMSafeSpaceStartAddress).map .set ++
    (pageLoop (kernelVirtToPhys image.kernelStart) (kernelVirtToPhys image.kernelEnd)).map .set ++
    (pageLoop bitmapStart bitmapEnd).map .set

/-- `VMPhysicalMemoryInitialize`; `none` is the panic "Not enough RAM for
memory bitmap!". -/
def vmPhysicalMemoryInitialize (memoryMap : List OSMemoryDescriptor) (image : KernelImage) :
    Option VMPhysicalMemory :=
  (bitmapHostDescriptor memoryMap).map fun host =>
    let bitmapStart := host.physicalStart
    let bitmapEnd := wrap64 (bitmapStart + bitmapSize memoryMap)
    { bitmapAddress := bitmapStart
      -- `MemorySet` with 0xFF, then bit after bit
      bitmap := (initializeOperations memoryMap image bitmapStart bitmapEnd).foldl
        BitmapOperation.apply (List.replicate (bitmapSize memoryMap) 0xFF)
      totalMemorySize := maxPhysicalAddress memoryMap }

/-! ## Section 4: Allocating and freeing frames -/

/-- The inner loop of `VMPhysicalMemoryAllocatePage`: the first clear bit of a byte. -/
def scanByte (byte : UInt8) : Option Nat :=
  (List.range 8).find? fun bit => byte &&& (1 <<< UInt8.ofNat bit) == 0

/-- The outer loop of `VMPhysicalMemoryAllocatePage`, from byte `i` on: the
first clear bit, as a frame number. -/
def scanBitmap : Nat → List UInt8 → Option Nat
  | _, [] => none
  | i, byte :: rest =>
    -- all eight frames are in use
    if byte = 0xFF then scanBitmap (i + 1) rest
    else
      match scanByte byte with
      | some bit => some (i * 8 + bit)
      | none => scanBitmap (i + 1) rest

/-- `VMPhysicalMemoryAllocatePage`: the address of the page and the new state.
Address 0 is the null pointer. -/
def vmPhysicalMemoryAllocatePage (pm : VMPhysicalMemory) : Nat × VMPhysicalMemory :=
  match scanBitmap 0 pm.bitmap with
  | some frame =>
    let address := frame * kVMPageSize
    (address, { pm with bitmap := bitmapSet pm.bitmap address })
  | none => (0, pm)

/-- `VMPhysicalMemoryFreePage` -/
def vmPhysicalMemoryFreePage (pm : VMPhysicalMemory) (address : Nat) : VMPhysicalMemory :=
  { pm with bitmap := bitmapUnset pm.bitmap address }

/-! ## Section 5: Free frames -/

/-- Frame `frame` is free: its bitmap bit is 0. -/
def VMPhysicalMemory.FrameFree (pm : VMPhysicalMemory) (frame : Nat) : Prop :=
  Bitmap.test pm.bitmap frame = false

instance (pm : VMPhysicalMemory) (frame : Nat) : Decidable (pm.FrameFree frame) :=
  inferInstanceAs (Decidable (_ = _))

theorem VMPhysicalMemory.FrameFree.lt {pm : VMPhysicalMemory} {frame : Nat}
    (h : pm.FrameFree frame) : frame / 8 < pm.bitmap.length := by
  by_contra hge
  rw [FrameFree, Bitmap.test_of_length_le (by omega)] at h
  exact absurd h (by decide)

/-- The free frames. -/
def VMPhysicalMemory.freeFrames (pm : VMPhysicalMemory) : Finset Nat :=
  (Finset.range (8 * pm.bitmap.length)).filter pm.FrameFree

/-- How many frames are free. -/
def VMPhysicalMemory.freeCount (pm : VMPhysicalMemory) : Nat := pm.freeFrames.card

theorem mem_freeFrames {pm : VMPhysicalMemory} {frame : Nat} :
    frame ∈ pm.freeFrames ↔ pm.FrameFree frame := by
  rw [VMPhysicalMemory.freeFrames, Finset.mem_filter, Finset.mem_range]
  refine ⟨fun h => h.2, fun h => ⟨?_, h⟩⟩
  have := h.lt
  omega

theorem freeCount_eq_zero_iff {pm : VMPhysicalMemory} :
    pm.freeCount = 0 ↔ ∀ frame, ¬ pm.FrameFree frame := by
  simp only [VMPhysicalMemory.freeCount, Finset.card_eq_zero, Finset.eq_empty_iff_forall_notMem,
    mem_freeFrames]

theorem freeCount_le_of_free {pm pm' : VMPhysicalMemory}
    (h : ∀ frame, pm'.FrameFree frame → pm.FrameFree frame) : pm'.freeCount ≤ pm.freeCount :=
  Finset.card_le_card fun frame hframe => mem_freeFrames.mpr (h frame (mem_freeFrames.mp hframe))

/-- Free frames below `bound` number at most `bound`. -/
theorem freeCount_le_of_lt {pm : VMPhysicalMemory} {bound : Nat}
    (h : ∀ frame, pm.FrameFree frame → frame < bound) : pm.freeCount ≤ bound := by
  have hsub : pm.freeFrames ⊆ Finset.range bound := fun frame hframe =>
    Finset.mem_range.mpr (h frame (mem_freeFrames.mp hframe))
  calc pm.freeCount ≤ (Finset.range bound).card := Finset.card_le_card hsub
    _ = bound := Finset.card_range bound

/-- A range of free frames is counted in full. -/
theorem le_freeCount_of_range {pm : VMPhysicalMemory} {first count : Nat}
    (h : ∀ frame, first ≤ frame → frame < first + count → pm.FrameFree frame) :
    count ≤ pm.freeCount := by
  have hsub : Finset.Ico first (first + count) ⊆ pm.freeFrames := by
    intro frame hframe
    obtain ⟨hle, hlt⟩ := Finset.mem_Ico.mp hframe
    exact mem_freeFrames.mpr (h frame hle hlt)
  calc count = (Finset.Ico first (first + count)).card := by simp
    _ ≤ pm.freeCount := Finset.card_le_card hsub

/-- Taking one free frame away leaves one fewer. -/
theorem freeCount_of_erase {pm pm' : VMPhysicalMemory} {frame : Nat} (hfree : pm.FrameFree frame)
    (h : ∀ other, pm'.FrameFree other ↔ pm.FrameFree other ∧ other ≠ frame) :
    pm.freeCount = pm'.freeCount + 1 := by
  have herase : pm'.freeFrames = pm.freeFrames.erase frame := by
    ext other
    rw [Finset.mem_erase, mem_freeFrames, mem_freeFrames, h other]
    tauto
  rw [VMPhysicalMemory.freeCount, VMPhysicalMemory.freeCount, herase,
    Finset.card_erase_add_one (mem_freeFrames.mpr hfree)]

theorem scanByte_eq_some {byte : UInt8} {bit : Nat} (h : scanByte byte = some bit) :
    bit < 8 ∧ byte.toNat.testBit bit = false ∧
      ∀ k, k < bit → byte.toNat.testBit k = true := by
  rw [scanByte, List.find?_range_eq_some] at h
  obtain ⟨hbit, hlt, hbefore⟩ := h
  have hlt' : bit < 8 := List.mem_range.mp hlt
  refine ⟨hlt', ?_, fun k hk => ?_⟩
  · rwa [beq_iff_eq, Bitmap.and_bit_eq_zero_iff _ hlt'] at hbit
  · have := hbefore k hk
    rw [Bool.not_eq_true', beq_eq_false_iff_ne, ne_eq,
      Bitmap.and_bit_eq_zero_iff _ (by omega)] at this
    simpa using this

theorem scanByte_isSome {byte : UInt8} (h : byte ≠ 0xFF) : ∃ bit, scanByte byte = some bit := by
  obtain ⟨k, hk, hbit⟩ := Bitmap.exists_clear_bit h
  rw [← Option.isSome_iff_exists, scanByte, List.find?_isSome]
  refine ⟨k, List.mem_range.mpr hk, ?_⟩
  rw [beq_iff_eq, Bitmap.and_bit_eq_zero_iff _ hk]
  exact hbit

/-- The scan finds the lowest clear bit. -/
theorem scanBitmap_eq_some {i : Nat} {bytes : List UInt8} {frame : Nat}
    (h : scanBitmap i bytes = some frame) :
    i * 8 ≤ frame ∧ Bitmap.test bytes (frame - i * 8) = false ∧
      ∀ j, j < frame - i * 8 → Bitmap.test bytes j = true := by
  induction bytes generalizing i with
  | nil => simp [scanBitmap] at h
  | cons byte rest ih =>
    by_cases hfull : byte = 0xFF
    · rw [scanBitmap, if_pos hfull] at h
      obtain ⟨hle, hclear, hlow⟩ := ih h
      refine ⟨by omega, ?_, fun j hj => ?_⟩
      · rw [Bitmap.test_cons, if_neg (by omega)]
        rwa [show frame - i * 8 - 8 = frame - (i + 1) * 8 by omega]
      · rw [Bitmap.test_cons]
        split
        · next hj8 =>
          rw [hfull]
          interval_cases j <;> rfl
        · exact hlow (j - 8) (by omega)
    · obtain ⟨bit, hbit⟩ := scanByte_isSome hfull
      rw [scanBitmap, if_neg hfull, hbit] at h
      obtain ⟨hlt, hclear, hlow⟩ := scanByte_eq_some hbit
      have hframe : frame = i * 8 + bit := (Option.some.inj h).symm
      subst hframe
      refine ⟨by omega, ?_, fun j hj => ?_⟩
      · rw [Bitmap.test_cons, if_pos (by omega), Nat.add_sub_cancel_left]
        exact hclear
      · rw [Bitmap.test_cons, if_pos (by omega)]
        exact hlow j (by omega)

/-- The scan fails only when every bit is set. -/
theorem scanBitmap_eq_none {i : Nat} {bytes : List UInt8} (h : scanBitmap i bytes = none)
    (j : Nat) : Bitmap.test bytes j = true := by
  induction bytes generalizing i j with
  | nil => exact Bitmap.test_of_length_le (by simp)
  | cons byte rest ih =>
    by_cases hfull : byte = 0xFF
    · rw [scanBitmap, if_pos hfull] at h
      rw [Bitmap.test_cons]
      split
      · next hj =>
        rw [hfull]
        interval_cases j <;> rfl
      · exact ih h (j - 8)
    · obtain ⟨bit, hbit⟩ := scanByte_isSome hfull
      rw [scanBitmap, if_neg hfull, hbit] at h
      exact absurd h (by simp)

/-- What `VMPhysicalMemoryAllocatePage` does: either nothing is free and it
returns null, or it takes the lowest free frame. -/
theorem allocatePage_cases (pm : VMPhysicalMemory) :
    ((∀ frame, ¬ pm.FrameFree frame) ∧ vmPhysicalMemoryAllocatePage pm = (0, pm)) ∨
    ∃ frame, pm.FrameFree frame ∧ (∀ lower, lower < frame → ¬ pm.FrameFree lower) ∧
      (vmPhysicalMemoryAllocatePage pm).1 = frame * kVMPageSize ∧
      (vmPhysicalMemoryAllocatePage pm).2.totalMemorySize = pm.totalMemorySize ∧
      (vmPhysicalMemoryAllocatePage pm).2.bitmapAddress = pm.bitmapAddress ∧
      (vmPhysicalMemoryAllocatePage pm).2.bitmap.length = pm.bitmap.length ∧
      ∀ other, (vmPhysicalMemoryAllocatePage pm).2.FrameFree other ↔
        pm.FrameFree other ∧ other ≠ frame := by
  cases hscan : scanBitmap 0 pm.bitmap with
  | none =>
    refine .inl ⟨fun frame hfree => ?_, by simp [vmPhysicalMemoryAllocatePage, hscan]⟩
    rw [VMPhysicalMemory.FrameFree, scanBitmap_eq_none hscan] at hfree
    exact absurd hfree (by decide)
  | some frame =>
    obtain ⟨-, hclear, hlow⟩ := scanBitmap_eq_some hscan
    simp only [Nat.zero_mul, Nat.sub_zero] at hclear hlow
    have hfree : pm.FrameFree frame := hclear
    refine .inr ⟨frame, hfree, fun lower hlt hlower => ?_, ?_⟩
    · rw [VMPhysicalMemory.FrameFree, hlow lower hlt] at hlower
      exact absurd hlower (by decide)
    · simp only [vmPhysicalMemoryAllocatePage, hscan, bitmapSet_eq, kVMPageSize,
        Nat.mul_div_cancel _ (show 0 < 4096 by omega), Bitmap.length_set, true_and]
      intro other
      simp [VMPhysicalMemory.FrameFree, Bitmap.test_set hfree.lt]

end TermOS.VM
