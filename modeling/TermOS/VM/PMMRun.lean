import TermOS.Lib.Run
import TermOS.VM.PMMInitialize

/-!
# Runs of the page-frame allocator

Over whole runs of `VMPhysicalMemoryAllocatePage` and
`VMPhysicalMemoryFreePage`, the bitmap implements a set of frames: those that
initialisation left free, without those that are held.
-/

namespace TermOS.VM

open TermOS.Lib

/-! ## Section 1: Bounds of the free frames -/

theorem maxPhysicalAddress_lt (memoryMap : List OSMemoryDescriptor) :
    maxPhysicalAddress memoryMap < 2 ^ 64 := by
  have hraise : ∀ highest d, highest < 2 ^ 64 → raiseMaximum highest d < 2 ^ 64 := by
    intro highest d h
    have hend : d.endAddress < 2 ^ 64 := Nat.mod_lt _ (by decide)
    unfold raiseMaximum
    split
    · exact h
    · split
      · exact hend
      · exact h
  have hfold : ∀ (ds : List OSMemoryDescriptor) highest, highest < 2 ^ 64 →
      ds.foldl raiseMaximum highest < 2 ^ 64 := by
    intro ds
    induction ds with
    | nil => exact fun _ h => h
    | cons d ds ih => exact fun _ h => ih _ (hraise _ d h)
  exact hfold memoryMap 0 (by decide)

/-- A frame number of the bitmap is the number of a 64-bit address. -/
theorem frame_lt_of_initialize {memoryMap : List OSMemoryDescriptor} {image : KernelImage}
    {pm : VMPhysicalMemory} (h : vmPhysicalMemoryInitialize memoryMap image = some pm) {frame : Nat}
    (hframe : frame / 8 < pm.bitmap.length) : frame * kVMPageSize < 2 ^ 64 := by
  obtain ⟨host, -, rfl⟩ := Option.map_eq_some_iff.mp h
  have hmax := maxPhysicalAddress_lt memoryMap
  simp only [length_foldl_apply, List.length_replicate, bitmapSize, kVMPageSize] at hframe ⊢
  omega

/-- `BITMAP_SET` leaves its own bit set, in bounds or not. -/
theorem test_bitmapSet_self (bitmap : List UInt8) (address : Nat) :
    Bitmap.test (bitmapSet bitmap address) (address / kVMPageSize) = true := by
  rw [bitmapSet_eq]
  by_cases hin : address / kVMPageSize / 8 < bitmap.length
  · rw [Bitmap.test_set hin]
    simp
  · exact Bitmap.test_of_length_le (by rw [Bitmap.length_set]; omega)

/-- `BITMAP_SET` clears no bit. -/
theorem test_bitmapSet_of_test {bitmap : List UInt8} {frame : Nat}
    (h : Bitmap.test bitmap frame = true) (address : Nat) :
    Bitmap.test (bitmapSet bitmap address) frame = true := by
  rw [bitmapSet_eq]
  by_cases hin : address / kVMPageSize / 8 < bitmap.length
  · rw [Bitmap.test_set hin, h, Bool.true_or]
  · rwa [Bitmap.set, List.modify_eq_self (by omega)]

theorem test_foldl_set_of_or {addresses : List Nat} {frame : Nat} :
    ∀ {bitmap : List UInt8},
      Bitmap.test bitmap frame = true ∨ (∃ a ∈ addresses, a / kVMPageSize = frame) →
      Bitmap.test ((addresses.map BitmapOperation.set).foldl BitmapOperation.apply bitmap) frame =
        true := by
  induction addresses with
  | nil =>
    rintro bitmap (h | ⟨a, ha, -⟩)
    · exact h
    · exact absurd ha (by simp)
  | cons first rest ih =>
    rintro bitmap (h | ⟨a, ha, rfl⟩)
    · exact ih (.inl (test_bitmapSet_of_test h first))
    · rcases List.mem_cons.mp ha with rfl | ha
      · exact ih (.inl (test_bitmapSet_self bitmap a))
      · exact ih (.inr ⟨a, ha, rfl⟩)

/-- Frame 0 is reserved whatever the memory map: no `BITMAP_UNSET` follows the
loop that reserves the first megabyte. -/
theorem not_frameFree_zero {memoryMap : List OSMemoryDescriptor} {image : KernelImage}
    {pm : VMPhysicalMemory} (h : vmPhysicalMemoryInitialize memoryMap image = some pm) :
    ¬ pm.FrameFree 0 := by
  obtain ⟨host, -, rfl⟩ := Option.map_eq_some_iff.mp h
  simp only [VMPhysicalMemory.FrameFree, initializeOperations, List.foldl_append, Bool.not_eq_false]
  have hlow : ∃ a ∈ pageLoop 0 kVMSafeSpaceStartAddress, a / kVMPageSize = 0 :=
    ⟨0, by decide +kernel, by decide⟩
  exact test_foldl_set_of_or (.inl (test_foldl_set_of_or (.inl (test_foldl_set_of_or (.inr hlow)))))

/-! ## Section 2: Calls and runs -/

/-- A call of the allocator. -/
inductive PMMCall where
  | allocatePage
  | freePage (address : Nat)
  deriving DecidableEq, Repr

/-- The allocator and the pages that its callers hold. -/
structure PMMState where
  pm : VMPhysicalMemory
  held : List Nat

namespace PMMState

/-- The state after a call. A page is held from the call that returns it to the
call that frees it. -/
def step (σ : PMMState) : PMMCall → PMMState
  | .allocatePage =>
    let (address, pm) := vmPhysicalMemoryAllocatePage σ.pm
    { pm, held := if address = 0 then σ.held else address :: σ.held }
  | .freePage address =>
    { pm := vmPhysicalMemoryFreePage σ.pm address, held := σ.held.erase address }

/-- Only held pages are freed. -/
def Permitted (σ : PMMState) : PMMCall → Prop
  | .allocatePage => True
  | .freePage address => address ∈ σ.held

/-! ## Section 3: The free set -/

/-- The bitmap stands for the frames that were free at the start, without the
held ones; held pages are pages that were free at the start. -/
structure Tracks (start : VMPhysicalMemory) (σ : PMMState) : Prop where
  length_eq : σ.pm.bitmap.length = start.bitmap.length
  free_iff : ∀ frame, σ.pm.FrameFree frame ↔
    start.FrameFree frame ∧ frame * kVMPageSize ∉ σ.held
  held_free : ∀ address ∈ σ.held, ∃ frame, address = frame * kVMPageSize ∧ start.FrameFree frame
  held_nodup : σ.held.Nodup

variable {start : VMPhysicalMemory} {σ : PMMState}

theorem address_inj {frame other : Nat} :
    frame * kVMPageSize = other * kVMPageSize ↔ frame = other := by
  simp only [kVMPageSize]
  omega

theorem frame_ne_zero (hzero : ¬ start.FrameFree 0) {frame : Nat} (h : start.FrameFree frame) :
    frame * kVMPageSize ≠ 0 := by
  have hne : frame ≠ 0 := by
    rintro rfl
    exact hzero h
  simp only [kVMPageSize]
  omega

/-- Freeing a held page frees its frame and nothing else. -/
theorem Tracks.freePage_free_iff (h : Tracks start σ) {address : Nat} (hheld : address ∈ σ.held) :
    ¬ σ.pm.FrameFree (address / kVMPageSize) ∧
    ∀ frame, (vmPhysicalMemoryFreePage σ.pm address).FrameFree frame ↔
      σ.pm.FrameFree frame ∨ frame = address / kVMPageSize := by
  obtain ⟨f, rfl, hf⟩ := h.held_free address hheld
  have hdiv : f * kVMPageSize / kVMPageSize = f := Nat.mul_div_cancel _ (by decide)
  have hin : f / 8 < σ.pm.bitmap.length := h.length_eq ▸ hf.lt
  rw [hdiv]
  refine ⟨fun hfree => ((h.free_iff f).mp hfree).2 hheld, fun frame => ?_⟩
  rw [VMPhysicalMemory.FrameFree, VMPhysicalMemory.FrameFree, vmPhysicalMemoryFreePage,
    bitmapUnset_eq, hdiv, Bitmap.test_clear hin, Bool.and_eq_false_iff, decide_eq_false_iff_not,
    not_not]

theorem Tracks.allocatePage (h : Tracks start σ) (hzero : ¬ start.FrameFree 0) :
    Tracks start (σ.step .allocatePage) := by
  rcases allocatePage_cases σ.pm with ⟨-, heq⟩ | ⟨f, hf, -, haddress, -, -, hlength, hfree⟩
  · simp only [step, heq, if_true]
    exact h
  · obtain ⟨hstart, hnotHeld⟩ := (h.free_iff f).mp hf
    have hne := frame_ne_zero hzero hstart
    simp only [step, haddress, if_neg hne]
    refine ⟨hlength.trans h.length_eq, fun frame => ?_, ?_, List.nodup_cons.mpr ⟨hnotHeld, h.held_nodup⟩⟩
    · rw [hfree, h.free_iff, List.mem_cons, address_inj, not_or]
      exact ⟨fun ⟨⟨hs, hn⟩, hne⟩ => ⟨hs, hne, hn⟩, fun ⟨hs, hne, hn⟩ => ⟨⟨hs, hn⟩, hne⟩⟩
    · intro address hmem
      rcases List.mem_cons.mp hmem with rfl | hmem
      · exact ⟨f, rfl, hstart⟩
      · exact h.held_free address hmem

theorem Tracks.freePage (h : Tracks start σ) {address : Nat} (hheld : address ∈ σ.held) :
    Tracks start (σ.step (.freePage address)) := by
  obtain ⟨f, rfl, hf⟩ := h.held_free address hheld
  have hdiv : f * kVMPageSize / kVMPageSize = f := Nat.mul_div_cancel _ (by decide)
  obtain ⟨-, hfree⟩ := h.freePage_free_iff hheld
  rw [hdiv] at hfree
  simp only [step]
  refine ⟨(Bitmap.length_clear _ _).trans h.length_eq, fun frame => ?_, fun address hmem =>
    h.held_free address (List.mem_of_mem_erase hmem), h.held_nodup.erase _⟩
  -- a held page occurs once, so it is no longer held
  rw [hfree, h.free_iff, h.held_nodup.mem_erase_iff, ne_eq, address_inj]
  by_cases hframe : frame = f
  · subst hframe
    simp [hf]
  · simp [hframe]

theorem Tracks.step (h : Tracks start σ) (hzero : ¬ start.FrameFree 0) {call : PMMCall}
    (hcall : σ.Permitted call) : Tracks start (σ.step call) := by
  cases call with
  | allocatePage => exact h.allocatePage hzero
  | freePage address => exact h.freePage hcall

theorem tracks_start (start : VMPhysicalMemory) : Tracks start ⟨start, []⟩ where
  length_eq := rfl
  free_iff := by simp
  held_free := by simp
  held_nodup := List.nodup_nil

/-- What holds after every run. -/
theorem tracks_of_run (hzero : ¬ start.FrameFree 0) {calls : List PMMCall}
    (hrun : Run Permitted PMMState.step ⟨start, []⟩ calls σ) : Tracks start σ :=
  hrun.invariant (fun _ _ h hcall => h.step hzero hcall) (tracks_start start)

/-! ## Section 4: Every call of every run -/

/-- After any run from initialisation in which only held pages are freed, an
allocation returns the lowest free frame, which is neither held nor reserved,
and takes that frame alone; it returns null exactly when no frame is free, and
then changes nothing; and freeing a held page frees its frame alone. -/
theorem physicalMemory_run (memoryMap : List OSMemoryDescriptor) (image : KernelImage)
    (pm : VMPhysicalMemory) (hpm : vmPhysicalMemoryInitialize memoryMap image = some pm)
    (calls : List PMMCall) (σ : PMMState)
    (hrun : Run Permitted PMMState.step ⟨pm, []⟩ calls σ) :
    ((vmPhysicalMemoryAllocatePage σ.pm).1 = 0 ↔ ∀ frame, ¬ σ.pm.FrameFree frame) ∧
    ((vmPhysicalMemoryAllocatePage σ.pm).1 = 0 → (vmPhysicalMemoryAllocatePage σ.pm).2 = σ.pm) ∧
    ((vmPhysicalMemoryAllocatePage σ.pm).1 ≠ 0 → ∃ frame,
      (vmPhysicalMemoryAllocatePage σ.pm).1 = frame * kVMPageSize ∧
      frame * kVMPageSize < 2 ^ 64 ∧ σ.pm.FrameFree frame ∧
      (∀ lower, lower < frame → ¬ σ.pm.FrameFree lower) ∧
      frame * kVMPageSize ∉ σ.held ∧ pm.FrameFree frame ∧
      ∀ other, (vmPhysicalMemoryAllocatePage σ.pm).2.FrameFree other ↔
        σ.pm.FrameFree other ∧ other ≠ frame) ∧
    (∀ address ∈ σ.held, ¬ σ.pm.FrameFree (address / kVMPageSize) ∧
      ∀ frame, (vmPhysicalMemoryFreePage σ.pm address).FrameFree frame ↔
        σ.pm.FrameFree frame ∨ frame = address / kVMPageSize) ∧
    ∀ frame, σ.pm.FrameFree frame ↔ pm.FrameFree frame ∧ frame * kVMPageSize ∉ σ.held := by
  have hzero := not_frameFree_zero hpm
  have h := tracks_of_run hzero hrun
  have hfreed : ∀ address ∈ σ.held, ¬ σ.pm.FrameFree (address / kVMPageSize) ∧
      ∀ frame, (vmPhysicalMemoryFreePage σ.pm address).FrameFree frame ↔
        σ.pm.FrameFree frame ∨ frame = address / kVMPageSize :=
    fun address hheld => h.freePage_free_iff hheld
  rcases allocatePage_cases σ.pm with ⟨hnone, heq⟩ | ⟨f, hf, hlow, haddress, -, -, -, hfree⟩
  · rw [heq]
    exact ⟨⟨fun _ => hnone, fun _ => rfl⟩, fun _ => rfl, fun hne => absurd rfl hne, hfreed,
      h.free_iff⟩
  · obtain ⟨hstart, hnotHeld⟩ := (h.free_iff f).mp hf
    have hne := frame_ne_zero hzero hstart
    rw [haddress]
    refine ⟨⟨fun h0 => absurd h0 hne, fun hnone => absurd hf (hnone f)⟩, fun h0 => absurd h0 hne,
      fun _ => ⟨f, rfl, frame_lt_of_initialize hpm hstart.lt, hf, hlow, hnotHeld, hstart, hfree⟩,
      hfreed, h.free_iff⟩

/-- A run on the small machine: allocate a page, free it, allocate again. -/
theorem physicalMemory_run_small : ∃ pm σ,
    vmPhysicalMemoryInitialize smallMemoryMap smallKernelImage = some pm ∧
    Run Permitted PMMState.step ⟨pm, []⟩
      [.allocatePage, .freePage (vmPhysicalMemoryAllocatePage pm).1, .allocatePage] σ ∧
    ((vmPhysicalMemoryAllocatePage σ.pm).1 = 0 ↔ ∀ frame, ¬ σ.pm.FrameFree frame) := by
  obtain ⟨pm, hpm, h321, -⟩ := physicalMemoryInitialize_exact_small
  have hne : (vmPhysicalMemoryAllocatePage pm).1 ≠ 0 := by
    rcases allocatePage_cases pm with ⟨hnone, -⟩ | ⟨f, hf, -, haddress, -⟩
    · exact absurd h321 (hnone 321)
    · rw [haddress]
      exact frame_ne_zero (not_frameFree_zero hpm) hf
  have hheld : (vmPhysicalMemoryAllocatePage pm).1 ∈
      (PMMState.step ⟨pm, []⟩ .allocatePage).held := by
    simp [step, hne]
  have hrun : Run Permitted PMMState.step ⟨pm, []⟩
      [.allocatePage, .freePage (vmPhysicalMemoryAllocatePage pm).1, .allocatePage] _ :=
    .cons trivial (.cons hheld (.cons trivial (.nil _)))
  exact ⟨pm, _, hpm, hrun, (physicalMemory_run _ _ pm hpm _ _ hrun).1⟩

end PMMState

end TermOS.VM
