import TermOS.VM.PMM

/-!
# Exactness of `VMPhysicalMemoryInitialize`

The free frames after initialisation are exactly the Conventional frames from
1 MiB up that belong neither to the kernel image nor to the bitmap, and every
bitmap operation stays inside the bitmap.
-/

namespace TermOS.VM

open TermOS.Lib

/-! ## Section 1: Accepted memory maps -/

/-- The firmware and the loader hand over a memory map of page-aligned,
non-wrapping descriptors, with the kernel image inside counted memory that is
not Conventional and with room for the bitmap. -/
structure AcceptedMap (memoryMap : List OSMemoryDescriptor) (image : KernelImage) : Prop where
  aligned : ∀ d ∈ memoryMap, d.physicalStart % kVMPageSize = 0
  nonWrapping : ∀ d ∈ memoryMap, d.physicalStart + d.pageCount * kVMPageSize < 2 ^ 64
  imageInLoaderMemory : ∀ address, kernelVirtToPhys image.kernelStart ≤ address →
    address < kernelVirtToPhys image.kernelEnd →
    ∃ d ∈ memoryMap, d.type ≠ .conventional ∧ d.type.skipped = false ∧ d.Contains address
  hostExists : ∃ d ∈ memoryMap, d.type = .conventional ∧
    bitmapSize memoryMap ≤ d.pageCount * kVMPageSize ∧ kVMSafeSpaceStartAddress ≤ d.physicalStart

theorem OSMemoryDescriptor.byteCount_eq {d : OSMemoryDescriptor}
    (h : d.physicalStart + d.pageCount * kVMPageSize < 2 ^ 64) :
    d.byteCount = d.pageCount * kVMPageSize :=
  Nat.mod_eq_of_lt (by omega)

theorem OSMemoryDescriptor.endAddress_eq {d : OSMemoryDescriptor}
    (h : d.physicalStart + d.pageCount * kVMPageSize < 2 ^ 64) :
    d.endAddress = d.physicalStart + d.pageCount * kVMPageSize := by
  rw [endAddress, byteCount_eq h]
  exact Nat.mod_eq_of_lt h

theorem kernelStart_aligned (image : KernelImage) :
    kernelVirtToPhys image.kernelStart % kVMPageSize = 0 := by
  simp only [KernelImage.kernelStart]
  decide

/-! ## Section 2: The first pass bounds every counted descriptor -/

theorem le_raiseMaximum (highest : Nat) (d : OSMemoryDescriptor) :
    highest ≤ raiseMaximum highest d := by
  unfold raiseMaximum
  split
  · exact Nat.le_refl _
  · split <;> omega

theorem endAddress_le_raiseMaximum (highest : Nat) {d : OSMemoryDescriptor}
    (hcounted : d.type.skipped = false) : d.endAddress ≤ raiseMaximum highest d := by
  simp only [raiseMaximum, hcounted, Bool.false_eq_true, if_false]
  split <;> omega

private theorem le_foldl_raiseMaximum (memoryMap : List OSMemoryDescriptor) (highest : Nat) :
    highest ≤ memoryMap.foldl raiseMaximum highest := by
  induction memoryMap generalizing highest with
  | nil => exact Nat.le_refl _
  | cons d rest ih => exact Nat.le_trans (le_raiseMaximum highest d) (ih _)

private theorem endAddress_le_foldl {memoryMap : List OSMemoryDescriptor} {d : OSMemoryDescriptor}
    (hd : d ∈ memoryMap) (hcounted : d.type.skipped = false) (highest : Nat) :
    d.endAddress ≤ memoryMap.foldl raiseMaximum highest := by
  induction memoryMap generalizing highest with
  | nil => exact absurd hd (by simp)
  | cons e rest ih =>
    rcases List.mem_cons.mp hd with rfl | hrest
    · exact Nat.le_trans (endAddress_le_raiseMaximum highest hcounted) (le_foldl_raiseMaximum rest _)
    · exact ih hrest _

theorem endAddress_le_maxPhysicalAddress {memoryMap : List OSMemoryDescriptor}
    {d : OSMemoryDescriptor} (hd : d ∈ memoryMap) (hcounted : d.type.skipped = false) :
    d.endAddress ≤ maxPhysicalAddress memoryMap :=
  endAddress_le_foldl hd hcounted 0

/-- A page of a counted descriptor has its bit inside the bitmap. -/
theorem byteIndex_lt_of_contains {memoryMap : List OSMemoryDescriptor} {d : OSMemoryDescriptor}
    (hd : d ∈ memoryMap) (hcounted : d.type.skipped = false)
    (hwrap : d.physicalStart + d.pageCount * kVMPageSize < 2 ^ 64)
    (halign : d.physicalStart % kVMPageSize = 0) {address : Nat} (h : d.Contains address) :
    bitmapByteIndex address < bitmapSize memoryMap := by
  have hmax := endAddress_le_maxPhysicalAddress hd hcounted
  rw [OSMemoryDescriptor.endAddress_eq hwrap] at hmax
  obtain ⟨-, hlt⟩ := h
  simp only [bitmapByteIndex, bitmapSize, kVMPageSize, kVMBlocksPerByte] at *
  omega

/-! ## Section 3: Sweeps of bitmap operations -/

theorem mem_pageLoop {start stop a : Nat} :
    a ∈ pageLoop start stop ↔ ∃ k, a = start + k * kVMPageSize ∧ a < stop :=
  mem_stride (by decide)

/-- Page `frame` is visited by an aligned page loop iff it starts in the range. -/
theorem exists_mem_pageLoop_iff {start stop frame : Nat} (halign : start % kVMPageSize = 0) :
    (∃ a ∈ pageLoop start stop, a / kVMPageSize = frame) ↔
      start ≤ frame * kVMPageSize ∧ frame * kVMPageSize < stop := by
  simp only [mem_pageLoop, kVMPageSize] at *
  constructor
  · rintro ⟨a, ⟨k, rfl, hlt⟩, rfl⟩
    omega
  · rintro ⟨hle, hlt⟩
    refine ⟨frame * 4096, ⟨frame - start / 4096, ?_, hlt⟩, by omega⟩
    omega

/-- Every operation of the sweep touches a byte of the bitmap. -/
def InBounds (size : Nat) (operations : List BitmapOperation) : Prop :=
  ∀ op ∈ operations, bitmapByteIndex op.address < size

theorem length_foldl_apply (operations : List BitmapOperation) (bitmap : List UInt8) :
    (operations.foldl BitmapOperation.apply bitmap).length = bitmap.length := by
  induction operations generalizing bitmap with
  | nil => rfl
  | cons op rest ih =>
    rw [List.foldl_cons, ih]
    cases op <;> simp [BitmapOperation.apply, bitmapSet_eq, bitmapUnset_eq]

theorem test_foldl_unset {addresses : List Nat} {bitmap : List UInt8}
    (h : InBounds bitmap.length (addresses.map .unset)) (frame : Nat) :
    Bitmap.test ((addresses.map BitmapOperation.unset).foldl BitmapOperation.apply bitmap) frame =
      (Bitmap.test bitmap frame && decide (¬ ∃ a ∈ addresses, a / kVMPageSize = frame)) := by
  induction addresses generalizing bitmap with
  | nil => simp
  | cons a rest ih =>
    have hhead : a / kVMPageSize / 8 < bitmap.length := h (.unset a) (by simp)
    have hrest : InBounds (bitmapUnset bitmap a).length (rest.map .unset) := by
      rw [bitmapUnset_eq, Bitmap.length_clear]
      exact fun op hop => h op (List.mem_cons_of_mem _ hop)
    simp only [List.map_cons, List.foldl_cons, BitmapOperation.apply]
    rw [ih hrest, bitmapUnset_eq, Bitmap.test_clear hhead, Bool.and_assoc]
    congr 1
    rw [← Bool.decide_and, decide_eq_decide]
    simp only [List.mem_cons, exists_eq_or_imp, not_or]
    tauto

theorem test_foldl_set {addresses : List Nat} {bitmap : List UInt8}
    (h : InBounds bitmap.length (addresses.map .set)) (frame : Nat) :
    Bitmap.test ((addresses.map BitmapOperation.set).foldl BitmapOperation.apply bitmap) frame =
      (Bitmap.test bitmap frame || decide (∃ a ∈ addresses, a / kVMPageSize = frame)) := by
  induction addresses generalizing bitmap with
  | nil => simp
  | cons a rest ih =>
    have hhead : a / kVMPageSize / 8 < bitmap.length := h (.set a) (by simp)
    have hrest : InBounds (bitmapSet bitmap a).length (rest.map .set) := by
      rw [bitmapSet_eq, Bitmap.length_set]
      exact fun op hop => h op (List.mem_cons_of_mem _ hop)
    simp only [List.map_cons, List.foldl_cons, BitmapOperation.apply]
    rw [ih hrest, bitmapSet_eq, Bitmap.test_set hhead, Bool.or_assoc]
    congr 1
    rw [← Bool.decide_or, decide_eq_decide]
    simp only [List.mem_cons, exists_eq_or_imp]
    tauto

/-! ## Section 4: The four sweeps -/

section Sweeps

variable {memoryMap : List OSMemoryDescriptor} {image : KernelImage}

/-- The addresses that the third pass clears. -/
def conventionalPages (memoryMap : List OSMemoryDescriptor) : List Nat :=
  (memoryMap.filter (·.type == .conventional)).flatMap
    fun d => pageLoop d.physicalStart d.endAddress

/-- The addresses that the reserving loops set. -/
def reservedPages (image : KernelImage) (bitmapStart bitmapEnd : Nat) : List Nat :=
  pageLoop 0 kVMSafeSpaceStartAddress ++
    (pageLoop (kernelVirtToPhys image.kernelStart) (kernelVirtToPhys image.kernelEnd) ++
      pageLoop bitmapStart bitmapEnd)

theorem initializeOperations_eq (memoryMap : List OSMemoryDescriptor) (image : KernelImage)
    (bitmapStart bitmapEnd : Nat) :
    initializeOperations memoryMap image bitmapStart bitmapEnd =
      (conventionalPages memoryMap).map .unset ++
        (reservedPages image bitmapStart bitmapEnd).map .set := by
  simp [initializeOperations, conventionalPages, reservedPages, List.map_flatMap]

theorem exists_mem_conventionalPages_iff (hmap : AcceptedMap memoryMap image) {frame : Nat} :
    (∃ a ∈ conventionalPages memoryMap, a / kVMPageSize = frame) ↔
      ∃ d ∈ memoryMap, d.type = .conventional ∧ d.Contains (frame * kVMPageSize) := by
  have hpages : ∀ d ∈ memoryMap, (∃ a ∈ pageLoop d.physicalStart d.endAddress,
      a / kVMPageSize = frame) ↔ d.Contains (frame * kVMPageSize) := by
    intro d hd
    rw [exists_mem_pageLoop_iff (hmap.aligned d hd),
      OSMemoryDescriptor.endAddress_eq (hmap.nonWrapping d hd), OSMemoryDescriptor.Contains]
  simp only [conventionalPages, List.mem_flatMap, List.mem_filter, beq_iff_eq]
  constructor
  · rintro ⟨a, ⟨d, ⟨hd, htype⟩, ha⟩, hframe⟩
    exact ⟨d, hd, htype, (hpages d hd).mp ⟨a, ha, hframe⟩⟩
  · rintro ⟨d, hd, htype, hcontains⟩
    obtain ⟨a, ha, hframe⟩ := (hpages d hd).mpr hcontains
    exact ⟨a, ⟨d, ⟨hd, htype⟩, ha⟩, hframe⟩

theorem exists_mem_reservedPages_iff {bitmapStart bitmapEnd : Nat} (hstart : bitmapStart % kVMPageSize = 0) {frame : Nat} :
    (∃ a ∈ reservedPages image bitmapStart bitmapEnd, a / kVMPageSize = frame) ↔
      frame * kVMPageSize < kVMSafeSpaceStartAddress ∨
      (kernelVirtToPhys image.kernelStart ≤ frame * kVMPageSize ∧
        frame * kVMPageSize < kernelVirtToPhys image.kernelEnd) ∨
      (bitmapStart ≤ frame * kVMPageSize ∧ frame * kVMPageSize < bitmapEnd) := by
  rw [← exists_mem_pageLoop_iff (kernelStart_aligned image), ← exists_mem_pageLoop_iff hstart]
  have hlow : (∃ a ∈ pageLoop 0 kVMSafeSpaceStartAddress, a / kVMPageSize = frame) ↔
      0 ≤ frame * kVMPageSize ∧ frame * kVMPageSize < kVMSafeSpaceStartAddress :=
    exists_mem_pageLoop_iff (by decide)
  simp only [Nat.zero_le, true_and] at hlow
  rw [← hlow]
  simp only [reservedPages, List.mem_append, or_and_right, exists_or]

theorem bitmapSize_bounds (hmap : AcceptedMap memoryMap image) {host : OSMemoryDescriptor}
    (hhost : bitmapHostDescriptor memoryMap = some host) :
    host ∈ memoryMap ∧ host.type = .conventional ∧
      bitmapSize memoryMap ≤ host.pageCount * kVMPageSize ∧
      kVMSafeSpaceStartAddress ≤ host.physicalStart := by
  have hmem := List.mem_of_find?_eq_some hhost
  have hpred := List.find?_some hhost
  simp only [Bool.and_eq_true, beq_iff_eq, decide_eq_true_eq] at hpred
  rw [OSMemoryDescriptor.byteCount_eq (hmap.nonWrapping host hmem)] at hpred
  exact ⟨hmem, hpred.1.1, hpred.1.2, hpred.2⟩

theorem exists_bitmapHostDescriptor (hmap : AcceptedMap memoryMap image) :
    ∃ host, bitmapHostDescriptor memoryMap = some host := by
  obtain ⟨d, hd, htype, hsize, hsafe⟩ := hmap.hostExists
  rw [← Option.isSome_iff_exists, bitmapHostDescriptor, List.find?_isSome]
  refine ⟨d, hd, ?_⟩
  rw [OSMemoryDescriptor.byteCount_eq (hmap.nonWrapping d hd)]
  simp [htype, hsize, hsafe]

theorem inBounds_conventionalPages (hmap : AcceptedMap memoryMap image) :
    InBounds (bitmapSize memoryMap) ((conventionalPages memoryMap).map .unset) := by
  intro op hop
  obtain ⟨a, ha, rfl⟩ := List.mem_map.mp hop
  simp only [conventionalPages, List.mem_flatMap, List.mem_filter, beq_iff_eq] at ha
  obtain ⟨d, ⟨hd, htype⟩, hloop⟩ := ha
  have hwrap := hmap.nonWrapping d hd
  refine byteIndex_lt_of_contains hd (by rw [htype]; rfl) hwrap (hmap.aligned d hd) ?_
  rw [OSMemoryDescriptor.endAddress_eq hwrap] at hloop
  obtain ⟨k, rfl, hlt⟩ := mem_pageLoop.mp hloop
  exact ⟨Nat.le_add_right _ _, hlt⟩

theorem inBounds_reservedPages (hmap : AcceptedMap memoryMap image) {host : OSMemoryDescriptor}
    (hhost : bitmapHostDescriptor memoryMap = some host) :
    InBounds (bitmapSize memoryMap) ((reservedPages image host.physicalStart
      (host.physicalStart + bitmapSize memoryMap)).map .set) := by
  obtain ⟨hmem, htype, hsize, hsafe⟩ := bitmapSize_bounds hmap hhost
  have hwrap := hmap.nonWrapping host hmem
  have halign := hmap.aligned host hmem
  have hcounted : host.type.skipped = false := by rw [htype]; rfl
  -- the host reaches beyond 1 MiB, so the bitmap covers the low pages too
  have hmax := endAddress_le_maxPhysicalAddress hmem hcounted
  rw [OSMemoryDescriptor.endAddress_eq hwrap] at hmax
  intro op hop
  obtain ⟨a, ha, rfl⟩ := List.mem_map.mp hop
  simp only [reservedPages, List.mem_append] at ha
  rcases ha with hlow | himage | hbitmap
  · obtain ⟨k, rfl, hlt⟩ := mem_pageLoop.mp hlow
    simp only [BitmapOperation.address, bitmapByteIndex, bitmapSize, kVMPageSize,
      kVMBlocksPerByte, kVMSafeSpaceStartAddress] at *
    omega
  · obtain ⟨k, rfl, hlt⟩ := mem_pageLoop.mp himage
    obtain ⟨d, hd, -, hskip, hcontains⟩ := hmap.imageInLoaderMemory _ (Nat.le_add_right _ _) hlt
    exact byteIndex_lt_of_contains hd hskip (hmap.nonWrapping d hd) (hmap.aligned d hd) hcontains
  · obtain ⟨k, rfl, hlt⟩ := mem_pageLoop.mp hbitmap
    refine byteIndex_lt_of_contains hmem hcounted hwrap halign ⟨Nat.le_add_right _ _, ?_⟩
    simp only [BitmapOperation.address]
    omega

/-- The bitmap operations stay inside the bitmap. -/
theorem inBounds_initializeOperations (hmap : AcceptedMap memoryMap image) {host : OSMemoryDescriptor}
    (hhost : bitmapHostDescriptor memoryMap = some host) :
    InBounds (bitmapSize memoryMap) (initializeOperations memoryMap image host.physicalStart
      (wrap64 (host.physicalStart + bitmapSize memoryMap))) := by
  obtain ⟨hmem, -, hsize, -⟩ := bitmapSize_bounds hmap hhost
  have hwrap := hmap.nonWrapping host hmem
  intro op hop
  rw [show wrap64 (host.physicalStart + bitmapSize memoryMap) =
    host.physicalStart + bitmapSize memoryMap from Nat.mod_eq_of_lt (by omega),
    initializeOperations_eq, List.mem_append] at hop
  rcases hop with hop | hop
  · exact inBounds_conventionalPages hmap op hop
  · exact inBounds_reservedPages hmap hhost op hop

end Sweeps

/-! ## Section 5: Exactness -/

/-- The usable frames: Conventional, from 1 MiB up, and outside the kernel image
and the bitmap. -/
def UsableFrame (memoryMap : List OSMemoryDescriptor) (image : KernelImage) (bitmapStart : Nat)
    (frame : Nat) : Prop :=
  (∃ d ∈ memoryMap, d.type = .conventional ∧ d.Contains (frame * kVMPageSize)) ∧
  kVMSafeSpaceStartAddress ≤ frame * kVMPageSize ∧
  ¬ (kernelVirtToPhys image.kernelStart ≤ frame * kVMPageSize ∧
    frame * kVMPageSize < kernelVirtToPhys image.kernelEnd) ∧
  ¬ (bitmapStart ≤ frame * kVMPageSize ∧
    frame * kVMPageSize < bitmapStart + bitmapSize memoryMap)

section Exactness

variable {memoryMap : List OSMemoryDescriptor} {image : KernelImage}

/-- The state after `VMPhysicalMemoryInitialize`. -/
theorem physicalMemoryInitialize_eq_some (hmap : AcceptedMap memoryMap image) :
    ∃ host pm, bitmapHostDescriptor memoryMap = some host ∧
      vmPhysicalMemoryInitialize memoryMap image = some pm ∧
      pm.bitmapAddress = host.physicalStart ∧ pm.bitmap.length = bitmapSize memoryMap ∧
      pm.totalMemorySize = maxPhysicalAddress memoryMap ∧
      ∀ frame, pm.FrameFree frame ↔ UsableFrame memoryMap image pm.bitmapAddress frame := by
  obtain ⟨host, hhost⟩ := exists_bitmapHostDescriptor hmap
  obtain ⟨hmem, htype, hsize, hsafe⟩ := bitmapSize_bounds hmap hhost
  have hwrap := hmap.nonWrapping host hmem
  have hend : wrap64 (host.physicalStart + bitmapSize memoryMap) =
      host.physicalStart + bitmapSize memoryMap := Nat.mod_eq_of_lt (by omega)
  have hconv := inBounds_conventionalPages hmap
  have hres := inBounds_reservedPages hmap hhost
  refine ⟨host, _, hhost, by rw [vmPhysicalMemoryInitialize, hhost, Option.map_some], rfl, ?_, rfl,
    fun frame => ?_⟩
  · simp only [length_foldl_apply, List.length_replicate]
  · simp only [VMPhysicalMemory.FrameFree, hend, initializeOperations_eq, List.foldl_append]
    rw [test_foldl_set (by rwa [length_foldl_apply, List.length_replicate]),
      test_foldl_unset (by rwa [List.length_replicate]), Bitmap.test_replicate, Bool.true_and,
      Bool.or_eq_false_iff, decide_eq_false_iff_not, decide_eq_false_iff_not, not_not,
      exists_mem_conventionalPages_iff hmap,
      exists_mem_reservedPages_iff (hmap.aligned host hmem), not_or, not_or, Nat.not_lt, UsableFrame]

/-- A usable frame ends below the top of memory. -/
theorem UsableFrame.lt (hmap : AcceptedMap memoryMap image) {bitmapStart frame : Nat}
    (h : UsableFrame memoryMap image bitmapStart frame) :
    frame < maxPhysicalAddress memoryMap / kVMPageSize := by
  obtain ⟨⟨d, hd, hdtype, hcontains⟩, -⟩ := h
  have hmax := endAddress_le_maxPhysicalAddress hd (by rw [hdtype]; rfl)
  rw [OSMemoryDescriptor.endAddress_eq (hmap.nonWrapping d hd)] at hmax
  have hlt := hcontains.2
  have halign := hmap.aligned d hd
  simp only [kVMPageSize] at hmax hlt halign ⊢
  omega

/-- `VMPhysicalMemoryInitialize` accepts the map, its operations stay inside
the bitmap, bits past the last frame stay set, and the free frames are exactly
the usable ones. -/
theorem physicalMemoryInitialize_exact (memoryMap : List OSMemoryDescriptor) (image : KernelImage)
    (hmap : AcceptedMap memoryMap image) :
    ∃ host pm, bitmapHostDescriptor memoryMap = some host ∧
      vmPhysicalMemoryInitialize memoryMap image = some pm ∧
      pm.bitmapAddress = host.physicalStart ∧
      pm.bitmap.length = bitmapSize memoryMap ∧
      (∀ frame, pm.FrameFree frame ↔
        (∃ d ∈ memoryMap, d.type = .conventional ∧ d.Contains (frame * kVMPageSize)) ∧
        kVMSafeSpaceStartAddress ≤ frame * kVMPageSize ∧
        ¬ (kernelVirtToPhys image.kernelStart ≤ frame * kVMPageSize ∧
          frame * kVMPageSize < kernelVirtToPhys image.kernelEnd) ∧
        ¬ (pm.bitmapAddress ≤ frame * kVMPageSize ∧
          frame * kVMPageSize < pm.bitmapAddress + bitmapSize memoryMap)) ∧
      (∀ frame, maxPhysicalAddress memoryMap / kVMPageSize ≤ frame →
        frame / 8 < pm.bitmap.length → Bitmap.test pm.bitmap frame = true) ∧
      ∀ op ∈ initializeOperations memoryMap image pm.bitmapAddress
          (wrap64 (pm.bitmapAddress + bitmapSize memoryMap)),
        bitmapByteIndex op.address < pm.bitmap.length := by
  obtain ⟨host, pm, hhost, hpm, haddress, hlength, -, hfree⟩ :=
    physicalMemoryInitialize_eq_some hmap
  refine ⟨host, pm, hhost, hpm, haddress, hlength, hfree, fun frame hpast _ => ?_,
    fun op hop => ?_⟩
  · by_contra hclear
    have hlt := ((hfree frame).mp (eq_false_of_ne_true hclear)).lt hmap
    omega
  · rw [haddress] at hop
    rw [hlength]
    exact inBounds_initializeOperations hmap hhost op hop

end Exactness

/-- A 4 MiB machine with the kernel image in loader memory at 1 MiB. -/
def smallMemoryMap : List OSMemoryDescriptor :=
  [⟨.bootServicesData, 0, 256⟩, ⟨.loaderCode, 0x100000, 64⟩, ⟨.conventional, 0x140000, 704⟩,
    ⟨.mappedIo, 0xFEC00000, 1⟩]

def smallKernelImage : KernelImage := ⟨0xFFFFFFFF80140000⟩

theorem smallMemoryMap_accepted : AcceptedMap smallMemoryMap smallKernelImage where
  aligned := by decide
  nonWrapping := by decide
  imageInLoaderMemory := by
    intro address hlow hhigh
    have hstart : kernelVirtToPhys smallKernelImage.kernelStart = 0x100000 := by decide
    have hend : kernelVirtToPhys smallKernelImage.kernelEnd = 0x140000 := by decide
    refine ⟨⟨.loaderCode, 0x100000, 64⟩, by decide, by decide, by decide, ?_⟩
    simp only [OSMemoryDescriptor.Contains, kVMPageSize]
    omega
  hostExists := ⟨⟨.conventional, 0x140000, 704⟩, by decide, by decide, by decide, by decide⟩

theorem physicalMemoryInitialize_exact_small :
    ∃ pm, vmPhysicalMemoryInitialize smallMemoryMap smallKernelImage = some pm ∧
      pm.FrameFree 321 ∧ ¬ pm.FrameFree 320 := by
  obtain ⟨host, pm, hhost, hpm, haddress, -, hfree, -⟩ :=
    physicalMemoryInitialize_exact smallMemoryMap smallKernelImage smallMemoryMap_accepted
  have hhost' : host = ⟨.conventional, 0x140000, 704⟩ := by
    have : bitmapHostDescriptor smallMemoryMap = some ⟨.conventional, 0x140000, 704⟩ := by decide
    rw [hhost] at this
    exact Option.some.inj this
  have hstart : kernelVirtToPhys smallKernelImage.kernelStart = 0x100000 := by decide
  have hend : kernelVirtToPhys smallKernelImage.kernelEnd = 0x140000 := by decide
  have hsize : bitmapSize smallMemoryMap = 128 := by decide
  rw [hhost'] at haddress
  simp only at haddress
  refine ⟨pm, hpm, (hfree 321).mpr ⟨⟨⟨.conventional, 0x140000, 704⟩, by decide, rfl, ?_⟩, ?_⟩, ?_⟩
  · simp only [OSMemoryDescriptor.Contains, kVMPageSize]
    omega
  · simp only [kVMSafeSpaceStartAddress, kVMPageSize, haddress, hstart, hend, hsize]
    omega
  · intro h320
    have hbitmap := ((hfree 320).mp h320).2.2.2
    simp only [kVMPageSize, haddress, hsize] at hbitmap
    omega

end TermOS.VM
