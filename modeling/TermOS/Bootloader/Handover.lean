import TermOS.Bootloader.Main
import TermOS.Lib.Packed
import TermOS.OS.ReservedMemory

/-!
# From the boot loader to the kernel

What the kernel counts on when it starts: a memory map that it accepts, and a start-up volume in
memory that it leaves alone. Both come from the boot loader, out of what the firmware promises.

## Main Theorems

* `loader_hands_over` - whatever the firmware does between the calls, the kernel is not started
  without them
-/

namespace TermOS.Bootloader

open TermOS.Lib TermOS.Kernel TermOS.VM TermOS.OS

variable {φ : Type} {f : Firmware φ} {kernelPages bootInfo : Nat}
  {start s : EfiState φ} {m : Machine}

/-! ## Section 1: What the kernel finds -/

/-- The machine at the call of `kmain`: its memory map and its framebuffer are those of the boot
information, the image is no longer than the loader allows for, and `_start` has written only to it.
There is room for the bitmap of the physical memory manager. -/
structure Finds (kernelPages bootInfo : Nat) (s : EfiState φ) (m : Machine) : Prop where
  memoryMap_eq : m.memoryMap = (readBootinfo s.memory bootInfo).descriptors s.memory
  framebufferBase_eq : m.layout.framebufferBase = (readBootinfo s.memory bootInfo).framebufferBase
  framebufferSize_eq :
    m.layout.framebufferSize = (readBootinfo s.memory bootInfo).framebufferBaseSize
  memory_eq : ∀ x, ¬ (MemoryRange.mk 0x100000 (kernelPages * 4096)).Contains x →
    m.memory x = s.memory x
  image_le : kernelVirtToPhys m.image.kernelEnd ≤ 0x100000 + kernelPages * 4096
  host : ∃ d ∈ m.memoryMap, d.type = .conventional ∧
    bitmapSize m.memoryMap ≤ d.pageCount * kVMPageSize ∧ kVMSafeSpaceStartAddress ≤ d.physicalStart

/-- What the boot information's fields of the start-up volume mean to the kernel. A loader that was
refused the volume has left in them what was in the pool. -/
inductive FindsVolume (f : Firmware φ) (start : EfiState φ) (bootInfo : Nat) (b : Bootinfo)
    (m : Machine) : Prop
  | missing (address_eq : b.initramfsAddress = 0) (size_eq : b.initramfsSize = 0)
  | loaded (archive : List UInt8) (volume : f.volume "StartupVolume.cpio" = some archive)
      (size_eq : b.initramfsSize = archive.length) (loads : LoadsVolume m b.initramfsAddress archive)
  | refused (refuses : f.Refuses "StartupVolume.cpio" (f.atVolume start))
      (address_eq : b.initramfsAddress =
        (readBootinfo (f.atVolume start).memory bootInfo).initramfsAddress)
      (size_eq : b.initramfsSize = (readBootinfo (f.atVolume start).memory bootInfo).initramfsSize)

theorem kernelStart_phys (image : KernelImage) : kernelVirtToPhys image.kernelStart = 0x100000 := by
  show kernelVirtToPhys (kernelVMA + 0x100000) = 0x100000
  decide

/-- Where the image is, there is the memory that the loader has taken for the kernel. -/
theorem Finds.image_contains (h : Finds kernelPages bootInfo s m) {x : Nat} (hx : ImageFrame m x) :
    (MemoryRange.mk 0x100000 (kernelPages * 4096)).Contains x := by
  obtain ⟨hlow, hhigh⟩ := hx
  rw [kernelStart_phys] at hlow
  exact ⟨hlow, hhigh.trans_le h.image_le⟩

/-- The firmware's map is one that the kernel accepts. -/
theorem acceptedMap_of_handsOver (h : f.HandsOver kernelPages bootInfo start s) (hphase : s.phase = .exited)
    (hm : Finds kernelPages bootInfo s m) : AcceptedMap m.memoryMap m.image := by
  have hmap : m.memoryMap = s.platform.memoryMap := hm.memoryMap_eq.trans (h.exited hphase)
  constructor
  · rw [hmap]
    exact s.platform.aligned
  · rw [hmap]
    exact s.platform.nonWrapping
  · intro address hlow hhigh
    obtain ⟨kernel, -, -, hplaced⟩ := h.kernel
    obtain ⟨d, hd, htype, hcontains⟩ :=
      s.platform.covered _ hplaced.mem address (hm.image_contains ⟨hlow, hhigh⟩)
    exact ⟨d, hmap ▸ hd, by rw [htype]; decide, by rw [htype]; rfl, hcontains⟩
  · exact hm.host

/-- What the loader has besides the kernel's memory is foreign to the kernel. -/
theorem foreign_of_handsOver (hf : f.Documented) (h : f.HandsOver kernelPages bootInfo start s)
    (hphase : s.phase = .exited) (hm : Finds kernelPages bootInfo s m) {r : MemoryRange}
    (hr : r ∈ s.platform.allocated) (hapart : r.Apart ⟨0x100000, kernelPages * 4096⟩) {x : Nat}
    (hx : r.Contains x) : Foreign m x := by
  have haccepted := acceptedMap_of_handsOver h hphase hm
  have hmap : m.memoryMap = s.platform.memoryMap := hm.memoryMap_eq.trans (h.exited hphase)
  obtain ⟨d, hd, htype, hcontains⟩ := s.platform.covered r hr x hx
  have hd' : d ∈ m.memoryMap := hmap ▸ hd
  have hcounted : d.type.skipped = false := by
    rw [htype]
    rfl
  -- a descriptor of conventional memory is another one
  have hother : ∀ e ∈ m.memoryMap, e.type = .conventional → ∀ y, d.Contains y → ¬ e.Contains y := by
    intro e he hconventional y hy hy'
    obtain rfl := s.platform.disjoint d hd e (hmap ▸ he) y hy hy'
    rw [htype] at hconventional
    exact absurd hconventional (by decide)
  constructor
  · have hmax := endAddress_le_maxPhysicalAddress hd' hcounted
    rw [OSMemoryDescriptor.endAddress_eq (haccepted.nonWrapping d hd')] at hmax
    exact hcontains.2.trans_le hmax
  · rintro host - ⟨⟨e, he, hconventional, hcontains'⟩, -⟩
    refine hother e he hconventional _ ?_ hcontains'
    have haligned := haccepted.aligned d hd'
    obtain ⟨hlow, hhigh⟩ := hcontains
    constructor
    · simp only [kVMPageSize] at haligned ⊢
      omega
    · exact (Nat.div_mul_le_self x kVMPageSize).trans_lt hhigh
  · exact fun himage => hapart x hx (hm.image_contains himage)
  · rintro ⟨host, hhost, hlow, hhigh⟩
    obtain ⟨hmem, hconventional, hsize, -⟩ := bitmapSize_bounds haccepted hhost
    exact hother host hmem hconventional x hcontains ⟨hlow, by omega⟩
  · rw [hm.framebufferBase_eq, hm.framebufferSize_eq, h.informed.framebufferBase_eq,
      h.informed.framebufferSize_eq]
    exact hf.framebuffer_apart s h.consistent r hr x hx

theorem findsVolume_of_handsOver (hf : f.Documented) (h : f.HandsOver kernelPages bootInfo start s)
    (hphase : s.phase = .exited) (hm : Finds kernelPages bootInfo s m) :
    FindsVolume f start bootInfo (readBootinfo s.memory bootInfo) m := by
  cases h.informed.volume with
  | missing haddress hsize => exact .missing haddress hsize
  | loaded archive pages hvolume hplaced hapart hsize =>
    have hkernel := hapart _ (List.mem_singleton.mpr rfl)
    have hin : ∀ i, i < archive.length →
        (MemoryRange.mk (readBootinfo s.memory bootInfo).initramfsAddress (pages * 4096)).Contains
          ((readBootinfo s.memory bootInfo).initramfsAddress + i) := fun i hi =>
      ⟨Nat.le_add_right _ _, Nat.add_lt_add_left (hi.trans_le hplaced.fits) _⟩
    refine .loaded archive hvolume hsize ⟨?_, fun i hi => ?_⟩
    · apply hplaced.holds.congr
      exact fun i hi => hm.memory_eq _ (hkernel _ (hin i hi))
    · exact foreign_of_handsOver hf h hphase hm hplaced.mem hkernel (hin i hi)
  | refused hrefuses haddress hsize => exact .refused hrefuses haddress hsize

/-! ## Section 2: A small firmware -/

/-- The books of a firmware with 9 MiB of memory from the second one on: the first of them is for the
kernel, and out of the rest it gives one page after the other. -/
structure SmallBooks where
  kernelPages : Nat
  usedPages : Nat
  allocated : List MemoryRange
  kernelPages_le : kernelPages ≤ 256
  usedPages_le : usedPages ≤ 512
  placed : ∀ r ∈ allocated,
    (MemoryRange.mk 0x100000 (kernelPages * 4096)).Encloses r.start r.size ∨
    (MemoryRange.mk 0x200000 (usedPages * 4096)).Encloses r.start r.size
  apart : allocated.Pairwise MemoryRange.Apart

namespace SmallBooks

variable (b : SmallBooks)

def memoryMap : List OSMemoryDescriptor :=
  [⟨.loaderData, 0x100000, b.kernelPages⟩,
    ⟨.conventional, 0x100000 + b.kernelPages * 4096, 256 - b.kernelPages⟩,
    ⟨.loaderData, 0x200000, b.usedPages⟩,
    ⟨.conventional, 0x200000 + b.usedPages * 4096, 2048 - b.usedPages⟩]

/-- In the map there are four descriptors. -/
theorem mem_memoryMap {b : SmallBooks} {d : OSMemoryDescriptor} (h : d ∈ b.memoryMap) :
    d = ⟨.loaderData, 0x100000, b.kernelPages⟩ ∨
    d = ⟨.conventional, 0x100000 + b.kernelPages * 4096, 256 - b.kernelPages⟩ ∨
    d = ⟨.loaderData, 0x200000, b.usedPages⟩ ∨
    d = ⟨.conventional, 0x200000 + b.usedPages * 4096, 2048 - b.usedPages⟩ := by
  simpa [memoryMap] using h

variable {b}

theorem memoryMap_aligned {d : OSMemoryDescriptor} (hd : d ∈ b.memoryMap) :
    d.physicalStart % kVMPageSize = 0 := by
  rcases mem_memoryMap hd with rfl | rfl | rfl | rfl <;> simp only [kVMPageSize] <;> omega

theorem memoryMap_nonWrapping {d : OSMemoryDescriptor} (hd : d ∈ b.memoryMap) :
    d.physicalStart + d.pageCount * kVMPageSize < 2 ^ 64 := by
  have hkernel := b.kernelPages_le
  have hused := b.usedPages_le
  rcases mem_memoryMap hd with rfl | rfl | rfl | rfl <;> simp only [kVMPageSize] <;> omega

theorem memoryMap_disjoint {d d' : OSMemoryDescriptor} (hd : d ∈ b.memoryMap) (hd' : d' ∈ b.memoryMap)
    {x : Nat} (hx : d.Contains x) (hx' : d'.Contains x) : d = d' := by
  have hkernel := b.kernelPages_le
  have hused := b.usedPages_le
  rcases mem_memoryMap hd with rfl | rfl | rfl | rfl <;>
    rcases mem_memoryMap hd' with rfl | rfl | rfl | rfl <;>
    first
    | rfl
    | simp only [OSMemoryDescriptor.Contains, kVMPageSize] at hx hx'
      omega

theorem memoryMap_covers {r : MemoryRange} (hr : r ∈ b.allocated) {x : Nat} (hx : r.Contains x) :
    ∃ d ∈ b.memoryMap, d.type = .loaderData ∧ d.Contains x := by
  rcases b.placed r hr with h | h
  · exact ⟨_, List.mem_cons_self, rfl, h.contains hx.1 hx.2⟩
  · exact ⟨⟨.loaderData, 0x200000, b.usedPages⟩, by simp [memoryMap], rfl, h.contains hx.1 hx.2⟩

variable (b)

def platform : MemoryState where
  memoryMap := b.memoryMap
  mapKey := b.allocated.length
  allocated := b.allocated
  aligned := fun _ => memoryMap_aligned
  nonWrapping := fun _ => memoryMap_nonWrapping
  disjoint := fun _ hd _ hd' _ => memoryMap_disjoint hd hd'
  covered := fun _ hr _ => memoryMap_covers hr
  apart := b.apart

/-- The next pages are given away. -/
def takePages (size pages : Nat) (hsize : size ≤ pages * 4096) (h : b.usedPages + pages ≤ 512) :
    SmallBooks where
  kernelPages := b.kernelPages
  usedPages := b.usedPages + pages
  allocated := ⟨0x200000 + b.usedPages * 4096, size⟩ :: b.allocated
  kernelPages_le := b.kernelPages_le
  usedPages_le := h
  placed := by
    intro r hr
    rcases List.mem_cons.mp hr with rfl | hold
    · refine .inr ⟨Nat.le_add_right _ _, ?_⟩
      simp only
      omega
    · refine (b.placed r hold).imp_right fun hin => ⟨hin.1, hin.2.trans ?_⟩
      simp only
      omega
  apart := by
    refine List.pairwise_cons.mpr ⟨fun r hr x hx hx' => ?_, b.apart⟩
    have hkernel := b.kernelPages_le
    obtain ⟨hlow, hhigh⟩ := hx
    obtain ⟨hlow', hhigh'⟩ := hx'
    simp only at hlow hhigh
    rcases b.placed r hr with ⟨-, hend⟩ | ⟨-, hend⟩ <;>
      (simp only at hend
       omega)

/-- The pages for the kernel are given away. -/
def takeKernel (pages : Nat) (hfree : b.kernelPages = 0) (h : pages ≤ 256) : SmallBooks where
  kernelPages := pages
  usedPages := b.usedPages
  allocated := ⟨0x100000, pages * 4096⟩ :: b.allocated
  kernelPages_le := h
  usedPages_le := b.usedPages_le
  placed := by
    intro r hr
    rcases List.mem_cons.mp hr with rfl | hold
    · exact .inl ⟨Nat.le_refl _, Nat.le_refl _⟩
    · refine (b.placed r hold).imp_left fun hin => ⟨hin.1, hin.2.trans ?_⟩
      simp only [hfree]
      omega
  apart := by
    refine List.pairwise_cons.mpr ⟨fun r hr x hx hx' => ?_, b.apart⟩
    obtain ⟨hlow, hhigh⟩ := hx
    obtain ⟨hlow', hhigh'⟩ := hx'
    simp only at hlow hhigh
    rcases b.placed r hr with ⟨hstart, hend⟩ | ⟨hstart, hend⟩ <;>
      (simp only [hfree] at hstart hend
       omega)

end SmallBooks

section SmallServices

variable (s : EfiState SmallBooks)

/-- An error, whichever one. -/
def smallError : EfiStatus := 0x8000000000000009

def smallVolume : String → Option (List UInt8)
  | "kernel.bin" => some [0xFA, 0xF4]
  | "StartupVolume.cpio" => some [1, 2, 3]
  | _ => none

def withBooks (b : SmallBooks) : EfiState SmallBooks := { s with firmware := b, platform := b.platform }

/-- Pool memory is given in pages. -/
def smallAllocate (pool : Bool) (size pages : Nat) : EfiStatus × Nat × EfiState SmallBooks :=
  if h : size ≤ pages * 4096 ∧ s.firmware.usedPages + pages ≤ 512 then
    (efiSuccess, 0x200000 + s.firmware.usedPages * 4096,
      withBooks s (s.firmware.takePages size pages h.1 h.2))
  else (smallError, 0, { s with failed := s.failed || pool })

def smallKernelPages (address pages : Nat) : EfiStatus × Nat × EfiState SmallBooks :=
  if h : address = 0x100000 ∧ s.firmware.kernelPages = 0 ∧ pages ≤ 256 then
    (efiSuccess, 0x100000, withBooks s (s.firmware.takeKernel pages h.2.1 h.2.2))
  else (smallError, 0, s)

def smallOpen (name : String) : EfiStatus × Nat × EfiState SmallBooks :=
  if (smallVolume name).isSome then
    let file := if name = "kernel.bin" then 1 else 2
    (efiSuccess, file, { s with files := Function.update s.files file (some (name, 0)) })
  else (smallError, 0, s)

/-- The content of an open file, and the position in it. -/
def smallFile (file : Nat) : List UInt8 × Nat :=
  match s.files file with
  | some (name, position) => ((smallVolume name).getD [], position)
  | none => ([], 0)

def smallGetInfo (file size buffer : Nat) : EfiStatus × Nat × EfiState SmallBooks :=
  if size < 80 then (efiBufferTooSmall, 80, s)
  else (efiSuccess, 80, s.store (buffer + 8) (smallFile s file).1.length)

/-- The bytes are written to memory. -/
def writeBytes (buffer : Nat) (bytes : List UInt8) : EfiState SmallBooks :=
  { s with memory := s.memory.blit buffer bytes.length (Memory.zeroPadded bytes) }

def smallRead (file size buffer : Nat) : EfiState SmallBooks :=
  let (content, position) := smallFile s file
  let bytes := (content.drop position).take size
  let files := Function.update s.files file
    ((s.files file).map fun place => (place.1, position + bytes.length))
  { writeBytes s buffer bytes with files }

/-- A descriptor as it lies in memory. -/
def descriptorBytes (d : OSMemoryDescriptor) : List UInt8 :=
  packed [(4, if d.type = .loaderData then 2 else 7), (4, 0), (8, d.physicalStart), (8, 0),
    (8, d.pageCount), (8, 0)]

def smallGetMemoryMap (size buffer : Nat) : MapAnswer × EfiState SmallBooks :=
  let needed := s.platform.memoryMap.length * 40
  if needed ≤ size ∧ buffer ≠ 0 then
    (⟨efiSuccess, needed, s.platform.mapKey, 40, 1⟩,
      writeBytes s buffer (s.platform.memoryMap.flatMap descriptorBytes))
  else (⟨efiBufferTooSmall, needed, 0, 40, 1⟩, s)

def smallExit (key : Nat) : EfiStatus × EfiState SmallBooks :=
  if key = s.platform.mapKey then (efiSuccess, { s with phase := .exited })
  else (smallError, { s with phase := .exiting })

end SmallServices

/-- Nothing happens in this firmware but what the loader asks for. -/
def smallFirmware : Firmware SmallBooks where
  mode := ⟨0x80000000, 0x300000, 768, 1024, 1024⟩
  volume := smallVolume
  infoSize _ := 80
  descriptorSize := 40
  descriptorVersion := 1
  Consistent s := s.platform = s.firmware.platform
  events := id
  outputString _ := id
  stall _ := id
  allocatePool _ size s := smallAllocate s true size ((size + 0xFFF) / 0x1000)
  allocatePages place _ pages s :=
    match place with
    | some address => smallKernelPages s address pages
    | none => smallAllocate s false (pages * 4096) pages
  openFile name s := smallOpen s name
  getInfo file size buffer s := smallGetInfo s file size buffer
  readFile file size buffer s := smallRead s file size buffer
  getMemoryMap size buffer s := smallGetMemoryMap s size buffer
  exitBootServices key s := smallExit s key

section SmallFirmware

variable {s s' : EfiState SmallBooks} {written : Nat → Prop} {b : SmallBooks}

/-- The books are kept, and only `written` is written to. -/
theorem smallFirmware_serves (hs : smallFirmware.Consistent s) (hfirmware : s'.firmware = s.firmware)
    (hplatform : s'.platform = s.platform) (hphase : s'.phase = s.phase) (hfailed : s'.failed = s.failed)
    (hmemory : ∀ x, ¬ written x → s'.memory x = s.memory x) : smallFirmware.Serves written s s' where
  keeps := fun _ => ⟨by simp [EfiState.owned, hplatform], fun _ _ x _ hx => hmemory x hx⟩
  consistent := by
    show s'.platform = s'.firmware.platform
    rw [hplatform, hfirmware]
    exact hs
  phase_eq := hphase
  failed_mono := fun h => hfailed ▸ h

theorem smallFirmware_serves_self (hs : smallFirmware.Consistent s) :
    smallFirmware.Serves written s s := Firmware.Serves.refl _ hs

/-- A new range comes into the books. -/
theorem smallFirmware_serves_withBooks {r : MemoryRange} (hs : smallFirmware.Consistent s)
    (hb : b.allocated = r :: s.firmware.allocated) :
    smallFirmware.ServesAside s (withBooks s b) ∧
      (withBooks s b).platform.allocated = r :: s.platform.allocated := by
  have hallocated : (withBooks s b).platform.allocated = r :: s.platform.allocated := by
    have hbooks : s.platform = s.firmware.platform := hs
    rw [hbooks]
    exact hb
  refine ⟨⟨fun _ => ⟨?_, fun _ _ _ _ _ => rfl⟩, rfl, rfl, id⟩, hallocated⟩
  show s.platform.allocated <:+ (withBooks s b).platform.allocated
  rw [hallocated]
  exact List.suffix_cons _ _

theorem smallAllocate_allocates (hs : smallFirmware.Consistent s) (pool : Bool) (size pages : Nat) :
    smallFirmware.Allocates size s (smallAllocate s pool size pages) := by
  unfold smallAllocate
  split
  case isTrue h =>
    obtain ⟨hserves, hallocated⟩ := smallFirmware_serves_withBooks hs
      (show (s.firmware.takePages size pages h.1 h.2).allocated = _ from rfl)
    refine ⟨hserves, rfl, ?_, fun _ => hallocated⟩
    show 0x200000 + s.firmware.usedPages * 4096 < 2 ^ 64
    have hused := s.firmware.usedPages_le
    omega
  case isFalse =>
    refine ⟨⟨fun _ => OwnedMemory.Keeps.refl _ _, hs, rfl, fun h => ?_⟩, rfl, by norm_num, fun h => ?_⟩
    · exact (Bool.or_eq_false_iff.mp h).1
    · exact absurd (show efiError smallError by decide) h

theorem smallKernelPages_allocates (hs : smallFirmware.Consistent s) (address pages : Nat) :
    smallFirmware.Allocates (pages * 4096) s (smallKernelPages s address pages) := by
  unfold smallKernelPages
  split
  case isTrue h =>
    obtain ⟨hserves, hallocated⟩ := smallFirmware_serves_withBooks hs
      (show (s.firmware.takeKernel pages h.2.1 h.2.2).allocated = _ from rfl)
    exact ⟨hserves, rfl, by norm_num, fun _ => hallocated⟩
  case isFalse =>
    refine ⟨smallFirmware_serves_self hs, rfl, by norm_num, fun h => ?_⟩
    exact absurd (show efiError smallError by decide) h

theorem smallFile_eq {file position : Nat} {name : String} {content : List UInt8}
    (h : smallFirmware.OpenAt s file name content position) :
    smallFile s file = (content, position) := by
  have hvolume : smallVolume name = some content := h.2
  simp only [smallFile, h.1, hvolume, Option.getD_some]

theorem smallVolume_length {name : String} {content : List UInt8} (h : smallVolume name = some content) :
    content.length ≤ 3 := by
  unfold smallVolume at h
  split at h <;> simp only [Option.some.injEq, reduceCtorEq] at h
  · subst h
    decide
  · subst h
    decide

theorem writeBytes_holds (buffer : Nat) (bytes : List UInt8) :
    (writeBytes s buffer bytes).memory.Holds buffer bytes := by
  apply (Memory.holds_zeroPadded buffer bytes).congr
  exact fun i hi => Memory.blit_inside _ _ (Nat.le_add_right _ _) (Nat.add_lt_add_left hi _)

theorem writeBytes_memory {buffer x : Nat} {bytes : List UInt8}
    (h : ¬ (MemoryRange.mk buffer bytes.length).Contains x) :
    (writeBytes s buffer bytes).memory x = s.memory x := by
  apply Memory.blit_outside
  simp only [MemoryRange.Contains] at h
  omega

theorem smallGetInfo_informs {file size buffer position : Nat} {name : String} {content : List UInt8}
    (hs : smallFirmware.Consistent s) (hfile : smallFirmware.OpenAt s file name content position) :
    smallFirmware.InformsOf s name content size buffer (smallGetInfo s file size buffer) := by
  have hlength := smallVolume_length hfile.2
  by_cases hsmall : size < 80
  · rw [smallGetInfo, if_pos hsmall]
    exact ⟨rfl, fun _ => ⟨rfl, rfl, smallFirmware_serves_self hs⟩,
      fun hle => absurd hsmall (Nat.not_lt.mpr hle), fun hle => absurd hsmall (Nat.not_lt.mpr hle)⟩
  · rw [smallGetInfo, if_neg hsmall, smallFile_eq hfile]
    refine ⟨rfl, fun hlt => absurd hlt hsmall, fun _ => ?_, fun _ _ => ?_⟩
    · refine smallFirmware_serves hs rfl rfl rfl rfl fun x hx => Memory.writeLE_outside _ _ ?_
      simp only [MemoryRange.Contains] at hx
      omega
    · exact Memory.word_setWord_same _ _ (show content.length < 2 ^ 64 by omega)

theorem smallRead_reads {file size buffer position : Nat} {name : String} {content : List UInt8}
    (hs : smallFirmware.Consistent s) (hfile : smallFirmware.OpenAt s file name content position) :
    smallFirmware.Serves (MemoryRange.mk buffer size).Contains s (smallRead s file size buffer) ∧
      (smallRead s file size buffer).memory.Holds buffer ((content.drop position).take size) := by
  simp only [smallRead, smallFile_eq hfile]
  refine ⟨smallFirmware_serves hs rfl rfl rfl rfl fun x hx => ?_, writeBytes_holds buffer _⟩
  exact writeBytes_memory fun hin => hx ⟨hin.1, hin.2.trans_le
    (Nat.add_le_add_left (List.length_take_le _ _) _)⟩

theorem length_descriptorBytes (d : OSMemoryDescriptor) : (descriptorBytes d).length = 40 :=
  length_packed _

theorem readDescriptor_descriptorBytes {m : Memory} {a : Nat} {d : OSMemoryDescriptor}
    (h : m.Holds a (descriptorBytes d)) (htype : d.type = .loaderData ∨ d.type = .conventional)
    (hstart : d.physicalStart < 2 ^ 64) (hcount : d.pageCount < 2 ^ 64) : readDescriptor m a = d := by
  have hcode := Memory.Holds.readLE_field [] h
  have hphysical := Memory.Holds.readLE_field [(4, if d.type = .loaderData then 2 else 7), (4, 0)] h
  have hpages := Memory.Holds.readLE_field
    [(4, if d.type = .loaderData then 2 else 7), (4, 0), (8, d.physicalStart), (8, 0)] h
  have hphysical' : m.word (a + 8) = d.physicalStart :=
    hphysical.trans (Nat.mod_eq_of_lt (by simpa using hstart))
  have hpages' : m.word (a + 24) = d.pageCount :=
    hpages.trans (Nat.mod_eq_of_lt (by simpa using hcount))
  have hcode' : m.readLE a 4 = (if d.type = .loaderData then 2 else 7) % 256 ^ 4 := hcode
  rw [readDescriptor, hcode', hphysical', hpages']
  obtain ⟨type, physicalStart, pageCount⟩ := d
  rcases htype with rfl | rfl <;> rfl

theorem smallFirmware_mapBytes (hs : smallFirmware.Consistent s) : smallFirmware.mapBytes s = 160 := by
  have hbooks : s.platform = s.firmware.platform := hs
  rw [Firmware.mapBytes, hbooks]
  rfl

theorem smallGetMemoryMap_maps (hs : smallFirmware.Consistent s) (size buffer : Nat) :
    smallFirmware.Maps s size buffer (smallGetMemoryMap s size buffer) := by
  by_cases hfit : s.platform.memoryMap.length * 40 ≤ size ∧ buffer ≠ 0
  · have hlength : (s.platform.memoryMap.flatMap descriptorBytes).length =
        s.platform.memoryMap.length * 40 := by
      simp [List.length_flatMap, length_descriptorBytes]
    rw [smallGetMemoryMap, if_pos hfit]
    constructor
    · rintro (hlt | hzero)
      · exact absurd hlt (Nat.not_lt.mpr hfit.1)
      · exact absurd hzero hfit.2
    · exact fun _ _ => rfl
    · refine fun _ _ => smallFirmware_serves hs rfl rfl rfl rfl fun x hx => writeBytes_memory ?_
      rw [hlength]
      exact hx
    · exact fun _ _ => rfl
    · intro _ _ i d hd
      have hholds := writeBytes_holds (s := s) buffer (s.platform.memoryMap.flatMap descriptorBytes)
      have hentry := hholds.entry length_descriptorBytes hd
      rw [Nat.mul_comm] at hentry
      have hmem : d ∈ s.platform.memoryMap := List.mem_of_getElem? hd
      have hwrap := s.platform.nonWrapping d hmem
      have hbooks : s.platform = s.firmware.platform := hs
      rw [hbooks] at hmem
      have hcount : d.pageCount ≤ d.pageCount * kVMPageSize := Nat.le_mul_of_pos_right _ (by decide)
      apply readDescriptor_descriptorBytes hentry
      · rcases SmallBooks.mem_memoryMap hmem with rfl | rfl | rfl | rfl <;> simp
      · omega
      · omega
  · rw [smallGetMemoryMap, if_neg hfit]
    refine ⟨fun _ => ⟨show efiError efiBufferTooSmall by decide, rfl, smallFirmware_serves_self hs⟩,
      ?_, ?_, ?_, ?_⟩ <;>
      exact fun hle hne => absurd ⟨hle, hne⟩ hfit

theorem smallExit_exits (hs : smallFirmware.Live s) (key : Nat) :
    smallFirmware.Exits s key (smallExit s key) := by
  by_cases hkey : key = s.platform.mapKey
  · rw [smallExit, if_pos hkey]
    exact ⟨⟨fun _ => hkey, fun _ => rfl⟩, OwnedMemory.Keeps.refl _ _, hs.consistent, id,
      fun _ => ⟨rfl, rfl⟩, fun h => absurd rfl h⟩
  · rw [smallExit, if_neg hkey]
    have herror : smallError ≠ efiSuccess := by decide
    exact ⟨⟨fun h => absurd h herror, fun h => absurd h hkey⟩, OwnedMemory.Keeps.refl _ _,
      hs.consistent, id, fun h => absurd h herror, fun _ => ⟨show efiError smallError by decide, nofun⟩⟩

/-- Pool memory is given, and not at address 0, or the failure is noted. -/
theorem smallAllocate_status (size pages : Nat)
    (hfailed : (smallAllocate s true size pages).2.2.failed = false) :
    ¬ efiError (smallAllocate s true size pages).1 ∧ (smallAllocate s true size pages).2.1 ≠ 0 := by
  unfold smallAllocate at hfailed ⊢
  split at hfailed
  case isTrue h =>
    rw [dif_pos h]
    refine ⟨show ¬ efiError efiSuccess by decide, ?_⟩
    show 0x200000 + s.firmware.usedPages * 4096 ≠ 0
    omega
  case isFalse => simp at hfailed

theorem smallKernelPages_place (address pages : Nat)
    (hstatus : ¬ efiError (smallKernelPages s address pages).1) :
    (smallKernelPages s address pages).2.1 = address := by
  unfold smallKernelPages at hstatus ⊢
  split at hstatus
  case isTrue h =>
    rw [dif_pos h]
    exact h.1.symm
  case isFalse => exact absurd (show efiError smallError by decide) hstatus

theorem smallOpen_serves (hs : smallFirmware.Consistent s) (name : String) :
    smallFirmware.ServesAside s (smallOpen s name).2.2 := by
  unfold smallOpen
  split
  case isTrue => exact smallFirmware_serves hs rfl rfl rfl rfl fun _ _ => rfl
  case isFalse => exact smallFirmware_serves_self hs

theorem smallOpen_open (name : String) (hstatus : ¬ efiError (smallOpen s name).1) :
    ∃ content, smallFirmware.OpenAt (smallOpen s name).2.2 (smallOpen s name).2.1 name content 0 := by
  unfold smallOpen at hstatus ⊢
  split at hstatus
  case isTrue h =>
    obtain ⟨content, hcontent⟩ := Option.isSome_iff_exists.mp h
    rw [if_pos h]
    exact ⟨content, Function.update_self _ _ _, hcontent⟩
  case isFalse => exact absurd (show efiError smallError by decide) hstatus

/-- What is given away lies below the framebuffer. -/
theorem smallFirmware_framebuffer (hs : smallFirmware.Consistent s) {r : MemoryRange}
    (hr : r ∈ s.platform.allocated) : r.Apart ⟨0x80000000, 0x300000⟩ := by
  have hbooks : s.platform = s.firmware.platform := hs
  rw [hbooks] at hr
  have hkernel := s.firmware.kernelPages_le
  have hused := s.firmware.usedPages_le
  rintro x ⟨hlow, hhigh⟩ ⟨hlow', -⟩
  simp only at hlow'
  rcases s.firmware.placed r hr with ⟨-, hend⟩ | ⟨-, hend⟩ <;>
    (simp only at hend
     omega)

theorem smallFirmware_documented : smallFirmware.Documented where
  descriptorSize_ge := by decide
  descriptorSize_lt := by decide
  infoSize_ge := fun _ => Nat.le_refl _
  mode_lt := by decide
  volume_length := fun _ _ h => (smallVolume_length h).trans_lt (by norm_num)
  consistent_memory := fun _ _ h => h
  mapBytes_lt := fun s hs => by
    rw [smallFirmware_mapBytes hs]
    norm_num
  framebuffer_apart := fun s hs r hr => smallFirmware_framebuffer hs hr
  events := fun s hs => smallFirmware_serves_self hs.consistent
  events_map := fun _ _ _ => rfl
  outputString := fun s _ hs => smallFirmware_serves_self hs.consistent
  stall := fun s _ hs => smallFirmware_serves_self hs.consistent
  allocatePool := fun s size hs => smallAllocate_allocates hs.consistent true size _
  allocatePool_status := fun s size _ hfailed => smallAllocate_status size _ hfailed
  allocatePages := fun s place pages hs => by
    cases place with
    | none => exact smallAllocate_allocates hs.consistent false _ pages
    | some address => exact smallKernelPages_allocates hs.consistent address pages
  allocatePages_place := fun s address pages _ hstatus => smallKernelPages_place address pages hstatus
  openFile := fun s name hs => smallOpen_serves hs.consistent name
  openFile_open := fun s name _ hstatus => smallOpen_open name hstatus
  getInfo := fun s file name content position size buffer hs hfile =>
    smallGetInfo_informs hs.consistent hfile
  readFile := fun s file name content position size buffer hs hfile =>
    (smallRead_reads hs.consistent hfile).imp_right fun h _ => h
  getMemoryMap := fun s size buffer hs => smallGetMemoryMap_maps hs.consistent size buffer
  exitBootServices := fun s key hs => smallExit_exits hs key

theorem smallFirmware_settles : smallFirmware.Settles fun _ => 0 where
  mapBytes_le := fun s s' hs hs' => by
    rw [smallFirmware_mapBytes hs, smallFirmware_mapBytes hs']
    norm_num
  memory := fun _ _ => rfl
  events_le := fun _ _ => Nat.le_refl _
  events_lt := fun _ _ h => absurd rfl h
  getMemoryMap := fun _ _ _ _ => Nat.le_refl _
  exitBootServices := fun _ _ _ => Nat.le_refl _

/-- The machine when the loader starts. -/
def smallStart : EfiState SmallBooks where
  firmware := ⟨0, 0, [], by decide, by decide, by simp, List.Pairwise.nil⟩
  memory := fun _ => 0
  platform := SmallBooks.platform ⟨0, 0, [], by decide, by decide, by simp, List.Pairwise.nil⟩
  files := fun _ => none
  phase := .running
  failed := false

end SmallFirmware

/-! ## Section 3: The kernel is started -/

/-- Whatever the firmware does between the calls, the loader comes to an end. It hangs while the
firmware still runs, or it starts the kernel, which then is where it is linked for, with boot
information behind the magic number. The firmware has ended then, unless in this run its memory map has
grown by more than two descriptors between two turns of the last loop, and in any machine that the kernel
may find, the map is one that it accepts. The start-up volume lies in memory that the kernel leaves alone,
as it is on the disk, or there is none; or the firmware has opened it and then refused its size or the
memory for it, and the boot information has kept what was in the pool. -/
theorem loader_hands_over (f : Firmware φ) (hf : f.Documented) (pending : EfiState φ → Nat)
    (hsettles : f.Settles pending) (s : EfiState φ) (hs : f.Ready s) :
    ∃ rounds, ∀ fuel, rounds ≤ fuel → ∃ last s', f.main fuel s = some (last, s') ∧
      (last = .hangs → s'.phase = .running) ∧
      ∀ entry bootInfo, last = .starts entry bootInfo → s'.failed = false →
        (readBootinfo s'.memory bootInfo).magic = bootinfoMagic ∧
        (s'.phase ≠ .exited → f.MapOutgrows bootInfo (f.atMap s)) ∧
        ∃ kernel kernelPages, f.volume "kernel.bin" = some kernel ∧ entry = 0x100000 ∧
          s'.memory.Holds entry kernel ∧ kernel.length + 32 * 4096 ≤ kernelPages * 4096 ∧
          (s'.phase = .exited → ∀ m, Finds kernelPages bootInfo s' m →
            AcceptedMap m.memoryMap m.image ∧
            FindsVolume f s bootInfo (readBootinfo s'.memory bootInfo) m) := by
  obtain ⟨rounds, hmain⟩ := Firmware.main_handsOver hf hsettles hs
  refine ⟨rounds, fun fuel hfuel => ?_⟩
  obtain ⟨last, s', hend, hhangs, hstarts⟩ := hmain fuel hfuel
  refine ⟨last, s', hend, hhangs, fun entry bootInfo hlast hfailed => ?_⟩
  obtain ⟨rfl, hover⟩ := hstarts entry bootInfo hlast
  obtain ⟨kernelPages, h⟩ := hover hfailed
  obtain ⟨kernel, hvolume, hpages, hplaced⟩ := h.kernel
  exact ⟨h.informed.magic_eq, h.not_exited, kernel, kernelPages, hvolume, rfl, hplaced.holds, hpages,
    fun hphase m hm => ⟨acceptedMap_of_handsOver h hphase hm, findsVolume_of_handsOver hf h hphase hm⟩⟩

/-- The machine as the kernel finds it behind the small firmware. -/
def smallMachine (s : EfiState SmallBooks) : Machine where
  memoryMap := (readBootinfo s.memory 0x201000).descriptors s.memory
  image := ⟨kernelVMA + 0x104000⟩
  layout := ⟨(readBootinfo s.memory 0x201000).framebufferBase,
    (readBootinfo s.memory 0x201000).framebufferBaseSize, 0xFFFFFFFF80110000⟩
  memory := s.memory

theorem smallFirmware_main :
    (smallFirmware.main 1 smallStart).map
        (fun p => (p.1, p.2.failed, p.2.phase, (readBootinfo p.2.memory 0x201000).initramfsSize,
          (smallMachine p.2).memoryMap)) =
      some (.starts 0x100000 0x201000, false, .exited, 3,
        [⟨.loaderData, 0x100000, 33⟩, ⟨.conventional, 0x121000, 223⟩, ⟨.loaderData, 0x200000, 6⟩,
          ⟨.conventional, 0x206000, 2042⟩]) := by
  decide +kernel

/-- One turn of the loop is enough. -/
theorem smallFirmware_main_succ (n : Nat) :
    smallFirmware.main (n + 1) smallStart = smallFirmware.main 1 smallStart := rfl

theorem loader_hands_over_small : ∃ fuel s',
    smallFirmware.main fuel smallStart = some (.starts 0x100000 0x201000, s') ∧ s'.phase = .exited ∧
    s'.memory.Holds 0x100000 [0xFA, 0xF4] ∧
    (readBootinfo s'.memory 0x201000).initramfsSize = 3 ∧
    AcceptedMap (smallMachine s').memoryMap (smallMachine s').image ∧
    FindsVolume smallFirmware smallStart 0x201000 (readBootinfo s'.memory 0x201000)
      (smallMachine s') := by
  obtain ⟨rounds, h⟩ := loader_hands_over smallFirmware smallFirmware_documented (fun _ => 0)
    smallFirmware_settles smallStart ⟨rfl, rfl⟩
  obtain ⟨last, s', hmain, -, hstarts⟩ := h (rounds + 1) (Nat.le_succ _)
  have hrun := smallFirmware_main
  rw [← smallFirmware_main_succ rounds, hmain] at hrun
  simp only [Option.map_some, Option.some.injEq, Prod.mk.injEq] at hrun
  obtain ⟨rfl, hfailed, hphase, hsize, hmap⟩ := hrun
  obtain ⟨-, -, kernel, pages, hvolume, -, hholds, hpages, hfinds⟩ := hstarts _ _ rfl hfailed
  obtain rfl : [0xFA, 0xF4] = kernel := Option.some.inj hvolume
  have hend : kernelVirtToPhys (kernelVMA + 0x104000) = 0x104000 := by decide
  refine ⟨rounds + 1, s', hmain, hphase, hholds, hsize, hfinds hphase (smallMachine s') ⟨rfl, rfl, rfl,
    fun _ _ => rfl, ?_, ?_⟩⟩
  · show kernelVirtToPhys (kernelVMA + 0x104000) ≤ _
    rw [hend]
    simp only [List.length_cons, List.length_nil] at hpages
    omega
  · rw [hmap]
    exact ⟨⟨.conventional, 0x121000, 223⟩, by decide, rfl, by decide, by decide⟩

end TermOS.Bootloader
