import TermOS.Bootloader.Efi
import TermOS.Kernel.Bootinfo

/-!
# The boot loader

Model of `main` in `bootloader/src/main.c`. The protocols that it looks up first are taken as found,
since it does not look at the status of that. What it does not look at either is whether a request
for pool memory or a read has failed.

## Main Definitions

* `Firmware.main` - the code
* `HandsOver` - what the kernel finds

## Main Theorems

* `Firmware.main_handsOver` - the loader hangs with the firmware running, or starts the kernel
-/

/-! ## Section 1: The boot information -/

/-- The descriptors that the kernel goes through. -/
def TermOS.Kernel.Bootinfo.descriptors (b : TermOS.Kernel.Bootinfo) (m : TermOS.Lib.Memory) :
    List TermOS.VM.OSMemoryDescriptor :=
  (List.range (b.mapSize / b.descriptorSize)).map fun i =>
    TermOS.Bootloader.readDescriptor m (b.memoryMap + i * b.descriptorSize)

namespace TermOS.Bootloader

open TermOS.Lib TermOS.Kernel TermOS.VM

/-! ## Section 2: The code -/

/-- How `main` ends: in an endless loop, or with the call of the kernel. -/
inductive LoaderEnd
  | hangs
  | starts (entry bootInfo : Nat)
  deriving DecidableEq, Repr

namespace Firmware

variable {φ : Type} (f : Firmware φ)

/-- The text in front of the reason. -/
def initramfsWarning : String :=
  "WARNING: Failed to load initramfs file!! Only kernel emergency shell available..\r\nReason: "

/-- `print_initramfs_warning` -/
def printInitramfsWarning (reason : String) (s : EfiState φ) : EfiState φ :=
  let s := f.outputString initramfsWarning s
  let s := f.outputString reason s
  let s := f.outputString "\r\n" s
  f.stall 2000000 s

/-- What `main` does to learn the size of a file: the status, and the address of the
`efi_file_info_t`. -/
def getFileInfo (file : Nat) (s : EfiState φ) : EfiStatus × Nat × EfiState φ :=
  let (status, size, s) := f.getInfo file 0 0 s
  if status = efiBufferTooSmall then
    -- the status of the pool request is not looked at
    let (_, info, s) := f.allocatePool .loaderData size s
    let (status, _, s) := f.getInfo file size info s
    (status, info, s)
  else (status, 0, s)

/-- The first part of `main`: where the kernel has been read to, or `none` where `main` hangs. -/
def loadKernel (s : EfiState φ) : Option Nat × EfiState φ :=
  let (status, file, s) := f.openFile "kernel.bin" s
  if efiError status then (none, f.outputString "Kernel not found :(" s) else
  let (status, info, s) := f.getFileInfo file s
  if efiError status then (none, f.outputString "Failed to allocate memory for buffer!!" s) else
  let kernelSize := s.memory.word (info + 8)
  let kernelPages := wrap64 (kernelSize + 0xFFF) / 0x1000 + 32
  let (status, kernelAddr, s) := f.allocatePages (some 0x100000) .loaderData kernelPages s
  if efiError status then (none, f.outputString "Memory 0x100000 busy!\r\n" s) else
  -- the status of the read is not looked at
  (some kernelAddr, f.readFile file kernelSize kernelAddr s)

/-- The part for the start-up volume. -/
def loadInitramfs (bootInfo : Nat) (s : EfiState φ) : EfiState φ :=
  let (status, file, s) := f.openFile "StartupVolume.cpio" s
  if efiError status then
    let s := f.printInitramfsWarning "StartupVolume.cpio is missing" s
    (s.store (bootInfo + 80) 0).store (bootInfo + 88) 0
  else
    let (status, info, s) := f.getFileInfo file s
    if efiError status then
      -- the fields of the boot information stay as they were
      f.printInitramfsWarning "failed to allocate memory for initramfs buffer!!" s
    else
      let initramfsSize := s.memory.word (info + 8)
      let initramfsPages := wrap64 (initramfsSize + 0xFFF) / 0x1000
      let (status, initramfsAddr, s) := f.allocatePages none .loaderData initramfsPages s
      if efiError status then
        f.printInitramfsWarning "failed to allocate memory for initramfs itself!!" s
      else
        let s := f.readFile file initramfsSize initramfsAddr s
        (s.store (bootInfo + 80) initramfsAddr).store (bootInfo + 88) initramfsSize

/-- The fields of the framebuffer. -/
def setFramebuffer (bootInfo : Nat) (s : EfiState φ) : EfiState φ :=
  let s := s.store (bootInfo + 8) f.mode.frameBufferBase
  let s := s.store (bootInfo + 16) f.mode.frameBufferSize
  let s := s.store (bootInfo + 32) f.mode.verticalResolution
  let s := s.store (bootInfo + 24) f.mode.horizontalResolution
  s.store (bootInfo + 40) f.mode.pixelsPerScanLine

/-- The fields of the memory map. -/
def noteMap (bootInfo map : Nat) (answer : MapAnswer) (s : EfiState φ) : EfiState φ :=
  let s := s.store (bootInfo + 64) answer.descriptorSize
  let s := s.store32 (bootInfo + 76) answer.descriptorVersion
  let s := s.store (bootInfo + 56) answer.mapSize
  let s := s.store32 (bootInfo + 72) answer.mapKey
  s.store (bootInfo + 48) map

/-- The loop around `ExitBootServices`, for so many turns at most. -/
def exitLoop (bootInfo map : Nat) : Nat → Nat → EfiState φ → Option (EfiState φ)
  | 0, _, _ => none
  | fuel + 1, mapSize, s =>
    let (answer, s) := f.getMemoryMap mapSize map s
    if efiError answer.status then some s else
    -- an event between the two calls makes the key an old one
    let s := f.events (noteMap bootInfo map answer s)
    let (status, s) := f.exitBootServices answer.mapKey s
    if status = efiSuccess then some s
    else
      let mapSize := wrap64 (answer.mapSize + 2 * answer.descriptorSize)
      if efiError status then exitLoop bootInfo map fuel mapSize s else some s

/-- The buffer for the memory map: its address and its size. -/
def allocateMap (s : EfiState φ) : Nat × Nat × EfiState φ :=
  let s := f.outputString "Almost ready to jump :D. Working with memory map\r\n" s
  let (answer, s) := f.getMemoryMap 0 0 s
  let mapSize := wrap64 (answer.mapSize + 4096)
  let (status, map, s) := f.allocatePool .loaderData mapSize s
  (map, mapSize, if efiError status then f.outputString "Failed to allocate pool" s else s)

/-- The last part of `main`. -/
def leaveFirmware (bootInfo fuel : Nat) (s : EfiState φ) : Option (EfiState φ) :=
  let (map, mapSize, s) := f.allocateMap s
  f.exitLoop bootInfo map fuel mapSize s

/-- The boot information, behind its magic number as it was in the pool. -/
def allocateBootinfo (s : EfiState φ) : Nat × EfiState φ :=
  let (_, bootInfo, s) := f.allocatePool .loaderData sizeofBootinfo s
  (bootInfo, s.store bootInfo bootinfoMagic)

/-- `main`, with at most `fuel` turns of the last loop. -/
def main (fuel : Nat) (s : EfiState φ) : Option (LoaderEnd × EfiState φ) :=
  match f.loadKernel s with
  | (none, s) => some (.hangs, s)
  | (some kernelAddr, s) =>
    let (bootInfo, s) := f.allocateBootinfo s
    let s := f.loadInitramfs bootInfo s
    let s := f.setFramebuffer bootInfo s
    -- the kernel is called also if the firmware has not been left
    (f.leaveFirmware bootInfo fuel s).map fun s => (.starts kernelAddr bootInfo, s)

/-! ## Section 3: A file is read -/

section Files

variable {f} {s s' s₁ : EfiState φ} {file info place : Nat} {name : String} {content : List UInt8}
  {status : EfiStatus}

theorem getFileInfo_spec (hf : f.Documented) (hs : f.Ready s) (hfile : f.OpenAt s file name content 0)
    (h : f.getFileInfo file s = (status, info, s')) :
    f.ServesAside s s' ∧ s'.files = s.files ∧
      (s'.failed = false → ¬ efiError status → s'.memory.word (info + 8) = content.length) := by
  have hpositive := hf.infoSize_ge name
  rcases hcall : f.getInfo file 0 0 s with ⟨status₁, size, s₁⟩
  have hinfo := hf.getInfo s file name content 0 0 0 hs hfile
  rw [hcall] at hinfo
  obtain ⟨hstatus, hsize, hserves⟩ := hinfo.small (by omega)
  have hready := hserves.ready hs
  rcases hpool : f.allocatePool .loaderData size s₁ with ⟨status₂, info₂, s₂⟩
  have halloc := hf.allocatePool s₁ size hready
  have hgiven := hf.allocatePool_status s₁ size hready
  rw [hpool] at halloc hgiven
  rcases hcall₂ : f.getInfo file size info₂ s₂ with ⟨status₃, size₃, s₃⟩
  have hopen : f.OpenAt s₂ file name content 0 :=
    ⟨by rw [halloc.files_eq, hinfo.files_eq]; exact hfile.1, hfile.2⟩
  have hinfo₂ := hf.getInfo s₂ file name content 0 size info₂ (halloc.serves.ready hready) hopen
  rw [hcall₂] at hinfo₂
  have hstatus₁ : status₁ = efiBufferTooSmall := hstatus
  simp only [getFileInfo, hcall, hstatus₁, if_true, hpool, hcall₂, Prod.mk.injEq] at h
  obtain ⟨rfl, rfl, rfl⟩ := h
  have hle : f.infoSize name ≤ size := Nat.le_of_eq hsize.symm
  refine ⟨?_, ?_, fun _ hok => hinfo₂.word_eq hle hok⟩
  · -- the second call writes to the new range only
    apply (hserves.aside halloc.serves).trans (hinfo₂.serves hle)
    intro hfailed r hr x hx hwritten
    have hr₁ := (hserves.keeps (halloc.serves.failed_mono hfailed)).mem hr
    exact halloc.apart (hgiven hfailed).1 r hr₁ x hwritten hx
  · exact hinfo₂.files_eq.trans (halloc.files_eq.trans hinfo.files_eq)

/-- Memory is allocated for a file, and the file is read there. -/
theorem allocateRead_spec (hf : f.Documented) (hs : f.Ready s) (hfile : f.OpenAt s file name content 0)
    {place : Option Nat} {pages address : Nat} (size : Nat)
    (hcall : f.allocatePages place .loaderData pages s = (status, address, s₁))
    (hstatus : ¬ efiError status)
    (hsize : s.failed = false → size = content.length ∧ content.length ≤ pages * 4096) :
    f.ServesAside s (f.readFile file size address s₁) ∧
      ((f.readFile file size address s₁).failed = false →
        Placed (f.readFile file size address s₁) ⟨address, pages * 4096⟩ content ∧
        ∀ r ∈ s.platform.allocated, (MemoryRange.mk address (pages * 4096)).Apart r) := by
  have halloc := hf.allocatePages s place pages hs
  rw [hcall] at halloc
  have hopen : f.OpenAt s₁ file name content 0 := ⟨by rw [halloc.files_eq]; exact hfile.1, hfile.2⟩
  obtain ⟨hserves, hholds⟩ :=
    hf.readFile s₁ file name content 0 size address (halloc.serves.ready hs) hopen
  have hapart := halloc.apart hstatus
  constructor
  · apply halloc.serves.trans hserves
    intro hfailed r hr x hx hwritten
    obtain ⟨rfl, hle⟩ := hsize (halloc.serves.failed_mono hfailed)
    exact hapart r hr x ⟨hwritten.1, hwritten.2.trans_le (Nat.add_le_add_left hle _)⟩ hx
  · intro hfailed
    obtain ⟨rfl, hle⟩ := hsize (halloc.serves.failed_mono (hserves.failed_mono hfailed))
    have hread := hholds hfailed
    rw [List.drop_zero, List.take_length] at hread
    exact ⟨⟨(hserves.keeps hfailed).mem (halloc.mem hstatus), hread, hle⟩, hapart⟩

/-- Rounding up to whole pages. -/
theorem pages_spec (hf : f.Documented) (hvolume : f.volume name = some content) (extra : Nat) :
    content.length + extra * 4096 ≤
      (wrap64 (content.length + 0xFFF) / 0x1000 + extra) * 4096 := by
  have hlt := hf.volume_length name content hvolume
  rw [wrap64_of_lt (by omega)]
  omega

/-- The kernel is where it is linked for, or the firmware still runs. -/
theorem loadKernel_spec (hf : f.Documented) (hs : f.Ready s) {result : Option Nat}
    (h : f.loadKernel s = (result, s')) :
    f.ServesAside s s' ∧ ∀ entry, result = some entry → entry = 0x100000 ∧
      ∃ kernel pages, f.volume "kernel.bin" = some kernel ∧ kernel.length + 32 * 4096 ≤ pages * 4096 ∧
        (s'.failed = false → Placed s' ⟨0x100000, pages * 4096⟩ kernel) := by
  unfold loadKernel at h
  rcases hopen : f.openFile "kernel.bin" s with ⟨status₁, file, s₁⟩
  have hserves₁ := hf.openFile s "kernel.bin" hs
  have hfile := hf.openFile_open s "kernel.bin" hs
  rw [hopen] at hserves₁ hfile
  dsimp only at hserves₁ hfile
  have hready₁ := hserves₁.ready hs
  simp only [hopen] at h
  by_cases herror₁ : efiError status₁
  · rw [if_pos herror₁] at h
    obtain ⟨rfl, rfl⟩ := Prod.mk.inj h
    exact ⟨hserves₁.aside (hf.outputString s₁ _ hready₁), by simp⟩
  · rw [if_neg herror₁] at h
    obtain ⟨kernel, hkernel⟩ := hfile herror₁
    rcases hinfo : f.getFileInfo file s₁ with ⟨status₂, info, s₂⟩
    obtain ⟨hserves₂, hfiles, hword⟩ := getFileInfo_spec hf hready₁ hkernel hinfo
    have hready₂ := hserves₂.ready hready₁
    simp only [hinfo] at h
    by_cases herror₂ : efiError status₂
    · rw [if_pos herror₂] at h
      obtain ⟨rfl, rfl⟩ := Prod.mk.inj h
      exact ⟨(hserves₁.aside hserves₂).aside (hf.outputString s₂ _ hready₂), by simp⟩
    · rw [if_neg herror₂] at h
      generalize hpages : wrap64 (s₂.memory.word (info + 8) + 0xFFF) / 0x1000 + 32 = pages at h
      rcases halloc : f.allocatePages (some 0x100000) .loaderData pages s₂ with ⟨status₃, address, s₃⟩
      simp only [halloc] at h
      by_cases herror₃ : efiError status₃
      · rw [if_pos herror₃] at h
        obtain ⟨rfl, rfl⟩ := Prod.mk.inj h
        have hserves₃ := (hf.allocatePages s₂ (some 0x100000) pages hready₂).serves
        rw [halloc] at hserves₃
        exact ⟨((hserves₁.aside hserves₂).aside hserves₃).aside
          (hf.outputString s₃ _ (hserves₃.ready hready₂)), by simp⟩
      · rw [if_neg herror₃] at h
        have hplace := hf.allocatePages_place s₂ 0x100000 pages hready₂
        rw [halloc] at hplace
        obtain rfl : address = 0x100000 := hplace herror₃
        have hopen₂ : f.OpenAt s₂ file "kernel.bin" kernel 0 :=
          ⟨by rw [hfiles]; exact hkernel.1, hkernel.2⟩
        have hround := pages_spec hf hkernel.2 32
        obtain ⟨rfl, rfl⟩ := Prod.mk.inj h
        obtain ⟨hserves₃, hplaced⟩ := allocateRead_spec hf hready₂ hopen₂
          (s₂.memory.word (info + 8)) halloc herror₃ fun hfailed => by
            have hlength := hword hfailed herror₂
            rw [hlength] at hpages
            exact ⟨hlength, by omega⟩
        refine ⟨(hserves₁.aside hserves₂).aside hserves₃, fun entry hentry => ?_⟩
        obtain rfl : 0x100000 = entry := by simpa using hentry
        refine ⟨rfl, kernel, (wrap64 (kernel.length + 0xFFF) / 0x1000 + 32), hkernel.2, hround,
          fun hfailed => ?_⟩
        have hlength := hword (hserves₃.failed_mono hfailed) herror₂
        rw [← hlength, hpages]
        exact (hplaced hfailed).1

end Files

/-! ## Section 4: The boot information is written -/

/-- Where the boot information lies. -/
abbrev infoRange (bootInfo : Nat) : MemoryRange := ⟨bootInfo, sizeofBootinfo⟩

/-- The firmware opens the file in `s`, but then it does not tell its size, or it has no memory for
it. -/
def Refuses (name : String) (s : EfiState φ) : Prop :=
  let (opened, file, s) := f.openFile name s
  let (told, info, s) := f.getFileInfo file s
  ¬ efiError opened ∧ (efiError told ∨
    efiError (f.allocatePages none .loaderData
      (wrap64 (s.memory.word (info + 8) + 0xFFF) / 0x1000) s).1)

/-- What the boot information says of the start-up volume: that there is none, where it has been read
to, in memory apart from `others`, or, when the firmware has refused it in the state `before`, whatever it
said there. -/
inductive VolumeNoted (bootInfo : Nat) (others : List MemoryRange) (before s : EfiState φ) : Prop
  | missing (address_eq : (readBootinfo s.memory bootInfo).initramfsAddress = 0)
      (size_eq : (readBootinfo s.memory bootInfo).initramfsSize = 0)
  | loaded (archive : List UInt8) (pages : Nat) (volume : f.volume "StartupVolume.cpio" = some archive)
      (placed : Placed s ⟨(readBootinfo s.memory bootInfo).initramfsAddress, pages * 4096⟩ archive)
      (apart : ∀ r ∈ others, (MemoryRange.mk (readBootinfo s.memory bootInfo).initramfsAddress
        (pages * 4096)).Apart r)
      (size_eq : (readBootinfo s.memory bootInfo).initramfsSize = archive.length)
  | refused (refuses : f.Refuses "StartupVolume.cpio" before)
      (address_eq : (readBootinfo s.memory bootInfo).initramfsAddress =
        (readBootinfo before.memory bootInfo).initramfsAddress)
      (size_eq : (readBootinfo s.memory bootInfo).initramfsSize =
        (readBootinfo before.memory bootInfo).initramfsSize)

section Information

variable {f} {s s' before : EfiState φ} {bootInfo : Nat}

theorem printInitramfsWarning_spec (hf : f.Documented) (hs : f.Ready s) (reason : String) :
    f.ServesAside s (f.printInitramfsWarning reason s) := by
  have h₁ := hf.outputString s initramfsWarning hs
  have h₂ := hf.outputString _ reason (h₁.ready hs)
  have h₃ := hf.outputString _ "\r\n" ((h₁.aside h₂).ready hs)
  exact ((h₁.aside h₂).aside h₃).aside (hf.stall _ 2000000 (((h₁.aside h₂).aside h₃).ready hs))

theorem not_infoRange {x : Nat} (h : ¬ (infoRange bootInfo).Contains x) :
    x < bootInfo ∨ bootInfo + 96 ≤ x := by
  simp only [MemoryRange.Contains, sizeofBootinfo] at h
  omega

/-- Where the fields of the start-up volume lie. -/
abbrev volumeFields (bootInfo : Nat) : MemoryRange := ⟨bootInfo + 80, 16⟩

theorem volumeFields_infoRange {x : Nat} (h : (volumeFields bootInfo).Contains x) :
    (infoRange bootInfo).Contains x := by
  simp only [MemoryRange.Contains, sizeofBootinfo] at h ⊢
  omega

/-- The address and the size of the archive are stored. -/
theorem storeVolume_spec (hf : f.Documented) (hs : f.Ready s) (bootInfo address size : Nat) :
    f.Serves (volumeFields bootInfo).Contains s
      ((s.store (bootInfo + 80) address).store (bootInfo + 88) size) := by
  apply hf.store hs.consistent
  intro x hx
  simp only [MemoryRange.Contains] at hx
  simp only [EfiState.store, Memory.setWord]
  rw [Memory.writeLE_outside _ _ (by omega), Memory.writeLE_outside _ _ (by omega)]

theorem readBootinfo_storeVolume (bootInfo address size : Nat) :
    readBootinfo ((s.store (bootInfo + 80) address).store (bootInfo + 88) size).memory bootInfo =
      { readBootinfo s.memory bootInfo with
        initramfsAddress := address % 2 ^ 64, initramfsSize := size % 2 ^ 64 } := by
  simp (disch := omega) only [readBootinfo, EfiState.store, Memory.word_setWord,
    Memory.word_setWord_disjoint]

theorem VolumeNoted.congr {others others' : List MemoryRange}
    (h : f.VolumeNoted bootInfo others before s)
    (hothers : ∀ r ∈ others', r ∈ others)
    (haddress : (readBootinfo s'.memory bootInfo).initramfsAddress =
      (readBootinfo s.memory bootInfo).initramfsAddress)
    (hsize : (readBootinfo s'.memory bootInfo).initramfsSize =
      (readBootinfo s.memory bootInfo).initramfsSize)
    (hplaced : ∀ r bytes, (∀ r' ∈ others, r.Apart r') → Placed s r bytes → Placed s' r bytes) :
    f.VolumeNoted bootInfo others' before s' := by
  cases h with
  | missing haddress₀ hsize₀ => exact .missing (haddress.trans haddress₀) (hsize.trans hsize₀)
  | loaded archive pages hvolume hthere hapart hlength =>
    refine .loaded archive pages hvolume ?_ ?_ (hsize.trans hlength)
    · rw [haddress]
      exact hplaced _ _ hapart hthere
    · rw [haddress]
      exact fun r hr => hapart r (hothers r hr)
  | refused hrefuses haddress₀ hsize₀ =>
    exact .refused hrefuses (haddress.trans haddress₀) (hsize.trans hsize₀)

/-- There is memory for the archive, it is read there, and the boot information says so. -/
theorem readVolume_spec (hf : f.Documented) (hs : f.Ready s) {file size address : Nat} {name : String}
    {archive : List UInt8} {status : EfiStatus} (hfile : f.OpenAt s file name archive 0)
    (hvolume : f.volume "StartupVolume.cpio" = some archive)
    (hsize : s.failed = false → size = archive.length)
    (halloc : f.allocatePages none .loaderData (wrap64 (size + 0xFFF) / 0x1000) s = (status, address, s'))
    (hstatus : ¬ efiError status) {s'' : EfiState φ}
    (hs'' : ((f.readFile file size address s').store (bootInfo + 80) address).store
      (bootInfo + 88) size = s'') :
    f.Serves (volumeFields bootInfo).Contains s s'' ∧
      (s''.failed = false → infoRange bootInfo ∈ s.platform.allocated →
        f.VolumeNoted bootInfo s.platform.allocated before s'') := by
  have haddress := (hf.allocatePages s none (wrap64 (size + 0xFFF) / 0x1000) hs).address_lt
  rw [halloc] at haddress
  have hround : archive.length ≤ wrap64 (archive.length + 0xFFF) / 0x1000 * 4096 := by
    simpa using pages_spec hf hfile.2 0
  obtain ⟨hserves, hplaced⟩ := allocateRead_spec hf hs hfile size halloc hstatus fun hfailed => by
    obtain rfl := hsize hfailed
    exact ⟨rfl, hround⟩
  have hstores := storeVolume_spec hf (hserves.ready hs) bootInfo address size
  have hread := readBootinfo_storeVolume (s := f.readFile file size address s') bootInfo address size
  rw [hs''] at hstores hread
  have hstart : f.Serves (volumeFields bootInfo).Contains s s := Serves.refl _ hs.consistent
  refine ⟨(hstart.aside hserves).trans hstores fun _ _ _ _ _ hx => hx, fun hfailed hmem => ?_⟩
  have hfailed₁ := hstores.failed_mono hfailed
  obtain ⟨hthere, hapart⟩ := hplaced hfailed₁
  have hlength := hsize (hserves.failed_mono hfailed₁)
  have haddress' : address % 2 ^ 64 = address := Nat.mod_eq_of_lt haddress
  refine .loaded archive (wrap64 (size + 0xFFF) / 0x1000) hvolume ?_ ?_ ?_
  · rw [hread]
    simp only [haddress']
    exact hthere.of_keeps (hstores.keeps hfailed) fun x hx hfield =>
      hapart _ hmem x hx (volumeFields_infoRange hfield)
  · rw [hread]
    simp only [haddress']
    exact hapart
  · rw [hread, hlength]
    have hlt := hf.volume_length name archive hfile.2
    exact Nat.mod_eq_of_lt (by omega)

/-- A loader that is refused the volume leaves the fields as they are. -/
theorem VolumeNoted.refused_of_servesAside (hserves : f.ServesAside s s') (hfailed : s'.failed = false)
    (hmem : infoRange bootInfo ∈ s.platform.allocated) (hrefuses : f.Refuses "StartupVolume.cpio" s) :
    f.VolumeNoted bootInfo s.platform.allocated s s' := by
  have hword : ∀ k, k + 8 ≤ 96 → s'.memory.word (bootInfo + k) = s.memory.word (bootInfo + k) := by
    intro k hk
    apply (hserves.keeps hfailed).word hmem
    · exact ⟨Nat.le_add_right _ _, show bootInfo + k + 8 ≤ bootInfo + 96 by omega⟩
    · exact fun _ _ _ hx => hx
  exact .refused hrefuses (hword 80 (by decide)) (hword 88 (by decide))

theorem loadInitramfs_spec (hf : f.Documented) (hs : f.Ready s) (bootInfo : Nat) :
    f.Serves (volumeFields bootInfo).Contains s (f.loadInitramfs bootInfo s) ∧
      ((f.loadInitramfs bootInfo s).failed = false → infoRange bootInfo ∈ s.platform.allocated →
        f.VolumeNoted bootInfo s.platform.allocated s (f.loadInitramfs bootInfo s)) := by
  generalize hname : "StartupVolume.cpio" = name
  rcases hopen : f.openFile name s with ⟨status₁, file, s₁⟩
  have hserves₁ := hf.openFile s name hs
  have hfile := hf.openFile_open s name hs
  rw [hopen] at hserves₁ hfile
  dsimp only at hserves₁ hfile
  have hready₁ := hserves₁.ready hs
  have hstart : f.Serves (volumeFields bootInfo).Contains s s := Serves.refl _ hs.consistent
  have hstart₁ := hstart.aside hserves₁
  simp only [loadInitramfs, hname, hopen]
  by_cases herror₁ : efiError status₁
  · rw [if_pos herror₁]
    have hwarning := printInitramfsWarning_spec hf hready₁ "StartupVolume.cpio is missing"
    have hstores := storeVolume_spec hf (hwarning.ready hready₁) bootInfo 0 0
    refine ⟨(hstart₁.aside hwarning).trans hstores fun _ _ _ _ _ hx => hx, fun _ _ => .missing ?_ ?_⟩
    · rw [readBootinfo_storeVolume]
      exact Nat.zero_mod _
    · rw [readBootinfo_storeVolume]
      exact Nat.zero_mod _
  rw [if_neg herror₁]
  obtain ⟨archive, harchive⟩ := hfile herror₁
  rcases hinfo : f.getFileInfo file s₁ with ⟨status₂, info, s₂⟩
  obtain ⟨hserves₂, hfiles, hword⟩ := getFileInfo_spec hf hready₁ harchive hinfo
  have hready₂ := hserves₂.ready hready₁
  have hstart₂ := hstart₁.aside hserves₂
  have hserves₁₂ := hserves₁.aside hserves₂
  dsimp only
  by_cases herror₂ : efiError status₂
  · rw [if_pos herror₂]
    have hwarning := printInitramfsWarning_spec hf hready₂
      "failed to allocate memory for initramfs buffer!!"
    have hrefuses : f.Refuses name s := by
      simp only [Refuses, hopen, hinfo]
      exact ⟨herror₁, .inl herror₂⟩
    exact ⟨hstart₂.aside hwarning, fun hfailed hmem =>
      .refused_of_servesAside (hserves₁₂.aside hwarning) hfailed hmem (hname ▸ hrefuses)⟩
  rw [if_neg herror₂]
  generalize hpages : wrap64 (s₂.memory.word (info + 8) + 0xFFF) / 0x1000 = pages
  rcases halloc : f.allocatePages none .loaderData pages s₂ with ⟨status₃, address, s₃⟩
  have hallocates := hf.allocatePages s₂ none pages hready₂
  rw [halloc] at hallocates
  simp only [halloc]
  by_cases herror₃ : efiError status₃
  · rw [if_pos herror₃]
    have hwarning := printInitramfsWarning_spec hf (hallocates.serves.ready hready₂)
      "failed to allocate memory for initramfs itself!!"
    have hrefuses : f.Refuses name s := by
      simp only [Refuses, hopen, hinfo, hpages, halloc]
      exact ⟨herror₁, .inr herror₃⟩
    exact ⟨(hstart₂.aside hallocates.serves).aside hwarning, fun hfailed hmem =>
      .refused_of_servesAside ((hserves₁₂.aside hallocates.serves).aside hwarning) hfailed hmem
        (hname ▸ hrefuses)⟩
  · rw [if_neg herror₃]
    have hopen₂ : f.OpenAt s₂ file name archive 0 := ⟨by rw [hfiles]; exact harchive.1, harchive.2⟩
    obtain ⟨hserves₃, hnoted⟩ := readVolume_spec hf hready₂ hopen₂ (hname ▸ harchive.2)
      (fun hfailed => hword hfailed herror₂) (hpages ▸ halloc) herror₃ rfl
    refine ⟨hstart₂.trans hserves₃ fun _ _ _ _ _ hx => hx, fun hfailed hmem => ?_⟩
    -- what the loader had before, it still has
    have hold : ∀ r ∈ s.platform.allocated, r ∈ s₂.platform.allocated := fun r hr =>
      (hserves₁₂.keeps (hserves₃.failed_mono hfailed)).mem hr
    exact (hnoted hfailed (hold _ hmem)).congr hold rfl rfl fun _ _ _ h => h

theorem setFramebuffer_spec (hf : f.Documented) (hs : f.Ready s) (bootInfo : Nat) :
    f.Serves (infoRange bootInfo).Contains s (f.setFramebuffer bootInfo s) := by
  apply hf.store hs.consistent
  intro x hx
  have hout := not_infoRange hx
  simp only [EfiState.store, Memory.setWord]
  rw [Memory.writeLE_outside _ _ (by omega), Memory.writeLE_outside _ _ (by omega),
    Memory.writeLE_outside _ _ (by omega), Memory.writeLE_outside _ _ (by omega),
    Memory.writeLE_outside _ _ (by omega)]

theorem readBootinfo_setFramebuffer (s : EfiState φ) (bootInfo : Nat) :
    readBootinfo (f.setFramebuffer bootInfo s).memory bootInfo =
      { readBootinfo s.memory bootInfo with
        framebufferBase := f.mode.frameBufferBase % 2 ^ 64
        framebufferBaseSize := f.mode.frameBufferSize % 2 ^ 64
        framebufferHeight := f.mode.verticalResolution % 2 ^ 64
        framebufferWidth := f.mode.horizontalResolution % 2 ^ 64
        framebufferPitch := f.mode.pixelsPerScanLine % 2 ^ 64 } := by
  simp (disch := omega) only [readBootinfo, setFramebuffer, EfiState.store, Memory.word_setWord,
    Memory.word_setWord_disjoint]

/-- What the loader has written to the boot information before it asks for the memory map. -/
structure Informed (f : Firmware φ) (bootInfo : Nat) (others : List MemoryRange)
    (before s : EfiState φ) : Prop where
  magic_eq : (readBootinfo s.memory bootInfo).magic = bootinfoMagic
  framebufferBase_eq : (readBootinfo s.memory bootInfo).framebufferBase = f.mode.frameBufferBase
  framebufferSize_eq : (readBootinfo s.memory bootInfo).framebufferBaseSize = f.mode.frameBufferSize
  volume : f.VolumeNoted bootInfo others before s

theorem inform_spec (hf : f.Documented) (hs : f.Ready s) (bootInfo : Nat)
    (hmagic : s.memory.word bootInfo = bootinfoMagic) :
    f.Serves (infoRange bootInfo).Contains s (f.setFramebuffer bootInfo (f.loadInitramfs bootInfo s)) ∧
      ((f.setFramebuffer bootInfo (f.loadInitramfs bootInfo s)).failed = false →
        infoRange bootInfo ∈ s.platform.allocated →
        f.Informed bootInfo s.platform.allocated s
          (f.setFramebuffer bootInfo (f.loadInitramfs bootInfo s))) := by
  obtain ⟨hserves₁, hnoted⟩ := loadInitramfs_spec hf hs bootInfo
  have hserves₂ := setFramebuffer_spec hf (hserves₁.ready hs) bootInfo
  have hfields := readBootinfo_setFramebuffer (f := f) (f.loadInitramfs bootInfo s) bootInfo
  obtain ⟨s₁, hs₁⟩ : ∃ s₁, f.loadInitramfs bootInfo s = s₁ := ⟨_, rfl⟩
  rw [hs₁] at hserves₁ hnoted hserves₂ hfields ⊢
  have hstart : f.Serves (infoRange bootInfo).Contains s s := Serves.refl _ hs.consistent
  refine ⟨(hstart.trans hserves₁ fun _ _ _ _ _ hx => volumeFields_infoRange hx).trans hserves₂
    fun _ _ _ _ _ hx => hx, fun hfailed hmem => ?_⟩
  have hfailed₁ := hserves₂.failed_mono hfailed
  constructor
  · have hsame : s₁.memory.word bootInfo = s.memory.word bootInfo := by
      apply (hserves₁.keeps hfailed₁).word hmem
      · exact ⟨Nat.le_refl _, show bootInfo + 8 ≤ bootInfo + 96 by omega⟩
      · rintro x hlow hhigh ⟨hlow', -⟩
        simp only at hlow'
        omega
    rw [hfields]
    exact hsame.trans hmagic
  · rw [hfields]
    exact Nat.mod_eq_of_lt hf.mode_lt.1
  · rw [hfields]
    exact Nat.mod_eq_of_lt hf.mode_lt.2
  · apply (hnoted hfailed₁ hmem).congr fun _ hr => hr
    · rw [hfields]
    · rw [hfields]
    · exact fun r bytes hr h => h.of_keeps (hserves₂.keeps hfailed) (hr _ hmem)

end Information

/-! ## Section 5: The firmware is left -/

/-- A turn of the loop as far as it can go: what `GetMemoryMap` says, the status of
`ExitBootServices`, and the machine behind it. -/
def exitTurn (bootInfo map mapSize : Nat) (s : EfiState φ) : MapAnswer × EfiStatus × EfiState φ :=
  let (answer, s) := f.getMemoryMap mapSize map s
  (answer, f.exitBootServices answer.mapKey (f.events (noteMap bootInfo map answer s)))

/-- In one of the turns from `s` on the services do not end, and when they are asked for the map again,
it is more than two descriptors larger than it was. -/
inductive Outgrown (bootInfo map : Nat) : Nat → EfiState φ → Prop
  | here {mapSize : Nat} {s s' : EfiState φ} {answer : MapAnswer} {status : EfiStatus}
      (turn : f.exitTurn bootInfo map mapSize s = (answer, status, s')) (refused : efiError status)
      (grown : f.mapBytes s + 2 * f.descriptorSize < f.mapBytes s') : Outgrown bootInfo map mapSize s
  | later {mapSize : Nat} {s s' : EfiState φ} {answer : MapAnswer} {status : EfiStatus}
      (turn : f.exitTurn bootInfo map mapSize s = (answer, status, s')) (refused : efiError status)
      (outgrown : Outgrown bootInfo map (wrap64 (answer.mapSize + 2 * answer.descriptorSize)) s') :
      Outgrown bootInfo map mapSize s

/-- The map outgrows its buffer in the last part of `main`. -/
def MapOutgrows (bootInfo : Nat) (s : EfiState φ) : Prop :=
  let (map, mapSize, s) := f.allocateMap s
  f.Outgrown bootInfo map mapSize s

section Exit

variable {f} {s s' s₁ : EfiState φ} {bootInfo map capacity : Nat} {answer : MapAnswer}

theorem readDescriptor_congr {m m' : Memory} {a : Nat} (h : ∀ x, a ≤ x → x < a + 32 → m' x = m x) :
    readDescriptor m' a = readDescriptor m a := by
  simp only [readDescriptor, Memory.word]
  rw [Memory.readLE_congr fun x hlow hhigh => h x hlow (by omega),
    Memory.readLE_congr (a := a + 8) fun x hlow hhigh => h x (by omega) (by omega),
    Memory.readLE_congr (a := a + 24) fun x hlow hhigh => h x (by omega) (by omega)]

/-- Where the fields of the memory map lie. -/
abbrev mapFields (bootInfo : Nat) : MemoryRange := ⟨bootInfo + 48, 32⟩

theorem mapFields_infoRange {x : Nat} (h : (mapFields bootInfo).Contains x) :
    (infoRange bootInfo).Contains x := by
  simp only [MemoryRange.Contains, sizeofBootinfo] at h ⊢
  omega

theorem noteMap_memory {x : Nat} (hx : ¬ (mapFields bootInfo).Contains x) :
    (noteMap bootInfo map answer s).memory x = s.memory x := by
  simp only [MemoryRange.Contains] at hx
  simp only [noteMap, EfiState.store, EfiState.store32, Memory.setWord]
  rw [Memory.writeLE_outside _ _ (by omega), Memory.writeLE_outside _ _ (by omega),
    Memory.writeLE_outside _ _ (by omega), Memory.writeLE_outside _ _ (by omega),
    Memory.writeLE_outside _ _ (by omega)]

/-- What the boot information says of the memory map. -/
structure Notes (bootInfo map : Nat) (answer : MapAnswer) (m : Memory) : Prop where
  map_eq : (readBootinfo m bootInfo).memoryMap = map % 2 ^ 64
  mapSize_eq : (readBootinfo m bootInfo).mapSize = answer.mapSize % 2 ^ 64
  descriptorSize_eq : (readBootinfo m bootInfo).descriptorSize = answer.descriptorSize % 2 ^ 64

theorem word_writeLE_disjoint (m : Memory) {a b : Nat} (v : Nat) (h : b + 8 ≤ a ∨ a + 4 ≤ b) :
    (m.writeLE a 4 v).word b = m.word b :=
  Memory.readLE_writeLE_disjoint m v h

theorem readBootinfo_congr {m m' : Memory} (h : ∀ x, (infoRange bootInfo).Contains x → m' x = m x) :
    readBootinfo m' bootInfo = readBootinfo m bootInfo := by
  have hword : ∀ k, k ≤ 88 → m'.word (bootInfo + k) = m.word (bootInfo + k) := fun k hk =>
    Memory.readLE_congr fun x hlow hhigh =>
      h x ⟨(Nat.le_add_right _ _).trans hlow, show x < bootInfo + 96 by omega⟩
  have hfirst : m'.word bootInfo = m.word bootInfo := hword 0 (Nat.zero_le _)
  simp (disch := decide) only [readBootinfo, hfirst, hword]

theorem Notes.congr {m m' : Memory} (h : Notes bootInfo map answer m)
    (hsame : ∀ x, (infoRange bootInfo).Contains x → m' x = m x) : Notes bootInfo map answer m' := by
  have hread := readBootinfo_congr hsame
  exact ⟨by rw [hread, h.map_eq], by rw [hread, h.mapSize_eq], by rw [hread, h.descriptorSize_eq]⟩

theorem noteMap_notes : Notes bootInfo map answer (noteMap bootInfo map answer s).memory := by
  constructor <;>
    simp (disch := omega) only [readBootinfo, noteMap, EfiState.store, EfiState.store32,
      Memory.word_setWord, Memory.word_setWord_disjoint, word_writeLE_disjoint]

/-- The descriptors that the boot information points to. -/
theorem Notes.descriptors_eq {m : Memory} {descriptors : List OSMemoryDescriptor} {size : Nat}
    (h : Notes bootInfo map answer m) (hmap : map < 2 ^ 64) (hsize : 0 < size)
    (hlt : size < 2 ^ 64) (hbytes : descriptors.length * size < 2 ^ 64)
    (hmapSize : answer.mapSize = descriptors.length * size)
    (hdescriptorSize : answer.descriptorSize = size)
    (hread : ∀ i d, descriptors[i]? = some d → readDescriptor m (map + i * size) = d) :
    (readBootinfo m bootInfo).descriptors m = descriptors := by
  rw [Bootinfo.descriptors, h.map_eq, h.mapSize_eq, h.descriptorSize_eq, hmapSize, hdescriptorSize,
    Nat.mod_eq_of_lt hmap, Nat.mod_eq_of_lt hlt, Nat.mod_eq_of_lt hbytes,
    Nat.mul_div_cancel _ hsize]
  apply List.ext_getElem?
  intro i
  rw [List.getElem?_map]
  by_cases hi : i < descriptors.length
  · rw [List.getElem?_range hi, Option.map_some, List.getElem?_eq_getElem hi]
    exact congrArg some (hread i _ (List.getElem?_eq_getElem hi))
  · rw [List.getElem?_eq_none (by simpa using hi), List.getElem?_eq_none (by omega), Option.map_none]

/-- What the loop leaves: only the fields of the memory map and the map itself are written, and when
the services have ended, the boot information describes the map as it is. -/
structure Leaves (bootInfo map capacity : Nat) (s s' : EfiState φ) : Prop where
  keeps : s'.failed = false → s.owned.Keeps
    (fun x => (mapFields bootInfo).Contains x ∨ (MemoryRange.mk map capacity).Contains x) s'.owned
  consistent : f.Consistent s'
  failed_mono : s'.failed = false → s.failed = false
  exited : s'.failed = false → s'.phase = .exited →
    (readBootinfo s'.memory bootInfo).descriptors s'.memory = s'.platform.memoryMap

/-- What holds at every turn of the loop. -/
structure Leaving (bootInfo map capacity : Nat) (s : EfiState φ) : Prop where
  live : f.Live s
  info_mem : s.failed = false → infoRange bootInfo ∈ s.platform.allocated
  map_mem : s.failed = false → MemoryRange.mk map capacity ∈ s.platform.allocated
  map_ne : s.failed = false → map ≠ 0
  apart : s.failed = false → (MemoryRange.mk map capacity).Apart (infoRange bootInfo)

theorem Leaving.of_keeps {written : Nat → Prop} (h : f.Leaving bootInfo map capacity s)
    (hlive : f.Live s') (hfailed : s'.failed = false → s.failed = false)
    (hkeeps : s'.failed = false → s.owned.Keeps written s'.owned) :
    f.Leaving bootInfo map capacity s' where
  live := hlive
  info_mem := fun h' => (hkeeps h').mem (h.info_mem (hfailed h'))
  map_mem := fun h' => (hkeeps h').mem (h.map_mem (hfailed h'))
  map_ne := fun h' => h.map_ne (hfailed h')
  apart := fun h' => h.apart (hfailed h')

theorem Leaves.trans {written : Nat → Prop} (h : f.Leaves bootInfo map capacity s s')
    {s₀ : EfiState φ} (hfailed : s.failed = false → s₀.failed = false)
    (hkeeps : s.failed = false → s₀.owned.Keeps written s.owned)
    (hwritten : ∀ x, written x →
      (mapFields bootInfo).Contains x ∨ (MemoryRange.mk map capacity).Contains x) :
    f.Leaves bootInfo map capacity s₀ s' where
  keeps := fun h' => ((hkeeps (h.failed_mono h')).mono hwritten).trans (h.keeps h')
    fun _ _ _ _ hx => hx
  consistent := h.consistent
  failed_mono := fun h' => hfailed (h.failed_mono h')
  exited := h.exited

/-- The map is asked for and noted. -/
theorem noteMap_serves (hf : f.Documented) (hs : f.Consistent s) (hcapacity : f.mapBytes s ≤ capacity)
    {mapSize : Nat} (hmaps : f.Maps s mapSize map (answer, s₁)) (hfit : f.mapBytes s ≤ mapSize)
    (hmap : map ≠ 0) :
    f.Serves (fun x => (mapFields bootInfo).Contains x ∨ (MemoryRange.mk map capacity).Contains x) s
      (noteMap bootInfo map answer s₁) := by
  have hserves := hmaps.serves hfit hmap
  have hnote : f.Serves (mapFields bootInfo).Contains s₁ (noteMap bootInfo map answer s₁) :=
    hf.store hserves.consistent fun x hx => noteMap_memory hx
  have hstart : f.Serves (fun x => (mapFields bootInfo).Contains x ∨
      (MemoryRange.mk map capacity).Contains x) s s := Serves.refl _ hs
  apply (hstart.trans hserves fun _ _ _ x _ hx => .inr ⟨hx.1, ?_⟩).trans hnote
    fun _ _ _ x _ hx => .inl hx
  exact hx.2.trans_le (Nat.add_le_add_left hcapacity _)

/-- As long as nothing of the loader's is written to, the boot information describes the map that was
asked for. -/
theorem Leaving.descriptors_eq (hf : f.Documented) (h : f.Leaving bootInfo map capacity s)
    (hlt : map < 2 ^ 64) (hcapacity : f.mapBytes s ≤ capacity) {mapSize : Nat}
    (hmaps : f.Maps s mapSize map (answer, s₁)) (hfit : f.mapBytes s ≤ mapSize)
    (hfailed : s.failed = false) {m : Memory}
    (hsame : ∀ r ∈ s.platform.allocated, ∀ x, r.Contains x →
      m x = (noteMap bootInfo map answer s₁).memory x) :
    (readBootinfo m bootInfo).descriptors m = s.platform.memoryMap := by
  have hmap := h.map_ne hfailed
  have hanswer : answer = _ := hmaps.answer_eq hfit hmap
  have hnotes : Notes bootInfo map answer m := noteMap_notes.congr (hsame _ (h.info_mem hfailed))
  have hsize := hf.descriptorSize_ge
  have hsizeLt := hf.descriptorSize_lt
  have hbytes := hf.mapBytes_lt s h.live.consistent
  refine hnotes.descriptors_eq hlt (show 0 < f.descriptorSize by omega) (by omega)
    (show f.mapBytes s < 2 ^ 64 by omega) (by rw [hanswer, mapBytes]) (by rw [hanswer])
    fun i d hd => ?_
  rw [← hmaps.descriptor_eq hfit hmap i d hd]
  apply readDescriptor_congr
  intro x hlow hhigh
  have hi : i < s.platform.memoryMap.length := (List.getElem?_eq_some_iff.mp hd).1
  have hend : i * f.descriptorSize + f.descriptorSize ≤ capacity := by
    calc i * f.descriptorSize + f.descriptorSize = (i + 1) * f.descriptorSize :=
          (Nat.succ_mul _ _).symm
      _ ≤ f.mapBytes s := Nat.mul_le_mul_right _ hi
      _ ≤ capacity := hcapacity
  have hx : (MemoryRange.mk map capacity).Contains x :=
    ⟨(Nat.le_add_right _ _).trans hlow, show x < map + capacity by omega⟩
  rw [hsame _ (h.map_mem hfailed) x hx]
  exact noteMap_memory fun hfields => h.apart hfailed x hx (mapFields_infoRange hfields)

/-- What a turn of the loop comes to once it has the map: the services end, and the map is noted as it
is, or the firmware has changed its map in between. -/
structure Turn (bootInfo map capacity : Nat) (pending : EfiState φ → Nat) (s : EfiState φ)
    (result : EfiStatus × EfiState φ) : Prop where
  keeps : result.2.failed = false → s.owned.Keeps
    (fun x => (mapFields bootInfo).Contains x ∨ (MemoryRange.mk map capacity).Contains x) result.2.owned
  consistent : f.Consistent result.2
  failed_mono : result.2.failed = false → s.failed = false
  exited : result.1 = efiSuccess → result.2.phase = .exited ∧ (result.2.failed = false →
    (readBootinfo result.2.memory bootInfo).descriptors result.2.memory = result.2.platform.memoryMap)
  refused : result.1 ≠ efiSuccess → efiError result.1 ∧ f.Live result.2 ∧ pending result.2 < pending s

theorem exitTurn_spec (hf : f.Documented) {pending : EfiState φ → Nat} (hsettles : f.Settles pending)
    (h : f.Leaving bootInfo map capacity s) (hlt : map < 2 ^ 64) (hcapacity : f.mapBytes s ≤ capacity)
    {mapSize : Nat} (hcall : f.getMemoryMap mapSize map s = (answer, s₁))
    (hfit : f.mapBytes s ≤ mapSize) (hmap : map ≠ 0) :
    f.Turn bootInfo map capacity pending s
      (f.exitBootServices answer.mapKey (f.events (noteMap bootInfo map answer s₁))) := by
  have hmaps := hf.getMemoryMap s mapSize map h.live
  have hpending := hsettles.getMemoryMap s mapSize map h.live
  rw [hcall] at hmaps hpending
  dsimp only at hpending
  have hanswer : answer = _ := hmaps.answer_eq hfit hmap
  have hplatform : s₁.platform = s.platform := hmaps.platform_eq hfit hmap
  have hserves : f.Serves _ s (noteMap bootInfo map answer s₁) :=
    noteMap_serves hf h.live.consistent hcapacity hmaps hfit hmap
  have hlive := hserves.live h.live
  have hnoted : pending (noteMap bootInfo map answer s₁) = pending s₁ := hsettles.memory s₁ _
  have hkey : answer.mapKey = (noteMap bootInfo map answer s₁).platform.mapKey := by
    show _ = s₁.platform.mapKey
    rw [hplatform, hanswer]
  -- the firmware goes on with its own business
  obtain ⟨s₂, hevent⟩ : ∃ s₂, f.events (noteMap bootInfo map answer s₁) = s₂ := ⟨_, rfl⟩
  have hevents := hf.events _ hlive
  have hsameMap := hf.events_map _ hlive
  have hpending₂ := hsettles.events_lt _ hlive
  rw [hevent] at hevents hsameMap hpending₂ ⊢
  have hlive₂ := hevents.live hlive
  have hexits := hf.exitBootServices s₂ answer.mapKey hlive₂
  have hpending₃ := hsettles.exitBootServices s₂ answer.mapKey hlive₂
  have hserves₂ := hserves.aside hevents
  constructor
  · exact fun hfailed => (hserves₂.keeps (hexits.failed_mono hfailed)).trans hexits.keeps
      fun _ _ _ _ hx => hx.elim
  · exact hexits.consistent
  · exact fun hfailed => hserves₂.failed_mono (hexits.failed_mono hfailed)
  · intro hstatus
    obtain ⟨hphase, hplatform₃⟩ := hexits.exited hstatus
    refine ⟨hphase, fun hfailed => ?_⟩
    have hfailed₂ := hexits.failed_mono hfailed
    have hmap₂ := hsameMap ((hexits.success_iff.mp hstatus).symm.trans hkey)
    rw [hplatform₃, hmap₂, show (noteMap bootInfo map answer s₁).platform = s.platform from hplatform]
    apply h.descriptors_eq hf hlt hcapacity hmaps hfit (hserves₂.failed_mono hfailed₂)
    -- from the note on, nothing of the loader's is written to
    intro r hr x hx
    have hkeeps := (hevents.keeps hfailed₂).trans hexits.keeps fun _ _ _ _ hx => hx.elim
    exact hkeeps.memory_eq r ((hserves.keeps (hevents.failed_mono hfailed₂)).mem hr) x hx id
  · intro hstatus
    obtain ⟨herror, hphase⟩ := hexits.refused hstatus
    have hchanged : s₂.platform.mapKey ≠ (noteMap bootInfo map answer s₁).platform.mapKey :=
      fun heq => hstatus (hexits.success_iff.mpr (hkey.trans heq.symm))
    have hless := hpending₂ hchanged
    exact ⟨herror, ⟨hexits.consistent, hphase⟩, by omega⟩

/-- The loop ends, since the firmware refuses only as often as it still changes the map; and it ends
with the services only if the map outgrows the buffer. -/
theorem exitLoop_spec (hf : f.Documented) {pending : EfiState φ → Nat} (hsettles : f.Settles pending)
    (hmap : map < 2 ^ 64)
    (hcapacity : ∀ t, f.Consistent t → f.mapBytes t ≤ capacity) {fuel : Nat} :
    ∀ {mapSize : Nat} {s : EfiState φ}, f.Leaving bootInfo map capacity s → pending s < fuel →
      ∃ s', f.exitLoop bootInfo map fuel mapSize s = some s' ∧
        f.Leaves bootInfo map capacity s s' ∧
        (s'.failed = false → s'.phase ≠ .exited →
          mapSize < f.mapBytes s ∨ f.Outgrown bootInfo map mapSize s) := by
  induction fuel with
  | zero => exact fun _ hpending => absurd hpending (Nat.not_lt_zero _)
  | succ fuel ih =>
    intro mapSize s h hpending
    have hlive := h.live
    rcases hcall : f.getMemoryMap mapSize map s with ⟨answer, s₁⟩
    have hmaps := hf.getMemoryMap s mapSize map hlive
    rw [hcall] at hmaps
    rw [exitLoop]
    simp only [hcall]
    by_cases hfit : f.mapBytes s ≤ mapSize ∧ map ≠ 0
    · obtain ⟨hle, hne⟩ := hfit
      have hanswer : answer = _ := hmaps.answer_eq hle hne
      have hnoerror : ¬ efiError answer.status := by
        rw [hanswer]
        simp [efiError, efiSuccess]
      rw [if_neg hnoerror]
      have hturn := exitTurn_spec hf hsettles h hmap (hcapacity s hlive.consistent) hcall hle hne
      rcases hexit : f.exitBootServices answer.mapKey (f.events (noteMap bootInfo map answer s₁)) with
        ⟨status, s₂⟩
      rw [hexit] at hturn
      simp only [hexit]
      by_cases hstatus : status = efiSuccess
      · rw [if_pos hstatus]
        obtain ⟨hphase, hdescriptors⟩ := hturn.exited hstatus
        exact ⟨s₂, rfl, ⟨hturn.keeps, hturn.consistent, hturn.failed_mono,
          fun hfailed _ => hdescriptors hfailed⟩, fun _ hne => absurd hphase hne⟩
      · rw [if_neg hstatus]
        obtain ⟨herror, hlive₂, hless⟩ := hturn.refused hstatus
        rw [if_pos herror]
        obtain ⟨s', hloop, hleaves, hgrows⟩ := @ih
          (wrap64 (answer.mapSize + 2 * answer.descriptorSize)) s₂
          (h.of_keeps hlive₂ hturn.failed_mono hturn.keeps)
          (hless.trans_le (Nat.le_of_lt_succ hpending))
        refine ⟨s', hloop, hleaves.trans hturn.failed_mono hturn.keeps fun _ hx => hx,
          fun hfailed hphase => .inr ?_⟩
        have hrun : f.exitTurn bootInfo map mapSize s = (answer, status, s₂) := by
          simp only [exitTurn, hcall, hexit]
        rcases hgrows hfailed hphase with hsmall | hlater
        · -- the buffer counts as two descriptors larger now
          have hbytes := hf.mapBytes_lt s hlive.consistent
          have hsize := hf.descriptorSize_lt
          rw [hanswer, wrap64_of_lt (by simp only; omega)] at hsmall
          exact .here hrun herror hsmall
        · exact .later hrun herror hlater
    · have hsmall : mapSize < f.mapBytes s ∨ map = 0 := by
        by_cases hne : map = 0
        · exact .inr hne
        · exact .inl (Nat.lt_of_not_le fun hle => hfit ⟨hle, hne⟩)
      obtain ⟨herror, -, hserves⟩ := hmaps.small hsmall
      rw [if_pos herror]
      refine ⟨s₁, rfl, ⟨fun hfailed => (hserves.keeps hfailed).mono fun _ hx => hx.elim,
        hserves.consistent, hserves.failed_mono, fun _ hexited => ?_⟩, fun hfailed _ => .inl ?_⟩
      · rw [hserves.phase_eq] at hexited
        exact absurd hexited hlive.not_exited
      · have hne := h.map_ne (hserves.failed_mono hfailed)
        exact hsmall.resolve_right hne

/-- What the last part of `main` leaves: only the fields of the memory map have been written. -/
structure LeavesFirmware (bootInfo : Nat) (s s' : EfiState φ) : Prop where
  keeps : s'.failed = false → s.owned.Keeps (mapFields bootInfo).Contains s'.owned
  consistent : f.Consistent s'
  failed_mono : s'.failed = false → s.failed = false
  exited : s'.failed = false → s'.phase = .exited →
    (readBootinfo s'.memory bootInfo).descriptors s'.memory = s'.platform.memoryMap
  not_exited : s'.failed = false → s'.phase ≠ .exited → f.MapOutgrows bootInfo s

/-- The buffer for the map is new memory, and large enough for every map there may be. -/
theorem allocateMap_spec (hf : f.Documented) {pending : EfiState φ → Nat} (hsettles : f.Settles pending)
    (hs : f.Ready s) (hinfo : s.failed = false → infoRange bootInfo ∈ s.platform.allocated)
    (hmap : f.allocateMap s = (map, capacity, s')) :
    f.ServesAside s s' ∧ f.Leaving bootInfo map capacity s' ∧ map < 2 ^ 64 ∧
      (∀ t, f.Consistent t → f.mapBytes t ≤ capacity) ∧
      (s'.failed = false → ∀ r ∈ s.platform.allocated, (MemoryRange.mk map capacity).Apart r) := by
  have hserves₁ := hf.outputString s "Almost ready to jump :D. Working with memory map\r\n" hs
  unfold allocateMap at hmap
  obtain ⟨s₁, hs₁⟩ : ∃ s₁,
      f.outputString "Almost ready to jump :D. Working with memory map\r\n" s = s₁ := ⟨_, rfl⟩
  rw [hs₁] at hserves₁
  have hready₁ := hserves₁.ready hs
  rcases hcall : f.getMemoryMap 0 0 s₁ with ⟨answer, s₂⟩
  have hmaps := hf.getMemoryMap s₁ 0 0 hready₁.live
  rw [hcall] at hmaps
  obtain ⟨-, hneeded, hserves₂⟩ := hmaps.small (.inr rfl)
  have hready₂ := hserves₂.ready hready₁
  have hbytes := hf.mapBytes_lt s₁ hready₁.consistent
  have hsize : wrap64 (answer.mapSize + 4096) = f.mapBytes s₁ + 4096 := by
    rw [hneeded]
    exact wrap64_of_lt (by omega)
  rcases hpool : f.allocatePool .loaderData (f.mapBytes s₁ + 4096) s₂ with ⟨status, place, s₃⟩
  have halloc := hf.allocatePool s₂ (f.mapBytes s₁ + 4096) hready₂
  have hgiven := hf.allocatePool_status s₂ (f.mapBytes s₁ + 4096) hready₂
  rw [hpool] at halloc hgiven
  have hready₃ := halloc.serves.ready hready₂
  simp only [hs₁, hcall, hsize, hpool, Prod.mk.injEq] at hmap
  obtain ⟨rfl, hcapacity, hs₄⟩ := hmap
  rw [hcapacity] at halloc
  have hserves₄ : f.ServesAside s₃ s' := by
    rw [← hs₄]
    by_cases herror : efiError status
    · rw [if_pos herror]
      exact hf.outputString s₃ _ hready₃
    · rw [if_neg herror]
      exact Serves.refl _ hready₃.consistent
  have hserves₁₂ := hserves₁.aside hserves₂
  have hserves := (hserves₁₂.aside halloc.serves).aside hserves₄
  -- the new range is apart from all that the loader had
  have hnew : s'.failed = false → ∀ r ∈ s.platform.allocated,
      (MemoryRange.mk place capacity).Apart r := by
    intro hfailed r hr
    have hfailed₃ := hserves₄.failed_mono hfailed
    exact halloc.apart (hgiven hfailed₃).1 r
      ((hserves₁₂.keeps (halloc.serves.failed_mono hfailed₃)).mem hr)
  refine ⟨hserves, ?_, halloc.address_lt, fun t ht => ?_, hnew⟩
  · constructor
    · exact (hserves₄.ready hready₃).live
    · exact fun hfailed => (hserves.keeps hfailed).mem (hinfo (hserves.failed_mono hfailed))
    · exact fun hfailed => (hserves₄.keeps hfailed).mem
        (halloc.mem (hgiven (hserves₄.failed_mono hfailed)).1)
    · exact fun hfailed => (hgiven (hserves₄.failed_mono hfailed)).2
    · exact fun hfailed => hnew hfailed _ (hinfo (hserves.failed_mono hfailed))
  · exact hcapacity ▸ hsettles.mapBytes_le s₁ t hready₁.consistent ht

theorem leaveFirmware_spec (hf : f.Documented) {pending : EfiState φ → Nat}
    (hsettles : f.Settles pending) (hs : f.Ready s)
    (hinfo : s.failed = false → infoRange bootInfo ∈ s.platform.allocated) :
    ∃ rounds, ∀ fuel, rounds ≤ fuel → ∃ s', f.leaveFirmware bootInfo fuel s = some s' ∧
      f.LeavesFirmware bootInfo s s' := by
  rcases hmap : f.allocateMap s with ⟨map, capacity, s₁⟩
  obtain ⟨hserves, hleaving, hlt, hroom, hnew⟩ := allocateMap_spec hf hsettles hs hinfo hmap
  refine ⟨pending s₁ + 1, fun fuel hfuel => ?_⟩
  obtain ⟨s', hloop, hleaves, hgrows⟩ : ∃ s', f.exitLoop bootInfo map fuel capacity s₁ = some s' ∧
      f.Leaves bootInfo map capacity s₁ s' ∧ (s'.failed = false → s'.phase ≠ .exited →
        capacity < f.mapBytes s₁ ∨ f.Outgrown bootInfo map capacity s₁) :=
    exitLoop_spec hf hsettles hlt hroom hleaving (by omega)
  refine ⟨s', ?_, fun hfailed => ?_, hleaves.consistent,
    fun hfailed => hserves.failed_mono (hleaves.failed_mono hfailed), hleaves.exited,
    fun hfailed hphase => ?_⟩
  · simp only [leaveFirmware, hmap, hloop]
  · have hfailed₁ := hleaves.failed_mono hfailed
    refine ((hserves.keeps hfailed₁).mono fun _ hx => hx.elim).trans (hleaves.keeps hfailed) ?_
    rintro r hr x hx (hfield | hmap)
    · exact hfield
    · exact absurd hx (hnew hfailed₁ r hr x hmap)
  · simp only [MapOutgrows, hmap]
    exact (hgrows hfailed hphase).resolve_left
      (Nat.not_lt_of_le (hroom s₁ hleaving.live.consistent))

end Exit

/-! ## Section 6: The whole loader -/

/-- The machine when `main` comes to the start-up volume. -/
def atVolume (start : EfiState φ) : EfiState φ := (f.allocateBootinfo (f.loadKernel start).2).2

/-- The machine when it comes to the memory map. -/
def atMap (start : EfiState φ) : EfiState φ :=
  let bootInfo := (f.allocateBootinfo (f.loadKernel start).2).1
  f.setFramebuffer bootInfo (f.loadInitramfs bootInfo (f.atVolume start))

/-- What the kernel finds: itself where it is linked for, and boot information about the framebuffer,
the start-up volume and, if the firmware has ended, memory as it is. -/
structure HandsOver (kernelPages bootInfo : Nat) (start s : EfiState φ) : Prop where
  informed : f.Informed bootInfo [⟨0x100000, kernelPages * 4096⟩] (f.atVolume start) s
  kernel : ∃ kernel, f.volume "kernel.bin" = some kernel ∧
    kernel.length + 32 * 4096 ≤ kernelPages * 4096 ∧
    Placed s ⟨0x100000, kernelPages * 4096⟩ kernel
  consistent : f.Consistent s
  exited : s.phase = .exited →
    (readBootinfo s.memory bootInfo).descriptors s.memory = s.platform.memoryMap
  not_exited : s.phase ≠ .exited → f.MapOutgrows bootInfo (f.atMap start)

variable {f} {s s' before : EfiState φ} {bootInfo : Nat}

/-- Of what it has been told before, the memory map changes nothing. -/
theorem Informed.of_leavesFirmware {others others' : List MemoryRange}
    (h : f.Informed bootInfo others before s) (hleaves : f.LeavesFirmware bootInfo s s')
    (hfailed : s'.failed = false) (hmem : infoRange bootInfo ∈ s.platform.allocated)
    (hinfo : infoRange bootInfo ∈ others) (hothers : ∀ r ∈ others', r ∈ others) :
    f.Informed bootInfo others' before s' := by
  have hkeeps := hleaves.keeps hfailed
  have hword : ∀ k, k ≤ 88 → k + 8 ≤ 48 ∨ 80 ≤ k →
      s'.memory.word (bootInfo + k) = s.memory.word (bootInfo + k) := by
    intro k hk hfield
    apply hkeeps.word hmem
    · exact ⟨Nat.le_add_right _ _, show bootInfo + k + 8 ≤ bootInfo + 96 by omega⟩
    · rintro x hlow hhigh ⟨hlow', hhigh'⟩
      simp only at hlow' hhigh'
      omega
  constructor
  · exact (hword 0 (by decide) (by decide)).trans h.magic_eq
  · exact (hword 8 (by decide) (by decide)).trans h.framebufferBase_eq
  · exact (hword 16 (by decide) (by decide)).trans h.framebufferSize_eq
  · apply h.volume.congr hothers (hword 80 (by decide) (by decide)) (hword 88 (by decide) (by decide))
    exact fun r bytes hr hplaced => hplaced.of_keeps hkeeps fun x hx hx' =>
      hr _ hinfo x hx (mapFields_infoRange hx')

/-- The loader hangs with the firmware still there, or it starts the kernel. -/
theorem main_handsOver (hf : f.Documented) {pending : EfiState φ → Nat} (hsettles : f.Settles pending)
    (hs : f.Ready s) :
    ∃ rounds, ∀ fuel, rounds ≤ fuel → ∃ last s', f.main fuel s = some (last, s') ∧
      (last = .hangs → s'.phase = .running) ∧
      ∀ entry bootInfo, last = .starts entry bootInfo → entry = 0x100000 ∧
        (s'.failed = false → ∃ kernelPages, f.HandsOver kernelPages bootInfo s s') := by
  rcases hkernel : f.loadKernel s with ⟨result, s₁⟩
  obtain ⟨hserves₁, hentry⟩ := loadKernel_spec hf hs hkernel
  have hready₁ := hserves₁.ready hs
  cases result with
  | none =>
    refine ⟨0, fun fuel _ => ⟨.hangs, s₁, by simp only [main, hkernel], fun _ => hready₁.running, ?_⟩⟩
    intro entry bootInfo hlast
    cases hlast
  | some entry =>
    obtain ⟨rfl, kernel, pages, hvolume, hpages, hplaced⟩ := hentry entry rfl
    rcases hpool : f.allocatePool .loaderData sizeofBootinfo s₁ with ⟨status, bootInfo, s₂⟩
    have halloc := hf.allocatePool s₁ sizeofBootinfo hready₁
    have hgiven := hf.allocatePool_status s₁ sizeofBootinfo hready₁
    rw [hpool] at halloc hgiven
    have hready₂ := halloc.serves.ready hready₁
    have hserves₃ : f.Serves (infoRange bootInfo).Contains s₂ (s₂.store bootInfo bootinfoMagic) :=
      hf.store hready₂.consistent fun x hx => Memory.writeLE_outside _ _ (by
        have hout := not_infoRange hx
        omega)
    obtain ⟨s₃, hs₃⟩ : ∃ s₃, s₂.store bootInfo bootinfoMagic = s₃ := ⟨_, rfl⟩
    have hbootinfo : f.allocateBootinfo s₁ = (bootInfo, s₃) := by
      simp only [allocateBootinfo, hpool, hs₃]
    have hatVolume : f.atVolume s = s₃ := by
      simp only [atVolume, hkernel, hbootinfo]
    have hmagic : s₃.memory.word bootInfo = bootinfoMagic := by
      rw [← hs₃]
      exact Memory.word_setWord_same _ _ (by decide)
    rw [hs₃] at hserves₃
    obtain ⟨hserves₄, hinformed⟩ := inform_spec hf (hserves₃.ready hready₂) bootInfo hmagic
    obtain ⟨s₄, hs₄⟩ : ∃ s₄, f.setFramebuffer bootInfo (f.loadInitramfs bootInfo s₃) = s₄ := ⟨_, rfl⟩
    rw [hs₄] at hserves₄ hinformed
    have hatMap : f.atMap s = s₄ := by
      simp only [atMap, hatVolume, hkernel, hbootinfo, hs₄]
    have hserves : f.Serves (infoRange bootInfo).Contains s₂ s₄ :=
      hserves₃.trans hserves₄ fun _ _ _ _ _ hx => hx
    -- the boot information is the loader's from its allocation on
    have hinfo₂ : s₂.failed = false → infoRange bootInfo ∈ s₂.platform.allocated :=
      fun hfailed => halloc.mem (hgiven hfailed).1
    have hinfo₄ : s₄.failed = false → infoRange bootInfo ∈ s₄.platform.allocated :=
      fun hfailed => (hserves.keeps hfailed).mem (hinfo₂ (hserves.failed_mono hfailed))
    obtain ⟨rounds, hleave⟩ := leaveFirmware_spec hf hsettles (hserves.ready hready₂) hinfo₄
    refine ⟨rounds, fun fuel hfuel => ?_⟩
    obtain ⟨s', hleft, hleaves⟩ := hleave fuel hfuel
    refine ⟨.starts 0x100000 bootInfo, s', ?_, (nomatch ·), ?_⟩
    · simp only [main, hkernel, hbootinfo, hs₄, hleft, Option.map_some]
    rintro _ _ ⟨rfl, rfl⟩
    refine ⟨rfl, fun hfailed => ⟨pages, ?_⟩⟩
    have hfailed₄ := hleaves.failed_mono hfailed
    have hfailed₃ := hserves₄.failed_mono hfailed₄
    have hfailed₂ := hserves₃.failed_mono hfailed₃
    have hkeeps₃ := hserves₃.keeps hfailed₃
    have hthere := hplaced (halloc.serves.failed_mono hfailed₂)
    have hthere₂ := hthere.of_keeps (halloc.serves.keeps hfailed₂) fun _ _ hx => hx
    have hapart : (MemoryRange.mk 0x100000 (pages * 4096)).Apart (infoRange bootInfo) :=
      (halloc.apart (hgiven hfailed₂).1 _ hthere.mem).symm
    constructor
    · rw [hatVolume]
      apply (hinformed hfailed₄ (hkeeps₃.mem (hinfo₂ hfailed₂))).of_leavesFirmware hleaves hfailed
        (hinfo₄ hfailed₄) (hkeeps₃.mem (hinfo₂ hfailed₂))
      intro r hr
      obtain rfl := List.mem_singleton.mp hr
      exact hkeeps₃.mem hthere₂.mem
    · exact ⟨kernel, hvolume, hpages, (hthere₂.of_keeps (hserves.keeps hfailed₄) hapart).of_keeps
        (hleaves.keeps hfailed) fun x hx hx' => hapart x hx (mapFields_infoRange hx')⟩
    · exact hleaves.consistent
    · exact hleaves.exited hfailed
    · rw [hatMap]
      exact hleaves.not_exited hfailed

end Firmware

end TermOS.Bootloader
