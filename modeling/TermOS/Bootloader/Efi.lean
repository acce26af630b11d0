import TermOS.Lib.OwnedMemory
import TermOS.VM.PMM

/-!
# The firmware

What the boot loader is written against: the UEFI services that it calls. The firmware itself is not
part of the repository, so it is a parameter, with the promises of its documentation as hypotheses.

## Main Definitions

* `EfiState` - the machine before the kernel runs
* `Firmware` - the services
* `Firmware.Documented` - what each of them promises
-/

namespace TermOS.Bootloader

open TermOS.Lib TermOS.VM

/-! ## Section 1: The machine -/

/-- `efi_status_t` -/
abbrev EfiStatus := Nat

/-- `EFI_SUCCESS` -/
def efiSuccess : EfiStatus := 0

/-- `EFI_BUFFER_TOO_SMALL` -/
def efiBufferTooSmall : EfiStatus := 0x8000000000000005

/-- `EFI_ERROR`: as a signed number the status is negative. -/
def efiError (status : EfiStatus) : Prop := 2 ^ 63 ≤ status

instance (status : EfiStatus) : Decidable (efiError status) := Nat.decLe _ _

/-- How far the firmware has left the machine to the loader. After `ExitBootServices` has refused
once, only the services that it takes to ask again are there. -/
inductive BootPhase
  | running
  | exiting
  | exited
  deriving DecidableEq, Repr

/-- The firmware's books on memory. Whatever it has given to the loader is loader data in its memory
map. -/
structure MemoryState where
  memoryMap : List OSMemoryDescriptor
  /-- Another map has another key. -/
  mapKey : Nat
  allocated : List MemoryRange
  aligned : ∀ d ∈ memoryMap, d.physicalStart % kVMPageSize = 0
  nonWrapping : ∀ d ∈ memoryMap, d.physicalStart + d.pageCount * kVMPageSize < 2 ^ 64
  disjoint : ∀ d ∈ memoryMap, ∀ d' ∈ memoryMap, ∀ x, d.Contains x → d'.Contains x → d = d'
  covered : ∀ r ∈ allocated, ∀ x, r.Contains x →
    ∃ d ∈ memoryMap, d.type = .loaderData ∧ d.Contains x
  apart : allocated.Pairwise MemoryRange.Apart

/-- The machine, with `φ` for what only the firmware looks at. -/
structure EfiState (φ : Type) where
  firmware : φ
  memory : Memory
  platform : MemoryState
  /-- The open files: the name of each, and the position. -/
  files : Nat → Option (String × Nat)
  phase : BootPhase
  /-- A request for pool memory or a read has failed. -/
  failed : Bool

namespace EfiState

variable {φ : Type} (s : EfiState φ)

/-- The memory with what the loader has of it. -/
def owned : OwnedMemory := ⟨s.memory, s.platform.allocated⟩

/-- A store of the loader. -/
def store (address value : Nat) : EfiState φ := { s with memory := s.memory.setWord address value }

/-- A store to a field of 32 bits. -/
def store32 (address value : Nat) : EfiState φ :=
  { s with memory := s.memory.writeLE address 4 value }

end EfiState

/-! ## Section 2: The services -/

/-- `gop->Mode`, with the fields of its `Information`. -/
structure GraphicsMode where
  frameBufferBase : Nat
  frameBufferSize : Nat
  verticalResolution : Nat
  horizontalResolution : Nat
  pixelsPerScanLine : Nat

/-- What `GetMemoryMap` says besides the map. -/
structure MapAnswer where
  status : EfiStatus
  mapSize : Nat
  mapKey : Nat
  descriptorSize : Nat
  descriptorVersion : Nat

/-- The firmware with the disk that it has booted from. A service takes its arguments and returns
its status, what it stores through its pointers, and the machine after it. -/
structure Firmware (φ : Type) where
  mode : GraphicsMode
  /-- The files of the volume. -/
  volume : String → Option (List UInt8)
  /-- The size of the `efi_file_info_t` of a file. -/
  infoSize : String → Nat
  descriptorSize : Nat
  descriptorVersion : Nat
  /-- The states in which the firmware keeps its books. -/
  Consistent : EfiState φ → Prop
  /-- What timers and devices make it do while the loader runs. -/
  events : EfiState φ → EfiState φ
  outputString : String → EfiState φ → EfiState φ
  stall : Nat → EfiState φ → EfiState φ
  allocatePool : OSMemoryType → Nat → EfiState φ → EfiStatus × Nat × EfiState φ
  /-- At an address of the caller's, or anywhere. -/
  allocatePages : Option Nat → OSMemoryType → Nat → EfiState φ → EfiStatus × Nat × EfiState φ
  openFile : String → EfiState φ → EfiStatus × Nat × EfiState φ
  /-- Of an open file, into a buffer of a size. -/
  getInfo : Nat → Nat → Nat → EfiState φ → EfiStatus × Nat × EfiState φ
  /-- From an open file, so many bytes to an address. -/
  readFile : Nat → Nat → Nat → EfiState φ → EfiState φ
  getMemoryMap : Nat → Nat → EfiState φ → MapAnswer × EfiState φ
  exitBootServices : Nat → EfiState φ → EfiStatus × EfiState φ

/-- `OSMemoryType` from the raw field. -/
def osMemoryType (code : Nat) : OSMemoryType :=
  [.reserved, .loaderCode, .loaderData, .bootServicesCode, .bootServicesData, .runtimeServicesCode,
    .runtimeServicesData, .conventional, .unusable, .acpiReclaim, .acpiNonVolatile, .mappedIo,
    .mappedIOPortSpace, .palCode, .persistent].getD code (.other (UInt32.ofNat code))

/-- The `OSMemoryDescriptor` at an address. -/
def readDescriptor (m : Memory) (descriptor : Nat) : OSMemoryDescriptor :=
  ⟨osMemoryType (m.readLE descriptor 4), m.word (descriptor + 8), m.word (descriptor + 24)⟩

namespace Firmware

variable {φ : Type} (f : Firmware φ)

/-- The size of the memory map as `GetMemoryMap` lays it out. -/
def mapBytes (s : EfiState φ) : Nat := s.platform.memoryMap.length * f.descriptorSize

/-! ## Section 3: What is documented -/

/-- The firmware keeps its books, and every service is there. -/
structure Ready (s : EfiState φ) : Prop where
  consistent : f.Consistent s
  running : s.phase = .running

/-- The firmware keeps its books, and it can be asked for the memory map. -/
structure Live (s : EfiState φ) : Prop where
  consistent : f.Consistent s
  not_exited : s.phase ≠ .exited

/-- Nothing is taken back from the loader, and in what it has only `written` is written to, as long
as no request has failed that the loader believes to have succeeded. -/
structure Serves (written : Nat → Prop) (s s' : EfiState φ) : Prop where
  keeps : s'.failed = false → s.owned.Keeps written s'.owned
  consistent : f.Consistent s'
  phase_eq : s'.phase = s.phase
  failed_mono : s'.failed = false → s.failed = false

/-- A service that writes to no memory of the loader's. -/
abbrev ServesAside (s s' : EfiState φ) : Prop := f.Serves (fun _ => False) s s'

/-- An allocation gives a new range, unless its status is an error. -/
structure Allocates (size : Nat) (s : EfiState φ) (result : EfiStatus × Nat × EfiState φ) : Prop where
  serves : f.ServesAside s result.2.2
  files_eq : result.2.2.files = s.files
  address_lt : result.2.1 < 2 ^ 64
  allocated_eq : ¬ efiError result.1 →
    result.2.2.platform.allocated = ⟨result.2.1, size⟩ :: s.platform.allocated

/-- The state of an open file: the file, and where it is read next. -/
def OpenAt (s : EfiState φ) (file : Nat) (name : String) (content : List UInt8) (position : Nat) : Prop :=
  s.files file = some (name, position) ∧ f.volume name = some content

/-- What is promised of `GetInfo`. Too small a buffer is left alone, and its size set to what it
takes; in the other case `FileSize` is the second field. -/
structure InformsOf (s : EfiState φ) (name : String) (content : List UInt8) (size buffer : Nat)
    (result : EfiStatus × Nat × EfiState φ) : Prop where
  files_eq : result.2.2.files = s.files
  small : size < f.infoSize name → result.1 = efiBufferTooSmall ∧ result.2.1 = f.infoSize name ∧
    f.ServesAside s result.2.2
  serves : f.infoSize name ≤ size → f.Serves (MemoryRange.mk buffer size).Contains s result.2.2
  word_eq : f.infoSize name ≤ size → ¬ efiError result.1 →
    result.2.2.memory.word (buffer + 8) = content.length

/-- What is promised of `GetMemoryMap`: the descriptors one behind the other, and the key of just this
map, if the buffer has room for it. -/
structure Maps (s : EfiState φ) (size buffer : Nat) (result : MapAnswer × EfiState φ) : Prop where
  small : size < f.mapBytes s ∨ buffer = 0 → efiError result.1.status ∧
    result.1.mapSize = f.mapBytes s ∧ f.ServesAside s result.2
  answer_eq : f.mapBytes s ≤ size → buffer ≠ 0 → result.1 =
    ⟨efiSuccess, f.mapBytes s, s.platform.mapKey, f.descriptorSize, f.descriptorVersion⟩
  serves : f.mapBytes s ≤ size → buffer ≠ 0 →
    f.Serves (MemoryRange.mk buffer (f.mapBytes s)).Contains s result.2
  platform_eq : f.mapBytes s ≤ size → buffer ≠ 0 → result.2.platform = s.platform
  descriptor_eq : f.mapBytes s ≤ size → buffer ≠ 0 → ∀ i d, s.platform.memoryMap[i]? = some d →
    readDescriptor result.2.memory (buffer + i * f.descriptorSize) = d

/-- What is promised of `ExitBootServices`: the services end when the caller has the key of the map as
it is. -/
structure Exits (s : EfiState φ) (key : Nat) (result : EfiStatus × EfiState φ) : Prop where
  success_iff : result.1 = efiSuccess ↔ key = s.platform.mapKey
  keeps : s.owned.Keeps (fun _ => False) result.2.owned
  consistent : f.Consistent result.2
  failed_mono : result.2.failed = false → s.failed = false
  exited : result.1 = efiSuccess → result.2.phase = .exited ∧ result.2.platform = s.platform
  refused : result.1 ≠ efiSuccess → efiError result.1 ∧ result.2.phase ≠ .exited

/-- The promises of the services. -/
structure Documented : Prop where
  descriptorSize_ge : 40 ≤ f.descriptorSize
  descriptorSize_lt : f.descriptorSize < 2 ^ 32
  infoSize_ge : ∀ name, 80 ≤ f.infoSize name
  mode_lt : f.mode.frameBufferBase < 2 ^ 64 ∧ f.mode.frameBufferSize < 2 ^ 64
  volume_length : ∀ name content, f.volume name = some content → content.length < 2 ^ 63
  consistent_memory : ∀ s m, f.Consistent s → f.Consistent { s with memory := m }
  /-- The map fits in memory. -/
  mapBytes_lt : ∀ s, f.Consistent s → f.mapBytes s < 2 ^ 63
  /-- The framebuffer is no memory of the loader's. -/
  framebuffer_apart : ∀ s, f.Consistent s → ∀ r ∈ s.platform.allocated,
    r.Apart ⟨f.mode.frameBufferBase, f.mode.frameBufferSize⟩
  events : ∀ s, f.Live s → f.ServesAside s (f.events s)
  /-- The map does not change without its key. -/
  events_map : ∀ s, f.Live s → (f.events s).platform.mapKey = s.platform.mapKey →
    (f.events s).platform.memoryMap = s.platform.memoryMap
  outputString : ∀ s text, f.Ready s → f.ServesAside s (f.outputString text s)
  stall : ∀ s microseconds, f.Ready s → f.ServesAside s (f.stall microseconds s)
  allocatePool : ∀ s size, f.Ready s → f.Allocates size s (f.allocatePool .loaderData size s)
  /-- Memory from the pool is not at address 0. -/
  allocatePool_status : ∀ s size, f.Ready s →
    (f.allocatePool .loaderData size s).2.2.failed = false →
      ¬ efiError (f.allocatePool .loaderData size s).1 ∧
      (f.allocatePool .loaderData size s).2.1 ≠ 0
  allocatePages : ∀ s place pages, f.Ready s →
    f.Allocates (pages * 4096) s (f.allocatePages place .loaderData pages s)
  allocatePages_place : ∀ s address pages, f.Ready s →
    ¬ efiError (f.allocatePages (some address) .loaderData pages s).1 →
      (f.allocatePages (some address) .loaderData pages s).2.1 = address
  openFile : ∀ s name, f.Ready s → f.ServesAside s (f.openFile name s).2.2
  openFile_open : ∀ s name, f.Ready s → ¬ efiError (f.openFile name s).1 →
    ∃ content, f.OpenAt (f.openFile name s).2.2 (f.openFile name s).2.1 name content 0
  getInfo : ∀ s file name content position size buffer, f.Ready s →
    f.OpenAt s file name content position →
    f.InformsOf s name content size buffer (f.getInfo file size buffer s)
  readFile : ∀ s file name content position size buffer, f.Ready s →
    f.OpenAt s file name content position →
    f.Serves (MemoryRange.mk buffer size).Contains s (f.readFile file size buffer s) ∧
    ((f.readFile file size buffer s).failed = false →
      (f.readFile file size buffer s).memory.Holds buffer ((content.drop position).take size))
  getMemoryMap : ∀ s size buffer, f.Live s → f.Maps s size buffer (f.getMemoryMap size buffer s)
  exitBootServices : ∀ s key, f.Live s → f.Exits s key (f.exitBootServices key s)

/-- What the loader takes for granted: the memory map needs a page more than before at most, and the
firmware changes it so many times and then no more. -/
structure Settles (pending : EfiState φ → Nat) : Prop where
  mapBytes_le : ∀ s s', f.Consistent s → f.Consistent s' → f.mapBytes s' ≤ f.mapBytes s + 4096
  memory : ∀ s m, pending { s with memory := m } = pending s
  events_le : ∀ s, f.Live s → pending (f.events s) ≤ pending s
  events_lt : ∀ s, f.Live s → (f.events s).platform.mapKey ≠ s.platform.mapKey →
    pending (f.events s) < pending s
  getMemoryMap : ∀ s size buffer, f.Live s → pending (f.getMemoryMap size buffer s).2 ≤ pending s
  exitBootServices : ∀ s key, f.Live s → pending (f.exitBootServices key s).2 ≤ pending s

/-! ## Section 4: One service after the other -/

section Serves

variable {f} {s s' s'' : EfiState φ} {written written' : Nat → Prop} {r : MemoryRange}
  {bytes : List UInt8}

theorem Ready.live (h : f.Ready s) : f.Live s :=
  ⟨h.consistent, by rw [h.running]; decide⟩

theorem Serves.ready (h : f.Serves written s s') (hs : f.Ready s) : f.Ready s' :=
  ⟨h.consistent, h.phase_eq.trans hs.running⟩

theorem Serves.live (h : f.Serves written s s') (hs : f.Live s) : f.Live s' :=
  ⟨h.consistent, by rw [h.phase_eq]; exact hs.not_exited⟩

theorem Serves.refl (written : Nat → Prop) (hs : f.Consistent s) : f.Serves written s s :=
  ⟨fun _ => OwnedMemory.Keeps.refl _ _, hs, rfl, id⟩

theorem Serves.trans (h : f.Serves written s s') (h' : f.Serves written' s' s'')
    (hsub : s'.failed = false → ∀ r ∈ s.platform.allocated, ∀ x, r.Contains x → written' x → written x) :
    f.Serves written s s'' where
  keeps := fun hfailed => (h.keeps (h'.failed_mono hfailed)).trans (h'.keeps hfailed)
    (hsub (h'.failed_mono hfailed))
  consistent := h'.consistent
  phase_eq := h'.phase_eq.trans h.phase_eq
  failed_mono := fun hfailed => h.failed_mono (h'.failed_mono hfailed)

theorem Serves.aside (h : f.Serves written s s') (h' : f.ServesAside s' s'') : f.Serves written s s'' :=
  h.trans h' fun _ _ _ _ _ hx => hx.elim

/-- A store of the loader to what it has. -/
theorem Documented.store (hf : f.Documented) (hs : f.Consistent s) {m : Memory}
    (hm : ∀ x, ¬ written x → m x = s.memory x) : f.Serves written s { s with memory := m } where
  keeps := fun _ => ⟨List.suffix_refl _, fun _ _ x _ hx => hm x hx⟩
  consistent := hf.consistent_memory s m hs
  phase_eq := rfl
  failed_mono := id

/-- An allocated range is apart from those of before. -/
theorem Allocates.apart {size : Nat} {result : EfiStatus × Nat × EfiState φ}
    (h : f.Allocates size s result) (hstatus : ¬ efiError result.1) :
    ∀ r ∈ s.platform.allocated, (MemoryRange.mk result.2.1 size).Apart r := by
  have hpairs := result.2.2.platform.apart
  rw [h.allocated_eq hstatus, List.pairwise_cons] at hpairs
  exact hpairs.1

theorem Allocates.mem {size : Nat} {result : EfiStatus × Nat × EfiState φ}
    (h : f.Allocates size s result) (hstatus : ¬ efiError result.1) :
    MemoryRange.mk result.2.1 size ∈ result.2.2.platform.allocated := by
  rw [h.allocated_eq hstatus]
  exact List.mem_cons_self

/-- The bytes lie at the start of a range that the loader has. -/
structure Placed (s : EfiState φ) (r : MemoryRange) (bytes : List UInt8) : Prop where
  mem : r ∈ s.platform.allocated
  holds : s.memory.Holds r.start bytes
  fits : bytes.length ≤ r.size

theorem Placed.of_keeps (hplaced : Placed s r bytes) (h : s.owned.Keeps written s'.owned)
    (hwritten : ∀ x, r.Contains x → ¬ written x) : Placed s' r bytes where
  mem := h.mem hplaced.mem
  holds := h.holds hplaced.mem hplaced.holds ⟨Nat.le_refl _, Nat.add_le_add_left hplaced.fits _⟩ hwritten
  fits := hplaced.fits

end Serves

end Firmware

end TermOS.Bootloader
