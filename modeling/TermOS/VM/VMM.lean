import TermOS.Kernel.String
import TermOS.VM.PTE

/-!
# Virtual memory manager

Model of `kernel/src/VM/VMM.c` over a byte-addressed physical memory. The
kernel reaches a physical address through a pointer: the address itself before
`VMVirtualMemoryInitialize` has loaded the new tables, its image in the
higher-half direct map afterwards. `translate` takes such a pointer back to
physical memory, which is what the processor does while no call maps or unmaps
pages of the direct map.

The bitmap of the physical memory manager is a component of its own. It lies
in frames that are never allocated, so no operation below reaches it through
`mem`. `invlpg` and `mov cr3` have no effect on memory.
-/

namespace TermOS.VM

open TermOS.Lib TermOS.Kernel

/-! ## Section 1: State and kernel pointers -/

/-- `HHDM_OFFSET` -/
def hhdmOffset : Nat := 0xFFFF888000000000

/-- `PHYS_TO_HHDM` -/
def physToHhdm (phys : Nat) : Nat := wrap64 (phys + hhdmOffset)

/-- `HHDM_TO_PHYS` -/
def hhdmToPhys (virt : Nat) : Nat := wrap64 (virt + 2 ^ 64 - hhdmOffset)

/-- Physical memory and the globals of `PMM.c` and `VMM.c`. `kernelPML4` is
`gVMKernelPML4` and `gVMKernelPML4Physical`, which hold the same address. -/
structure VMState where
  mem : Memory
  pmm : VMPhysicalMemory
  kernelPML4 : Nat
  isInitialized : Bool

namespace VMState

/-- The physical address behind a kernel pointer, as long as the direct map leads to its own
frames (`WalkedPointers.lean` has the processor's translation). -/
def translate (s : VMState) (pointer : Nat) : Nat :=
  if s.isInitialized then hhdmToPhys pointer else pointer

/-- `pointer[index]` for a `UInt64* pointer`. -/
def load (s : VMState) (pointer index : Nat) : Nat :=
  s.mem.word (s.translate (wrap64 (pointer + 8 * index)))

/-- `pointer[index] = value` for a `UInt64* pointer`. -/
def store (s : VMState) (pointer index value : Nat) : VMState :=
  { s with mem := s.mem.setWord (s.translate (wrap64 (pointer + 8 * index))) value }

/-- `MemorySet(pointer, 0, kVMPageSize)` -/
def clearPage (s : VMState) (pointer : Nat) : VMState :=
  { s with mem := memorySet s.mem (s.translate pointer) 0 kVMPageSize }

/-- `VMPhysicalMemoryAllocatePage` on the whole state. -/
def allocatePage (s : VMState) : Nat × VMState :=
  ((vmPhysicalMemoryAllocatePage s.pmm).1, { s with pmm := (vmPhysicalMemoryAllocatePage s.pmm).2 })

@[simp] theorem store_kernelPML4 (s : VMState) (pointer index value : Nat) :
    (s.store pointer index value).kernelPML4 = s.kernelPML4 := rfl

@[simp] theorem store_isInitialized (s : VMState) (pointer index value : Nat) :
    (s.store pointer index value).isInitialized = s.isInitialized := rfl

@[simp] theorem clearPage_kernelPML4 (s : VMState) (pointer : Nat) :
    (s.clearPage pointer).kernelPML4 = s.kernelPML4 := rfl

@[simp] theorem clearPage_isInitialized (s : VMState) (pointer : Nat) :
    (s.clearPage pointer).isInitialized = s.isInitialized := rfl

@[simp] theorem clearPage_pmm (s : VMState) (pointer : Nat) :
    (s.clearPage pointer).pmm = s.pmm := rfl

@[simp] theorem allocatePage_kernelPML4 (s : VMState) :
    s.allocatePage.2.kernelPML4 = s.kernelPML4 := rfl

@[simp] theorem allocatePage_isInitialized (s : VMState) :
    s.allocatePage.2.isInitialized = s.isInitialized := rfl

@[simp] theorem allocatePage_mem (s : VMState) : s.allocatePage.2.mem = s.mem := rfl

end VMState

/-- `sVMGetVirtualTable` -/
def sVMGetVirtualTable (s : VMState) (phys : Nat) : Nat :=
  if s.isInitialized then physToHhdm phys else phys

/-! ## Section 2: Mapping and unmapping -/

/-- One level of `sVMVirtualMemoryMapPageInternal`: if `table[index]` is
present, OR in the USER bit, else link a new empty table there. Returns the
physical address of the next table; `none` is the early `return nullptr`. -/
def descendOrCreate (s : VMState) (table index flags : Nat) : Option Nat × VMState :=
  let tableVirt := sVMGetVirtualTable s table
  if s.load tableVirt index &&& ptePresent = 0 then
    let (addr, s) := s.allocatePage
    -- `return nullptr`: tables of the levels above stay linked
    if addr = 0 then (none, s)
    else
      let s := s.clearPage (sVMGetVirtualTable s addr)
      let s := s.store tableVirt index (addr ||| tableFlags flags)
      (some (pteGetAddr (s.load tableVirt index)), s)
  else
    -- an entry that is there keeps its other flags
    let s := s.store tableVirt index (s.load tableVirt index ||| (flags &&& pteUser))
    (some (pteGetAddr (s.load tableVirt index)), s)

/-- `sVMVirtualMemoryMapPageInternal`; the result is the pointer it returns,
`none` when it gives up for lack of a table frame. -/
def sVMVirtualMemoryMapPageInternal (s : VMState) (pml4 phys virt flags : Nat) :
    Option Nat × VMState :=
  match descendOrCreate s pml4 (vmmPML4Index virt) flags with
  | (none, s) => (none, s)
  | (some pdpt, s) =>
    match descendOrCreate s pdpt (vmmPDPTIndex virt) flags with
    | (none, s) => (none, s)
    | (some pd, s) =>
      match descendOrCreate s pd (vmmPDIndex virt) flags with
      | (none, s) => (none, s)
      | (some pt, s) =>
        -- whatever the entry was before is overwritten
        (some virt, s.store (sVMGetVirtualTable s pt) (vmmPTIndex virt) (phys ||| flags))

/-- `sVMVirtualMemoryUnmapPageInternal` -/
def sVMVirtualMemoryUnmapPageInternal (s : VMState) (pml4 virt : Nat) : VMState :=
  let pml4e := s.load (sVMGetVirtualTable s pml4) (vmmPML4Index virt)
  if pml4e &&& ptePresent = 0 then s
  else
    let pdpte := s.load (sVMGetVirtualTable s (pteGetAddr pml4e)) (vmmPDPTIndex virt)
    if pdpte &&& ptePresent = 0 then s
    else
      let pde := s.load (sVMGetVirtualTable s (pteGetAddr pdpte)) (vmmPDIndex virt)
      if pde &&& ptePresent = 0 then s
      -- the leaf entry is cleared, the tables stay
      else s.store (sVMGetVirtualTable s (pteGetAddr pde)) (vmmPTIndex virt) 0

/-- `VMVirtualMemoryMapPage` -/
def vmVirtualMemoryMapPage (s : VMState) (pml4 phys virt flags : Nat) : Option Nat × VMState :=
  sVMVirtualMemoryMapPageInternal s pml4 phys virt flags

/-- `VMVirtualMemoryUnmapPage` -/
def vmVirtualMemoryUnmapPage (s : VMState) (pml4 virt : Nat) : VMState :=
  sVMVirtualMemoryUnmapPageInternal s pml4 virt

/-! ## Section 3: Address spaces -/

/-- `for (i = 256; i < 512; i++) virt[i] = kernel_pml4_virt[i]`, `count` turns from `i`. -/
def copyKernelHalf (s : VMState) (virt kernelVirt i : Nat) : Nat → VMState
  | 0 => s
  | count + 1 => copyKernelHalf (s.store virt i (s.load kernelVirt i)) virt kernelVirt (i + 1) count

/-- `VMVirtualMemoryCreateAddressSpace`; the result 0 is failure. -/
def vmVirtualMemoryCreateAddressSpace (s : VMState) : Nat × VMState :=
  let (phys, s) := s.allocatePage
  if phys = 0 then (0, s)
  else
    let virt := physToHhdm phys
    let s := s.clearPage virt
    -- the entries are copied once; later ones of the kernel do not follow
    (phys, copyKernelHalf s virt (sVMGetVirtualTable s s.kernelPML4) 256 256)

/-! ## Section 4: Boot -/

/-- The framebuffer fields of `Bootinfo` that `VMVirtualMemoryInitialize` reads,
and the linker symbol `stack_guard`. -/
structure BootLayout where
  framebufferBase : Nat
  framebufferSize : Nat
  stackGuard : Nat
  deriving DecidableEq, Repr

/-- `FB_VIRT_BASE` -/
def fbVirtBase : Nat := 0xFFFFFFFFFC000000

/-- `PTE_PRESENT | PTE_RW` -/
def pteKernelData : Nat := ptePresent ||| pteRW

/-- A list of `VMVirtualMemoryMapPage` calls whose results are ignored. -/
def mapPages (pml4 flags : Nat) (s : VMState) (pages : List (Nat × Nat)) : VMState :=
  pages.foldl (fun s page => (vmVirtualMemoryMapPage s pml4 page.1 page.2 flags).2) s

/-- The `(phys, virt)` pairs of the three mapping loops, in order. -/
def bootPages (layout : BootLayout) (image : KernelImage) (totalMemorySize : Nat) :
    List (Nat × Nat) :=
  (pageLoop 0 totalMemorySize).map (fun i => (i, physToHhdm i)) ++
    (pageLoop image.kernelStart image.kernelEnd).map (fun i => (kernelVirtToPhys i, i)) ++
    (pageLoop 0 layout.framebufferSize).map
      (fun i => (wrap64 (layout.framebufferBase + i), wrap64 (fbVirtBase + i)))

/-- `VMVirtualMemoryInitialize`, from the memory and bitmap that it finds. -/
def vmVirtualMemoryInitialize (mem : Memory) (pmm : VMPhysicalMemory) (layout : BootLayout)
    (image : KernelImage) : VMState :=
  -- the result is not checked
  let (phys, s) := VMState.allocatePage ⟨mem, pmm, 0, false⟩
  let s := { s with kernelPML4 := phys }
  let s := s.clearPage phys
  -- nor are those of the calls: a page may stay unmapped for lack of a table
  let s := mapPages s.kernelPML4 pteKernelData s (bootPages layout image s.pmm.totalMemorySize)
  let s := vmVirtualMemoryUnmapPage s s.kernelPML4 layout.stackGuard
  -- `mov cr3`, and pointers are those of the direct map from here on
  { s with
    pmm := { s.pmm with bitmapAddress := physToHhdm s.pmm.bitmapAddress }
    isInitialized := true }

/-! ## Section 5: User stacks -/

def kVMUserStackTop : Nat := 0x70000000
def kVMUserStackSize : Nat := 0x4000

/-- `PTE_PRESENT | PTE_RW | PTE_USER` -/
def pteUserData : Nat := ptePresent ||| pteRW ||| pteUser

/-- The loop of `VMVirtualMemorySetupUserStack` over the page addresses; the
result `false` is the panic "OOM in user stack setup". -/
def setupUserStackPages (pml4 : Nat) : VMState → List Nat → Bool × VMState
  | s, [] => (true, s)
  | s, address :: rest =>
    let (phys, s) := s.allocatePage
    if phys = 0 then (false, s)
    else
      let s := s.clearPage (physToHhdm phys)
      -- the result is ignored: the frame is lost when the tables have no room
      setupUserStackPages pml4 (vmVirtualMemoryMapPage s pml4 phys address pteUserData).2 rest

/-- `VMVirtualMemorySetupUserStack` -/
def vmVirtualMemorySetupUserStack (s : VMState) (pml4 : Nat) : Bool × VMState :=
  setupUserStackPages pml4 s (pageLoop (kVMUserStackTop - kVMUserStackSize) kVMUserStackTop)

end TermOS.VM
