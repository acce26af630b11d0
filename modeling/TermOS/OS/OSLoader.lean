import TermOS.FS.VFS
import TermOS.OS.HOTLoader
import TermOS.OS.Scheduler
import TermOS.VM.Heap

/-!
# Starting programs

Model of `kernel/src/OS/Exec/OSLoader.c`, and of `OSSchedulerSpawn` over the
kernel heap. A system call runs with interrupts off, so nothing else happens
during a call, except where `OSSchedulerSpawn` yields: without memory for a
kernel stack it lets the other tasks run and tries again. What they do in the
meantime is a parameter, a run of calls on address spaces that are not the new
process's.
-/

namespace TermOS.OS

open TermOS.Lib TermOS.Kernel TermOS.VM TermOS.FS VMState

/-! ## Section 1: The kernel -/

/-- `OSProcess`, with all its fields. -/
structure ProcessRecord extends OSProcess where
  processId : Nat
  state : OSProcessState
  parent : Nat
  name : Memory
  heapStartPointer : Nat

/-- A process after `MemorySet(newProcess, 0, sizeof(OSProcess))`. -/
def ProcessRecord.zero : ProcessRecord where
  physicalPML4 := 0
  heapCurrentPointer := 0
  processId := 0
  state := .dead
  parent := 0
  name := fun _ => 0
  heapStartPointer := 0

/-- `sizeof(OSProcess)` -/
def sizeofProcess : Nat := 80

/-- `kOSUserStackTop` -/
def kOSUserStackTop : Nat := 0x70000000

/-- The state of the kernel. The memory that kernel pointers refer to is that of
the scheduler; the heap and the archive lie in it. `spaces` are the page tables
that `VMVirtualMemoryCreateAddressSpace` has handed out. -/
structure Kernel where
  vm : VMState
  scheduler : SchedulerState
  sVMHeapListHead : Nat
  volume : FSVolume
  gFSVirtualFileSystemRoot : Nat
  process : Nat → ProcessRecord
  gOSSchedulerNextProcessID : UInt32
  spaces : List Nat

namespace Kernel

variable (k : Kernel)

/-- The kernel heap. -/
def heap : VMHeap := ⟨k.scheduler.memory, k.sVMHeapListHead⟩

/-- Write back the heap. -/
def setHeap (heap : VMHeap) : Kernel :=
  { k with
    scheduler := { k.scheduler with memory := heap.memory }
    sVMHeapListHead := heap.listHead }

/-- `VMHeapAllocate`; `none` means that its search does not end. -/
def heapAllocate (size : Nat) : Option (Nat × Kernel) :=
  (k.heap.vmHeapAllocate size).map fun (pointer, heap) =>
    let k := k.setHeap heap
    if pointer = 0 then (0, k)
    else (pointer, { k with scheduler := k.scheduler.heapAllocate pointer size })

/-- `VMHeapFree` -/
def heapFree (pointer : Nat) : Kernel :=
  let k := k.setHeap (k.heap.vmHeapFree pointer)
  { k with scheduler := k.scheduler.heapFree pointer }

/-- `FSVirtualFileSystemOpenPath`; a volume has no more nodes than it has allocated. -/
def openPath (path : List UInt8) : Option Nat :=
  fsVirtualFileSystemOpenPath k.volume k.gFSVirtualFileSystemRoot path (k.volume.allocated + 1)

/-- What a pointer into kernel memory sees, by offset. -/
def bytesAt (pointer : Nat) : Memory := fun i => k.scheduler.memory (wrap64 (pointer + i))

end Kernel

/-! ## Section 2: Spawning a task -/

/-- A call of another task that works on address spaces. `own` are the page
tables of the process that is being set up, which no other task knows. A
process whose `physicalPML4` is 0 has no address space, and calls for one are
left out: loads into it, its stack and its memory. -/
inductive OtherCall (own : Nat) (spaces : List Nat) (s : VMState) : List Nat → VMState → Prop
  /-- `VMVirtualMemoryCreateAddressSpace` without a free frame. -/
  | noAddressSpace : (vmVirtualMemoryCreateAddressSpace s).1 = 0 →
      OtherCall own spaces s spaces (vmVirtualMemoryCreateAddressSpace s).2
  /-- `VMVirtualMemoryCreateAddressSpace` -/
  | createAddressSpace : (vmVirtualMemoryCreateAddressSpace s).1 ≠ 0 →
      OtherCall own spaces s ((vmVirtualMemoryCreateAddressSpace s).1 :: spaces)
        (vmVirtualMemoryCreateAddressSpace s).2
  /-- `HOTLoad` -/
  | hotLoad (process : OSProcess) (data : Memory) : process.physicalPML4 ∈ spaces →
      process.physicalPML4 ≠ own → OtherCall own spaces s spaces (hotLoad s process data).2
  /-- `VMVirtualMemorySetupUserStack` -/
  | setupUserStack (pml4 : Nat) : pml4 ∈ spaces → pml4 ≠ own →
      OtherCall own spaces s spaces (vmVirtualMemorySetupUserStack s pml4).2
  /-- `OSServiceMemoryAllocate` -/
  | memoryAllocate (process : OSProcess) (size : Nat) : process.physicalPML4 ∈ spaces →
      process.physicalPML4 ≠ own →
      OtherCall own spaces s spaces (osServiceMemoryAllocate s process size).2.1

/-- Any number of such calls. -/
inductive OtherCalls (own : Nat) : List Nat → VMState → List Nat → VMState → Prop
  | refl (spaces : List Nat) (s : VMState) : OtherCalls own spaces s spaces s
  | tail {spaces spaces₁ spaces₂ : List Nat} {s s₁ s₂ : VMState} :
      OtherCalls own spaces s spaces₁ s₁ → OtherCall own spaces₁ s₁ spaces₂ s₂ →
      OtherCalls own spaces s spaces₂ s₂

/-- What a task finds when it runs again in the middle of setting up `newProcess`. -/
structure Meanwhile (newProcess : Nat) (k k' : Kernel) : Prop where
  process_eq : k'.process newProcess = k.process newProcess
  currentTask_eq : k'.scheduler.currentTask = k.scheduler.currentTask
  calls : OtherCalls (k.process newProcess).physicalPML4 k.spaces k.vm k'.spaces k'.vm

/-- What the other tasks do while a task waits: `resume` is the state in which it
runs again, `none` if it never does. -/
structure OtherTasks where
  resume : Nat → Kernel → Option Kernel
  meanwhile : ∀ {newProcess k k'}, resume newProcess k = some k' → Meanwhile newProcess k k'

namespace Kernel

variable (k : Kernel)

/-- `OSSchedulerSpawn` from the second allocation on, when it has succeeded. -/
def linkTask (call : PendingSpawn) (stackBaseAddress : Nat) : Kernel :=
  { k with
    scheduler := k.scheduler.linkTask call.task stackBaseAddress call.entry call.owner call.isUser
      call.fixedUserStackPointer }

/-- The collector is signalled, and the caller yields. -/
def yieldForStack (call : PendingSpawn) : Kernel :=
  { k with scheduler := (k.scheduler.setPending (some call)).postGarbageCollectorSignal }

/-- The second attempt to allocate the stack. -/
def spawnRetry (call : PendingSpawn) : Option (Nat × Kernel) :=
  let k : Kernel := { k with scheduler := k.scheduler.setPending none }
  (k.heapAllocate stackSize).map fun (stackBaseAddress, k) =>
    if stackBaseAddress = 0 then (0, k.heapFree call.task)
    else (call.task, k.linkTask call stackBaseAddress)

/-- `OSSchedulerSpawn`: the task, or null, and the kernel after it. -/
def osSchedulerSpawn (others : OtherTasks) (entry owner : Nat) (isUser : Bool)
    (fixedUserStackPointer : Nat) : Option (Nat × Kernel) :=
  (k.heapAllocate sizeofTask).bind fun (task, k) =>
    if task = 0 then some (0, k)
    else
      let owner := if owner = 0 then k.scheduler.kernelProcess else owner
      let call : PendingSpawn := ⟨task, entry, owner, isUser, fixedUserStackPointer⟩
      (k.heapAllocate stackSize).bind fun (stackBaseAddress, k) =>
        if stackBaseAddress = 0 then
          -- `OSSchedulerYield(0)`: the other tasks run before the second try
          (others.resume owner (k.yieldForStack call)).bind fun k => k.spawnRetry call
        else some (task, k.linkTask call stackBaseAddress)

/-! ## Section 3: Spawning a process -/

/-- The fields of `newProcess` before its image is loaded. -/
def newRecord (physicalPML4 : Nat) (processName : List UInt8) : ProcessRecord :=
  { ProcessRecord.zero with
    processId := k.gOSSchedulerNextProcessID.toNat
    state := .running
    physicalPML4 := physicalPML4
    heapStartPointer := kOSHeapStart
    heapCurrentPointer := kOSHeapStart
    name := stringCopyWithLimit ProcessRecord.zero.name 0 (Memory.zeroPadded processName) 31 }

/-- The process gets its number, an address space and its name. The result of
`VMVirtualMemoryCreateAddressSpace` is not checked. -/
def createProcess (newProcess : Nat) (processName : List UInt8) : Kernel :=
  let created := vmVirtualMemoryCreateAddressSpace k.vm
  let record := k.newRecord created.1 processName
  -- the address 0 of a PML4 that could not be had is stored like any other
  { k with
    vm := created.2
    process := Function.update k.process newProcess record
    scheduler := { k.scheduler with
      process := Function.update k.scheduler.process newProcess ⟨record.processId, created.1⟩ }
    gOSSchedulerNextProcessID := k.gOSSchedulerNextProcessID + 1
    spaces := if created.1 = 0 then k.spaces else created.1 :: k.spaces }

/-- `FSVNodeRead(executableFile, 0, executableFile->dataLength, imageBuffer)` -/
def readImage (executableFile imageBuffer : Nat) : Kernel :=
  { k with
    scheduler := { k.scheduler with
      memory := (fsVNodeRead k.volume k.scheduler.memory executableFile 0
        (k.volume.node executableFile).dataLength imageBuffer).2 } }

/-- `HOTLoad(newProcess, imageBuffer)` -/
def loadImage (newProcess imageBuffer : Nat) : Nat × Kernel :=
  let loaded := hotLoad k.vm (k.process newProcess).toOSProcess (k.bytesAt imageBuffer)
  (loaded.1, { k with vm := loaded.2 })

/-- `VMVirtualMemorySetupUserStack(newProcess->physicalPML4)` -/
def setupUserStack (newProcess : Nat) : Bool × Kernel :=
  let result := vmVirtualMemorySetupUserStack k.vm (k.process newProcess).physicalPML4
  (result.1, { k with vm := result.2 })

end Kernel

/-- The reasons for which the loader panics. -/
inductive LoaderPanic
  | userStack
  deriving DecidableEq

/-- The text passed to `OSPanic`. -/
def LoaderPanic.message : LoaderPanic → String
  | userStack => "OOM in user stack setup"

/-- The value that `OSLoaderProcessSpawn` returns, and the kernel after it. Two
fields only record what has happened: the process structure, and the task that
`OSSchedulerSpawn` has linked in (0 for none). -/
structure SpawnResult where
  status : Int32
  newProcess : Nat
  task : Nat
  kernel : Kernel

namespace Kernel

variable (k : Kernel) (others : OtherTasks)

/-- The end of `OSLoaderProcessSpawn`: the stack and the task. -/
def startProcess (newProcess entryPoint : Nat) : Option (Except LoaderPanic SpawnResult) :=
  let (ok, k) := k.setupUserStack newProcess
  if ok = false then some (.error .userStack)
  else
    (k.osSchedulerSpawn others entryPoint newProcess true kOSUserStackTop).map fun (task, k) =>
      -- only the process structure is given back
      if task = 0 then .ok ⟨-5, newProcess, 0, k.heapFree newProcess⟩
      else .ok ⟨(UInt32.ofNat (k.process newProcess).processId).toInt32, newProcess, task, k⟩

/-- `OSLoaderProcessSpawn` once the file is in `imageBuffer`. -/
def spawnImage (newProcess imageBuffer : Nat) : Option (Except LoaderPanic SpawnResult) :=
  let (entryPoint, k) := k.loadImage newProcess imageBuffer
  if entryPoint = 0 then
    some (.ok ⟨-4, newProcess, 0, (k.heapFree imageBuffer).heapFree newProcess⟩)
  else (k.heapFree imageBuffer).startProcess others newProcess entryPoint

/-- `OSLoaderProcessSpawn` once there is a process. -/
def spawnFile (newProcess executableFile : Nat) : Option (Except LoaderPanic SpawnResult) :=
  (k.heapAllocate (k.volume.node executableFile).dataLength).bind fun (imageBuffer, k) =>
    if imageBuffer = 0 then some (.ok ⟨-3, newProcess, 0, k.heapFree newProcess⟩)
    else (k.readImage executableFile imageBuffer).spawnImage others newProcess imageBuffer

/-- `OSLoaderProcessSpawn`. `none` means that it does not return. -/
def osLoaderProcessSpawn (executablePath processName : List UInt8) :
    Option (Except LoaderPanic SpawnResult) :=
  (k.openPath executablePath).bind fun executableFile =>
    -- nothing was taken yet
    if executableFile = 0 then some (.ok ⟨-1, 0, 0, k⟩)
    else
      (k.heapAllocate sizeofProcess).bind fun (newProcess, k) =>
        if newProcess = 0 then some (.ok ⟨-2, 0, 0, k⟩)
        else (k.createProcess newProcess processName).spawnFile others newProcess executableFile

end Kernel

end TermOS.OS
