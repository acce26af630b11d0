import Mathlib.Data.List.TakeWhile
import TermOS.Device.IOConsole
import TermOS.Device.IOKeyboard
import TermOS.FS.CPIOReads
import TermOS.Lib.Triple
import TermOS.OS.Lifecycle
import TermOS.VM.DirectMap

/-!
# System calls

Model of `syscall_dispatch` of `kernel/src/arch/x86_64/syscall.c` and of the services in
`OSServiceIO.c` and `OSServiceProcess.c`. The arguments are what the caller has in its
registers. The kernel runs with the caller's page tables and uses the pointers as they
are. A system call may stop: by an exception in ring 0, by a panic, because the caller
terminates, or because a loop goes on for ever.

## Main Definitions

* `SystemState.byteAt`, `SystemState.setByte` - what a pointer reaches in the kernel
* `syscallDispatch` - one system call
-/

namespace TermOS.OS

open TermOS.Lib TermOS.Kernel TermOS.VM TermOS.FS TermOS.Device VMState

/-! ## Section 1: What a pointer reaches -/

/-- The upper 17 bits of the address are the same. -/
def Canonical (address : Nat) : Prop := address < 2 ^ 47 ∨ 2 ^ 64 - 2 ^ 47 ≤ address

instance (address : Nat) : Decidable (Canonical address) := inferInstanceAs (Decidable (_ ∨ _))

/-- The kernel and the devices that system calls use. `writeProtect` is the WP bit of CR0,
which the kernel leaves as it finds it. -/
structure SystemState where
  kernel : Kernel
  console : IOConsole
  keyboard : IOKeyboardController
  writeProtect : Bool

/-- The kernel sees its own memory at an address, and not a frame through the direct map. -/
def KernelMemory (address physical : Nat) : Prop :=
  KernelHalf address ∧ address ≠ physToHhdm physical

instance (address physical : Nat) : Decidable (KernelMemory address physical) :=
  inferInstanceAs (Decidable (_ ∧ _))

namespace SystemState

variable (s : SystemState)

/-- The physical address behind a pointer; `none` is an exception. The processor is in
ring 0 and does not look at the USER bits. -/
def physical (address : Nat) : Option Nat :=
  if Canonical address then
    (s.kernel.vm.walk s.kernel.scheduler.cr3 address).map fun page =>
      page.1 + address % kVMPageSize
  else none

/-- The byte behind a pointer. -/
def byteAt (address : Nat) : Option UInt8 :=
  (s.physical address).map fun physical =>
    if KernelMemory address physical then s.kernel.scheduler.memory address
    else s.kernel.vm.mem physical

/-- A page without the RW bit can be written if the WP bit is clear. -/
def CanWrite (address : Nat) : Prop :=
  s.writeProtect = true → s.kernel.vm.Writable s.kernel.scheduler.cr3 address

instance (address : Nat) : Decidable (s.CanWrite address) := inferInstanceAs (Decidable (_ → _))

/-- Overwrite the byte behind a pointer. -/
def setByte (address : Nat) (value : UInt8) : Option SystemState :=
  (s.physical address).bind fun physical =>
    if s.CanWrite address then
      some { s with kernel :=
        if KernelMemory address physical then
          { s.kernel with scheduler := { s.kernel.scheduler with
            memory := s.kernel.scheduler.memory.setByte address value } }
        else
          { s.kernel with vm := { s.kernel.vm with
            mem := s.kernel.vm.mem.setByte physical value } } }
    else none

/-- The task that made the call. -/
def caller : OSTask := s.kernel.scheduler.task s.kernel.scheduler.currentTask

end SystemState

/-! ## Section 2: Programs of the kernel -/

/-- Why a system call does not return. -/
inductive Stop
  /-- A page fault or a general protection fault in ring 0; `OSPanicException`. -/
  | exception
  | loaderPanic (panic : LoaderPanic)
  | schedulerPanic (panic : SchedulerPanic)
  /-- The caller has terminated. -/
  | terminated
  /-- A loop goes on, or the caller never runs again. -/
  | endless
  deriving DecidableEq

/-- What the kernel does with a byte of its caller. -/
inductive AccessKind
  | load
  | store
  deriving DecidableEq, Repr

/-- A byte that the kernel has read or written on behalf of its caller. -/
structure CallerAccess where
  kind : AccessKind
  address : UInt64
  deriving DecidableEq, Repr

/-- The machine during a system call. `accesses` only records what has happened, in order. -/
structure CallState where
  system : SystemState
  accesses : List CallerAccess

/-- A part of a system call. -/
abbrev SystemCallM (α : Type) := EStateM Stop CallState α

/-- What happens around a system call: the other tasks while a spawn waits for memory, the
state in which a caller runs again that has given the processor away (`none` if it never
does), and the stack pointer at its `int $32`. -/
structure Surroundings where
  others : OtherTasks
  resume : SystemState → Option SystemState
  sp : Nat

/-- A byte of the caller is read. -/
def loadByte (address : UInt64) : SystemCallM UInt8 := fun s =>
  match s.system.byteAt address.toNat with
  | none => .error .exception s
  | some value => .ok value { s with accesses := s.accesses ++ [⟨.load, address⟩] }

/-- A byte of the caller is written. -/
def storeByte (address : UInt64) (value : UInt8) : SystemCallM Unit := fun s =>
  match s.system.setByte address.toNat value with
  | none => .error .exception s
  | some system => .ok () ⟨system, s.accesses ++ [⟨.store, address⟩]⟩

/-- The machine changes, without an access on behalf of the caller. -/
def changeSystem (change : SystemState → SystemState) : SystemCallM Unit := fun s =>
  .ok () { s with system := change s.system }

/-- The scheduler gets another state. -/
def SystemState.setScheduler (s : SystemState) (scheduler : SchedulerState) : SystemState :=
  { s with kernel := { s.kernel with scheduler := scheduler } }

/-- The scheduler switches to another task. -/
def switchTask (switch : SchedulerState → Option (Except SchedulerPanic SchedulerState)) :
    SystemCallM Unit := fun s =>
  match switch s.system.kernel.scheduler with
  | none => .error .endless s
  | some (.error panic) => .error (.schedulerPanic panic) s
  | some (.ok scheduler) => .ok () { s with system := s.system.setScheduler scheduler }

/-- The caller runs again. -/
def resumes (around : Surroundings) : SystemCallM Unit := fun s =>
  match around.resume s.system with
  | none => .error .endless s
  | some system => .ok () { s with system := system }

/-- `IOConsoleLog` -/
def consoleLog (fmt : Libterm.CString) (args : List Libterm.VaArg) (turns : Nat) : SystemCallM Unit := fun s =>
  match ioConsoleLog fmt args turns s.system.console with
  | none => .error .endless s
  | some console => .ok () { s with system := { s.system with console := console } }

/-! ## Section 3: Input and output -/

/-- The loop of `OSServiceIOWrite`, with `count` turns left. -/
def writeLoop (string : UInt64) : Nat → UInt64 → SystemCallM Unit
  | 0, _ => pure ()
  | count + 1, i => do
    let character ← loadByte (string + i)
    changeSystem fun s => { s with console := ioConsolePutcharacter s.console character }
    writeLoop string count (i + 1)

/-- `OSServiceIOWrite` -/
def osServiceIOWrite (fileDescriptor buffer length : UInt64) : SystemCallM UInt64 :=
  if fileDescriptor = 1 ∨ fileDescriptor = 2 then do
    writeLoop buffer length.toNat 0
    pure length
  else pure 0

/-- `IOKeyboardGetCharacter`, with at most `turns` turns of its loop. -/
def ioKeyboardGetCharacter (around : Surroundings) : Nat → SystemCallM UInt8
  | 0 => throw .endless
  | turns + 1 => do
    let buffer := (← get).system.keyboard.buffer
    if buffer.head ≠ buffer.tail then do
      changeSystem fun s => { s with keyboard := { s.keyboard with buffer := buffer.drop } }
      pure (buffer.cells buffer.tail)
    else do
      switchTask fun scheduler => scheduler.yieldTask 1 around.sp
      resumes around
      ioKeyboardGetCharacter around turns

/-- The loop of `OSServiceIORead`, with `count` turns left. -/
def readLoop (around : Surroundings) (turns : Nat) (readBuffer : UInt64) :
    Nat → UInt64 → SystemCallM Unit
  | 0, _ => pure ()
  | count + 1, i => do
    let character ← ioKeyboardGetCharacter around turns
    storeByte (readBuffer + i) character
    readLoop around turns readBuffer count (i + 1)

/-- `OSServiceIORead` -/
def osServiceIORead (around : Surroundings) (turns : Nat) (fileDescriptor buffer count : UInt64) :
    SystemCallM UInt64 :=
  if fileDescriptor = 0 then do
    readLoop around turns buffer count.toNat 0
    pure count
  else pure 0

/-! ## Section 4: Processes -/

/-- The loop of `StringFindLastOccurrenceOfCharacter`, with the characters that it has read
and the index of the last separator. -/
def stringFindLastOccurrence (string : UInt64) (separator : UInt8) :
    Nat → Nat → Option Nat → SystemCallM (List UInt8 × Option Nat)
  | 0, _, _ => throw .endless
  | turns + 1, i, lastSeparator => do
    let character ← loadByte (string + UInt64.ofNat i)
    let lastSeparator := if character = separator then some i else lastSeparator
    if character = 0 then pure ([], lastSeparator)
    else do
      let rest ← stringFindLastOccurrence string separator turns (i + 1) lastSeparator
      pure (character :: rest.1, rest.2)

namespace Kernel

variable (k : Kernel)

/-- The indices of the path that the loop of `FSVirtualFileSystemOpenPath` reads, where
`searchName` starts at `start`. -/
def openPathLoopReads (searchName : List UInt8) (start : Nat) : Nat → Nat → List Nat
  | 0, _ => []
  | fuel + 1, nodeIterator =>
    if nodeIterator = 0 then []
    else
      -- the second string is read as far as the first one
      List.range' start (stringCompareReads (k.volume.node nodeIterator).name searchName) ++
        if stringCompare (k.volume.node nodeIterator).name searchName = 0 then []
        else openPathLoopReads searchName start fuel (k.volume.node nodeIterator).nextNode

/-- The indices of the path that `FSVirtualFileSystemOpenPath` reads. -/
def openPathReads (path : List UInt8) : List Nat :=
  if k.gFSVirtualFileSystemRoot = 0 then []
  else
    List.range (stringCompareReads (Memory.zeroPadded path) ['/'.toUInt8]) ++
      if stringCompare (Memory.zeroPadded path) ['/'.toUInt8] = 0 then []
      else
        let start := if path.head? = some '/'.toUInt8 then 1 else 0
        0 :: k.openPathLoopReads (path.drop start) start (k.volume.allocated + 1)
          (k.volume.node k.gFSVirtualFileSystemRoot).childNode

/-- The indices of the path that `OSLoaderProcessSpawn` reads, where the name of the process
starts at `name`. -/
def processSpawnReads (path : List UInt8) (name : Nat) : List Nat :=
  k.openPathReads path ++
    match k.openPath path with
    | none | some 0 => []
    | some (_ + 1) =>
      match k.heapAllocate sizeofProcess with
      | none | some (0, _) => []
      | some (_ + 1, _) =>
        -- `StringCopyWithLimit(newProcess->name, processName, 31)`
        List.range' name (stringCopyWithLimitReads (Memory.zeroPadded (path.drop name)) 31)

end Kernel

/-- `OSLoaderProcessSpawn(path, path + name)`. Interrupts are off, and until the name is
copied the loader writes to blocks and frames that are not in use, so that `characters` is
what each of its reads sees. -/
def processSpawn (around : Surroundings) (path : UInt64) (characters : List UInt8) (name : Nat) :
    SystemCallM Int32 := fun s =>
  let s := { s with accesses := s.accesses ++
    (s.system.kernel.processSpawnReads characters name).map fun i =>
      CallerAccess.mk .load (path + UInt64.ofNat i) }
  match s.system.kernel.osLoaderProcessSpawn around.others characters (characters.drop name) with
  | none => .error .endless s
  | some (.error panic) => .error (.loaderPanic panic) s
  | some (.ok result) => .ok result.status { s with system := { s.system with kernel := result.kernel } }

/-- The conversion of an `Int32` to the `UInt64` in `rax`. -/
def toResult (value : Int32) : UInt64 := value.toInt64.toUInt64

/-- `if (name) name++; else name = path;` -/
def nameStart : Option Nat → Nat
  | some i => i + 1
  | none => 0

/-- `OSServiceProcessSpawn` -/
def osServiceProcessSpawn (around : Surroundings) (turns : Nat) (path : UInt64) :
    SystemCallM Int32 := do
  let found ← stringFindLastOccurrence path '/'.toUInt8 turns 0 none
  processSpawn around path found.1 (nameStart found.2)

/-- `process->name` as a string. -/
def processName (name : Memory) : Libterm.CString :=
  ⟨((List.range 32).map name).takeWhile fun character => decide (character ≠ 0), by
    intro h
    have hne := List.mem_takeWhile_imp h
    exact absurd hne (by decide)⟩

/-- `"\n[Dewar] process \"%s\" exited with code %d\n"` -/
def exitFormat : Libterm.CString :=
  ⟨Libterm.literal (['\n', '[', 'D', 'e', 'w', 'a', 'r', ']', ' ', 'p', 'r', 'o', 'c', 'e', 's', 's'] ++
    [' ', '\x22', '%', 's', '\x22', ' ', 'e', 'x', 'i', 't', 'e', 'd', ' ', 'w', 'i', 't', 'h'] ++
    [' ', 'c', 'o', 'd', 'e', ' ', '%', 'd', '\n']), by decide⟩

/-- `"[Dewar] Unknown syscall %d\n"` -/
def unknownFormat : Libterm.CString :=
  ⟨Libterm.literal (['[', 'D', 'e', 'w', 'a', 'r', ']', ' ', 'U', 'n', 'k', 'n', 'o', 'w', 'n', ' '] ++
    ['s', 'y', 's', 'c', 'a', 'l', 'l', ' ', '%', 'd', '\n']), by decide⟩

/-- `OSServiceProcessExit`. Nothing after `OSSchedulerTerminate` is reached: the dead task is
never resumed. -/
def osServiceProcessExit (around : Surroundings) (turns : Nat) (code : Int32) :
    SystemCallM Int32 := do
  let s ← get
  let process := s.system.kernel.process s.system.caller.process
  consoleLog exitFormat [.string (some (processName process.name)), .int code] turns
  switchTask fun scheduler => scheduler.terminate around.sp
  throw .terminated

/-- `OSServiceProcessWait`, which passes the number on as an `UInt32`. -/
def osServiceProcessWait (around : Surroundings) (processID : UInt64) : SystemCallM Int32 := do
  switchTask fun scheduler => scheduler.block processID.toUInt32 around.sp
  resumes around
  pure processID.toUInt32.toInt32

/-- `OSServiceMemoryAllocate` for the process of the current task. -/
def osServiceMemory (size : UInt64) : SystemCallM UInt64 := do
  let s ← get
  let process := s.system.kernel.process s.system.caller.process
  changeSystem fun s => { s with kernel := s.kernel.memoryAllocate size.toNat }
  pure (UInt64.ofNat (osServiceMemoryAllocate s.system.kernel.vm process.toOSProcess size.toNat).1)

/-! ## Section 5: Dispatch -/

/-- `Services` -/
inductive Service
  | exit
  | spawn
  | mem
  | write
  | read
  | wait
  deriving DecidableEq, Repr

/-- What a ring-3 task has in `rax`, `rdi`, `rsi`, `rdx`, `r10` and `r8`. -/
structure SystemCall where
  id : UInt64
  arg1 : UInt64
  arg2 : UInt64
  arg3 : UInt64
  arg4 : UInt64
  arg5 : UInt64
  deriving DecidableEq

/-- The `switch` on `id`. -/
def SystemCall.service (call : SystemCall) : Option Service :=
  if call.id = 0 then some .exit
  else if call.id = 1 then some .spawn
  else if call.id = 2 then some .mem
  else if call.id = 3 then some .write
  else if call.id = 4 then some .read
  else if call.id = 5 then some .wait
  else none

/-- `syscall_dispatch`, with at most `turns` turns of the loops that wait and of those over
strings. -/
def syscallDispatch (around : Surroundings) (turns : Nat) (call : SystemCall) : SystemCallM UInt64 :=
  match call.service with
  | some .exit => toResult <$> osServiceProcessExit around turns call.arg1.toUInt32.toInt32
  | some .spawn => toResult <$> osServiceProcessSpawn around turns call.arg1
  | some .mem => osServiceMemory call.arg1
  | some .write => osServiceIOWrite call.arg1 call.arg2 call.arg3
  | some .read => osServiceIORead around turns call.arg1 call.arg2 call.arg3
  | some .wait => toResult <$> osServiceProcessWait around call.arg1
  | none => do
    consoleLog unknownFormat [.int call.id.toUInt32.toInt32] turns
    pure (-1)

end TermOS.OS
