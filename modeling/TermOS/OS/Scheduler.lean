import TermOS.Lib.Memory
import TermOS.Lib.Run
import Mathlib.Data.Int.Basic

/-!
# The scheduler

Model of `kernel/src/OS/OSScheduler.c`. Task structures live at the addresses
that `VMHeapAllocate` returned. Every call of a task is one action; the garbage
collector, which runs with interrupts enabled, advances by one statement at a
time, so that a timer interrupt can fall between any two of them. The stack
pointer that `irq0` passes to `OSSchedulerNext` is part of the action.
-/

namespace TermOS.OS

open TermOS.Lib

/-! ## Section 1: Tasks -/

/-- `OSProcessState` -/
inductive OSProcessState
  | dead
  | running
  | ready
  | blocked
  | sleeping
  deriving DecidableEq, Repr

/-- The fields of `OSProcess` that the scheduler uses. -/
structure TaskOwner where
  processId : Nat
  physicalPML4 : Nat
  deriving DecidableEq, Repr

/-- `OSTask` -/
structure OSTask where
  stackPointer : Nat
  next : Nat
  id : UInt32
  sleepTicks : Nat
  taskState : OSProcessState
  kernelStackTop : Nat
  kernelStackBase : Nat
  process : Nat
  waitingForProcess : Int32
  deriving DecidableEq

/-- A task after `MemorySet(task, 0, sizeof(OSTask))`. -/
def OSTask.zero : OSTask where
  stackPointer := 0
  next := 0
  id := 0
  sleepTicks := 0
  taskState := .dead
  kernelStackTop := 0
  kernelStackBase := 0
  process := 0
  waitingForProcess := 0

/-- `sizeof(OSTask)` -/
def sizeofTask : Nat := 64

/-- `stackSize` of `OSSchedulerSpawn`. -/
def stackSize : Nat := 16384

/-- The statements of `OSSchedulerGarbageCollector` between which it can be
preempted; the section under the lock is one of them. -/
inductive CollectorPoint
  /-- `OSTask* self = gOSSchedulerCurrentTask` -/
  | enter
  /-- `OSTask* previousTask = self` -/
  | first
  /-- `OSTask* nextTask = previousTask->next` -/
  | second
  /-- `while (nextTask != self)` -/
  | test
  /-- `if (nextTask->taskState == kOSProcessStateDead)` -/
  | check
  /-- `previousTask->next = nextTask->next` under the lock -/
  | unlink
  /-- `if (nextTask->kernelStackBase) VMHeapFree(nextTask->kernelStackBase)` -/
  | freeStack
  /-- `VMHeapFree(nextTask)` -/
  | freeTask
  /-- `nextTask = previousTask->next` -/
  | reread
  /-- `previousTask = nextTask` -/
  | advance
  /-- `nextTask = nextTask->next` -/
  | follow
  /-- `gOSSchedulerCurrentTask->sleepTicks = ticks` of `OSSchedulerYield(200)` -/
  | yieldTicks
  /-- `gOSSchedulerCurrentTask->taskState = kOSProcessStateSleeping` -/
  | yieldState
  /-- `int $32` -/
  | yieldSwitch
  deriving DecidableEq, Repr

/-- The garbage collector: where it is, and its local variables. -/
structure Collector where
  point : CollectorPoint
  self : Nat
  previousTask : Nat
  nextTask : Nat
  deriving DecidableEq, Repr

/-- The arguments of an `OSSchedulerSpawn` that waits for memory for a stack,
and the task structure that it has allocated. -/
structure PendingSpawn where
  task : Nat
  entry : Nat
  owner : Nat
  isUser : Bool
  fixedUserStackPointer : Nat
  deriving DecidableEq, Repr

/-- What the scheduler works on. `live` are the blocks (address and size) that
`VMHeapAllocate` has handed out and that have not been freed. Two fields only
record what has happened: `linked` are the tasks that were linked into the ring
and not freed, `freed` are the blocks that the garbage collector has freed and
`OSSchedulerSpawn` has not got back. -/
structure SchedulerState where
  task : Nat → OSTask
  process : Nat → TaskOwner
  kernelProcess : Nat
  currentTask : Nat
  garbageCollectorTask : Nat
  collector : Collector
  pending : Nat → Option PendingSpawn
  live : List (Nat × Nat)
  linked : List Nat
  freed : List Nat
  memory : Memory
  cr3 : Nat
  rsp0 : Nat
  kernelStackPointer : Nat

/-- The reasons for which the scheduler panics. -/
inductive SchedulerPanic
  | noRunningTasks
  deriving DecidableEq, Repr

/-- The text passed to `OSPanic`. -/
def SchedulerPanic.message : SchedulerPanic → String
  | noRunningTasks => "no running tasks"

namespace SchedulerState

/-- Overwrite a task. -/
def setTask (s : SchedulerState) (address : Nat) (task : OSTask) : SchedulerState :=
  { s with task := Function.update s.task address task }

@[simp] theorem setTask_same (s : SchedulerState) (address : Nat) (task : OSTask) :
    (s.setTask address task).task address = task := Function.update_self ..

theorem setTask_ne (s : SchedulerState) {address other : Nat} (task : OSTask) (h : other ≠ address) :
    (s.setTask address task).task other = s.task other := Function.update_of_ne h ..

/-- `gOSSchedulerCurrentTask->taskState = state` -/
def setCurrentState (s : SchedulerState) (state : OSProcessState) : SchedulerState :=
  s.setTask s.currentTask { s.task s.currentTask with taskState := state }

/-- Bound for the loops over the list of tasks: no list of live tasks is
longer. -/
def loopBound (s : SchedulerState) : Nat := s.live.length + 1

/-- The current task enters or leaves the middle of an `OSSchedulerSpawn`. -/
def setPending (s : SchedulerState) (call : Option PendingSpawn) : SchedulerState :=
  { s with pending := Function.update s.pending s.currentTask call }

theorem setPending_pending (s : SchedulerState) (call : Option PendingSpawn) (caller : Nat) :
    (s.setPending call).pending caller = if caller = s.currentTask then call else s.pending caller :=
  Function.update_apply ..

/-- `VMHeapAllocate` returns a block to `OSSchedulerSpawn`. -/
def heapAllocate (s : SchedulerState) (address size : Nat) : SchedulerState :=
  { s with
    live := (address, size) :: s.live
    freed := s.freed.filter fun block => block ≠ address }

/-- `VMHeapFree` -/
def heapFree (s : SchedulerState) (address : Nat) : SchedulerState :=
  { s with live := s.live.filter fun block => block.1 ≠ address }

/-- `VMHeapFree` by the garbage collector. -/
def collectorFree (s : SchedulerState) (address : Nat) : SchedulerState :=
  { s.heapFree address with freed := address :: s.freed }

end SchedulerState

/-! ## Section 2: Spawning -/

/-- `*--rsp = value` for each value in turn. -/
def pushWords : Memory → Nat → List Nat → Memory × Nat
  | m, rsp, [] => (m, rsp)
  | m, rsp, value :: values => pushWords (m.setWord (rsp - 8) value) (rsp - 8) values

/-- The words that `OSSchedulerSpawn` pushes, the first one at the top. -/
def spawnFrame (entry targetStackPointer : Nat) (isUser : Bool) : List Nat :=
  [if isUser then 0x1b else 0x10, targetStackPointer, 0x202, if isUser then 0x23 else 0x08, entry,
    0, 0] ++ List.replicate 15 0

namespace SchedulerState

variable (s : SchedulerState)

/-- The fields that `OSSchedulerSpawn` gives to a task. -/
def spawnedTask (stackBaseAddress rsp owner : Nat) : OSTask where
  stackPointer := rsp
  process := owner
  id := UInt32.ofNat (s.process owner).processId
  sleepTicks := 0
  kernelStackTop := stackBaseAddress + stackSize
  kernelStackBase := stackBaseAddress
  taskState := .running
  waitingForProcess := -1
  -- linked in under the lock
  next := (s.task s.currentTask).next

/-- `OSSchedulerSpawn` once both blocks are there. -/
def linkTask (task stackBaseAddress entry owner : Nat) (isUser : Bool)
    (fixedUserStackPointer : Nat) : SchedulerState :=
  let stackTop := stackBaseAddress + stackSize
  let targetStackPointer := if isUser then fixedUserStackPointer else stackTop
  let frame := pushWords s.memory stackTop (spawnFrame entry targetStackPointer isUser)
  let spawned := s.setTask task (s.spawnedTask stackBaseAddress frame.2 owner)
  { spawned.setTask s.currentTask { spawned.task s.currentTask with next := task } with
    memory := frame.1
    linked := task :: s.linked }

/-- `OSSchedulerSpawn` when both allocations succeed. -/
def spawnTask (task stackBaseAddress entry owner : Nat) (isUser : Bool)
    (fixedUserStackPointer : Nat) : SchedulerState :=
  ((s.heapAllocate task sizeofTask).heapAllocate stackBaseAddress stackSize).linkTask task
    stackBaseAddress entry (if owner = 0 then s.kernelProcess else owner) isUser
    fixedUserStackPointer

/-- `sOSSchedulerPostGarbageCollectorSignal` -/
def postGarbageCollectorSignal : SchedulerState :=
  if s.garbageCollectorTask = 0 then s
  else s.setTask s.garbageCollectorTask
    { s.task s.garbageCollectorTask with taskState := .running, sleepTicks := 0 }

end SchedulerState

/-! ## Section 3: Switching -/

/-- The loop of `OSSchedulerNext` that counts `sleepTicks` down, from
`taskIterator` on. -/
def countDownLoop (currentTask : Nat) : Nat → (Nat → OSTask) → Nat → Option (Nat → OSTask)
  | 0, _, _ => none
  | fuel + 1, task, taskIterator =>
    let task := if 0 < (task taskIterator).sleepTicks then
      Function.update task taskIterator
        { task taskIterator with sleepTicks := (task taskIterator).sleepTicks - 1 }
      else task
    let taskIterator := (task taskIterator).next
    if taskIterator = (task currentTask).next then some task
    else countDownLoop currentTask fuel task taskIterator

/-- The loop of `OSSchedulerNext` that looks for a running task, from
`nextTask` on. -/
def searchLoop (currentTask : Nat) :
    Nat → (Nat → OSTask) → Nat → Option (Except SchedulerPanic ((Nat → OSTask) × Nat))
  | 0, _, _ => none
  | fuel + 1, task, nextTask =>
    -- a sleeper whose ticks are used up runs again
    let task := if (task nextTask).taskState = .sleeping ∧ (task nextTask).sleepTicks = 0 then
      Function.update task nextTask { task nextTask with taskState := .running }
      else task
    if (task nextTask).taskState = .running then some (.ok (task, nextTask))
    else
      let nextTask := (task nextTask).next
      -- once around the ring: the current task goes on, or the kernel panics
      if nextTask = currentTask then
        if (task currentTask).taskState = .running then some (.ok (task, nextTask))
        else some (.error .noRunningTasks)
      else searchLoop currentTask fuel task nextTask

namespace SchedulerState

variable (s : SchedulerState)

/-- The end of `OSSchedulerNext`: `nextTask` becomes the current task. -/
def resume (task : Nat → OSTask) (nextTask : Nat) : SchedulerState :=
  let physicalPML4 := (s.process (task nextTask).process).physicalPML4
  { s with
    task := task
    -- `VMLoadCR3` only if the page tables are others
    cr3 := if physicalPML4 ≠ (s.process (task s.currentTask).process).physicalPML4 then physicalPML4
      else s.cr3
    currentTask := nextTask
    rsp0 := (task nextTask).kernelStackTop
    kernelStackPointer := (task nextTask).kernelStackTop }

/-- `if (gOSSchedulerCurrentTask->sleepTicks > 0) gOSSchedulerCurrentTask->sleepTicks--` -/
def countDownCurrent (task : Nat → OSTask) : Nat → OSTask :=
  if 0 < (task s.currentTask).sleepTicks then
    Function.update task s.currentTask
      { task s.currentTask with sleepTicks := (task s.currentTask).sleepTicks - 1 }
  else task

/-- `OSSchedulerNext`. The stack pointer that it returns is the one of the new
current task. `none` means that a loop does not end. -/
def next (currentStackPointer : Nat) : Option (Except SchedulerPanic SchedulerState) :=
  let task := Function.update s.task s.currentTask
    { s.task s.currentTask with stackPointer := currentStackPointer }
  (countDownLoop s.currentTask s.loopBound task (task s.currentTask).next).bind fun task =>
    -- the loop has taken a tick of the current task, too
    let task := s.countDownCurrent task
    (searchLoop s.currentTask s.loopBound task (task s.currentTask).next).map fun result =>
      result.map fun found => s.resume found.1 found.2

/-- `OSSchedulerYield`; `sp` is the stack pointer at its `int $32`. -/
def yieldTask (ticks sp : Nat) : Option (Except SchedulerPanic SchedulerState) :=
  (s.setTask s.currentTask
    { s.task s.currentTask with sleepTicks := ticks % 2 ^ 32, taskState := .sleeping }).next sp

/-- `OSSchedulerBlock` -/
def block (processID : UInt32) (sp : Nat) : Option (Except SchedulerPanic SchedulerState) :=
  (s.setTask s.currentTask
    { s.task s.currentTask with
      taskState := .blocked, waitingForProcess := processID.toInt32 }).next sp

end SchedulerState

/-- The loop of `OSSchedulerWakeup`, from `iteratorTask` on. -/
def wakeupLoop (currentTask : Nat) (processID : UInt32) :
    Nat → (Nat → OSTask) → Nat → Option (Nat → OSTask)
  | 0, _, _ => none
  | fuel + 1, task, iteratorTask =>
    let task := if (task iteratorTask).taskState = .blocked ∧
        (task iteratorTask).waitingForProcess = processID.toInt32 then
      Function.update task iteratorTask
        { task iteratorTask with taskState := .running, waitingForProcess := -1 }
      else task
    let iteratorTask := (task iteratorTask).next
    -- the loop is a `do`: the current task is looked at first
    if iteratorTask = currentTask then some task
    else wakeupLoop currentTask processID fuel task iteratorTask

namespace SchedulerState

variable (s : SchedulerState)

/-- `OSSchedulerWakeup` -/
def wakeup (processID : UInt32) : Option SchedulerState :=
  (wakeupLoop s.currentTask processID s.loopBound s.task s.currentTask).map fun task =>
    { s with task := task }

/-- `OSSchedulerTerminate` -/
def terminate (sp : Nat) : Option (Except SchedulerPanic SchedulerState) :=
  let processID := (s.task s.currentTask).id
  ((s.setCurrentState .dead).wakeup processID).bind fun s => s.postGarbageCollectorSignal.next sp

/-- `isr_handler_c` for an exception in ring 3. What follows
`OSServiceProcessExit` is not reached: the dead task is never resumed. -/
def fault (sp : Nat) : Option (Except SchedulerPanic SchedulerState) :=
  (s.setCurrentState .dead).terminate sp

/-- `OSSchedulerSpawn`. `task` and `stackBaseAddress` are what `VMHeapAllocate`
returns; without memory for the stack, the collector is signalled and the
caller yields in the middle of the call. -/
def spawn (task stackBaseAddress entry owner : Nat) (isUser : Bool)
    (fixedUserStackPointer sp : Nat) : Option (Except SchedulerPanic SchedulerState) :=
  if task = 0 then some (.ok s)
  else if stackBaseAddress = 0 then
    let owner := if owner = 0 then s.kernelProcess else owner
    -- the call waits with the task it has, for the stack it lacks
    let s := (s.heapAllocate task sizeofTask).setPending
      (some ⟨task, entry, owner, isUser, fixedUserStackPointer⟩)
    s.postGarbageCollectorSignal.yieldTask 0 sp
  else some (.ok (s.spawnTask task stackBaseAddress entry owner isUser fixedUserStackPointer))

/-- The rest of an `OSSchedulerSpawn` that has yielded: the second attempt to
allocate the stack. -/
def spawnRetry (call : PendingSpawn) (stackBaseAddress : Nat) : SchedulerState :=
  let s := s.setPending none
  if stackBaseAddress = 0 then s.heapFree call.task
  else (s.heapAllocate stackBaseAddress stackSize).linkTask call.task stackBaseAddress call.entry
    call.owner call.isUser call.fixedUserStackPointer

/-! ## Section 4: The garbage collector -/

/-- Write the collector's local variables. -/
def setCollector (collector : Collector) : SchedulerState := { s with collector := collector }

/-- `previousTask->next = nextTask->next` -/
def unlinkNext : SchedulerState :=
  s.setTask s.collector.previousTask
    { s.task s.collector.previousTask with next := (s.task s.collector.nextTask).next }

/-- `VMHeapFree(nextTask)` -/
def freeNext : SchedulerState :=
  { s.collectorFree s.collector.nextTask with
    linked := s.linked.filter fun task => task ≠ s.collector.nextTask }

/-- The next statement of `OSSchedulerGarbageCollector`. -/
def collect (sp : Nat) : Option (Except SchedulerPanic SchedulerState) :=
  let collector := s.collector
  let nextTask := s.task collector.nextTask
  match collector.point with
  | .enter => some (.ok (s.setCollector { collector with self := s.currentTask, point := .first }))
  | .first =>
    some (.ok (s.setCollector { collector with previousTask := collector.self, point := .second }))
  | .second => some (.ok (s.setCollector
      { collector with nextTask := (s.task collector.previousTask).next, point := .test }))
  | .test => some (.ok (s.setCollector
      { collector with point := if collector.nextTask ≠ collector.self then .check else .yieldTicks }))
  | .check => some (.ok (s.setCollector
      { collector with point := if nextTask.taskState = .dead then .unlink else .advance }))
  -- the list goes past `nextTask` and whatever was linked in before it
  | .unlink => some (.ok (s.unlinkNext.setCollector { collector with point := .freeStack }))
  | .freeStack =>
    let s := if nextTask.kernelStackBase ≠ 0 then s.collectorFree nextTask.kernelStackBase else s
    some (.ok (s.setCollector { collector with point := .freeTask }))
  | .freeTask => some (.ok (s.freeNext.setCollector { collector with point := .reread }))
  | .reread => some (.ok (s.setCollector
      { collector with nextTask := (s.task collector.previousTask).next, point := .test }))
  | .advance =>
    some (.ok (s.setCollector { collector with previousTask := collector.nextTask, point := .follow }))
  | .follow =>
    some (.ok (s.setCollector { collector with nextTask := nextTask.next, point := .test }))
  -- `OSSchedulerYield(200)`, statement by statement
  | .yieldTicks =>
    let s := s.setTask s.currentTask { s.task s.currentTask with sleepTicks := 200 }
    some (.ok (s.setCollector { collector with point := .yieldState }))
  | .yieldState =>
    some (.ok ((s.setCurrentState .sleeping).setCollector { collector with point := .yieldSwitch }))
  | .yieldSwitch => (s.setCollector { collector with point := .first }).next sp

end SchedulerState

/-! ## Section 5: Runs -/

/-- What can happen next. -/
inductive SchedulerAction
  /-- A timer interrupt, with the stack pointer of its frame. -/
  | tick (sp : Nat)
  /-- `OSSchedulerSpawn` by the current task. -/
  | spawn (task stackBaseAddress entry owner : Nat) (isUser : Bool) (fixedUserStackPointer sp : Nat)
  /-- The current task goes on with an `OSSchedulerSpawn` that has yielded. -/
  | spawnRetry (stackBaseAddress : Nat)
  | block (processID : UInt32) (sp : Nat)
  | wakeup (processID : UInt32)
  | yieldTask (ticks sp : Nat)
  | terminate (sp : Nat)
  | fault (sp : Nat)
  /-- The next statement of the garbage collector. -/
  | collect (sp : Nat)
  /-- The current task fills in an `OSProcess` that is not in use. -/
  | setProcess (address : Nat) (process : TaskOwner)
  /-- The current task writes a byte outside the stacks of other tasks. -/
  | store (address : Nat) (value : UInt8)
  deriving DecidableEq

/-- The action allocates this task structure. -/
def SchedulerAction.Allocates : SchedulerAction → Nat → Prop
  | .spawn task _ _ _ _ _ _, t => task = t
  | _, _ => False

namespace SchedulerState

/-- A new block does not overlap a live one. -/
def FreshBlock (live : List (Nat × Nat)) (address size : Nat) : Prop :=
  address ≠ 0 ∧ ∀ block ∈ live, address + size ≤ block.1 ∨ block.1 + block.2 ≤ address

/-- The current task is not the garbage collector, and not inside an
`OSSchedulerSpawn`. -/
def Calls (s : SchedulerState) : Prop :=
  s.currentTask ≠ s.garbageCollectorTask ∧ s.pending s.currentTask = none

/-- What the heap and the callers guarantee about an action. -/
def Allowed (s : SchedulerState) : SchedulerAction → Prop
  | .tick _ => True
  | .spawn task stackBaseAddress _ _ _ _ _ =>
    s.Calls ∧ (task ≠ 0 → FreshBlock s.live task sizeofTask) ∧
      (stackBaseAddress ≠ 0 → FreshBlock ((task, sizeofTask) :: s.live) stackBaseAddress stackSize)
  | .spawnRetry stackBaseAddress =>
    s.currentTask ≠ s.garbageCollectorTask ∧ (s.pending s.currentTask).isSome ∧
      (stackBaseAddress ≠ 0 → FreshBlock s.live stackBaseAddress stackSize)
  | .block _ _ => s.Calls
  | .wakeup _ => s.Calls
  | .yieldTask _ _ => s.Calls
  | .terminate _ => s.Calls
  | .fault _ => s.Calls
  | .collect _ => s.currentTask = s.garbageCollectorTask
  | .setProcess address _ => s.Calls ∧ address ≠ s.kernelProcess ∧
      (∀ task ∈ s.linked, (s.task task).process ≠ address) ∧
      ∀ task call, s.pending task = some call → call.owner ≠ address
  | .store address _ => ∀ task ∈ s.linked, task ≠ s.currentTask →
      address < (s.task task).kernelStackBase ∨ (s.task task).kernelStackTop ≤ address

/-- The effect of an action. -/
def act (s : SchedulerState) : SchedulerAction → Option (Except SchedulerPanic SchedulerState)
  | .tick sp => s.next sp
  | .spawn task stackBaseAddress entry owner isUser fixedUserStackPointer sp =>
    s.spawn task stackBaseAddress entry owner isUser fixedUserStackPointer sp
  | .spawnRetry stackBaseAddress =>
    (s.pending s.currentTask).map fun call => .ok (s.spawnRetry call stackBaseAddress)
  | .block processID sp => s.block processID sp
  | .wakeup processID => (s.wakeup processID).map .ok
  | .yieldTask ticks sp => s.yieldTask ticks sp
  | .terminate sp => s.terminate sp
  | .fault sp => s.fault sp
  | .collect sp => s.collect sp
  | .setProcess address process => some (.ok { s with process := Function.update s.process address process })
  | .store address value => some (.ok { s with memory := s.memory.setByte address value })

/-- One action is allowed and ends without a panic. -/
def Step (s : SchedulerState) (action : SchedulerAction) (s' : SchedulerState) : Prop :=
  s.Allowed action ∧ s.act action = some (.ok s')

end SchedulerState

/-! ## Section 6: The start -/

/-- What `OSSchedulerInitialize` finds: the kernel's page tables, the results of
its five allocations, the entries of its two tasks, and what memory holds. -/
structure SchedulerBoot where
  kernelProcess : Nat
  physicalPML4 : Nat
  bootStackTop : Nat
  kernelTask : Nat
  idleTask : Nat
  idleStack : Nat
  idleEntry : Nat
  collectorTask : Nat
  collectorStack : Nat
  collectorEntry : Nat
  process : Nat → TaskOwner
  memory : Memory

namespace SchedulerBoot

variable (boot : SchedulerBoot)

/-- `kernelTask` of `OSSchedulerInitialize`. -/
def kernelOSTask : OSTask :=
  { OSTask.zero with
    process := boot.kernelProcess
    next := boot.kernelTask
    taskState := .running
    waitingForProcess := -1 }

/-- The state when the kernel's own task is all there is. -/
def alone : SchedulerState where
  task := Function.update (fun _ => .zero) boot.kernelTask boot.kernelOSTask
  process := Function.update boot.process boot.kernelProcess ⟨0, boot.physicalPML4⟩
  kernelProcess := boot.kernelProcess
  currentTask := boot.kernelTask
  garbageCollectorTask := 0
  collector := ⟨.enter, 0, 0, 0⟩
  pending := fun _ => none
  live := [(boot.kernelTask, sizeofTask)]
  linked := [boot.kernelTask]
  freed := []
  memory := boot.memory
  cr3 := boot.physicalPML4
  rsp0 := 0
  kernelStackPointer := boot.bootStackTop

/-- With the idle task. -/
def withIdle : SchedulerState :=
  boot.alone.spawnTask boot.idleTask boot.idleStack boot.idleEntry boot.kernelProcess false 0

/-- `OSSchedulerInitialize` -/
def start : SchedulerState :=
  { boot.withIdle.spawnTask boot.collectorTask boot.collectorStack boot.collectorEntry
      boot.kernelProcess false 0 with
    garbageCollectorTask := boot.collectorTask }

/-- The allocations succeed. -/
structure Valid : Prop where
  kernelTask : boot.kernelTask ≠ 0
  idleTask : SchedulerState.FreshBlock boot.alone.live boot.idleTask sizeofTask
  idleStack : SchedulerState.FreshBlock ((boot.idleTask, sizeofTask) :: boot.alone.live)
    boot.idleStack stackSize
  collectorTask : SchedulerState.FreshBlock boot.withIdle.live boot.collectorTask sizeofTask
  collectorStack : SchedulerState.FreshBlock
    ((boot.collectorTask, sizeofTask) :: boot.withIdle.live) boot.collectorStack stackSize

end SchedulerBoot

end TermOS.OS
