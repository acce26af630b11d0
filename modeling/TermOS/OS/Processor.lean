import TermOS.Lib.PathCheck
import TermOS.Lib.Run
import TermOS.OS.KernelCode

/-!
# The processor

One processor runs the paths of `KernelCode`. It takes an interrupt at any
instruction at which IF is 1, and an interrupt leaves a frame on the stack of the
task it interrupts. `OSSchedulerNext` may choose any task that is not dead, which
covers whatever the ring would make it choose. The frame of a task that was
switched out is the last one on its stack.
-/

namespace TermOS.OS

open TermOS.Lib

/-! ## Section 1: The state -/

/-- Where a stack pointer points. -/
inductive Stack
  /-- Into the kernel stack of a task; task 0 is on the boot stack. -/
  | kernel (task : Nat)
  /-- To a stack of ring 3. -/
  | user
  /-- `gHALDoubleFaultStack`, which gates 8, 13 and 14 switch to. -/
  | interruptStack
  deriving DecidableEq, Repr

/-- What an interrupt leaves behind: the words the processor pushes, and the
part of the interrupted computation that stays on its stack. -/
structure Frame where
  /-- What RIP and the return addresses below stand for. -/
  code : List Instruction
  /-- `CS & 3` -/
  ring3 : Bool
  /-- IF in RFLAGS -/
  interruptsEnabled : Bool
  rsp : Stack
  /-- The `OSSpinlockState`s of the functions that hold locks. -/
  states : List Bool
  /-- IF in the R11 that `syscall_entry` pushed. -/
  userFlags : Bool
  /-- The stack that the frame itself is on. -/
  place : Stack
  deriving DecidableEq

structure Processor where
  /-- What the running computation still has to do in the kernel. -/
  code : List Instruction
  ring3 : Bool
  interruptsEnabled : Bool
  rsp : Stack
  states : List Bool
  userFlags : Bool
  /-- The GS base of the kernel is the active one. -/
  kernelGS : Bool
  /-- `gOSSchedulerCurrentTask` -/
  currentTask : Nat
  /-- Whose `kernelStackTop` is in `gOSBootCPU.kernelStackPointer` and in `rsp0` of the TSS. -/
  kernelStackPointer : Nat
  /-- The frames on the stack of each task, the last one first. -/
  frames : Nat → List Frame
  /-- Which tasks were started in ring 3. -/
  isUser : Nat → Bool
  dead : Nat → Bool
  /-- The number of tasks linked so far. -/
  taskCount : Nat
  lockValue : OSSpinlock → Bool
  /-- The number of characters in the keyboard's ring buffer. -/
  characters : Nat

/-- Task 0 after `OSSchedulerInitialize` has made it the current one. -/
def bootProcessor : Processor where
  code := []
  ring3 := false
  interruptsEnabled := false
  rsp := .kernel 0
  states := []
  userFlags := false
  kernelGS := true
  currentTask := 0
  kernelStackPointer := 0
  frames := fun _ => []
  isUser := fun _ => false
  dead := fun _ => false
  taskCount := 1
  lockValue := fun _ => false
  characters := 0

/-- The frame `OSSchedulerSpawn` builds for a new task. -/
def spawnedFrame (task : Nat) (isUser : Bool) : Frame where
  code := []
  ring3 := isUser
  interruptsEnabled := true
  rsp := if isUser then .user else .kernel task
  states := []
  userFlags := false
  place := .kernel task

/-- `kIOKeyboardBufferSize` -/
def kIOKeyboardBufferSize : Nat := 256

namespace Processor

/-! ## Section 2: One instruction -/

section Updates

variable (p : Processor)

/-- The running computation is suspended in a frame. -/
def frame (place : Stack) : Frame where
  code := p.code
  ring3 := p.ring3
  interruptsEnabled := p.interruptsEnabled
  rsp := p.rsp
  states := p.states
  userFlags := p.userFlags
  place := place

/-- A frame is pushed on the stack of the current task. -/
def pushFrame (f : Frame) : Nat → List Frame :=
  Function.update p.frames p.currentTask (f :: p.frames p.currentTask)

/-- An interrupt gate: IF is cleared, and from ring 3 the stack is the one of the TSS. -/
def enter (path : List Instruction) (place : Stack) : Processor :=
  { p with
    code := path
    ring3 := false
    interruptsEnabled := false
    rsp := place
    states := []
    frames := p.pushFrame (p.frame place) }

/-- The stack on which an interrupt gate without IST puts its frame. -/
def gateStack : Stack := if p.ring3 then .kernel p.kernelStackPointer else p.rsp

/-- `iretq` takes up the computation of a frame. -/
def resume (f : Frame) (rest : List Frame) : Processor :=
  { p with
    code := f.code
    ring3 := f.ring3
    interruptsEnabled := f.interruptsEnabled
    rsp := f.rsp
    states := f.states
    userFlags := f.userFlags
    frames := Function.update p.frames p.currentTask rest }

/-- A new task, with the frame it starts from. -/
def link (isUser : Bool) : Processor :=
  { p with
    frames := Function.update p.frames p.taskCount [spawnedFrame p.taskCount isUser]
    isUser := Function.update p.isUser p.taskCount isUser
    taskCount := p.taskCount + 1 }

/-- `OSSchedulerNext` makes another task the current one. -/
def switch (task : Nat) : Processor :=
  { p with
    currentTask := task
    kernelStackPointer := task }

end Updates

/-- What an instruction does; `p` is past it already. -/
def effect (p : Processor) : Instruction → Processor
  | .readFlags => { p with states := p.interruptsEnabled :: p.states }
  | .cli => { p with interruptsEnabled := false }
  | .sti => { p with interruptsEnabled := true }
  | .stiIfEnabled =>
    { p with
      interruptsEnabled := p.interruptsEnabled || p.states.headD false
      states := p.states.tail }
  | .exchange lock => { p with lockValue := Function.update p.lockValue lock true }
  | .store lock => { p with lockValue := Function.update p.lockValue lock false }
  | .takeCharacter => { p with characters := p.characters - 1 }
  | .putCharacter => { p with characters := p.characters + 1 }
  | .linkTask isUser => p.link isUser
  | .markDead => { p with dead := Function.update p.dead p.currentTask true }
  | .swapgs => { p with kernelGS := !p.kernelGS }
  | .swapgsIfUser =>
    match p.frames p.currentTask with
    | f :: _ => if f.ring3 then { p with kernelGS := !p.kernelGS } else p
    | [] => p
  | .loadKernelStack => { p with rsp := .kernel p.kernelStackPointer }
  | .popUserStack => { p with rsp := .user }
  -- the path through the kernel ends here
  | .sysret => { p with code := [], ring3 := true, interruptsEnabled := p.userFlags }
  | .loadStackPointer =>
    match p.frames p.currentTask with
    | f :: _ => { p with rsp := f.place }
    | [] => p
  | .iretq =>
    match p.frames p.currentTask with
    | f :: rest => p.resume f rest
    | [] => p
  | .other | .int32 | .int3 | .die | .keyboardEmpty | .switchTask => p

/-- The next instruction. A lock that is held is tried again, and `die` stays where it is. -/
def execute (p : Processor) : Processor :=
  match p.code with
  | [] => p
  | .die :: _ => { p with interruptsEnabled := false }
  | .exchange lock :: rest =>
    if p.lockValue lock then p else { p with code := rest }.effect (.exchange lock)
  | i :: rest => { p with code := rest }.effect i

section Execute

variable {p : Processor} {i : Instruction} {rest : List Instruction}

theorem execute_of_code (hcode : p.code = i :: rest) (hdie : i ≠ .die)
    (hlock : ∀ lock, i ≠ .exchange lock) : p.execute = { p with code := rest }.effect i := by
  unfold execute
  rw [hcode]
  cases i
  case die => exact absurd rfl hdie
  case exchange lock => exact absurd rfl (hlock lock)
  all_goals rfl

theorem execute_die (hcode : p.code = .die :: rest) :
    p.execute = { p with interruptsEnabled := false } := by
  unfold execute
  rw [hcode]

/-- Taking a lock that is free. -/
theorem execute_exchange {lock : OSSpinlock} (hcode : p.code = .exchange lock :: rest)
    (hfree : p.lockValue lock = false) :
    p.execute = { p with code := rest }.effect (.exchange lock) := by
  unfold execute
  rw [hcode]
  simp [hfree]

/-- `swapgs` or nothing. -/
theorem exists_effect_swapgsIfUser (p : Processor) :
    ∃ active, p.effect .swapgsIfUser = { p with kernelGS := active } := by
  unfold effect
  dsimp only
  split
  · split
    · exact ⟨_, rfl⟩
    · exact ⟨p.kernelGS, rfl⟩
  · exact ⟨p.kernelGS, rfl⟩

theorem exists_effect_loadStackPointer (p : Processor) :
    ∃ stack, p.effect .loadStackPointer = { p with rsp := stack } := by
  unfold effect
  dsimp only
  split
  · exact ⟨_, rfl⟩
  · exact ⟨p.rsp, rfl⟩

end Execute

/-! ## Section 3: Runs -/

/-- What can happen next. The path is the one the code that is entered will take. -/
inductive Event
  /-- The next instruction is executed. -/
  | execute
  /-- `OSSchedulerNext` decides for a task. -/
  | switch (task : Nat)
  /-- The timer (32) or the keyboard (33) interrupts. -/
  | interrupt (number : Nat) (path : List Instruction)
  /-- `int $32` is executed. -/
  | int32 (path : List Instruction)
  /-- `int3` is executed in the kernel. -/
  | int3 (path : List Instruction)
  /-- A user task traps: a breakpoint (3) or a fault. -/
  | exception (number : Nat) (path : List Instruction)
  /-- A fault in the kernel, which `OSPanicException` reports. -/
  | panic
  /-- A user task asks for a service. -/
  | syscall (id : Nat) (path : List Instruction)
  /-- A kernel thread calls a function. -/
  | call (path : List Instruction)

/-- The stack of the gate of an exception that a user task raises. -/
def exceptionStack (p : Processor) (number : Nat) : Stack :=
  if number = 8 ∨ number = 13 ∨ number = 14 then .interruptStack else p.gateStack

/-- There is a next instruction, and the path took the branch that the keyboard's
ring buffer asks for. -/
def canExecute (p : Processor) : Bool :=
  match p.code with
  | [] | .int32 :: _ | .int3 :: _ | .switchTask :: _ => false
  | .keyboardEmpty :: _ => p.characters = 0
  | .takeCharacter :: _ => p.characters ≠ 0
  | .putCharacter :: _ => p.characters + 1 < kIOKeyboardBufferSize
  | _ => true

open KernelCode in
/-- When an event can happen. -/
def Possible (p : Processor) : Event → Prop
  | .execute => p.canExecute = true
  | .switch task => p.code.head? = some .switchTask ∧ p.frames task ≠ [] ∧ p.dead task = false
  | .interrupt number path =>
    p.interruptsEnabled = true ∧ (number = 32 ∨ number = 33) ∧ path ∈ (irqHandler number).matches'
  | .int32 path => p.code.head? = some .int32 ∧ path ∈ (irqHandler 32).matches'
  | .int3 path => p.code.head? = some .int3 ∧ path ∈ (isrCommonStub 3).matches'
  | .exception number path => p.ring3 = true ∧ path ∈ (isrCommonStub number).matches'
  | .panic => p.ring3 = false
  | .syscall id path => p.ring3 = true ∧ path ∈ (syscallEntry id).matches'
  | .call path => p.ring3 = false ∧ p.code = [] ∧ path ∈ kernelCall.matches'

/-- The state after an event. -/
def after (p : Processor) : Event → Processor
  | .execute => p.execute
  | .switch task => { p with code := p.code.tail }.switch task
  | .interrupt _ path => p.enter path p.gateStack
  | .int32 path => { p with code := p.code.tail }.enter path p.gateStack
  | .int3 path => { p with code := p.code.tail }.enter path p.gateStack
  | .exception number path => p.enter path (p.exceptionStack number)
  -- what was running is not gone on with
  | .panic => { p with code := .die :: p.code, interruptsEnabled := false }
  -- IF is kept in R11, and IA32_FMASK clears it
  | .syscall _ path =>
    { p with code := path, ring3 := false, interruptsEnabled := false, userFlags := p.interruptsEnabled }
  | .call path => { p with code := path }

/-- The events lead from one state of the processor to another. -/
abbrev Runs : Processor → List Event → Processor → Prop := Run Possible after

/-! ## Section 4: Computed runs -/

/-- An event, with the choices that pick its path. -/
inductive Move
  | execute
  | switch (task : Nat)
  | interrupt (number : Nat) (choices : List Bool)
  | int32 (choices : List Bool)
  | syscall (id : Nat) (choices : List Bool)
  | call (choices : List Bool)

open KernelCode in
/-- The event of a move, where it is possible. -/
def event (p : Processor) : Move → Option Event
  | .execute => if p.canExecute then some .execute else none
  | .switch task =>
    if p.code.head? = some .switchTask ∧ p.frames task ≠ [] ∧ p.dead task = false then
      some (.switch task)
    else none
  | .interrupt number choices =>
    if p.interruptsEnabled = true ∧ (number = 32 ∨ number = 33) then
      (takePath (irqHandler number) choices).map fun path => .interrupt number path.1
    else none
  | .int32 choices =>
    if p.code.head? = some .int32 then
      (takePath (irqHandler 32) choices).map fun path => .int32 path.1
    else none
  | .syscall id choices =>
    if p.ring3 = true then
      (takePath (syscallEntry id) choices).map fun path => .syscall id path.1
    else none
  | .call choices =>
    if p.ring3 = false ∧ p.code = [] then
      (takePath kernelCall choices).map fun path => .call path.1
    else none

/-- Make the moves one after the other, as long as each event passes a test. -/
def perform (test : Processor → Event → Bool) : Processor → List Move → Option Processor
  | p, [] => some p
  | p, move :: moves =>
    (p.event move).bind fun event =>
      if test p event then perform test (p.after event) moves else none

theorem possible_of_event {p : Processor} {move : Move} {event : Event}
    (h : p.event move = some event) : p.Possible event := by
  unfold Processor.event at h
  split at h
  all_goals
    split at h
    · first
      | cases h; assumption
      | obtain ⟨⟨path, left⟩, hpath, heq⟩ := Option.map_eq_some_iff.mp h
        cases heq
        simp_all [Possible, mem_of_takePath hpath]
    · cases h

/-- What the moves lead to is reached by a run of events that pass the test. -/
theorem exists_run_of_perform {test : Processor → Event → Bool} {p q : Processor}
    {moves : List Move} (h : perform test p moves = some q) :
    ∃ events, Run (fun p event => p.Possible event ∧ test p event = true) after p events q := by
  induction moves generalizing p with
  | nil =>
    cases h
    exact ⟨[], .nil _⟩
  | cons move moves ih =>
    obtain ⟨event, hevent, hrest⟩ := Option.bind_eq_some_iff.mp h
    obtain ⟨htest, hrest⟩ := Option.ite_none_right_eq_some.mp hrest
    obtain ⟨events, hrun⟩ := ih hrest
    exact ⟨event :: events, .cons ⟨possible_of_event hevent, htest⟩ hrun⟩

theorem exists_runs_of_perform {p q : Processor} {moves : List Move}
    (h : perform (fun _ _ => true) p moves = some q) : ∃ events, Runs p events q := by
  obtain ⟨events, hrun⟩ := exists_run_of_perform h
  exact ⟨events, hrun.weaken fun _ _ hok => hok.1⟩

end Processor

end TermOS.OS
