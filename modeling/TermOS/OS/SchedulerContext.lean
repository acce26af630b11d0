import TermOS.OS.SchedulerFreed

/-!
# Context switches

A task is resumed with the stack pointer it was suspended with, or, if it has
never run, with the frame that `OSSchedulerSpawn` built, from which the exit of
`irq0` loads the registers the task starts with. What was written down for each
task is kept beside the state; the code does not see it.
-/

namespace TermOS.OS

open TermOS.Lib SchedulerState

/-! ## Section 1: The frame on the stack -/

theorem pushWords_rsp (m : Memory) (rsp : Nat) (values : List Nat) :
    (pushWords m rsp values).2 = rsp - 8 * values.length := by
  induction values generalizing m rsp with
  | nil => rfl
  | cons value values ih =>
    rw [pushWords, ih, List.length_cons]
    omega

/-- Pushing changes the pushed words only. -/
theorem pushWords_outside (m : Memory) {rsp : Nat} {values : List Nat} {x : Nat}
    (h : x < rsp - 8 * values.length ∨ rsp ≤ x) (hrsp : 8 * values.length ≤ rsp) :
    (pushWords m rsp values).1 x = m x := by
  induction values generalizing m rsp with
  | nil => rfl
  | cons value values ih =>
    rw [List.length_cons] at h hrsp
    rw [pushWords, ih _ (by omega) (by omega)]
    exact Memory.writeLE_outside m value (by omega)

/-- The words on the stack, from the last one that was pushed on. -/
theorem pushWords_word (m : Memory) {rsp : Nat} {values : List Nat} {j : Nat}
    (hj : j < values.length) (hrsp : 8 * values.length ≤ rsp) :
    (pushWords m rsp values).1.word (rsp - 8 * values.length + 8 * j) =
      values.getD (values.length - 1 - j) 0 % 2 ^ 64 := by
  induction values generalizing m rsp with
  | nil => simp at hj
  | cons value values ih =>
    rw [List.length_cons] at hj hrsp ⊢
    rw [pushWords]
    by_cases hlast : j = values.length
    · have hplace : rsp - 8 * (values.length + 1) + 8 * j = rsp - 8 := by omega
      have hindex : values.length + 1 - 1 - j = 0 := by omega
      rw [hplace, hindex, List.getD_cons_zero]
      -- the pushes that follow leave the first word alone
      have hkeep : (pushWords (m.setWord (rsp - 8) value) (rsp - 8) values).1.word (rsp - 8) =
          (m.setWord (rsp - 8) value).word (rsp - 8) := by
        apply Memory.readLE_congr
        intro x hx _
        exact pushWords_outside _ (by omega) (by omega)
      rw [hkeep, Memory.word_setWord]
    · have hplace : rsp - 8 * (values.length + 1) + 8 * j =
          rsp - 8 - 8 * values.length + 8 * j := by omega
      have hindex : values.length + 1 - 1 - j = values.length - 1 - j + 1 := by omega
      rw [hplace, hindex, List.getD_cons_succ, ih _ (by omega) (by omega)]

/-- The registers with which the exit of `irq0` goes on, and whether it executes
`swapgs` before. -/
structure InterruptReturn where
  swapped : Bool
  rax : Nat
  rbx : Nat
  rcx : Nat
  rdx : Nat
  rsi : Nat
  rdi : Nat
  rbp : Nat
  r8 : Nat
  r9 : Nat
  r10 : Nat
  r11 : Nat
  r12 : Nat
  r13 : Nat
  r14 : Nat
  r15 : Nat
  rip : Nat
  cs : Nat
  rflags : Nat
  rsp : Nat
  ss : Nat
  deriving DecidableEq

/-- The exit of `IRQ_HANDLER` with the words of the frame, from the stack
pointer on: the test of the saved `CS`, `POPALL`, `add rsp, 16` and `iretq`. -/
def InterruptReturn.ofFrame (word : Nat → Nat) : InterruptReturn where
  -- test qword [rsp + 144], 3
  swapped := word 18 &&& 3 ≠ 0
  rax := word 0
  rbx := word 1
  rcx := word 2
  rdx := word 3
  rsi := word 4
  rdi := word 5
  rbp := word 6
  r8 := word 7
  r9 := word 8
  r10 := word 9
  r11 := word 10
  r12 := word 11
  r13 := word 12
  r14 := word 13
  r15 := word 14
  -- the interrupt number and the error code are skipped
  rip := word 17
  cs := word 18
  rflags := word 19
  rsp := word 20
  ss := word 21

/-- What `irq0` goes on with after `mov rsp, rax`. -/
def irqExit (m : Memory) (rsp : Nat) : InterruptReturn := .ofFrame fun j => m.word (rsp + 8 * j)

/-- The size of the frame that the exit of `irq0` pops. -/
def frameSize : Nat := 176

theorem InterruptReturn.ofFrame_congr {word word' : Nat → Nat} (h : ∀ j, j < 22 → word' j = word j) :
    ofFrame word' = ofFrame word := by
  simp only [ofFrame, h 0 (by decide), h 1 (by decide), h 2 (by decide), h 3 (by decide),
    h 4 (by decide), h 5 (by decide), h 6 (by decide), h 7 (by decide), h 8 (by decide),
    h 9 (by decide), h 10 (by decide), h 11 (by decide), h 12 (by decide), h 13 (by decide),
    h 14 (by decide), h 17 (by decide), h 18 (by decide), h 19 (by decide), h 20 (by decide),
    h 21 (by decide)]

theorem irqExit_congr {m m' : Memory} {rsp : Nat}
    (h : ∀ x, rsp ≤ x → x < rsp + frameSize → m' x = m x) : irqExit m' rsp = irqExit m rsp := by
  apply InterruptReturn.ofFrame_congr
  intro j hj
  apply Memory.readLE_congr
  intro x hx₁ hx₂
  apply h x
  · omega
  · rw [frameSize]
    omega

/-- The registers with which a task starts. -/
def InterruptReturn.start (entry targetStackPointer : Nat) (isUser : Bool) : InterruptReturn where
  swapped := isUser
  rax := 0
  rbx := 0
  rcx := 0
  rdx := 0
  rsi := 0
  rdi := 0
  rbp := 0
  r8 := 0
  r9 := 0
  r10 := 0
  r11 := 0
  r12 := 0
  r13 := 0
  r14 := 0
  r15 := 0
  rip := entry % 2 ^ 64
  cs := if isUser then 0x23 else 0x08
  rflags := 0x202
  rsp := targetStackPointer % 2 ^ 64
  ss := if isUser then 0x1b else 0x10

theorem spawnFrame_length (entry targetStackPointer : Nat) (isUser : Bool) :
    (spawnFrame entry targetStackPointer isUser).length = 22 := by
  simp [spawnFrame]

/-- The frame that `OSSchedulerSpawn` builds fits the order in which the exit of
`irq0` pops. -/
theorem irqExit_spawnFrame (m : Memory) {rsp : Nat} (hrsp : frameSize ≤ rsp)
    (entry targetStackPointer : Nat) (isUser : Bool) :
    irqExit (pushWords m rsp (spawnFrame entry targetStackPointer isUser)).1 (rsp - frameSize) =
      .start entry targetStackPointer isUser := by
  rw [frameSize] at hrsp ⊢
  have hwords : irqExit (pushWords m rsp (spawnFrame entry targetStackPointer isUser)).1 (rsp - 176) =
      .ofFrame fun j => (spawnFrame entry targetStackPointer isUser).getD (21 - j) 0 % 2 ^ 64 := by
    apply InterruptReturn.ofFrame_congr
    intro j hj
    have hword := @pushWords_word m rsp (spawnFrame entry targetStackPointer isUser) j
      (by rw [spawnFrame_length]; exact hj) (by rw [spawnFrame_length]; omega)
    rw [spawnFrame_length] at hword
    exact hword
  rw [hwords]
  cases isUser with
  | false => simp [InterruptReturn.ofFrame, InterruptReturn.start, spawnFrame]
  | true => simp [InterruptReturn.ofFrame, InterruptReturn.start, spawnFrame]

/-! ## Section 2: What each task goes on with -/

/-- What a task goes on with when it is resumed. -/
inductive TaskContext
  /-- The stack pointer that `OSSchedulerNext` was called with last in this task. -/
  | suspended (stackPointer : Nat)
  /-- The frame that `OSSchedulerSpawn` has built; the task has never run. -/
  | built (entry targetStackPointer : Nat) (isUser : Bool)
  deriving DecidableEq

/-- For each task structure, what was written down for it last. -/
abbrev History := Nat → Option TaskContext

/-- The context is what a resumption with this stack pointer leads to. -/
def TaskContext.Resumes (memory : Memory) (stackPointer : Nat) : TaskContext → Prop
  | .suspended saved => stackPointer = saved
  | .built entry targetStackPointer isUser =>
    irqExit memory stackPointer = .start entry targetStackPointer isUser

namespace SchedulerState

variable (s : SchedulerState)

/-- The stack pointer with which an action calls `OSSchedulerNext`, if it does. -/
def suspends : SchedulerAction → Option Nat
  | .tick sp => some sp
  | .spawn task stackBaseAddress _ _ _ _ sp =>
    if task ≠ 0 ∧ stackBaseAddress = 0 then some sp else none
  | .block _ sp => some sp
  | .yieldTask _ sp => some sp
  | .terminate sp => some sp
  | .fault sp => some sp
  | .collect sp => if s.collector.point = .yieldSwitch then some sp else none
  | .spawnRetry _ | .wakeup _ | .setProcess _ _ | .store _ _ => none

/-- The task that an action links in, and the frame on its stack. -/
def builds : SchedulerAction → Option (Nat × TaskContext)
  | .spawn task stackBaseAddress entry _ isUser fixedUserStackPointer _ =>
    if task ≠ 0 ∧ stackBaseAddress ≠ 0 then
      some (task, .built entry
        (if isUser then fixedUserStackPointer else stackBaseAddress + stackSize) isUser)
    else none
  | .spawnRetry stackBaseAddress =>
    if stackBaseAddress ≠ 0 then
      (s.pending s.currentTask).map fun call => (call.task, .built call.entry
        (if call.isUser then call.fixedUserStackPointer else stackBaseAddress + stackSize) call.isUser)
    else none
  | _ => none

/-- Write down what an action suspends or builds. -/
def record (history : History) (action : SchedulerAction) : History :=
  match s.suspends action with
  | some sp => Function.update history s.currentTask (some (.suspended sp))
  | none =>
    match s.builds action with
    | some (task, context) => Function.update history task (some context)
    | none => history

/-- The page tables of a task's process. -/
def pml4Of (t : Nat) : Nat := (s.process (s.task t).process).physicalPML4

end SchedulerState

/-- What is written down at the start. -/
def SchedulerBoot.history (boot : SchedulerBoot) : History :=
  Function.update (Function.update (fun _ => none)
    boot.idleTask (some (.built boot.idleEntry (boot.idleStack + stackSize) false)))
    boot.collectorTask (some (.built boot.collectorEntry (boot.collectorStack + stackSize) false))

/-- A step, with what is written down. -/
def RecordedStep (now : SchedulerState × History) (action : SchedulerAction)
    (later : SchedulerState × History) : Prop :=
  now.1.Step action later.1 ∧ later.2 = now.1.record now.2 action

/-! ## Section 3: The invariant -/

/-- A change keeps what the scheduler needs to resume a task. -/
structure OSTask.SameContext (old new : OSTask) : Prop where
  stackPointer : new.stackPointer = old.stackPointer
  kernelStackBase : new.kernelStackBase = old.kernelStackBase
  kernelStackTop : new.kernelStackTop = old.kernelStackTop
  process : new.process = old.process

namespace OSTask.SameContext

theorem refl (task : OSTask) : task.SameContext task := ⟨rfl, rfl, rfl, rfl⟩

theorem trans {old new newer : OSTask} (h : old.SameContext new) (h' : new.SameContext newer) :
    old.SameContext newer :=
  ⟨h'.stackPointer.trans h.stackPointer, h'.kernelStackBase.trans h.kernelStackBase,
    h'.kernelStackTop.trans h.kernelStackTop, h'.process.trans h.process⟩

end OSTask.SameContext

namespace SchedulerState

variable (s : SchedulerState)

/-- A task that is not running can be resumed. -/
def Resumable (t : Nat) : Option TaskContext → Prop
  | some (.suspended saved) => (s.task t).stackPointer = saved
  | some (.built entry targetStackPointer isUser) =>
    (s.task t).kernelStackBase ≠ 0 ∧
      (s.task t).stackPointer = (s.task t).kernelStackBase + stackSize - frameSize ∧
      irqExit s.memory (s.task t).stackPointer = .start entry targetStackPointer isUser
  | none => False

/-- What holds of the contexts between two actions. -/
structure Recorded (history : History) (ring : List Nat) : Prop where
  cr3 : s.cr3 = s.pml4Of s.currentTask
  kernelStackTop : ∀ t ∈ ring, (s.task t).kernelStackBase ≠ 0 →
    (s.task t).kernelStackTop = (s.task t).kernelStackBase + stackSize
  resumable : ∀ t ∈ ring, t ≠ s.currentTask → s.Resumable t (history t)

variable {s} {s' : SchedulerState} {history : History} {ring ring' : List Nat} {sp t : Nat}

/-- A task stays resumable while its context and its stack are left alone. -/
theorem Resumable.keep {context : Option TaskContext} (h : s.Resumable t context)
    (hsame : (s.task t).SameContext (s'.task t))
    (hmemory : (s.task t).kernelStackBase ≠ 0 → ∀ x, (s.task t).kernelStackBase ≤ x →
      x < (s.task t).kernelStackBase + stackSize → s'.memory x = s.memory x) :
    s'.Resumable t context := by
  cases context with
  | none => exact h
  | some context =>
    cases context with
    | suspended saved => exact hsame.stackPointer.trans h
    | built entry targetStackPointer isUser =>
      obtain ⟨hbase, hrsp, hframe⟩ := h
      rw [Resumable, hsame.kernelStackBase, hsame.stackPointer]
      refine ⟨hbase, hrsp, ?_⟩
      rw [irqExit_congr, hframe]
      intro x hx₁ hx₂
      have hsize : frameSize ≤ stackSize := by decide
      exact hmemory hbase x (by omega) (by omega)

theorem Resumable.resumes {context : Option TaskContext} (h : s.Resumable t context) :
    ∃ found, context = some found ∧ found.Resumes s.memory (s.task t).stackPointer := by
  cases context with
  | none => exact h.elim
  | some context =>
    cases context with
    | suspended saved => exact ⟨_, rfl, h⟩
    | built entry targetStackPointer isUser => exact ⟨_, rfl, h.2.2⟩

/-- A step that leaves all contexts alone; tasks may leave the ring. -/
theorem Recorded.keep (h : s.Recorded history ring)
    (hsame : ∀ t ∈ ring, (s.task t).SameContext (s'.task t)) (hcurrentMem : s.currentTask ∈ ring)
    (hcurrent : s'.currentTask = s.currentTask) (hmemory : s'.memory = s.memory)
    (hprocess : s'.process = s.process) (hcr3 : s'.cr3 = s.cr3) (hring : ∀ t ∈ ring', t ∈ ring) :
    s'.Recorded history ring' where
  cr3 := by
    rw [hcr3, h.cr3, hcurrent, pml4Of, pml4Of, hprocess, (hsame _ hcurrentMem).process]
  kernelStackTop t ht hbase := by
    rw [(hsame t (hring t ht)).kernelStackBase] at hbase ⊢
    rw [(hsame t (hring t ht)).kernelStackTop]
    exact h.kernelStackTop t (hring t ht) hbase
  resumable t ht hne := by
    rw [hcurrent] at hne
    refine (h.resumable t (hring t ht) hne).keep (hsame t (hring t ht)) fun _ x _ _ => ?_
    rw [hmemory]

/-- What `OSSchedulerNext` resumes is what was written down, and the registers
are those of the resumed task. -/
theorem Recorded.resumes (h : s.Recorded history ring) (hswitch : Switched s sp s')
    (hmem : s'.currentTask ∈ ring) :
    (∃ found, Function.update history s.currentTask (some (.suspended sp)) s'.currentTask = some found ∧
      found.Resumes s'.memory (s'.task s'.currentTask).stackPointer) ∧
    s'.cr3 = s'.pml4Of s'.currentTask ∧
    s'.rsp0 = (s'.task s'.currentTask).kernelStackTop ∧
    s'.kernelStackPointer = (s'.task s'.currentTask).kernelStackTop := by
  have htask := hswitch.task_eq
  have hmemory : s'.memory = s.memory := by rw [hswitch.rest]
  have hprocess : s'.process = s.process := by rw [hswitch.rest]
  refine ⟨?_, ?_, ?_, ?_⟩
  · by_cases hsame : s'.currentTask = s.currentTask
    · refine ⟨.suspended sp, ?_, ?_⟩
      · rw [hsame, Function.update_self]
      · rw [TaskContext.Resumes, htask, if_pos hsame]
    · obtain ⟨found, hfound, hresumes⟩ := (h.resumable _ hmem hsame).resumes
      refine ⟨found, ?_, ?_⟩
      · rw [Function.update_of_ne hsame, hfound]
      · rw [hmemory, htask, if_neg hsame]
        exact hresumes
  · -- `VMLoadCR3` is only skipped when the page tables are the same
    rw [hswitch.cr3, pml4Of, hprocess, htask]
    split
    · rfl
    · rename_i heq
      rw [not_not] at heq
      rw [h.cr3, pml4Of, heq]
  · rw [hswitch.rsp0, htask]
  · rw [hswitch.kernelStackPointer, htask]

theorem Recorded.switched (h : s.Recorded history ring) (hswitch : Switched s sp s')
    (hmem : s'.currentTask ∈ ring) :
    s'.Recorded (Function.update history s.currentTask (some (.suspended sp))) ring := by
  have htask := hswitch.task_eq
  have hmemory : s'.memory = s.memory := by rw [hswitch.rest]
  refine ⟨(h.resumes hswitch hmem).2.1, ?_, ?_⟩
  · intro t ht hbase
    rw [htask t] at hbase ⊢
    exact h.kernelStackTop t ht hbase
  · intro t ht hne
    by_cases hold : t = s.currentTask
    · rw [hold, Function.update_self]
      show (s'.task s.currentTask).stackPointer = sp
      rw [htask, if_pos rfl]
    · rw [Function.update_of_ne hold]
      refine (h.resumable t ht hold).keep ?_ fun _ x _ _ => by rw [hmemory]
      rw [htask t, if_neg hold]
      exact ⟨rfl, rfl, rfl, rfl⟩

/-! ## Section 4: Every action -/

theorem sameContext_setTask {a : Nat} {value : OSTask} (h : (s.task a).SameContext value) (t : Nat) :
    (s.task t).SameContext ((s.setTask a value).task t) := by
  by_cases ht : t = a
  · rw [ht, setTask_same]
    exact h
  · rw [setTask_ne _ _ ht]
    exact .refl _

/-- The list of tasks and what is needed to resume each have not changed. -/
structure SameContexts (s s' : SchedulerState) : Prop where
  task : ∀ t, (s.task t).SameContext (s'.task t)
  successor : successor s'.task = successor s.task
  currentTask : s'.currentTask = s.currentTask
  memory : s'.memory = s.memory
  process : s'.process = s.process
  cr3 : s'.cr3 = s.cr3

namespace SameContexts

theorem refl (s : SchedulerState) : SameContexts s s := ⟨fun _ => .refl _, rfl, rfl, rfl, rfl, rfl⟩

theorem trans {s'' : SchedulerState} (h : SameContexts s s') (h' : SameContexts s' s'') :
    SameContexts s s'' where
  task t := (h.task t).trans (h'.task t)
  successor := h'.successor.trans h.successor
  currentTask := h'.currentTask.trans h.currentTask
  memory := h'.memory.trans h.memory
  process := h'.process.trans h.process
  cr3 := h'.cr3.trans h.cr3

theorem setTask {a : Nat} {value : OSTask} (h : (s.task a).SameContext value)
    (hnext : value.next = (s.task a).next) : SameContexts s (s.setTask a value) :=
  ⟨sameContext_setTask h, successor_update_same hnext, rfl, rfl, rfl, rfl⟩

theorem setGarbageCollector (s : SchedulerState) (t : Nat) :
    SameContexts s (s.setGarbageCollector t) :=
  ⟨fun _ => .refl _, rfl, rfl, rfl, rfl, rfl⟩

theorem setState (s : SchedulerState) (state : OSProcessState) :
    SameContexts s (s.setCurrentState state) := by
  rw [setCurrentState]
  exact .setTask ⟨rfl, rfl, rfl, rfl⟩ rfl

theorem signal (s : SchedulerState) : SameContexts s s.postGarbageCollectorSignal := by
  rw [postGarbageCollectorSignal]
  split
  · exact .refl s
  · exact .setTask ⟨rfl, rfl, rfl, rfl⟩ rfl

theorem awakened {processID : UInt32} (h : s.wakeup processID = some s') : SameContexts s s' := by
  obtain ⟨hrest, hawake, -⟩ := wakeup_awakened h
  have hsame : ∀ t, (s.task t).SameContext (s'.task t) := by
    intro t
    rcases hawake.cases t with heq | ⟨-, -, heq⟩
    · rw [heq]
      exact .refl _
    · rw [heq]
      exact ⟨rfl, rfl, rfl, rfl⟩
  rw [hrest]
  exact ⟨hsame, hawake.successor_eq, rfl, rfl, rfl, rfl⟩

theorem recorded (h : SameContexts s s') (hrecorded : s.Recorded history ring)
    (hmem : s.currentTask ∈ ring) : s'.Recorded history ring :=
  hrecorded.keep (fun t _ => h.task t) hmem h.currentTask h.memory h.process h.cr3 fun _ ht => ht

end SameContexts

/-- An action that calls `OSSchedulerNext` does so at its end, after changes to
other fields. -/
theorem switch_of_act {action : SchedulerAction} (hact : s.act action = some (.ok s'))
    (hsuspends : s.suspends action = some sp) : ∃ s₁, SameContexts s s₁ ∧ Switched s₁ sp s' := by
  -- By the action; what happens before the call of `OSSchedulerNext` touches no context.
  cases action with
  | tick sp =>
    cases hsuspends
    exact ⟨s, .refl s, next_switched hact⟩
  | spawn task stackBaseAddress entry owner isUser fixedUserStackPointer sp =>
    rw [suspends] at hsuspends
    split at hsuspends
    -- Only a spawn that finds no stack gives up the processor.
    · rename_i hfails
      cases hsuspends
      rw [act, SchedulerState.spawn, if_neg hfails.1, if_pos hfails.2] at hact
      simp only [SchedulerState.yieldTask] at hact
      refine ⟨_, ?_, next_switched hact⟩
      refine .trans ?_ (.setTask ⟨rfl, rfl, rfl, rfl⟩ rfl)
      refine .trans ?_ (.signal _)
      exact ⟨fun _ => .refl _, rfl, rfl, rfl, rfl, rfl⟩
    · cases hsuspends
  | spawnRetry stackBaseAddress => cases hsuspends
  | block processID sp =>
    cases hsuspends
    rw [act, SchedulerState.block] at hact
    refine ⟨_, ?_, next_switched hact⟩
    exact .setTask ⟨rfl, rfl, rfl, rfl⟩ rfl
  | wakeup processID => cases hsuspends
  | yieldTask ticks sp =>
    cases hsuspends
    rw [act, SchedulerState.yieldTask] at hact
    refine ⟨_, ?_, next_switched hact⟩
    exact .setTask ⟨rfl, rfl, rfl, rfl⟩ rfl
  | terminate sp =>
    cases hsuspends
    rw [act, SchedulerState.terminate, Option.bind_eq_some_iff] at hact
    obtain ⟨woken, hwakeup, hnext⟩ := hact
    refine ⟨_, ?_, next_switched hnext⟩
    exact ((SameContexts.setState s .dead).trans (.awakened hwakeup)).trans (.signal woken)
  | fault sp =>
    cases hsuspends
    rw [act, SchedulerState.fault, SchedulerState.terminate, Option.bind_eq_some_iff] at hact
    obtain ⟨woken, hwakeup, hnext⟩ := hact
    refine ⟨_, ?_, next_switched hnext⟩
    have hdead := (SameContexts.setState s .dead).trans
      (SameContexts.setState (s.setCurrentState .dead) .dead)
    exact (hdead.trans (.awakened hwakeup)).trans (.signal woken)
  | collect sp =>
    rw [suspends] at hsuspends
    split at hsuspends
    -- The collector yields at one point of its round.
    · rename_i hpoint
      cases hsuspends
      rw [act, SchedulerState.collect] at hact
      simp only [hpoint] at hact
      refine ⟨_, ?_, next_switched hact⟩
      exact ⟨fun _ => .refl _, rfl, rfl, rfl, rfl, rfl⟩
    · cases hsuspends
  | setProcess address process => cases hsuspends
  | store address value => cases hsuspends

/-- `OSSchedulerSpawn` leaves the contexts of the other tasks alone and writes
the frame of the new one on its own stack. -/
theorem Recorded.link (h : s.Recorded history ring)
    {task stackBaseAddress entry owner fixedUserStackPointer : Nat} {isUser : Bool}
    (hcurrent : s.currentTask ∈ ring) (htask : task ∉ ring) (hzero : stackBaseAddress ≠ 0)
    (hdisjoint : ∀ t ∈ ring, (s.task t).kernelStackBase ≠ 0 →
      stackBaseAddress + stackSize ≤ (s.task t).kernelStackBase ∨
        (s.task t).kernelStackBase + stackSize ≤ stackBaseAddress) :
    (s.linkTask task stackBaseAddress entry owner isUser fixedUserStackPointer).Recorded
      (Function.update history task (some (.built entry
        (if isUser then fixedUserStackPointer else stackBaseAddress + stackSize) isUser)))
      (Links.insertAfter s.currentTask task ring) := by
  have hne : task ≠ s.currentTask := fun heq => htask (heq ▸ hcurrent)
  have hsize : frameSize ≤ stackSize := by decide
  generalize htarget : (if isUser then fixedUserStackPointer else stackBaseAddress + stackSize) =
    targetStackPointer
  have hmemory : (s.linkTask task stackBaseAddress entry owner isUser
      fixedUserStackPointer).memory = (pushWords s.memory (stackBaseAddress + stackSize)
        (spawnFrame entry targetStackPointer isUser)).1 := by
    rw [← htarget, linkTask]
  have hnew : (s.linkTask task stackBaseAddress entry owner isUser fixedUserStackPointer).task task =
      s.spawnedTask stackBaseAddress (stackBaseAddress + stackSize - frameSize) owner := by
    -- The stack pointer of the new task is below the whole frame that was pushed.
    have hframe : 8 * 22 = frameSize := rfl
    rw [linkTask_new hne, pushWords_rsp, spawnFrame_length, hframe]
  -- The old tasks keep the fields that their contexts are in.
  have hold : ∀ t ∈ ring, (s.task t).SameContext
      ((s.linkTask task stackBaseAddress entry owner isUser fixedUserStackPointer).task t) := by
    intro t ht
    rw [linkTask_old hne fun heq => htask (heq ▸ ht)]
    exact ⟨rfl, rfl, rfl, rfl⟩
  constructor
  · show s.cr3 = (s.process ((s.linkTask task stackBaseAddress entry owner isUser
      fixedUserStackPointer).task s.currentTask).process).physicalPML4
    rw [(hold _ hcurrent).process]
    exact h.cr3
  · intro t ht
    rcases Links.mem_insertAfter.mp ht with hin | ⟨-, rfl⟩
    · rw [(hold t hin).kernelStackBase, (hold t hin).kernelStackTop]
      exact h.kernelStackTop t hin
    · rw [hnew]
      exact fun _ => rfl
  · intro t ht htne
    rcases Links.mem_insertAfter.mp ht with hin | ⟨-, rfl⟩
    -- An old stack is apart from the new one, so the frame on it is not overwritten.
    · have hother : t ≠ task := fun heq => htask (heq ▸ hin)
      rw [Function.update_of_ne hother]
      refine (h.resumable t hin htne).keep (hold t hin) fun hbase x hx₁ hx₂ => ?_
      have hapart := hdisjoint t hin hbase
      rw [hmemory]
      apply pushWords_outside
      · rw [spawnFrame_length]
        rw [frameSize] at hsize
        omega
      · rw [spawnFrame_length]
        rw [frameSize] at hsize
        omega
    -- The new task resumes with the frame that was just built.
    · rw [Function.update_self]
      refine ⟨?_, ?_, ?_⟩
      · rw [hnew]
        exact hzero
      · rw [hnew]
        rfl
      · rw [hnew, hmemory]
        exact irqExit_spawnFrame s.memory (by omega) entry targetStackPointer isUser

/-- Stacks of the ring are live blocks, which a new block does not overlap. -/
theorem Sound.stack_apart (h : s.Sound ring) {address : Nat}
    (hfresh : FreshBlock s.live address stackSize) : ∀ t ∈ ring, (s.task t).kernelStackBase ≠ 0 →
      address + stackSize ≤ (s.task t).kernelStackBase ∨
        (s.task t).kernelStackBase + stackSize ≤ address := by
  intro t ht hbase
  apply hfresh.2 (_, stackSize)
  exact h.memory.live (.stackOf (h.mem_linked t ht) hbase (h.not_stackFreed ht))

/-- A byte written outside the stacks of other tasks. -/
theorem Recorded.store (h : s.Recorded history ring) (hs : s.Sound ring) {address : Nat}
    (hallowed : ∀ task ∈ s.linked, task ≠ s.currentTask →
      address < (s.task task).kernelStackBase ∨ (s.task task).kernelStackTop ≤ address)
    (value : UInt8) : { s with memory := s.memory.setByte address value }.Recorded history ring where
  cr3 := h.cr3
  kernelStackTop := h.kernelStackTop
  resumable t ht hne := by
    refine (h.resumable t ht hne).keep (.refl _) fun hbase x hx₁ hx₂ => ?_
    have hoff := hallowed t (hs.mem_linked t ht) hne
    rw [h.kernelStackTop t ht hbase] at hoff
    apply Memory.setByte_ne
    omega

/-- A process is filled in that no task uses. -/
theorem Recorded.setProcess (h : s.Recorded history ring) {address : Nat} {process : TaskOwner}
    (hunused : (s.task s.currentTask).process ≠ address) :
    { s with process := Function.update s.process address process }.Recorded history ring where
  cr3 := by
    show s.cr3 = (Function.update s.process address process
      (s.task s.currentTask).process).physicalPML4
    rw [Function.update_of_ne hunused]
    exact h.cr3
  kernelStackTop := h.kernelStackTop
  resumable t ht hne := (h.resumable t ht hne).keep (.refl _) fun _ _ _ _ => rfl

/-- A statement of the collector that does not call `OSSchedulerNext`. -/
theorem Recorded.collect (h : s.Recorded history ring) (hcurrent : s.currentTask ∈ ring)
    (hcollect : s.collect sp = some (.ok s')) (hpoint : s.collector.point ≠ .yieldSwitch)
    (hring : ∀ t ∈ ring', t ∈ ring) : s'.Recorded history ring' := by
  have hkeep : (∀ t, (s.task t).SameContext (s'.task t)) ∧ s'.currentTask = s.currentTask ∧
      s'.memory = s.memory ∧ s'.process = s.process ∧ s'.cr3 = s.cr3 := by
    cases collected hcollect with
    | move collector => exact ⟨fun _ => .refl _, rfl, rfl, rfl, rfl⟩
    | unlink collector =>
      refine ⟨fun t => ?_, rfl, rfl, rfl, rfl⟩
      show (s.task t).SameContext (s.unlinkNext.task t)
      rw [unlinkNext_task]
      exact ⟨rfl, rfl, rfl, rfl⟩
    | freeStack collector => exact ⟨fun _ => .refl _, rfl, rfl, rfl, rfl⟩
    | freeTask collector => exact ⟨fun _ => .refl _, rfl, rfl, rfl, rfl⟩
    | yieldTicks collector =>
      refine ⟨sameContext_setTask ?_, rfl, rfl, rfl, rfl⟩
      exact ⟨rfl, rfl, rfl, rfl⟩
    | yieldState collector =>
      refine ⟨sameContext_setTask ?_, rfl, rfl, rfl, rfl⟩
      exact ⟨rfl, rfl, rfl, rfl⟩
    | yieldSwitch hat hnext => exact absurd hat hpoint
  obtain ⟨htask, hsame, hmemory, hprocess, hcr3⟩ := hkeep
  exact h.keep (fun t _ => htask t) hcurrent hsame hmemory hprocess hcr3 hring

theorem Recorded.mono (h : s.Recorded history ring) (hring : ∀ t ∈ ring', t ∈ ring) :
    s.Recorded history ring' :=
  ⟨h.cr3, fun t ht => h.kernelStackTop t (hring t ht), fun t ht => h.resumable t (hring t ht)⟩

/-- A step without changes to any context. -/
theorem Recorded.same (h : s.Recorded history ring) (hs : s.Sound ring) (hsame : SameContexts s s')
    (hs' : s'.Sound ring') : s'.Recorded history ring' := by
  refine (hsame.recorded h hs.current_mem).mono ?_
  have hlinks := hs'.links
  rw [hsame.successor] at hlinks
  apply hs.links.cycle_subset hlinks hs.current_mem
  rw [← hsame.currentTask]
  exact hs'.current_mem

/-- The task that an action resumes is on the ring. -/
theorem Sound.resumed_mem (hs : s.Sound ring) {s₁ : SchedulerState} (hsame : SameContexts s s₁)
    (hswitch : Switched s₁ sp s') : s'.currentTask ∈ ring := by
  obtain ⟨passed, hpassed⟩ := hswitch.reached
  rw [hsame.successor, hsame.currentTask] at hpassed
  exact hs.links.reached_mem hs.current_mem hpassed

theorem record_suspends {action : SchedulerAction} (h : s.suspends action = some sp)
    (history : History) : s.record history action =
      Function.update history s.currentTask (some (.suspended sp)) := by
  rw [record, h]

theorem Recorded.spawnTask (h : s.Recorded history ring) (hs : s.Sound ring)
    {task stackBaseAddress entry owner fixedUserStackPointer : Nat} {isUser : Bool}
    (htask : FreshBlock s.live task sizeofTask)
    (hstack : FreshBlock ((task, sizeofTask) :: s.live) stackBaseAddress stackSize) :
    (s.spawnTask task stackBaseAddress entry owner isUser fixedUserStackPointer).Recorded
      (Function.update history task (some (.built entry
        (if isUser then fixedUserStackPointer else stackBaseAddress + stackSize) isUser)))
      (Links.insertAfter s.currentTask task ring) := by
  have hring : task ∉ ring := fun hmem =>
    (hs.memory.spare htask (by decide)).unused (.structOf (hs.mem_linked _ hmem)) rfl
  have hstack' : FreshBlock s.live stackBaseAddress stackSize :=
    ⟨hstack.1, fun block hblock => hstack.2 block (List.mem_cons_of_mem _ hblock)⟩
  have hblocks : SameContexts s ((s.heapAllocate task sizeofTask).heapAllocate
      stackBaseAddress stackSize) := ⟨fun _ => .refl _, rfl, rfl, rfl, rfl, rfl⟩
  exact (hblocks.recorded h hs.current_mem).link hs.current_mem hring hstack.1
    (hs.stack_apart hstack')

/-- A spawn that is not held up builds the new task's first frame, if there is room for a task. -/
theorem Recorded.spawn (h : s.Recorded history ring) (hs : s.Sound ring)
    {task stackBaseAddress entry owner fixedUserStackPointer sp : Nat} {isUser : Bool}
    (hsuspends : s.suspends
      (.spawn task stackBaseAddress entry owner isUser fixedUserStackPointer sp) = none)
    (hstep : s.Step (.spawn task stackBaseAddress entry owner isUser fixedUserStackPointer sp) s') :
    ∃ ring', s'.Sound ring' ∧ s'.Recorded (s.record history
      (.spawn task stackBaseAddress entry owner isUser fixedUserStackPointer sp)) ring' := by
  obtain ⟨hallowed, hact⟩ := hstep
  rw [record, hsuspends]
  rw [act, SchedulerState.spawn] at hact
  simp only [suspends, ite_eq_right_iff, reduceCtorEq, imp_false, not_and] at hsuspends
  -- `MemoryAllocate` found no room for the task itself, so nothing is built.
  by_cases htask0 : task = 0
  · rw [if_pos htask0] at hact
    cases hact
    simp only [builds, htask0, ne_eq, not_true, false_and, if_false]
    exact ⟨ring, hs, h⟩
  · have hstack0 := hsuspends htask0
    rw [if_neg htask0, if_neg hstack0] at hact
    cases hact
    simp only [builds, htask0, hstack0, ne_eq, not_false_eq_true, and_self, if_true]
    have htask := hallowed.2.1 htask0
    have hstack := hallowed.2.2 hstack0
    exact ⟨_, hs.spawnTask htask hstack, h.spawnTask hs htask hstack⟩

/-- A spawn that waited for its stack builds the frame when it gets one. -/
theorem Recorded.spawnRetry (h : s.Recorded history ring) (hs : s.Sound ring)
    {stackBaseAddress : Nat} {ring' : List Nat} (hs' : s'.Sound ring')
    (hstep : s.Step (.spawnRetry stackBaseAddress) s')
    (hchange : RingChange s s' ring (.spawnRetry stackBaseAddress) ring') :
    s'.Recorded (s.record history (.spawnRetry stackBaseAddress)) ring' := by
  obtain ⟨hallowed, hact⟩ := hstep
  obtain ⟨call, hcall⟩ := Option.isSome_iff_exists.mp hallowed.2.1
  simp only [record, suspends]
  rw [act, hcall] at hact
  cases hact
  by_cases hstack0 : stackBaseAddress = 0
  · have hsame : SameContexts s (s.spawnRetry call stackBaseAddress) := by
      rw [SchedulerState.spawnRetry, if_pos hstack0]
      exact ⟨fun _ => .refl _, rfl, rfl, rfl, rfl, rfl⟩
    -- no stack again: the task is given back, and nothing is built
    simp only [builds, hstack0, ne_eq, not_true, if_false]
    rw [hstack0] at hs' hsame
    exact h.same hs hsame hs'
  · simp only [builds, hstack0, ne_eq, not_false_eq_true, if_true, hcall, Option.map_some]
    obtain ⟨hmemory, hspare⟩ := hs.memory.unpend hcall
    -- The task that waited for its stack was allocated, but not linked.
    have hring : call.task ∉ ring := fun hmem =>
      hspare.unused (.structOf (hs.mem_linked _ hmem)) rfl
    have hblocks : SameContexts s ((s.setPending none).heapAllocate stackBaseAddress stackSize) :=
      ⟨fun _ => .refl _, rfl, rfl, rfl, rfl, rfl⟩
    have hlinked : (s.spawnRetry call stackBaseAddress).linked = call.task :: s.linked := by
      rw [SchedulerState.spawnRetry, if_neg hstack0]
      rfl
    have hring' : ring' = Links.insertAfter s.currentTask call.task ring := by
      cases hchange with
      | same heq =>
        rw [hlinked] at heq
        exact absurd (congrArg List.length heq) (by simp)
      | link _ _ heq =>
        rw [hlinked] at heq
        rw [(List.cons.inj heq).1]
    rw [hring', SchedulerState.spawnRetry, if_neg hstack0]
    exact (hblocks.recorded h hs.current_mem).link hs.current_mem hring hstack0
      (hs.stack_apart (hallowed.2.2 hstack0))

/-- Every action keeps what is written down true. -/
theorem Recorded.step (h : s.Recorded history ring) (hs : s.Sound ring) {action : SchedulerAction}
    (hstep : s.Step action s') :
    ∃ ring', s'.Sound ring' ∧ s'.Recorded (s.record history action) ring' := by
  obtain ⟨ring', hs', hchange⟩ := hs.step hstep
  have hallowed := hstep.1
  have hact := hstep.2
  -- A suspending action records the task that stops and resumes a task of the ring.
  cases hsuspends : s.suspends action with
  | some sp =>
    obtain ⟨s₁, hsame, hswitch⟩ := switch_of_act hact hsuspends
    have hmem := hs.resumed_mem hsame hswitch
    have hrecorded := (hsame.recorded h hs.current_mem).switched hswitch hmem
    rw [hsame.currentTask, ← record_suspends hsuspends] at hrecorded
    refine ⟨ring', hs', hrecorded.mono ?_⟩
    have hlinks := hs'.links
    rw [hswitch.successor_eq, hsame.successor] at hlinks
    exact hs.links.cycle_subset hlinks hmem hs'.current_mem
  | none =>
    -- Any other action leaves the recorded contexts as they are, and a spawn adds one.
    cases action with
    | tick sp => cases hsuspends
    | spawn task stackBaseAddress entry owner isUser fixedUserStackPointer sp =>
      exact h.spawn hs hsuspends hstep
    | spawnRetry stackBaseAddress => exact ⟨ring', hs', h.spawnRetry hs hs' hstep hchange⟩
    | block processID sp => cases hsuspends
    | wakeup processID =>
      rw [act, Option.map_eq_some_iff] at hact
      obtain ⟨woken, hwakeup, heq⟩ := hact
      cases heq
      exact ⟨ring', hs', h.same hs (.awakened hwakeup) hs'⟩
    | yieldTask ticks sp => cases hsuspends
    | terminate sp => cases hsuspends
    | fault sp => cases hsuspends
    | collect sp =>
      have hpoint : s.collector.point ≠ .yieldSwitch := by
        intro heq
        simp [suspends, heq] at hsuspends
      rw [record, hsuspends]
      refine ⟨ring', hs', h.collect hs.current_mem hact hpoint ?_⟩
      -- The collector only takes tasks out of the ring.
      cases hchange with
      | same _ => exact fun t ht => ht
      | link hspawns _ _ => exact absurd hspawns id
      | unlink _ hring _ =>
        rw [hring]
        exact (Links.bypass_sublist ..).subset
      | free _ _ => exact fun t ht => ht
    | setProcess address process =>
      cases hact
      refine ⟨ring, (hs.outside _ _ _).1, h.setProcess ?_⟩
      exact hallowed.2.2.1 _ (hs.mem_linked _ hs.current_mem)
    | store address value =>
      cases hact
      exact ⟨ring, (hs.outside _ _ _).1, h.store hs hallowed value⟩

end SchedulerState

/-! ## Section 5: Every run -/

namespace SchedulerBoot

variable {boot : SchedulerBoot}

theorem alone_recorded (boot : SchedulerBoot) :
    (boot.alone.setGarbageCollector boot.kernelTask).Recorded (fun _ => none) [boot.kernelTask] := by
  have htask : (boot.alone.setGarbageCollector boot.kernelTask).task boot.kernelTask =
      boot.kernelOSTask := alone_kernelTask boot
  constructor
  · show boot.physicalPML4 = (Function.update boot.process boot.kernelProcess _
      (boot.alone.task boot.kernelTask).process).physicalPML4
    rw [alone_kernelTask]
    show _ = (Function.update boot.process boot.kernelProcess _ boot.kernelProcess).physicalPML4
    rw [Function.update_self]
  · intro t ht hbase
    rw [List.mem_singleton.mp ht, htask] at hbase
    exact absurd rfl hbase
  · intro t ht hne
    exact absurd (List.mem_singleton.mp ht) hne

/-- What is written down at the start is true. -/
theorem start_recorded (h : boot.Valid) : boot.start.Recorded boot.history boot.ring := by
  let lone := boot.alone.setGarbageCollector boot.kernelTask
  let idle := lone.spawnTask boot.idleTask boot.idleStack boot.idleEntry boot.kernelProcess false 0
  let both := idle.spawnTask boot.collectorTask boot.collectorStack boot.collectorEntry
    boot.kernelProcess false 0
  have hsound : idle.Sound (Links.insertAfter boot.kernelTask boot.idleTask [boot.kernelTask]) :=
    (alone_sound h).spawnTask h.idleTask h.idleStack
  have hidle : idle.Recorded (Function.update (fun _ => none) boot.idleTask (some (.built
      boot.idleEntry (if false then 0 else boot.idleStack + stackSize) false)))
      (Links.insertAfter boot.kernelTask boot.idleTask [boot.kernelTask]) :=
    (alone_recorded boot).spawnTask (alone_sound h) h.idleTask h.idleStack
  have hboth : both.Recorded boot.history
      (boot.kernelTask :: [] ++ boot.collectorTask :: [boot.idleTask]) := by
    rw [← ring_eq h]
    exact Recorded.spawnTask hidle hsound h.collectorTask h.collectorStack
  have hsame := SameContexts.setGarbageCollector both boot.collectorTask
  have hmem : both.currentTask ∈ boot.kernelTask :: [] ++ boot.collectorTask :: [boot.idleTask] :=
    List.mem_cons_self
  refine (hsame.recorded hboth hmem).mono ?_
  intro t ht
  simp only [ring, List.mem_cons, List.not_mem_nil, or_false] at ht
  simp only [List.mem_append, List.mem_cons, List.not_mem_nil, or_false]
  tauto

end SchedulerBoot

/-- In every run, whenever an action calls `OSSchedulerNext`, the stack pointer
that it returns is the one with which the resumed task was suspended last, or, if
that task has never run, the frame that the exit of `irq0` turns into the entry
state; and CR3, `rsp0` and `kernelStackPointer` are those of the resumed task. -/
theorem next_resumes_context {boot : SchedulerBoot} (h : boot.Valid)
    {actions : List SchedulerAction} {s : SchedulerState} {history : History}
    (htrace : Trace RecordedStep (boot.start, boot.history) actions (s, history))
    {action : SchedulerAction} {s' : SchedulerState} (hstep : s.Step action s')
    (hnext : (s.suspends action).isSome) :
    (∃ found, s.record history action s'.currentTask = some found ∧
      found.Resumes s'.memory (s'.task s'.currentTask).stackPointer) ∧
    s'.cr3 = s'.pml4Of s'.currentTask ∧
    s'.rsp0 = (s'.task s'.currentTask).kernelStackTop ∧
    s'.kernelStackPointer = (s'.task s'.currentTask).kernelStackTop := by
  have hkeep : ∀ (now : SchedulerState × History) action (later : SchedulerState × History),
      (∃ ring, now.1.Sound ring ∧ now.1.Recorded now.2 ring) → RecordedStep now action later →
      ∃ ring, later.1.Sound ring ∧ later.1.Recorded later.2 ring := by
    rintro now action later ⟨ring, hsound, hrecorded⟩ ⟨hstep, heq⟩
    rw [heq]
    exact hrecorded.step hsound hstep
  obtain ⟨ring, hsound, hrecorded⟩ := htrace.invariant hkeep
    ⟨boot.ring, SchedulerBoot.start_sound h, SchedulerBoot.start_recorded h⟩
  obtain ⟨sp, hsuspends⟩ := Option.isSome_iff_exists.mp hnext
  obtain ⟨s₁, hsame, hswitch⟩ := switch_of_act hstep.2 hsuspends
  have hresumes := (hsame.recorded hrecorded hsound.current_mem).resumes hswitch
    (hsound.resumed_mem hsame hswitch)
  rw [hsame.currentTask] at hresumes
  rw [record_suspends hsuspends]
  exact hresumes

/-- A user task that has just been spawned is resumed at its entry, in ring 3, on
its user stack and with its process's page tables. -/
theorem next_resumes_context_spawned : ∃ s s',
    exampleBoot.start.Step (.spawn 0x100c0 0x40000 0x400 0x101 true 0x70000000 0) s ∧
    s.Step (.tick 1) s' ∧ s'.currentTask = 0x100c0 ∧
    irqExit s'.memory (s'.task 0x100c0).stackPointer = .start 0x400 0x70000000 true ∧
    s'.cr3 = s'.pml4Of 0x100c0 := by
  have hrun : ((perform (fun _ _ => true) exampleBoot.start
      [.spawn 0x100c0 0x40000 0x400 0x101 true 0x70000000 0, .tick 1]).any fun s =>
      s.currentTask = 0x100c0) = true := by
    decide +kernel
  obtain ⟨s', htrace, hcurrent⟩ := exists_trace (fun _ _ _ hstep _ => hstep) hrun
  have hcurrent : s'.currentTask = 0x100c0 := of_decide_eq_true hcurrent
  obtain _ | @⟨_, s, _, _, _, hspawn, _ | @⟨_, _, _, _, _, htick, hnil⟩⟩ := htrace
  cases hnil
  refine ⟨s, s', hspawn, htick, hcurrent, ?_⟩
  obtain ⟨⟨found, hfound, hresumes⟩, hcr3, -, -⟩ := next_resumes_context exampleBoot_valid
    (.single ⟨hspawn, rfl⟩) htick rfl
  rw [hcurrent] at hfound hresumes hcr3
  have hcurrent' : s.currentTask = 0x10000 := by
    have hact := hspawn.2
    rw [act, SchedulerState.spawn] at hact
    cases hact
    rfl
  rw [@record_suspends _ 1 _ rfl, hcurrent', Function.update_of_ne (by decide)] at hfound
  have hbuilt : exampleBoot.start.record exampleBoot.history
      (.spawn 0x100c0 0x40000 0x400 0x101 true 0x70000000 0) 0x100c0 =
        some (.built 0x400 0x70000000 true) := by
    decide +kernel
  obtain rfl := Option.some.inj (hbuilt.symm.trans hfound)
  exact ⟨hresumes, hcr3⟩

end TermOS.OS
