import TermOS.OS.SchedulerEntry

/-!
# The statements of a yield

Tasks of the kernel call `OSSchedulerYield` with interrupts enabled: a timer interrupt
can fall between the call and its two stores, and between them and its `int $32`. The
call is split here at these points, as that of the collector is; so is the one that
`OSSchedulerSpawn` makes when there is no memory for a stack.

## Main Theorems

* `yieldTask_statements` - without interrupts, the statements are the call
* `YieldState.Sound.step` - every step keeps the invariant
* `YieldState.Step.stays` - what a step without `OSSchedulerNext` does to the tasks
-/

namespace TermOS.OS

open TermOS.Lib

/-! ## Section 1: The system -/

/-- The statements of `OSSchedulerYield` before which it can be interrupted. -/
inductive YieldPoint
  /-- `gOSSchedulerCurrentTask->sleepTicks = ticks` -/
  | ticks
  /-- `gOSSchedulerCurrentTask->taskState = kOSProcessStateSleeping` -/
  | state
  /-- `int $32` -/
  | switch
  deriving DecidableEq, Repr

/-- A call of `OSSchedulerYield`: its next statement and its argument. -/
structure YieldCall where
  point : YieldPoint
  ticks : Nat
  deriving DecidableEq, Repr

/-- The scheduler, and which of the tasks are inside `OSSchedulerYield`. -/
structure YieldState where
  scheduler : SchedulerState
  yields : Nat → Option YieldCall

/-- What can happen next. -/
inductive YieldAction
  /-- An action in which no task yields. -/
  | whole (action : SchedulerAction)
  /-- `OSSchedulerSpawn` without memory for a stack, up to its `OSSchedulerYield(0)`. -/
  | spawnWaits (task entry owner : Nat) (isUser : Bool) (fixedUserStackPointer : Nat)
  /-- The current task calls `OSSchedulerYield`. -/
  | yieldCall (ticks : Nat)
  /-- The next statement of its call; `sp` is the stack pointer at the `int $32`. -/
  | yieldStatement (sp : Nat)
  deriving DecidableEq

/-- No task yields in the action. -/
def SchedulerAction.Whole : SchedulerAction → Prop
  | .yieldTask _ _ => False
  | .spawn task stackBaseAddress _ _ _ _ _ => task = 0 ∨ stackBaseAddress ≠ 0
  | _ => True

/-- One if the action is a timer interrupt. -/
def SchedulerAction.interrupts (action : SchedulerAction) : Nat := if action.isTick then 1 else 0

/-- One if the action is a timer interrupt. -/
def YieldAction.interrupts : YieldAction → Nat
  | .whole action => action.interrupts
  | _ => 0

namespace SchedulerState

/-- `gOSSchedulerCurrentTask->sleepTicks = ticks` -/
def setCurrentTicks (s : SchedulerState) (ticks : Nat) : SchedulerState :=
  s.setTask s.currentTask { s.task s.currentTask with sleepTicks := ticks % 2 ^ 32 }

/-- The signal changes no task but the collector. -/
theorem signal_task_ne {s : SchedulerState} {t : Nat} (h : t ≠ s.garbageCollectorTask) :
    s.postGarbageCollectorSignal.task t = s.task t := by
  unfold postGarbageCollectorSignal
  split
  · rfl
  · exact setTask_ne _ _ h

end SchedulerState

namespace YieldState

open SchedulerState

section Model

variable (y : YieldState)

/-- The call of the current task comes to another statement, or it ends. -/
def setYield (call : Option YieldCall) : YieldState :=
  { y with yields := Function.update y.yields y.scheduler.currentTask call }

/-- The next statement of `OSSchedulerYield`. -/
def yieldStatement (call : YieldCall) (sp : Nat) : Option (Except SchedulerPanic YieldState) :=
  match call.point with
  | .ticks =>
    some (.ok { y.setYield (some { call with point := .state }) with
      scheduler := y.scheduler.setCurrentTicks call.ticks })
  | .state =>
    some (.ok { y.setYield (some { call with point := .switch }) with
      scheduler := y.scheduler.setCurrentState .sleeping })
  | .switch => (y.scheduler.next sp).map fun result =>
      result.map fun s => { y.setYield none with scheduler := s }

/-- `OSSchedulerSpawn` has its task structure and has signalled the collector. -/
def spawnWaits (task entry owner : Nat) (isUser : Bool) (fixedUserStackPointer : Nat) : YieldState :=
  let owner := if owner = 0 then y.scheduler.kernelProcess else owner
  let s := (y.scheduler.heapAllocate task sizeofTask).setPending
    (some ⟨task, entry, owner, isUser, fixedUserStackPointer⟩)
  { y.setYield (some ⟨.ticks, 0⟩) with scheduler := s.postGarbageCollectorSignal }

/-- The current task is not inside `OSSchedulerYield`. -/
def Outside : Prop := y.yields y.scheduler.currentTask = none

/-- What may happen: inside its call a task can only be interrupted. -/
def Allowed : YieldAction → Prop
  | .whole action =>
    action.Whole ∧ (action.isTick = false → y.Outside) ∧ y.scheduler.Allowed action
  | .spawnWaits task _ _ _ _ => y.Outside ∧ y.scheduler.Calls ∧ task ≠ 0 ∧
      SchedulerState.FreshBlock y.scheduler.live task sizeofTask
  | .yieldCall _ => y.Outside ∧ y.scheduler.Calls
  | .yieldStatement _ => ¬ y.Outside

/-- The effect of an action. -/
def act : YieldAction → Option (Except SchedulerPanic YieldState)
  | .whole action => (y.scheduler.act action).map fun result =>
      result.map fun s => { y with scheduler := s }
  | .spawnWaits task entry owner isUser fixedUserStackPointer =>
    some (.ok (y.spawnWaits task entry owner isUser fixedUserStackPointer))
  | .yieldCall ticks => some (.ok (y.setYield (some ⟨.ticks, ticks⟩)))
  | .yieldStatement sp => (y.yields y.scheduler.currentTask).bind fun call => y.yieldStatement call sp

/-- One action is allowed and ends without a panic. -/
def Step (action : YieldAction) (y' : YieldState) : Prop :=
  y.Allowed action ∧ y.act action = some (.ok y')

/-- The state in which an action enters `OSSchedulerNext`, and the stack pointer with
which it does; `none` if it does not get there. -/
def entry : YieldAction → Option (SchedulerState × Nat)
  | .whole action => y.scheduler.entry action
  | .yieldStatement sp => (y.yields y.scheduler.currentTask).bind fun call =>
      if call.point = .switch then some (y.scheduler, sp) else none
  | .spawnWaits _ _ _ _ _ | .yieldCall _ => none

end Model

variable {y y' : YieldState} {ring : List Nat}

@[simp] theorem setYield_scheduler (call : Option YieldCall) : (y.setYield call).scheduler = y.scheduler := rfl

theorem setYield_ne (call : Option YieldCall) {t : Nat} (ht : t ≠ y.scheduler.currentTask) :
    (y.setYield call).yields t = y.yields t := Function.update_of_ne ht ..

theorem setYield_same (call : Option YieldCall) :
    (y.setYield call).yields y.scheduler.currentTask = call := Function.update_self ..

/-- The statements without an interrupt between them are the call in one piece. -/
theorem yieldTask_statements {ticks sp : Nat} {s' : SchedulerState} (houtside : y.Outside)
    (hyield : y.scheduler.Step (.yieldTask ticks sp) s') :
    ∃ y₁ y₂ y₃, y.Step (.yieldCall ticks) y₁ ∧ y₁.Step (.yieldStatement sp) y₂ ∧
      y₂.Step (.yieldStatement sp) y₃ ∧ y₃.Step (.yieldStatement sp) { y with scheduler := s' } := by
  obtain ⟨hcalls, hact⟩ := hyield
  let y₁ := y.setYield (some ⟨.ticks, ticks⟩)
  let y₂ := { y₁.setYield (some ⟨.state, ticks⟩) with
    scheduler := y₁.scheduler.setCurrentTicks ticks }
  let y₃ := { y₂.setYield (some ⟨.switch, ticks⟩) with
    scheduler := y₂.scheduler.setCurrentState .sleeping }
  have hcall₁ : y₁.yields y₁.scheduler.currentTask = some ⟨.ticks, ticks⟩ := y.setYield_same _
  have hcall₂ : y₂.yields y₂.scheduler.currentTask = some ⟨.state, ticks⟩ := y₁.setYield_same _
  have hcall₃ : y₃.yields y₃.scheduler.currentTask = some ⟨.switch, ticks⟩ := y₂.setYield_same _
  have hinside : ∀ {z : YieldState} {call : YieldCall},
      z.yields z.scheduler.currentTask = some call → ¬ z.Outside := by
    intro z call hcall houtside
    cases hcall.symm.trans houtside
  have hstep₂ : y₁.Step (.yieldStatement sp) y₂ := by
    refine ⟨hinside hcall₁, ?_⟩
    rw [act, hcall₁]
    rfl
  have hstep₃ : y₂.Step (.yieldStatement sp) y₃ := by
    refine ⟨hinside hcall₂, ?_⟩
    rw [act, hcall₂]
    rfl
  -- both stores together are the one of the call in one piece
  have hstored : y₃.scheduler = y.scheduler.fallAsleep ticks := by
    show ((y.scheduler.setCurrentTicks ticks).setCurrentState .sleeping) = _
    unfold SchedulerState.setCurrentState SchedulerState.setCurrentTicks SchedulerState.fallAsleep
    simp [SchedulerState.setTask]
  have hends : y₃.setYield none = { y with scheduler := y₃.scheduler } := by
    have hyields : Function.update (Function.update (Function.update (Function.update y.yields
        y.scheduler.currentTask (some ⟨.ticks, ticks⟩)) y.scheduler.currentTask
        (some ⟨.state, ticks⟩)) y.scheduler.currentTask (some ⟨.switch, ticks⟩))
        y.scheduler.currentTask none = y.yields := by
      simp only [Function.update_idem]
      rw [← (show y.yields y.scheduler.currentTask = none from houtside)]
      exact Function.update_eq_self ..
    show YieldState.mk y₃.scheduler _ = _
    rw [← hyields]
    rfl
  have hstep₄ : y₃.Step (.yieldStatement sp) { y with scheduler := s' } := by
    refine ⟨hinside hcall₃, ?_⟩
    rw [act, hcall₃]
    show (y₃.scheduler.next sp).map _ = _
    rw [hstored, show (y.scheduler.fallAsleep ticks).next sp = some (.ok s') from hact, hends]
    rfl
  exact ⟨y₁, y₂, y₃, ⟨⟨houtside, hcalls⟩, rfl⟩, hstep₂, hstep₃, hstep₄⟩

/-! ## Section 2: The invariant -/

/-- The invariant of the scheduler; the collector is not among the tasks that yield, and
any other task runs while it executes, except between its second store and `int $32`. -/
structure Sound (y : YieldState) (ring : List Nat) : Prop where
  scheduler : y.scheduler.Sound ring
  ne_collector : y.yields y.scheduler.garbageCollectorTask = none
  running : y.scheduler.currentTask ≠ y.scheduler.garbageCollectorTask →
    (∀ call, y.yields y.scheduler.currentTask = some call → call.point ≠ .switch) →
      (y.scheduler.task y.scheduler.currentTask).taskState = .running

/-- Inside a call, the current task is not the collector. -/
theorem Sound.current_ne (h : y.Sound ring) (hinside : ¬ y.Outside) :
    y.scheduler.currentTask ≠ y.scheduler.garbageCollectorTask := by
  intro heq
  apply hinside
  rw [Outside, heq]
  exact h.ne_collector

/-- The step of an action in which no task yields. -/
theorem Step.whole {action : SchedulerAction} (hstep : y.Step (.whole action) y') :
    y.scheduler.Step action y'.scheduler ∧ y'.yields = y.yields ∧
      (action.isTick = false → y.Outside) := by
  obtain ⟨⟨-, houtside, hallowed⟩, hact⟩ := hstep
  obtain ⟨result, hresult, hmap⟩ := Option.map_eq_some_iff.mp hact
  cases result with
  | error panic => cases hmap
  | ok s' =>
    obtain rfl := Except.ok.inj hmap
    exact ⟨⟨hallowed, hresult⟩, rfl, houtside⟩

/-- The step of a statement of a call. -/
theorem Step.statement {sp : Nat} (hstep : y.Step (.yieldStatement sp) y') :
    ∃ call, y.yields y.scheduler.currentTask = some call ∧
      y.yieldStatement call sp = some (.ok y') :=
  Option.bind_eq_some_iff.mp hstep.2

/-- What `OSSchedulerYield` stores keeps the invariant. -/
theorem Sound.store (h : y.Sound ring) (hinside : ¬ y.Outside) (call : YieldCall) {value : OSTask}
    (hnext : value.next = (y.scheduler.task y.scheduler.currentTask).next)
    (hbase : value.kernelStackBase = (y.scheduler.task y.scheduler.currentTask).kernelStackBase)
    (halive : value.taskState ≠ .dead) (hrunning : call.point ≠ .switch → value.taskState = .running) :
    Sound { y.setYield (some call) with
      scheduler := y.scheduler.setTask y.scheduler.currentTask value } ring := by
  have hne := h.current_ne hinside
  have hwritten := h.scheduler.setCurrent hnext hbase (.inl h.scheduler.current_alive) hne
  have hsame : (y.scheduler.setTask y.scheduler.currentTask value).task y.scheduler.currentTask = value :=
    setTask_same ..
  constructor
  · refine { hwritten with current_alive := ?_ }
    show Alive _ y.scheduler.currentTask
    rw [Alive, hsame]
    exact halive
  · exact (setYield_ne _ hne.symm).trans h.ne_collector
  · intro _ hpoint
    show ((y.scheduler.setTask y.scheduler.currentTask value).task y.scheduler.currentTask).taskState = _
    rw [hsame]
    have hcall : (y.setYield (some call)).yields y.scheduler.currentTask = some call := setYield_same _
    exact hrunning (hpoint call hcall)

/-- `OSSchedulerSpawn` up to its yield, as the scheduler sees it. -/
theorem Sound.spawnWaits_scheduler (h : y.Sound ring) {task entry owner fixedUserStackPointer : Nat}
    {isUser : Bool} (hne : y.scheduler.currentTask ≠ y.scheduler.garbageCollectorTask)
    (hfresh : FreshBlock y.scheduler.live task sizeofTask) :
    (y.spawnWaits task entry owner isUser fixedUserStackPointer).scheduler.Sound ring ∧
      Entered y.scheduler (y.spawnWaits task entry owner isUser fixedUserStackPointer).scheduler ∧
      (y.spawnWaits task entry owner isUser fixedUserStackPointer).scheduler.linked =
        y.scheduler.linked := by
  have hspare := h.scheduler.memory.spare hfresh (by decide)
  have hpend := @Sound.pend _ _ h.scheduler
    ⟨task, entry, if owner = 0 then y.scheduler.kernelProcess else owner, isUser,
      fixedUserStackPointer⟩ hspare
  have hwaiting : Entered y.scheduler ((y.scheduler.heapAllocate task sizeofTask).setPending
      (some ⟨task, entry, if owner = 0 then y.scheduler.kernelProcess else owner, isUser,
        fixedUserStackPointer⟩)) := .of_task rfl rfl rfl
  refine ⟨(hpend.signal hne).1, hwaiting.trans (.signal _), ?_⟩
  exact (Quiet.signal hpend.collector_alive).linked

/-- The signal does not change the task that sends it. -/
theorem spawnWaits_task (task entry owner : Nat) (isUser : Bool) (fixedUserStackPointer : Nat)
    (hne : y.scheduler.currentTask ≠ y.scheduler.garbageCollectorTask) :
    (y.spawnWaits task entry owner isUser fixedUserStackPointer).scheduler.task
      y.scheduler.currentTask = y.scheduler.task y.scheduler.currentTask :=
  signal_task_ne hne

/-- A step of the scheduler keeps the invariant. -/
theorem Sound.whole (h : y.Sound ring) {action : SchedulerAction} (hstep : y.Step (.whole action) y')
    {ring' : List Nat} (hsound : y'.scheduler.Sound ring') : y'.Sound ring' := by
  obtain ⟨hscheduler, hyields, houtside⟩ := hstep.whole
  have hgc := h.scheduler.garbageCollectorTask_eq hscheduler
  refine ⟨hsound, ?_, fun hne _ => ?_⟩
  · rw [hyields, hgc]
    exact h.ne_collector
  · cases hentry : y.scheduler.entry action with
    | some entered =>
      obtain ⟨s₁, sp⟩ := entered
      exact (next_switched ((act_entry hentry).symm.trans hscheduler.2)).running
    | none =>
      have hcurrent := h.scheduler.currentTask_eq hscheduler hentry
      rw [hcurrent, hgc] at hne
      -- an action that is not a timer interrupt is the current task's own
      have houtside : y.Outside := by
        apply houtside
        cases action with
        | tick sp => cases hentry
        | _ => rfl
      have hrunning := h.running hne fun call hcall => by cases hcall.symm.trans houtside
      have hother : ∀ sp, action ≠ .collect sp := by
        rintro sp rfl
        exact hne hscheduler.1
      have hstays := (h.scheduler.stayed hscheduler hentry hother).task _
        (h.scheduler.mem_linked _ h.scheduler.current_mem)
      rw [hcurrent]
      rcases hstays with ⟨heq, -⟩ | ⟨-, hwoken⟩
      · exact heq.trans hrunning
      · exact hwoken

/-- A statement of a call keeps the invariant. -/
theorem Sound.statement (h : y.Sound ring) {sp : Nat} (hstep : y.Step (.yieldStatement sp) y') :
    y'.Sound ring ∧ y'.scheduler.linked = y.scheduler.linked := by
  obtain ⟨call, hcall, hact⟩ := hstep.statement
  have hne := h.current_ne hstep.1
  unfold yieldStatement at hact
  cases hpoint : call.point with
  | ticks =>
    simp only [hpoint] at hact
    obtain rfl := Except.ok.inj (Option.some.inj hact)
    have hrunning := h.running hne fun call' hcall' => by
      obtain rfl := Option.some.inj (hcall'.symm.trans hcall)
      simp [hpoint]
    exact ⟨h.store hstep.1 _ rfl rfl h.scheduler.current_alive fun _ => hrunning, rfl⟩
  | state =>
    simp only [hpoint] at hact
    obtain rfl := Except.ok.inj (Option.some.inj hact)
    exact ⟨h.store hstep.1 _ rfl rfl OSProcessState.noConfusion fun hne => absurd rfl hne, rfl⟩
  | switch =>
    simp only [hpoint] at hact
    obtain ⟨result, hnext, hmap⟩ := Option.map_eq_some_iff.mp hact
    cases result with
    | error panic => cases hmap
    | ok s' =>
      obtain rfl := Except.ok.inj hmap
      have hswitched := next_switched hnext
      have hquiet := Quiet.switched hswitched
      refine ⟨⟨h.scheduler.next hnext, ?_, fun _ _ => hswitched.running⟩, hquiet.linked⟩
      show (y.setYield none).yields s'.garbageCollectorTask = none
      rw [hquiet.garbageCollectorTask]
      exact (setYield_ne _ hne.symm).trans h.ne_collector

/-- Every step keeps the invariant; a task that is alive stays linked, and comes to the ring
only with its own spawn. -/
theorem Sound.step (h : y.Sound ring) {action : YieldAction} (hstep : y.Step action y') :
    ∃ ring', y'.Sound ring' ∧ ∀ t ∈ y.scheduler.linked, y.scheduler.Alive t →
      t ∈ y'.scheduler.linked ∧ (t ∈ ring' → t ∈ ring) := by
  cases action with
  | whole action =>
    obtain ⟨hscheduler, -⟩ := hstep.whole
    obtain ⟨ring', hsound, hchange⟩ := h.scheduler.step hscheduler
    exact ⟨ring', h.whole hstep hsound, fun t ht halive => hchange.kept h.scheduler ht halive⟩
  | spawnWaits task entry owner isUser fixedUserStackPointer =>
    obtain ⟨⟨houtside, hcalls, -, hfresh⟩, hact⟩ := hstep
    obtain rfl := Except.ok.inj (Option.some.inj hact)
    obtain ⟨hsound, hentered, hlinked⟩ := @Sound.spawnWaits_scheduler _ _ h task entry owner
      fixedUserStackPointer isUser hcalls.1 hfresh
    refine ⟨ring, ⟨hsound, ?_, fun _ _ => ?_⟩, fun t ht _ => ⟨hlinked ▸ ht, id⟩⟩
    · rw [hentered.garbageCollectorTask]
      exact (setYield_ne _ hcalls.1.symm).trans h.ne_collector
    · have hrunning := h.running hcalls.1 fun call hcall => by cases hcall.symm.trans houtside
      rw [hentered.currentTask, spawnWaits_task _ _ _ _ _ hcalls.1]
      exact hrunning
  | yieldCall ticks =>
    obtain ⟨⟨houtside, hcalls⟩, hact⟩ := hstep
    obtain rfl := Except.ok.inj (Option.some.inj hact)
    refine ⟨ring, ⟨h.scheduler, ?_, fun hne _ => ?_⟩, fun t ht _ => ⟨ht, id⟩⟩
    · exact (setYield_ne _ hcalls.1.symm).trans h.ne_collector
    · exact h.running hne fun call hcall => by cases hcall.symm.trans houtside
  | yieldStatement sp =>
    obtain ⟨hsound, hlinked⟩ := h.statement hstep
    exact ⟨ring, hsound, fun t ht _ => ⟨hlinked ▸ ht, id⟩⟩

/-! ## Section 3: What a step does to a task -/

/-- A step that enters `OSSchedulerNext` is its first half and that call. -/
theorem Sound.entered (h : y.Sound ring) {action : YieldAction} (hstep : y.Step action y')
    {s₁ : SchedulerState} {sp : Nat} (hentry : y.entry action = some (s₁, sp)) :
    s₁.next sp = some (.ok y'.scheduler) ∧ s₁.Invariant ring ∧ Entered y.scheduler s₁ ∧
      (¬ y.Outside → s₁ = y.scheduler) := by
  cases action with
  | whole action =>
    obtain ⟨hscheduler, -, houtside⟩ := hstep.whole
    obtain ⟨hinvariant, hentered⟩ := h.scheduler.entry hscheduler.1 hentry
    refine ⟨(act_entry hentry).symm.trans hscheduler.2, hinvariant, hentered,
      fun hinside => ?_⟩
    -- inside its call, the current task can only be interrupted
    cases action with
    | tick sp' => exact (Prod.mk.inj (Option.some.inj hentry)).1.symm
    | _ => exact absurd (houtside rfl) hinside
  | yieldStatement sp' =>
    obtain ⟨call, hcall, hact⟩ := hstep.statement
    simp only [entry, hcall, Option.bind_some] at hentry
    split at hentry
    · next hpoint =>
      obtain ⟨rfl, rfl⟩ := Prod.mk.inj (Option.some.inj hentry)
      simp only [yieldStatement, hpoint] at hact
      obtain ⟨result, hnext, hmap⟩ := Option.map_eq_some_iff.mp hact
      cases result with
      | error panic => cases hmap
      | ok s' =>
        obtain rfl := Except.ok.inj hmap
        exact ⟨hnext, h.scheduler.toInvariant, .of_task rfl rfl rfl, fun _ => rfl⟩
    · cases hentry
  | spawnWaits task entry owner isUser fixedUserStackPointer => cases hentry
  | yieldCall ticks => cases hentry

/-- A store of the current task changes no other task. -/
theorem stays_setTask (value : OSTask) {t : Nat} (ht : t ≠ y.scheduler.currentTask) :
    (y.scheduler.task t).Stays
      ((y.scheduler.setTask y.scheduler.currentTask value).task t) := by
  rw [setTask_ne _ _ ht]
  exact .inl ⟨rfl, rfl⟩

/-- A step that does not enter `OSSchedulerNext` leaves the current task, and state and ticks of
the others. -/
theorem Sound.stays (h : y.Sound ring) {action : YieldAction} (hstep : y.Step action y')
    (hentry : y.entry action = none) :
    y'.scheduler.currentTask = y.scheduler.currentTask ∧
      ∀ t ∈ y.scheduler.linked, t ≠ y.scheduler.currentTask →
        t ≠ y.scheduler.garbageCollectorTask →
          (y.scheduler.task t).Stays (y'.scheduler.task t) := by
  cases action with
  | whole action =>
    obtain ⟨hscheduler, -⟩ := hstep.whole
    refine ⟨h.scheduler.currentTask_eq hscheduler hentry, fun t ht hcurrent _ => ?_⟩
    by_cases hcollect : ∃ sp, action = .collect sp
    · obtain ⟨sp, rfl⟩ := hcollect
      exact (collect_stays hentry hscheduler.2).2.2 t hcurrent
    · rw [not_exists] at hcollect
      exact (h.scheduler.stayed hscheduler hentry hcollect).task t ht
  | spawnWaits task entry owner isUser fixedUserStackPointer =>
    obtain ⟨⟨-, hcalls, -, hfresh⟩, hact⟩ := hstep
    obtain rfl := Except.ok.inj (Option.some.inj hact)
    obtain ⟨-, hentered, -⟩ := @Sound.spawnWaits_scheduler _ _ h task entry owner
      fixedUserStackPointer isUser hcalls.1 hfresh
    refine ⟨hentered.currentTask, fun t _ hcurrent hgc => ?_⟩
    rcases hentered.other t hcurrent hgc with heq | hwoken
    · rw [heq]
      exact .inl ⟨rfl, rfl⟩
    · exact .inr hwoken
  | yieldCall ticks =>
    obtain rfl := Except.ok.inj (Option.some.inj hstep.2)
    exact ⟨rfl, fun t _ _ _ => .inl ⟨rfl, rfl⟩⟩
  | yieldStatement sp =>
    obtain ⟨call, hcall, hact⟩ := hstep.statement
    unfold yieldStatement at hact
    cases hpoint : call.point with
    | ticks =>
      simp only [hpoint] at hact
      obtain rfl := Except.ok.inj (Option.some.inj hact)
      exact ⟨rfl, fun t _ hcurrent _ => stays_setTask _ hcurrent⟩
    | state =>
      simp only [hpoint] at hact
      obtain rfl := Except.ok.inj (Option.some.inj hact)
      exact ⟨rfl, fun t _ hcurrent _ => stays_setTask _ hcurrent⟩
    | switch => simp [entry, hcall, hpoint] at hentry

/-- A step inside the call of the current task that does not enter `OSSchedulerNext` is one of its
two stores. -/
theorem Step.stores {action : YieldAction} (hstep : y.Step action y')
    (hentry : y.entry action = none) {call : YieldCall}
    (hcall : y.yields y.scheduler.currentTask = some call) :
    (call.point = .ticks ∧ y'.yields y.scheduler.currentTask = some ⟨.state, call.ticks⟩ ∧
      y'.scheduler.task y.scheduler.currentTask =
        { y.scheduler.task y.scheduler.currentTask with sleepTicks := call.ticks % 2 ^ 32 }) ∨
    (call.point = .state ∧ y'.yields y.scheduler.currentTask = some ⟨.switch, call.ticks⟩ ∧
      y'.scheduler.task y.scheduler.currentTask =
        { y.scheduler.task y.scheduler.currentTask with taskState := .sleeping }) := by
  have hinside : ¬ y.Outside := fun houtside => by cases hcall.symm.trans houtside
  cases action with
  | whole action =>
    obtain ⟨-, -, houtside⟩ := hstep.whole
    cases action with
    | tick sp => cases hentry
    | _ => exact absurd (houtside rfl) hinside
  | spawnWaits task entry owner isUser fixedUserStackPointer => exact absurd hstep.1.1 hinside
  | yieldCall ticks => exact absurd hstep.1.1 hinside
  | yieldStatement sp =>
    obtain ⟨call', hcall', hact⟩ := hstep.statement
    obtain rfl := Option.some.inj (hcall'.symm.trans hcall)
    unfold yieldStatement at hact
    cases hpoint : call'.point with
    | ticks =>
      simp only [hpoint] at hact
      obtain rfl := Except.ok.inj (Option.some.inj hact)
      exact .inl ⟨rfl, setYield_same _, setTask_same ..⟩
    | state =>
      simp only [hpoint] at hact
      obtain rfl := Except.ok.inj (Option.some.inj hact)
      exact .inr ⟨rfl, setYield_same _, setTask_same ..⟩
    | switch => simp [entry, hcall', hpoint] at hentry

/-- The collector's task is the same in every state. -/
theorem Sound.garbageCollectorTask_eq (h : y.Sound ring) {action : YieldAction}
    (hstep : y.Step action y') :
    y'.scheduler.garbageCollectorTask = y.scheduler.garbageCollectorTask := by
  cases hentry : y.entry action with
  | some entered =>
    obtain ⟨s₁, sp⟩ := entered
    obtain ⟨hnext, -, hentered, -⟩ := h.entered hstep hentry
    exact (Quiet.switched (next_switched hnext)).garbageCollectorTask.trans
      hentered.garbageCollectorTask
  | none =>
    cases action with
    | whole action => exact h.scheduler.garbageCollectorTask_eq hstep.whole.1
    | spawnWaits task entry owner isUser fixedUserStackPointer =>
      obtain ⟨⟨-, hcalls, -, hfresh⟩, hact⟩ := hstep
      obtain rfl := Except.ok.inj (Option.some.inj hact)
      exact (@Sound.spawnWaits_scheduler _ _ h task entry owner fixedUserStackPointer isUser
        hcalls.1 hfresh).2.1.garbageCollectorTask
    | yieldCall ticks =>
      obtain rfl := Except.ok.inj (Option.some.inj hstep.2)
      rfl
    | yieldStatement sp =>
      obtain ⟨call, hcall, hact⟩ := hstep.statement
      unfold yieldStatement at hact
      cases hpoint : call.point with
      | ticks =>
        simp only [hpoint] at hact
        obtain rfl := Except.ok.inj (Option.some.inj hact)
        rfl
      | state =>
        simp only [hpoint] at hact
        obtain rfl := Except.ok.inj (Option.some.inj hact)
        rfl
      | switch => simp [entry, hcall, hpoint] at hentry

end YieldState

end TermOS.OS
