import TermOS.OS.SchedulerTurn

/-!
# Entries to the scheduler

Timer interrupts, yields, blocks, deaths, a spawn without memory and the collector's
own yield all end in `OSSchedulerNext`. Every action is split here at that call: what
it does before, and the call itself.

## Main Theorems

* `act_entry` - an action is its first half followed by `OSSchedulerNext`
* `Sound.entry` - the first half keeps the ring, and all tasks but the current one
* `Sound.entry_selects` - what the call selects
-/

namespace TermOS.OS

open TermOS.Lib

/-- State and ticks of a task stay, or the task is woken. -/
def OSTask.Stays (old new : OSTask) : Prop :=
  (new.taskState = old.taskState ∧ new.sleepTicks = old.sleepTicks) ∨
    (old.taskState = .blocked ∧ new.taskState = .running)

namespace SchedulerState

/-! ## Section 1: The two halves of an action -/

section Entry

variable (s : SchedulerState)

/-- The current task is about to sleep. -/
def fallAsleep (ticks : Nat) : SchedulerState :=
  s.setTask s.currentTask
    { s.task s.currentTask with sleepTicks := ticks % 2 ^ 32, taskState := .sleeping }

/-- The state in which an action enters `OSSchedulerNext`, and the stack pointer with
which it does; `none` if it does not get there. -/
def entry : SchedulerAction → Option (SchedulerState × Nat)
  | .tick sp => some (s, sp)
  | .spawn task stackBaseAddress entry owner isUser fixedUserStackPointer sp =>
    if task = 0 ∨ stackBaseAddress ≠ 0 then none
    else
      let call : PendingSpawn :=
        ⟨task, entry, if owner = 0 then s.kernelProcess else owner, isUser, fixedUserStackPointer⟩
      let waiting := (s.heapAllocate task sizeofTask).setPending (some call)
      some (waiting.postGarbageCollectorSignal.fallAsleep 0, sp)
  | .block processID sp => some (s.setTask s.currentTask
      { s.task s.currentTask with
        taskState := .blocked, waitingForProcess := processID.toInt32 }, sp)
  | .yieldTask ticks sp => some (s.fallAsleep ticks, sp)
  | .terminate sp | .fault sp =>
    ((s.setCurrentState .dead).wakeup (s.task s.currentTask).id).map
      fun woken => (woken.postGarbageCollectorSignal, sp)
  | .collect sp =>
    if s.collector.point = .yieldSwitch then
      some (s.setCollector { s.collector with point := .first }, sp)
    else none
  | .spawnRetry _ | .wakeup _ | .setProcess _ _ | .store _ _ => none

end Entry

variable {s s' s₁ s₂ : SchedulerState} {ring : List Nat} {sp : Nat}

/-- Marking the current task dead twice is marking it once. -/
theorem setCurrentState_twice (state : OSProcessState) :
    (s.setCurrentState state).setCurrentState state = s.setCurrentState state := by
  unfold setCurrentState
  simp [setTask]

theorem id_setCurrentState (state : OSProcessState) :
    ((s.setCurrentState state).task (s.setCurrentState state).currentTask).id =
      (s.task s.currentTask).id := by
  unfold setCurrentState
  simp [setTask]

/-- A fault ends like a termination. -/
theorem fault_eq_terminate : s.fault sp = s.terminate sp := by
  unfold fault terminate
  rw [id_setCurrentState, setCurrentState_twice]

theorem terminate_eq : s.terminate sp = (s.entry (.terminate sp)).bind
    fun entered => entered.1.next entered.2 := by
  unfold terminate entry
  rw [Option.bind_map]
  rfl

/-- An action that enters `OSSchedulerNext` is that call. -/
theorem act_entry {action : SchedulerAction} (h : s.entry action = some (s₁, sp)) :
    s.act action = s₁.next sp := by
  -- By the action; the calls of `OSSchedulerNext` are the last thing their functions do.
  cases action with
  | tick sp' =>
    obtain ⟨rfl, rfl⟩ := Prod.mk.inj (Option.some.inj h)
    rfl
  | spawn task stackBaseAddress entry owner isUser fixedUserStackPointer sp' =>
    rw [SchedulerState.entry] at h
    split at h
    · cases h
    · rename_i hcase
      rw [not_or, not_not] at hcase
      obtain ⟨rfl, rfl⟩ := Prod.mk.inj (Option.some.inj h)
      show s.spawn _ _ _ _ _ _ _ = _
      unfold spawn
      rw [if_neg hcase.1, if_pos hcase.2]
      rfl
  | spawnRetry stackBaseAddress => cases h
  | block processID sp' =>
    obtain ⟨rfl, rfl⟩ := Prod.mk.inj (Option.some.inj h)
    rfl
  | wakeup processID => cases h
  | yieldTask ticks sp' =>
    obtain ⟨rfl, rfl⟩ := Prod.mk.inj (Option.some.inj h)
    rfl
  | terminate sp' =>
    show s.terminate sp' = _
    rw [terminate_eq, h]
    rfl
  | fault sp' =>
    show s.fault sp' = _
    -- `fault` marks the task dead once more, which `terminate` does anyway.
    rw [fault_eq_terminate, terminate_eq, show s.entry (.terminate sp') = _ from h]
    rfl
  | collect sp' =>
    rw [SchedulerState.entry] at h
    split at h
    · rename_i hpoint
      obtain ⟨rfl, rfl⟩ := Prod.mk.inj (Option.some.inj h)
      show s.collect sp' = _
      unfold collect
      simp only [hpoint]
    · cases h
  | setProcess address process => cases h
  | store address value => cases h

/-! ## Section 2: The first half -/

/-- What the first half of an action leaves alone: the ring, and all tasks but the
current one. A blocked task may be woken, and the collector signalled. -/
structure Entered (s s₁ : SchedulerState) : Prop where
  successor : successor s₁.task = successor s.task
  currentTask : s₁.currentTask = s.currentTask
  garbageCollectorTask : s₁.garbageCollectorTask = s.garbageCollectorTask
  other : ∀ t, t ≠ s.currentTask → t ≠ s.garbageCollectorTask → s₁.task t = s.task t ∨
    ((s.task t).taskState = .blocked ∧ (s₁.task t).taskState = .running)
  collector : s.garbageCollectorTask ≠ s.currentTask →
    (s.task s.garbageCollectorTask).taskState = .running →
      (s₁.task s.garbageCollectorTask).taskState = .running

namespace Entered

/-- Nothing happens to the tasks. -/
theorem of_task (htask : s₁.task = s.task) (hcurrent : s₁.currentTask = s.currentTask)
    (hgc : s₁.garbageCollectorTask = s.garbageCollectorTask) : Entered s s₁ where
  successor := by rw [htask]
  currentTask := hcurrent
  garbageCollectorTask := hgc
  other t _ _ := .inl (congrFun htask t)
  collector _ hrunning := by
    rw [htask]
    exact hrunning

theorem trans (h : Entered s s₁) (h' : Entered s₁ s₂) : Entered s s₂ where
  successor := h'.successor.trans h.successor
  currentTask := h'.currentTask.trans h.currentTask
  garbageCollectorTask := h'.garbageCollectorTask.trans h.garbageCollectorTask
  other t hcurrent hgc := by
    have hlater := h'.other t (h.currentTask.symm ▸ hcurrent) (h.garbageCollectorTask.symm ▸ hgc)
    rcases h.other t hcurrent hgc with heq | ⟨hblocked, hrunning⟩
    · rw [← heq]
      exact hlater
    · refine .inr ⟨hblocked, ?_⟩
      rcases hlater with heq | ⟨hblocked', -⟩
      · rw [heq]
        exact hrunning
      · -- it runs already
        rw [hrunning] at hblocked'
        cases hblocked'
  collector hne hrunning := by
    have hlater := h'.collector
    rw [h.garbageCollectorTask, h.currentTask] at hlater
    exact hlater hne (h.collector hne hrunning)

/-- Writing fields of the current task. -/
theorem setCurrent {value : OSTask} (hnext : value.next = (s.task s.currentTask).next) :
    Entered s (s.setTask s.currentTask value) where
  successor := successor_update_same hnext
  currentTask := rfl
  garbageCollectorTask := rfl
  other t hcurrent _ := .inl (setTask_ne _ _ hcurrent)
  collector hne hrunning := by
    rw [setTask_ne _ _ hne]
    exact hrunning

theorem awakened {processID : UInt32} (h : s.wakeup processID = some s₁) : Entered s s₁ := by
  obtain ⟨hrest, hawake, -⟩ := wakeup_awakened h
  constructor
  · exact hawake.successor_eq
  · rw [hrest]
  · rw [hrest]
  · intro t _ _
    rcases hawake.cases t with heq | ⟨hblocked, -, heq⟩
    · exact .inl heq
    · exact .inr ⟨hblocked, by rw [heq]⟩
  · intro _ hrunning
    rcases hawake.cases s.garbageCollectorTask with heq | ⟨hblocked, -, -⟩
    · rw [heq]
      exact hrunning
    · rw [hrunning] at hblocked
      cases hblocked

theorem signal (s : SchedulerState) : Entered s s.postGarbageCollectorSignal := by
  unfold postGarbageCollectorSignal
  split
  · exact .of_task rfl rfl rfl
  · constructor
    · exact successor_update_same rfl
    · rfl
    · rfl
    · exact fun t _ hgc => .inl (setTask_ne _ _ hgc)
    · intro _ _
      rw [setTask_same]

/-- A running task other than the current one runs on. -/
theorem running (h : Entered s s₁) {t : Nat} (hcurrent : t ≠ s.currentTask)
    (hrunning : (s.task t).taskState = .running) : (s₁.task t).taskState = .running := by
  by_cases hgc : t = s.garbageCollectorTask
  · subst hgc
    exact h.collector hcurrent hrunning
  · rcases h.other t hcurrent hgc with heq | ⟨-, hwoken⟩
    · rw [heq]
      exact hrunning
    · exact hwoken

end Entered

theorem Invariant.entry_dead {sp' : Nat} (h : s.Invariant ring) (hcurrent : s.currentTask ≠ s.garbageCollectorTask)
    (hentry : s.entry (.terminate sp) = some (s₁, sp')) : s₁.Invariant ring ∧ Entered s s₁ := by
  unfold entry at hentry
  obtain ⟨woken, hwakeup, heq⟩ := Option.map_eq_some_iff.mp hentry
  obtain ⟨rfl, -⟩ := Prod.mk.inj heq
  have hdead : (s.setCurrentState .dead).Invariant ring := h.setCurrent rfl rfl (.inr rfl) hcurrent
  have hstart : Entered s (s.setCurrentState .dead) := .setCurrent rfl
  exact ⟨(hdead.wakeup hwakeup).1.signal, (hstart.trans (.awakened hwakeup)).trans (.signal woken)⟩

/-- The first half of an action keeps the invariant. -/
theorem Sound.entry (h : s.Sound ring) {action : SchedulerAction} (hallowed : s.Allowed action)
    (hentry : s.entry action = some (s₁, sp)) : s₁.Invariant ring ∧ Entered s s₁ := by
  cases action with
  | tick sp' =>
    obtain ⟨rfl, -⟩ := Prod.mk.inj (Option.some.inj hentry)
    exact ⟨h.toInvariant, .of_task rfl rfl rfl⟩
  | spawn task stackBaseAddress entry owner isUser fixedUserStackPointer sp' =>
    rw [SchedulerState.entry] at hentry
    split at hentry
    · cases hentry
    · rename_i hcase
      rw [not_or, not_not] at hcase
      obtain ⟨rfl, -⟩ := Prod.mk.inj (Option.some.inj hentry)
      -- The task is allocated and kept for the retry, and the collector is woken up.
      have hspare := h.memory.spare (hallowed.2.1 hcase.1) (by decide)
      have hpend := @Sound.pend _ _ h ⟨task, entry, if owner = 0 then s.kernelProcess else owner,
        isUser, fixedUserStackPointer⟩ hspare
      obtain ⟨hsignal, hsame, hgc⟩ := hpend.signal hallowed.1.1
      refine ⟨hsignal.setCurrent rfl rfl (.inl hsignal.current_alive) ?_, ?_⟩
      · rw [hsame, hgc]
        exact hallowed.1.1
      · have hwaiting : Entered s ((s.heapAllocate task sizeofTask).setPending (some ⟨task, entry,
            if owner = 0 then s.kernelProcess else owner, isUser, fixedUserStackPointer⟩)) :=
          .of_task rfl rfl rfl
        exact hwaiting.trans ((Entered.signal _).trans (.setCurrent rfl))
  | spawnRetry stackBaseAddress => cases hentry
  | block processID sp' =>
    obtain ⟨rfl, -⟩ := Prod.mk.inj (Option.some.inj hentry)
    exact ⟨h.setCurrent rfl rfl (.inl h.current_alive) hallowed.1, .setCurrent rfl⟩
  | wakeup processID => cases hentry
  | yieldTask ticks sp' =>
    obtain ⟨rfl, -⟩ := Prod.mk.inj (Option.some.inj hentry)
    exact ⟨h.setCurrent rfl rfl (.inl h.current_alive) hallowed.1, .setCurrent rfl⟩
  | terminate sp' => exact h.toInvariant.entry_dead hallowed.1 hentry
  | fault sp' => exact h.toInvariant.entry_dead hallowed.1 (show s.entry (.terminate sp') = _ from hentry)
  | collect sp' =>
    rw [SchedulerState.entry] at hentry
    split at hentry
    · rename_i hpoint
      obtain ⟨rfl, -⟩ := Prod.mk.inj (Option.some.inj hentry)
      -- At the point where it yields the collector knows its own task.
      have hself := h.self
      simp only [hpoint, reduceCtorEq, false_or] at hself
      have hmoved : (s.setCollector { s.collector with point := .first }).Sound ring := by
        refine h.moveCollector ?_ (.inr hself) trivial
        simp [hpoint]
      exact ⟨hmoved.toInvariant, .of_task rfl rfl rfl⟩
    · cases hentry
  | setProcess address process => cases hentry
  | store address value => cases hentry

/-! ## Section 3: Actions that do not enter -/

/-- A task may have been put behind the current one. -/
def Grown (s s' : SchedulerState) : Prop :=
  successor s'.task = successor s.task ∨ ∃ task, task ∉ s.linked ∧
    successor s'.task = Function.update
      (Function.update (successor s.task) task (successor s.task s.currentTask)) s.currentTask task

/-- An action without a call leaves the current task, and all states and ticks. -/
structure Stayed (s s' : SchedulerState) : Prop where
  currentTask : s'.currentTask = s.currentTask
  grown : s.Grown s'
  task : ∀ t ∈ s.linked, (s.task t).Stays (s'.task t)

/-- Nothing happens to the tasks. -/
theorem Stayed.of_task (htask : s'.task = s.task) (hcurrent : s'.currentTask = s.currentTask) :
    Stayed s s' where
  currentTask := hcurrent
  grown := .inl (congrArg successor htask)
  task t _ := .inl (by rw [htask]; exact ⟨rfl, rfl⟩)

/-- Linking a task in from a state that has the same tasks. -/
theorem Stayed.link {s₀ : SchedulerState}
    {task stackBaseAddress entry owner fixedUserStackPointer : Nat} {isUser : Bool}
    (htask : s₀.task = s.task) (hsame : s₀.currentTask = s.currentTask)
    (hcurrent : s.currentTask ∈ s.linked) (hnew : task ∉ s.linked) :
    Stayed s (s₀.linkTask task stackBaseAddress entry owner isUser fixedUserStackPointer) := by
  have hne : task ≠ s₀.currentTask := by
    rw [hsame]
    exact fun heq => hnew (heq ▸ hcurrent)
  constructor
  · exact hsame
  · refine .inr ⟨task, hnew, ?_⟩
    rw [successor_linkTask hne, htask, hsame]
  · intro t ht
    rw [linkTask_old hne fun heq => hnew (heq ▸ ht), htask]
    exact .inl ⟨rfl, rfl⟩

theorem Stayed.awakened {processID : UInt32} (h : s.wakeup processID = some s') : Stayed s s' := by
  obtain ⟨hrest, hawake, -⟩ := wakeup_awakened h
  constructor
  · rw [hrest]
  · exact .inl hawake.successor_eq
  · intro t _
    rcases hawake.cases t with heq | ⟨hblocked, -, heq⟩
    · rw [heq]
      exact .inl ⟨rfl, rfl⟩
    · exact .inr ⟨hblocked, by rw [heq]⟩

/-- Every action but a statement of the collector enters `OSSchedulerNext` or stays. -/
theorem Sound.stayed (h : s.Sound ring) {action : SchedulerAction} (hstep : s.Step action s')
    (hentry : s.entry action = none) (hother : ∀ sp, action ≠ .collect sp) : Stayed s s' := by
  obtain ⟨hallowed, hact⟩ := hstep
  have hcurrent := h.mem_linked _ h.current_mem
  cases action with
  | tick sp => cases hentry
  | spawn task stackBaseAddress entry owner isUser fixedUserStackPointer sp =>
    rw [act, SchedulerState.spawn] at hact
    split at hact
    · cases hact
      exact .of_task rfl rfl
    rename_i htask0
    have hspare := h.memory.spare (hallowed.2.1 htask0) (by decide)
    split at hact
    · -- without a stack, the action enters
      rename_i hstack0
      unfold SchedulerState.entry at hentry
      simp [htask0, hstack0] at hentry
    · cases hact
      exact .link rfl rfl hcurrent fun hmem => hspare.unused (.structOf hmem) rfl
  | spawnRetry stackBaseAddress =>
    obtain ⟨call, hcall⟩ := Option.isSome_iff_exists.mp hallowed.2.1
    rw [act, hcall] at hact
    cases hact
    rw [SchedulerState.spawnRetry]
    split
    · exact .of_task rfl rfl
    · exact .link rfl rfl hcurrent fun hmem => (h.memory.unpend hcall).2.unused (.structOf hmem) rfl
  | block processID sp => cases hentry
  | wakeup processID =>
    rw [act, Option.map_eq_some_iff] at hact
    obtain ⟨woken, hwakeup, heq⟩ := hact
    cases heq
    exact .awakened hwakeup
  | yieldTask ticks sp => cases hentry
  | terminate sp =>
    rw [act, terminate_eq, hentry] at hact
    cases hact
  | fault sp =>
    rw [act, fault_eq_terminate, terminate_eq, show s.entry (.terminate sp) = _ from hentry] at hact
    cases hact
  | collect sp => exact absurd rfl (hother sp)
  | setProcess address process =>
    cases hact
    exact .of_task rfl rfl
  | store address value =>
    cases hact
    exact .of_task rfl rfl

/-- A statement of the collector before its yield changes no state of another task. -/
theorem collect_stays (hentry : s.entry (.collect sp) = none) (hcollect : s.collect sp = some (.ok s')) :
    s'.currentTask = s.currentTask ∧ s'.garbageCollectorTask = s.garbageCollectorTask ∧
      ∀ t, t ≠ s.currentTask → (s.task t).Stays (s'.task t) := by
  have hmove : ∀ t, t ≠ s.currentTask → (s.task t).Stays (s.task t) := fun t _ => .inl ⟨rfl, rfl⟩
  have hwrite : ∀ (value : OSTask) t, t ≠ s.currentTask →
      (s.task t).Stays ((s.setTask s.currentTask value).task t) := by
    intro value t ht
    rw [setTask_ne _ _ ht]
    exact .inl ⟨rfl, rfl⟩
  cases collected hcollect with
  | move collector => exact ⟨rfl, rfl, hmove⟩
  | unlink collector =>
    refine ⟨rfl, rfl, fun t _ => ?_⟩
    -- only a link changes
    show (s.task t).Stays (s.unlinkNext.task t)
    rw [unlinkNext_task]
    exact .inl ⟨rfl, rfl⟩
  | freeStack collector => exact ⟨rfl, rfl, hmove⟩
  | freeTask collector => exact ⟨rfl, rfl, hmove⟩
  | yieldTicks collector => exact ⟨rfl, rfl, hwrite _⟩
  | yieldState collector => exact ⟨rfl, rfl, hwrite _⟩
  | yieldSwitch hpoint hnext =>
    unfold SchedulerState.entry at hentry
    simp [hpoint] at hentry

/-- The collector's task is the same in every state. -/
theorem Sound.garbageCollectorTask_eq (h : s.Sound ring) {action : SchedulerAction}
    (hstep : s.Step action s') : s'.garbageCollectorTask = s.garbageCollectorTask := by
  by_cases hcollect : ∃ sp, action = .collect sp
  · obtain ⟨sp, rfl⟩ := hcollect
    cases hentry : s.entry (.collect sp) with
    | some entered =>
      obtain ⟨s₁, sp'⟩ := entered
      have hswitch := next_switched ((act_entry hentry).symm.trans hstep.2)
      exact (Quiet.switched hswitch).garbageCollectorTask.trans
        (h.entry hstep.1 hentry).2.garbageCollectorTask
    | none => exact (collect_stays hentry hstep.2).2.1
  · rw [not_exists] at hcollect
    exact (h.collector_eq hstep hcollect).2

/-- Only `OSSchedulerNext` changes the current task. -/
theorem Sound.currentTask_eq (h : s.Sound ring) {action : SchedulerAction} (hstep : s.Step action s')
    (hentry : s.entry action = none) : s'.currentTask = s.currentTask := by
  by_cases hcollect : ∃ sp, action = .collect sp
  · obtain ⟨sp, rfl⟩ := hcollect
    exact (collect_stays hentry hstep.2).1
  · rw [not_exists] at hcollect
    exact (h.stayed hstep hentry hcollect).currentTask

/-- A running task that is not current runs on. -/
theorem Sound.running_step (h : s.Sound ring) {action : SchedulerAction} (hstep : s.Step action s')
    {t : Nat} (ht : t ∈ s.linked) (hcurrent : t ≠ s.currentTask)
    (hrunning : (s.task t).taskState = .running) : (s'.task t).taskState = .running := by
  have hstays : (s.task t).Stays (s'.task t) → (s'.task t).taskState = .running := by
    rintro (⟨heq, -⟩ | ⟨-, hwoken⟩)
    · exact heq.trans hrunning
    · exact hwoken
  cases hentry : s.entry action with
  | some entered =>
    obtain ⟨s₁, sp⟩ := entered
    have hswitch := next_switched ((act_entry hentry).symm.trans hstep.2)
    have hrunning' := (h.entry hstep.1 hentry).2.running hcurrent hrunning
    rcases hswitch.state t with heq | ⟨-, hrun⟩
    · exact heq.trans hrunning'
    · exact hrun
  | none =>
    by_cases hcollect : ∃ sp, action = .collect sp
    · obtain ⟨sp, rfl⟩ := hcollect
      exact hstays ((collect_stays hentry hstep.2).2.2 t hcurrent)
    · rw [not_exists] at hcollect
      exact hstays ((h.stayed hstep hentry hcollect).task t ht)

end SchedulerState

end TermOS.OS
