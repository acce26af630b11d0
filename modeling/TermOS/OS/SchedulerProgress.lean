import TermOS.OS.SchedulerEntry

/-!
# The scheduler always finds a task

The idle task waits for interrupts and does nothing else. It stays on the ring and
runs on, so that `OSSchedulerNext` always ends with a task.

## Main Theorems

* `Idles.step` - every action keeps the idle task on the ring
* `always_finds_task` - no call of a task and no interrupt fails to end
-/

namespace TermOS.OS

open TermOS.Lib

/-! ## Section 1: Loops that end -/

/-- The wakeup loop ends at the current task. -/
theorem wakeupLoop_ok {currentTask : Nat} {processID : UInt32} {ys : List Nat} :
    ∀ {a fuel : Nat} {task : Nat → OSTask}, Links (successor task) a (a :: ys) currentTask →
      ys.length < fuel → ∃ task', wakeupLoop currentTask processID fuel task a = some task' := by
  -- Induction on the rest of the ring; the loop is at its first task.
  induction ys with
  | nil =>
    intro a fuel task hlinks hfuel
    obtain ⟨fuel, rfl⟩ : ∃ k, fuel = k + 1 := Nat.exists_eq_add_one.mpr hfuel
    have hnext : (task a).next = currentTask := hlinks.2
    rw [wakeupLoop]
    by_cases hwaits : (task a).taskState = .blocked ∧
        (task a).waitingForProcess = processID.toInt32
    · simp [hwaits, hnext]
    · simp [hwaits, hnext]
  | cons y ys ih =>
    intro a fuel task hlinks hfuel
    obtain ⟨fuel, rfl⟩ : ∃ k, fuel = k + 1 := Nat.exists_eq_add_one.mpr (by omega)
    obtain ⟨-, hnext, hrest⟩ := hlinks
    rw [wakeupLoop]
    simp only
    generalize hturn : (if (task a).taskState = .blocked ∧
        (task a).waitingForProcess = processID.toInt32 then
      Function.update task a { task a with taskState := .running, waitingForProcess := -1 }
      else task) = turn
    -- Waking a task changes no link.
    have hsame : successor turn = successor task := by
      rw [← hturn]
      split
      · exact successor_update_same rfl
      · rfl
    have hgo : (turn a).next = y := (congrFun hsame a).trans hnext
    rw [hgo]
    split
    · exact ⟨turn, rfl⟩
    · apply ih
      · rw [hsame]
        exact ⟨rfl, hrest⟩
      · simpa using hfuel

namespace SchedulerState

variable {s s' s₁ : SchedulerState} {ring : List Nat} {sp : Nat}

theorem Invariant.wakeup_ok (h : s.Invariant ring) (processID : UInt32) :
    ∃ s', s.wakeup processID = some s' := by
  obtain ⟨others, horder, -, hlength⟩ := h.turnOrder
  obtain ⟨task', hloop⟩ := @wakeupLoop_ok _ processID _ _ s.loopBound _ horder.1
    (Nat.lt_succ_of_lt hlength)
  exact ⟨{ s with task := task' }, by rw [SchedulerState.wakeup, hloop]; rfl⟩

/-- Dying always enters `OSSchedulerNext`. -/
theorem Sound.entry_terminate (h : s.Sound ring) (hcurrent : s.currentTask ≠ s.garbageCollectorTask) :
    s.entry (.terminate sp) ≠ none := by
  have hdead : (s.setCurrentState .dead).Invariant ring :=
    h.setCurrent rfl rfl (.inr rfl) hcurrent
  obtain ⟨woken, hwakeup⟩ := hdead.wakeup_ok (s.task s.currentTask).id
  unfold SchedulerState.entry
  simp [hwakeup]

/-- What does not enter `OSSchedulerNext` ends. -/
theorem Sound.act_ok (h : s.Sound ring) {action : SchedulerAction} (hallowed : s.Allowed action)
    (hentry : s.entry action = none) : ∃ s', s.act action = some (.ok s') := by
  -- By the action; those that enter `OSSchedulerNext` contradict `hentry`.
  cases action with
  | tick sp => cases hentry
  | spawn task stackBaseAddress entry owner isUser fixedUserStackPointer sp =>
    unfold SchedulerState.entry at hentry
    show ∃ s', s.spawn _ _ _ _ _ _ _ = some (.ok s')
    unfold SchedulerState.spawn
    by_cases htask : task = 0
    · exact ⟨s, by simp [htask]⟩
    -- Without a stack the spawn would give up the processor.
    · have hstack : stackBaseAddress ≠ 0 := by
        rintro rfl
        simp [htask] at hentry
      exact ⟨s.spawnTask task stackBaseAddress entry owner isUser fixedUserStackPointer,
        by simp [htask, hstack]⟩
  | spawnRetry stackBaseAddress =>
    obtain ⟨call, hcall⟩ := Option.isSome_iff_exists.mp hallowed.2.1
    exact ⟨s.spawnRetry call stackBaseAddress, by simp [act, hcall]⟩
  | block processID sp => cases hentry
  | wakeup processID =>
    obtain ⟨woken, hwakeup⟩ := h.wakeup_ok processID
    exact ⟨woken, by simp [act, hwakeup]⟩
  | yieldTask ticks sp => cases hentry
  | terminate sp => exact absurd hentry (h.entry_terminate hallowed.1)
  | fault sp => exact absurd (show s.entry (.terminate sp) = none from hentry) (h.entry_terminate hallowed.1)
  | collect sp =>
    unfold SchedulerState.entry at hentry
    show ∃ s', s.collect sp = some (.ok s')
    unfold SchedulerState.collect
    cases hpoint : s.collector.point with
    | yieldSwitch => simp [hpoint] at hentry
    | enter | first | second | test | check | unlink | freeStack | freeTask | reread | advance
    | follow | yieldTicks | yieldState =>
      simp [hpoint]
  | setProcess address process => exact ⟨_, rfl⟩
  | store address value => exact ⟨_, rfl⟩

end SchedulerState

/-! ## Section 2: The idle task -/

/-- The statements at which the collector has its two tasks in hand. -/
def CollectorPoint.Holds : CollectorPoint → Prop
  | .test | .check | .advance | .unlink => True
  | _ => False

namespace SchedulerState

variable {s s' s₁ : SchedulerState} {ring : List Nat} {sp idle : Nat}

/-- Neither the collector nor the idle task lies between the collector's two tasks. -/
def HoldsPast (s : SchedulerState) (idle : Nat) : Prop :=
  ∃ gap, Links (successor s.task) s.collector.previousTask (s.collector.previousTask :: gap)
    s.collector.nextTask ∧ s.garbageCollectorTask ∉ gap ∧ idle ∉ gap

/-- The idle task is on the ring and runs, and the collector does not pass over it. -/
structure Idles (s : SchedulerState) (ring : List Nat) (idle : Nat) : Prop where
  ne_collector : idle ≠ s.garbageCollectorTask
  mem : idle ∈ ring
  running : (s.task idle).taskState = .running
  gap : s.collector.point.Holds → s.HoldsPast idle

/-- What the collector has in hand is on the ring. -/
theorem Sound.previousTask_mem (h : s.Sound ring) (hholds : s.collector.point.Holds) :
    s.collector.previousTask ∈ ring := by
  have hat := h.collector
  cases hpoint : s.collector.point with
  | test =>
    rw [hpoint] at hat
    exact hat.1
  | check | advance | unlink =>
    rw [hpoint] at hat
    exact hat.1.1
  | _ =>
    rw [hpoint] at hholds
    exact hholds.elim

/-- Any action but a statement of the collector puts at most one task on the ring. -/
theorem Sound.grown (h : s.Sound ring) {action : SchedulerAction} (hstep : s.Step action s')
    (hother : ∀ sp, action ≠ .collect sp) : s.Grown s' := by
  cases hentry : s.entry action with
  | some entered =>
    obtain ⟨s₁, sp⟩ := entered
    have hswitch := next_switched ((act_entry hentry).symm.trans hstep.2)
    exact .inl (hswitch.successor_eq.trans (h.entry hstep.1 hentry).2.successor)
  | none => exact (h.stayed hstep hentry hother).grown

/-- A task that is put on the ring is neither the collector nor the idle task. -/
theorem Idles.gap_grown (h : s.Sound ring) (hidles : s.Idles ring idle) (hgrown : s.Grown s')
    (hcollector : s'.collector = s.collector)
    (hgc : s'.garbageCollectorTask = s.garbageCollectorTask) (hholds : s'.collector.point.Holds) :
    s'.HoldsPast idle := by
  rw [hcollector] at hholds
  obtain ⟨gap, hgap, hnotgc, hnotidle⟩ := hidles.gap hholds
  unfold HoldsPast
  rw [hcollector, hgc]
  rcases hgrown with hsame | ⟨task, hnew, hgrown⟩
  · rw [hsame]
    exact ⟨gap, hgap, hnotgc, hnotidle⟩
  · have hpassed : ∀ t ∈ s.collector.previousTask :: gap, t ∈ ring :=
      fun t ht => h.links.passed_mem (h.previousTask_mem hholds) hgap ht
    have hfresh : task ∉ ring := fun hmem => hnew (h.mem_linked task hmem)
    obtain ⟨gap', hlinks, hgap'⟩ := hgap.insert_behind (fun hmem => hfresh (hpassed task hmem))
      s.currentTask
    rw [hgrown]
    refine ⟨gap', hlinks, fun hmem => ?_, fun hmem => ?_⟩
    · rcases hgap' _ hmem with hold | heq
      · exact hnotgc hold
      · exact hfresh (heq ▸ h.collector_mem)
    · rcases hgap' _ hmem with hold | heq
      · exact hnotidle hold
      · exact hfresh (heq ▸ hidles.mem)

/-- The collector reads `nextTask` behind `previousTask`, with nothing between. -/
theorem holdsPast_of_next (hnext : successor s.task s.collector.previousTask = s.collector.nextTask) :
    s.HoldsPast idle :=
  ⟨[], ⟨rfl, hnext⟩, List.not_mem_nil, List.not_mem_nil⟩

/-- The collector's statements keep hold of what they have in hand. -/
theorem Idles.gap_collect (h : s.Sound ring) (hidles : s.Idles ring idle)
    (hcollect : s.collect sp = some (.ok s')) (hholds : s'.collector.point.Holds) :
    s'.HoldsPast idle := by
  have hgap := hidles.gap
  have hat := h.collector
  rw [SchedulerState.collect] at hcollect
  cases hpoint : s.collector.point with
  | second | reread =>
    simp only [hpoint] at hcollect
    obtain rfl := Except.ok.inj (Option.some.inj hcollect)
    exact holdsPast_of_next rfl
  | follow =>
    simp only [hpoint] at hcollect hat
    obtain rfl := Except.ok.inj (Option.some.inj hcollect)
    apply holdsPast_of_next
    show successor s.task s.collector.previousTask = _
    rw [hat.2]
    rfl
  | test | check =>
    rw [hpoint] at hgap
    simp only [hpoint] at hcollect
    obtain rfl := Except.ok.inj (Option.some.inj hcollect)
    exact hgap trivial
  | freeStack =>
    simp only [hpoint] at hcollect
    obtain rfl := Except.ok.inj (Option.some.inj hcollect)
    exact hholds.elim
  | yieldSwitch =>
    simp only [hpoint] at hcollect
    rw [(Quiet.switched (next_switched hcollect)).collector] at hholds
    exact hholds.elim
  | enter | first | unlink | freeTask | advance | yieldTicks | yieldState =>
    simp only [hpoint] at hcollect
    obtain rfl := Except.ok.inj (Option.some.inj hcollect)
    exact hholds.elim

/-- The collector unlinks what lies between its two tasks, and a dead task. -/
theorem Idles.mem_change (h : s.Sound ring) (hidles : s.Idles ring idle) {action : SchedulerAction}
    {ring' : List Nat} (hchange : RingChange s s' ring action ring') : idle ∈ ring' := by
  cases hchange with
  | same _ => exact hidles.mem
  | link _ _ _ => exact Links.mem_insertAfter.mpr (.inl hidles.mem)
  | @unlink sp front gap back hpoint hring _ =>
    have hat := h.collector
    have hgap := hidles.gap
    rw [hpoint] at hat hgap
    obtain ⟨between, hbetween, hnotgc, hnotidle⟩ := hgap trivial
    have hlinks := h.links
    have hnodup := h.nodup
    have hmem := hidles.mem
    rw [hring] at hlinks hnodup hmem
    -- what is unlinked is what the collector has passed over
    obtain ⟨_, -, rfl, hrest⟩ := Links.append_iff.mp hlinks
    obtain ⟨back', heq, -⟩ := hrest.prefix_of_notMem hbetween.2 hnotgc hat.2.1
    have hrest' := (List.nodup_cons.mp (List.nodup_append'.mp hnodup).2.1).2
    obtain ⟨-, hback, hapart⟩ := List.nodup_append'.mp hrest'
    have hnext : s.collector.nextTask ∉ gap := fun hin => hapart hin List.mem_cons_self
    have hnext' : s.collector.nextTask ∉ back := (List.nodup_cons.mp hback).1
    obtain ⟨rfl, -, -⟩ := (List.append_cons_inj_of_notMem hnext hnext').mp heq
    have hne : idle ≠ s.collector.nextTask := by
      rintro rfl
      exact hat.2.2 (by rw [Alive, hidles.running]; decide)
    simp only [List.mem_append, List.mem_cons] at hmem ⊢
    tauto
  | free _ _ => exact hidles.mem

/-- A step of the system: the idle task only waits for interrupts. -/
def IdleStep (idle : Nat) (s : SchedulerState) (action : SchedulerAction) (s' : SchedulerState) :
    Prop :=
  s.Step action s' ∧ (s.currentTask = idle → ∃ sp, action = .tick sp)

/-- Every action keeps the idle task on the ring and running. -/
theorem Idles.step (h : s.Sound ring) (hidles : s.Idles ring idle) {action : SchedulerAction}
    (hstep : IdleStep idle s action s') : ∃ ring', s'.Sound ring' ∧ s'.Idles ring' idle := by
  obtain ⟨hstep, hidle⟩ := hstep
  obtain ⟨ring', hsound, hchange⟩ := h.step hstep
  have hrunning : (s'.task idle).taskState = .running := by
    by_cases hcurrent : s.currentTask = idle
    · obtain ⟨sp, rfl⟩ := hidle hcurrent
      rcases (next_switched hstep.2).state idle with heq | ⟨-, hrunning⟩
      · exact heq.trans hidles.running
      · exact hrunning
    · exact h.running_step hstep (h.mem_linked _ hidles.mem) (Ne.symm hcurrent) hidles.running
  have hmem := hidles.mem_change h hchange
  by_cases hcollect : ∃ sp, action = .collect sp
  · obtain ⟨sp, rfl⟩ := hcollect
    have hgc := h.garbageCollectorTask_eq hstep
    exact ⟨ring', hsound, hgc ▸ hidles.ne_collector, hmem, hrunning, hidles.gap_collect h hstep.2⟩
  · rw [not_exists] at hcollect
    obtain ⟨hcollector, hgc⟩ := h.collector_eq hstep hcollect
    exact ⟨ring', hsound, hgc ▸ hidles.ne_collector, hmem, hrunning,
      hidles.gap_grown h (h.grown hstep hcollect) hcollector hgc⟩

/-- With the idle task on the ring, every call and every interrupt ends. -/
theorem Idles.act_ok (h : s.Sound ring) (hidles : s.Idles ring idle) {action : SchedulerAction}
    (hallowed : s.Allowed action) (hidle : s.currentTask = idle → ∃ sp, action = .tick sp) :
    ∃ s', s.act action = some (.ok s') := by
  cases hentry : s.entry action with
  | none => exact h.act_ok hallowed hentry
  | some entered =>
    obtain ⟨s₁, sp⟩ := entered
    obtain ⟨hinvariant, hentered⟩ := h.entry hallowed hentry
    obtain ⟨others, horder, hmem, hlength⟩ := hinvariant.turnOrder
    rw [act_entry hentry]
    by_cases hcurrent : s.currentTask = idle
    · -- an interrupt of the idle task, which could run on
      obtain ⟨sp', rfl⟩ := hidle hcurrent
      obtain ⟨rfl, -⟩ := Prod.mk.inj (Option.some.inj hentry)
      have hother : s.garbageCollectorTask ∈ others := by
        rcases List.mem_cons.mp ((hmem _).mpr h.collector_mem) with heq | hin
        · exact absurd (hcurrent.symm.trans heq.symm) hidles.ne_collector
        · exact hin
      exact next_ok horder (List.ne_nil_of_mem hother) hlength (.inr (hcurrent ▸ hidles.running))
    · have hother : idle ∈ others := by
        rcases List.mem_cons.mp ((hmem _).mpr hidles.mem) with heq | hin
        · exact absurd (heq.trans hentered.currentTask).symm hcurrent
        · exact hin
      have hrunning := hentered.running (Ne.symm hcurrent) hidles.running
      exact next_ok horder (List.ne_nil_of_mem hother) hlength (.inl ⟨idle, hother, .inl hrunning⟩)

end SchedulerState

/-! ## Section 3: Every run -/

open SchedulerState

namespace SchedulerBoot

variable {boot : SchedulerBoot}

/-- `OSSchedulerInitialize` starts the idle task. -/
theorem start_idles (h : boot.Valid) : boot.start.Idles boot.ring boot.idleTask := by
  have hnodup := (start_sound h).nodup
  simp only [ring, List.nodup_cons, List.mem_cons, List.not_mem_nil, or_false, not_or] at hnodup
  constructor
  · exact Ne.symm hnodup.1.1
  · exact List.mem_cons_of_mem _ List.mem_cons_self
  · have hidle : (boot.withIdle.task boot.idleTask).taskState = .running := by
      show ((linkTask _ _ _ _ _ _ _).task boot.idleTask).taskState = _
      rw [linkTask_new]
      · rfl
      · exact hnodup.2.1
    show ((linkTask _ _ _ _ _ _ _).task boot.idleTask).taskState = _
    rw [linkTask_old]
    · exact hidle
    · exact hnodup.1.2
    · exact Ne.symm hnodup.1.1
  · intro hholds
    exact hholds.elim

end SchedulerBoot

/-- In every state of every run, each call of a task, each statement of the collector
and each interrupt ends: the loops of `OSSchedulerNext` come to an end, and it finds a
task to run. -/
theorem always_finds_task {boot : SchedulerBoot} (h : boot.Valid) {actions : List SchedulerAction}
    {s : SchedulerState} (htrace : Trace (IdleStep boot.idleTask) boot.start actions s)
    {action : SchedulerAction} (hallowed : s.Allowed action)
    (hidle : s.currentTask = boot.idleTask → ∃ sp, action = .tick sp) :
    ∃ s', s.act action = some (.ok s') := by
  have hkeep : ∀ (s : SchedulerState) action (s' : SchedulerState),
      (∃ ring, s.Sound ring ∧ s.Idles ring boot.idleTask) → IdleStep boot.idleTask s action s' →
        ∃ ring, s'.Sound ring ∧ s'.Idles ring boot.idleTask := by
    rintro s action s' ⟨ring, hsound, hidles⟩ hstep
    exact hidles.step hsound hstep
  obtain ⟨ring, hsound, hidles⟩ := htrace.invariant hkeep
    ⟨_, SchedulerBoot.start_sound h, SchedulerBoot.start_idles h⟩
  exact hidles.act_ok hsound hallowed hidle

/-- A task sleeps and the kernel's own task dies: the next interrupt still finds a task. -/
theorem always_finds_task_idle : ∃ s, Trace (IdleStep exampleBoot.idleTask) exampleBoot.start
    [.spawn 0x100c0 0x40000 0x400 0x108 true 0x70000000 0, .terminate 1, .yieldTask 9 2] s ∧
      ∃ s', s.act (.tick 3) = some (.ok s') := by
  have hrun : ((perform (fun s action => action.isTick ||
      decide (s.currentTask ≠ exampleBoot.idleTask)) exampleBoot.start
      [.spawn 0x100c0 0x40000 0x400 0x108 true 0x70000000 0, .terminate 1, .yieldTask 9 2]).any
        fun _ => true) = true := by
    decide +kernel
  have hidle : ∀ s action s', Step s action s' →
      (action.isTick || decide (s.currentTask ≠ exampleBoot.idleTask)) = true →
        IdleStep exampleBoot.idleTask s action s' := by
    intro s action s' hstep htest
    refine ⟨hstep, fun hcurrent => ?_⟩
    cases action with
    | tick sp => exact ⟨sp, rfl⟩
    | _ => simp [hcurrent, SchedulerAction.isTick] at htest
  obtain ⟨s, htrace, -⟩ := exists_trace hidle hrun
  exact ⟨s, htrace, always_finds_task exampleBoot_valid htrace trivial fun _ => ⟨3, rfl⟩⟩

end TermOS.OS
