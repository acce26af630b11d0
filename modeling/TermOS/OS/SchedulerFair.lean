import TermOS.OS.SchedulerEntry

/-!
# Round robin

The calls of the tasks, interrupts, and a collector that takes a dead task off the
ring in one step. Between two turns of a task, every other task that can run gets one:
as long as it waits for its turn, it comes before that task in the order of turns.

## Main Theorems

* `RoundSound.selects` - every call of `OSSchedulerNext` selects the first task that is due
* `Waits.step` - no step puts a task before one that waits for its turn
* `round_robin` - both, in every run
-/

namespace TermOS.OS

open TermOS.Lib

/-- What can happen next, with the collector's work on one dead task as one step. -/
inductive RoundAction
  /-- A call of a task, or an interrupt. -/
  | call (action : SchedulerAction)
  /-- `OSSchedulerYield(200)` of the collector. -/
  | collectorYield (sp : Nat)
  /-- The collector removes the task behind `previousTask`. -/
  | remove (previousTask : Nat)

/-- The action allocates this task structure. -/
def RoundAction.Allocates : RoundAction → Nat → Prop
  | .call action, t => action.Allocates t
  | _, _ => False

namespace SchedulerState

/-! ## Section 1: Steps -/

section Steps

variable (s : SchedulerState)

/-- The task is reached from the current one. -/
def OnRing (t : Nat) : Prop := ∃ passed, Links (successor s.task) s.currentTask passed t

/-- The collector's statements from `previousTask->next = nextTask->next` on to
`VMHeapFree(nextTask)`, for the task behind `previousTask`. -/
def removeNext (previousTask : Nat) : SchedulerState :=
  let held := s.setCollector
    ⟨.unlink, s.garbageCollectorTask, previousTask, successor s.task previousTask⟩
  let unlinked := held.unlinkNext.setCollector { held.collector with point := .freeStack }
  let base := (unlinked.task unlinked.collector.nextTask).kernelStackBase
  let stackFreed := (if base ≠ 0 then unlinked.collectorFree base else unlinked).setCollector
    { unlinked.collector with point := .freeTask }
  stackFreed.freeNext.setCollector s.collector

/-- The state in which an action enters `OSSchedulerNext`. -/
def roundEntry : RoundAction → Option (SchedulerState × Nat)
  | .call action => s.entry action
  | .collectorYield sp => some (s.fallAsleep 200, sp)
  | .remove _ => none

/-- One action of such a run. -/
def RoundStep : RoundAction → SchedulerState → Prop
  | .call action, s' => (∀ sp, action ≠ .collect sp) ∧ s.Step action s'
  | .collectorYield sp, s' =>
    s.currentTask = s.garbageCollectorTask ∧ s.yieldTask 200 sp = some (.ok s')
  | .remove previousTask, s' =>
    s.currentTask = s.garbageCollectorTask ∧ s.OnRing previousTask ∧
      successor s.task previousTask ≠ s.garbageCollectorTask ∧
      ¬ s.Alive (successor s.task previousTask) ∧ s' = s.removeNext previousTask

end Steps

variable {s s' s₁ : SchedulerState} {ring others : List Nat} {sp : Nat}

theorem OnRing.mem (h : s.Invariant ring) {t : Nat} (ht : s.OnRing t) : t ∈ ring := by
  obtain ⟨passed, hpassed⟩ := ht
  exact h.links.reached_mem h.current_mem hpassed

/-- The removal is three statements of the collector, one after the other. -/
theorem removeNext_collect (previousTask : Nat) : ∃ s₁ s₂ s₃,
    (s.setCollector ⟨.unlink, s.garbageCollectorTask, previousTask,
      successor s.task previousTask⟩).collect sp = some (.ok s₁) ∧
    s₁.collect sp = some (.ok s₂) ∧ s₂.collect sp = some (.ok s₃) ∧
    s.removeNext previousTask = s₃.setCollector s.collector := by
  exact ⟨_, _, _, rfl, rfl, rfl, rfl⟩

/-- A removal writes one link. -/
theorem removeNext_task (previousTask : Nat) : (s.removeNext previousTask).task =
    Function.update s.task previousTask { s.task previousTask with
      next := (s.task (successor s.task previousTask)).next } := by
  unfold removeNext
  simp only
  split
  · rfl
  · rfl

/-- A removal keeps who runs, and forgets one task. -/
theorem removeNext_fields (previousTask : Nat) :
    (s.removeNext previousTask).currentTask = s.currentTask ∧
    (s.removeNext previousTask).garbageCollectorTask = s.garbageCollectorTask ∧
    (s.removeNext previousTask).collector = s.collector ∧
    (s.removeNext previousTask).pending = s.pending ∧
    (s.removeNext previousTask).linked =
      s.linked.filter fun task => task ≠ successor s.task previousTask := by
  unfold removeNext
  simp only
  split
  · exact ⟨rfl, rfl, rfl, rfl, rfl⟩
  · exact ⟨rfl, rfl, rfl, rfl, rfl⟩

theorem removeNext_state (previousTask t : Nat) :
    ((s.removeNext previousTask).task t).taskState = (s.task t).taskState := by
  rw [removeNext_task]
  by_cases ht : t = previousTask
  · simp [ht]
  · simp [ht]

/-! ## Section 2: The invariant -/

/-- What holds between two actions. -/
structure RoundSound (s : SchedulerState) (ring : List Nat) : Prop extends s.Sound ring where
  point : s.collector.point = .enter
  current_running : (s.task s.currentTask).taskState = .running

/-- The collector removes a dead task behind another task of the ring. -/
theorem RoundSound.removeNext (h : s.RoundSound ring) {previousTask : Nat}
    (hcurrent : s.currentTask = s.garbageCollectorTask) (hprevious : previousTask ∈ ring)
    (hne : successor s.task previousTask ≠ s.garbageCollectorTask)
    (hdead : ¬ s.Alive (successor s.task previousTask)) :
    ∃ ring', (s.removeNext previousTask).Sound ring' := by
  have hpoint := h.point
  have hheld : (s.setCollector ⟨.unlink, s.garbageCollectorTask, previousTask,
      successor s.task previousTask⟩).Sound ring := by
    refine h.moveCollector ?_ (.inr rfl) ⟨⟨hprevious, [], ⟨rfl, rfl⟩, by simp⟩, hne, hdead⟩
    simp [hpoint]
  -- the three statements
  obtain ⟨_, hunlinked, -⟩ := @Sound.collect _ _ _ 0 hheld hcurrent rfl
  obtain ⟨_, hstackFreed, -⟩ := @Sound.collect _ _ _ 0 hunlinked hcurrent rfl
  have hcurrent' : ∀ {base : Nat} {s₁ : SchedulerState}, s₁.currentTask = s₁.garbageCollectorTask →
      (if base ≠ 0 then s₁.collectorFree base else s₁).currentTask =
        (if base ≠ 0 then s₁.collectorFree base else s₁).garbageCollectorTask := by
    intro base s₁ heq
    split
    · exact heq
    · exact heq
  obtain ⟨ring', hfreed, -⟩ := @Sound.collect _ _ _ 0 hstackFreed (hcurrent' hcurrent) rfl
  refine ⟨ring', hfreed.moveCollector ?_ (.inl hpoint) ?_⟩
  · exact CollectorPoint.noConfusion
  · rw [hpoint]
    trivial

/-- The collector falls asleep on the ring. -/
theorem Sound.fallAsleep (h : s.Sound ring) (ticks : Nat) : (s.fallAsleep ticks).Invariant ring := by
  have hquiet : Quiet s (s.fallAsleep ticks) := .setTask rfl rfl (.inl h.current_alive)
  apply hquiet.invariant h.toInvariant h.current_mem
  show Alive _ s.garbageCollectorTask
  by_cases hgc : s.garbageCollectorTask = s.currentTask
  · rw [hgc, Alive, SchedulerState.fallAsleep, setTask_same]
    exact OSProcessState.noConfusion
  · rw [Alive, SchedulerState.fallAsleep, setTask_ne _ _ hgc]
    exact h.collector_alive

/-- The first half of an action, and its call. -/
theorem RoundSound.entered (h : s.RoundSound ring) {action : RoundAction}
    (hstep : s.RoundStep action s') (hentry : s.roundEntry action = some (s₁, sp)) :
    s₁.next sp = some (.ok s') ∧ s₁.Invariant ring ∧ Entered s s₁ := by
  cases action with
  | call action =>
    obtain ⟨-, hallowed, hact⟩ := hstep
    exact ⟨(act_entry hentry).symm.trans hact, h.entry hallowed hentry⟩
  | collectorYield sp' =>
    obtain ⟨rfl, rfl⟩ := Prod.mk.inj (Option.some.inj hentry)
    exact ⟨hstep.2, h.toSound.fallAsleep 200, .setCurrent rfl⟩
  | remove previousTask => cases hentry

theorem RoundSound.step (h : s.RoundSound ring) {action : RoundAction}
    (hstep : s.RoundStep action s') : ∃ ring', s'.RoundSound ring' := by
  cases action with
  | call action =>
    obtain ⟨hother, hstep⟩ := hstep
    obtain ⟨ring', hsound, -⟩ := h.toSound.step hstep
    have hpoint := (h.toSound.collector_eq hstep hother).1
    refine ⟨ring', hsound, by rw [hpoint, h.point], ?_⟩
    -- A call that enters `OSSchedulerNext` ends in a running task; no other call stops one.
    cases hentry : s.entry action with
    | some entered =>
      obtain ⟨s₁, sp'⟩ := entered
      exact (next_switched ((act_entry hentry).symm.trans hstep.2)).running
    | none =>
      have hstayed := h.toSound.stayed hstep hentry hother
      rw [hstayed.currentTask]
      rcases hstayed.task _ (h.mem_linked _ h.current_mem) with ⟨heq, -⟩ | ⟨-, hrunning⟩
      · exact heq.trans h.current_running
      · exact hrunning
  | collectorYield sp' =>
    have hnext : (s.fallAsleep 200).next sp' = some (.ok s') := hstep.2
    have hinvariant := h.toSound.fallAsleep 200
    have hpoint := (Quiet.switched (next_switched hnext)).collector
    refine ⟨ring, hinvariant.next hnext, ?_, (next_switched hnext).running⟩
    rw [hpoint]
    exact h.point
  | remove previousTask =>
    obtain ⟨hcurrent, hprevious, hne, hdead, rfl⟩ := hstep
    obtain ⟨ring', hsound⟩ := h.removeNext hcurrent (hprevious.mem h.toInvariant) hne hdead
    obtain ⟨hsame, -, hcollector, -, -⟩ := @removeNext_fields s previousTask
    refine ⟨ring', hsound, by rw [hcollector, h.point], ?_⟩
    rw [hsame, removeNext_state]
    exact h.current_running

/-- Every call selects the first task that is due after the current one. -/
theorem RoundSound.selects (h : s.RoundSound ring) {action : RoundAction}
    (hstep : s.RoundStep action s') (hentry : s.roundEntry action = some (s₁, sp)) :
    ∃ others, s₁.TurnOrder others ∧ s₁.Selects others s' := by
  obtain ⟨hnext, hinvariant, hentered⟩ := h.entered hstep hentry
  obtain ⟨others, horder, hmem, hlength⟩ := hinvariant.turnOrder
  refine ⟨others, horder, next_selects horder hlength (fun halone hsleeping => ?_) hnext⟩
  -- by itself, the collector sleeps long
  have hgc : s.currentTask = s.garbageCollectorTask := by
    have hin := (hmem _).mpr hinvariant.collector_mem
    rw [halone, List.mem_singleton, hentered.garbageCollectorTask, hentered.currentTask] at hin
    exact hin.symm
  cases action with
  | call action =>
    obtain ⟨hother, hallowed, -⟩ := hstep
    cases action with
    | tick sp' =>
      obtain ⟨rfl, -⟩ := Prod.mk.inj (Option.some.inj hentry)
      rw [h.current_running] at hsleeping
      cases hsleeping
    | spawn => exact absurd hgc hallowed.1.1
    | spawnRetry => cases hentry
    | block | yieldTask | terminate | fault => exact absurd hgc hallowed.1
    | wakeup => cases hentry
    | collect sp' => exact absurd rfl (hother sp')
    | setProcess => cases hentry
    | store => cases hentry
  | collectorYield sp' =>
    obtain ⟨rfl, -⟩ := Prod.mk.inj (Option.some.inj hentry)
    show 2 < ((s.fallAsleep 200).task s.currentTask).sleepTicks
    unfold SchedulerState.fallAsleep
    rw [setTask_same]
    exact Nat.lt_of_sub_eq_succ rfl
  | remove previousTask => cases hentry

/-! ## Section 3: The order of turns -/

/-- After a call, the turns begin behind the task that was selected. -/
theorem TurnOrder.selects (horder : s.TurnOrder others) (hsuccessor : successor s'.task = successor s.task)
    {front back : List Nat} (hothers : others = front ++ s'.currentTask :: back) :
    s'.TurnOrder (back ++ s.currentTask :: front) := by
  obtain ⟨hlinks, hnodup⟩ := horder
  rw [hothers, ← List.cons_append] at hlinks hnodup
  unfold TurnOrder
  rw [hsuccessor]
  exact ⟨hlinks.rotate, List.nodup_append_comm.mp hnodup⟩

/-- A task that is put on the ring comes first. -/
theorem TurnOrder.grown (horder : s.TurnOrder others) (hgrown : s.Grown s')
    (hcurrent : s'.currentTask = s.currentTask) (hlinked : ∀ t ∈ s.currentTask :: others, t ∈ s.linked) :
    ∃ new, s'.TurnOrder (new ++ others) := by
  obtain ⟨hlinks, hnodup⟩ := horder
  rcases hgrown with hsame | ⟨task, hnew, hgrown⟩
  · refine ⟨[], ?_⟩
    unfold TurnOrder
    rw [hsame, hcurrent]
    exact ⟨hlinks, hnodup⟩
  · have hfresh : task ∉ s.currentTask :: others := fun hmem => hnew (hlinked task hmem)
    have hinsert := hlinks.insert hfresh s.currentTask
    have hothers : Links.insertAfter s.currentTask task others = others :=
      Links.insertAfter_of_notMem (List.nodup_cons.mp hnodup).1
    rw [Links.insertAfter_cons_same, hothers] at hinsert
    refine ⟨[task], ?_⟩
    unfold TurnOrder
    rw [hgrown, hcurrent]
    refine ⟨hinsert, ?_⟩
    obtain ⟨hnot, hrest⟩ := List.nodup_cons.mp hnodup
    rw [List.mem_cons, not_or] at hfresh
    simp only [List.cons_append, List.nil_append, List.nodup_cons, List.mem_cons, not_or]
    exact ⟨⟨Ne.symm hfresh.1, hnot⟩, hfresh.2, hrest⟩

/-- A task that is removed is taken out of the order. -/
theorem TurnOrder.removeNext (horder : s.TurnOrder others) {previousTask : Nat}
    (hprevious : previousTask ∈ s.currentTask :: others)
    (hne : successor s.task previousTask ≠ s.currentTask) :
    ∃ front back, others = front ++ successor s.task previousTask :: back ∧
      (s.removeNext previousTask).TurnOrder (front ++ back) := by
  obtain ⟨hlinks, hnodup⟩ := horder
  obtain ⟨xs, ys, hsplit⟩ := List.append_of_mem hprevious
  have hsuccessor : successor (s.removeNext previousTask).task = Function.update (successor s.task)
      previousTask (successor s.task (successor s.task previousTask)) := by
    rw [removeNext_task, successor_update]
    rfl
  have hcurrent := (@removeNext_fields s previousTask).1
  -- The task that is removed is not the current one, so it stands behind `previousTask`.
  obtain ⟨zs, rfl⟩ : ∃ zs, ys = successor s.task previousTask :: zs := by
    rw [hsplit] at hlinks
    obtain ⟨_, -, -, hys⟩ := Links.append_iff.mp hlinks
    cases ys with
    | nil => exact absurd hys hne
    | cons y ys =>
      obtain rfl : successor s.task previousTask = y := hys.1
      exact ⟨ys, rfl⟩
  have hbypass : Links (successor (s.removeNext previousTask).task) s.currentTask
      (xs ++ previousTask :: zs) s.currentTask := by
    rw [hsplit] at hlinks hnodup
    rw [hsuccessor]
    exact @Links.bypass _ _ _ _ _ _ previousTask _ [] zs hlinks hnodup
  have hsublist : (xs ++ previousTask :: zs).Nodup := by
    rw [hsplit] at hnodup
    exact (Links.bypass_sublist xs previousTask _ [] zs).nodup hnodup
  unfold TurnOrder
  rw [hcurrent]
  -- The task before it is the current one, or one of the others.
  cases xs with
  | nil =>
    obtain ⟨rfl, rfl⟩ := List.cons.inj hsplit
    exact ⟨[], zs, rfl, hbypass, hsublist⟩
  | cons x xs =>
    obtain ⟨rfl, rfl⟩ := List.cons.inj hsplit
    refine ⟨xs ++ [previousTask], zs, by simp, ?_, ?_⟩
    · simpa using hbypass
    · simpa using hsublist

theorem TurnOrder.onRing (horder : s.TurnOrder others) {t : Nat} (ht : t ∈ s.currentTask :: others) :
    s.OnRing t := by
  obtain ⟨front, back, hsplit⟩ := List.append_of_mem ht
  have hlinks := horder.1
  rw [hsplit] at hlinks
  obtain ⟨_, hfront, rfl, -⟩ := Links.append_iff.mp hlinks
  exact ⟨front, hfront⟩

theorem TurnOrder.mem_of_onRing (horder : s.TurnOrder others) {t : Nat} (ht : s.OnRing t) :
    t ∈ s.currentTask :: others := by
  obtain ⟨passed, hpassed⟩ := ht
  exact horder.1.reached_mem List.mem_cons_self hpassed

theorem Sound.onRing (h : s.Sound ring) {t : Nat} (ht : t ∈ ring) : s.OnRing t := by
  obtain ⟨others, horder, hmem, -⟩ := h.toInvariant.turnOrder
  exact horder.onRing ((hmem t).mpr ht)

/-! ## Section 4: Waiting for a turn -/

section Before

variable {y x z : Nat} {front back : List Nat}

/-- What comes before another task comes behind what it is not among. -/
theorem before_of_notMem (hy : y ∉ front) (h : [y, x].Sublist (front ++ back)) :
    [y, x].Sublist back := by
  induction front with
  | nil => exact h
  | cons f front ih =>
    rw [List.mem_cons, not_or] at hy
    cases h with
    | cons _ hrest => exact ih hy.2 hrest
    | cons_cons _ hrest => exact absurd rfl hy.1

/-- Taking out a third task keeps what comes before what. -/
theorem before_remove (hy : y ≠ z) (hx : x ≠ z) (h : [y, x].Sublist (front ++ z :: back)) :
    [y, x].Sublist (front ++ back) := by
  have hfilter := h.filter fun t => t ≠ z
  simp only [List.filter_append, ne_eq, not_true_eq_false, decide_false, Bool.false_eq_true,
    not_false_eq_true, List.filter_cons_of_neg, hy, hx, decide_true, List.filter_cons_of_pos,
    List.filter_nil] at hfilter
  exact hfilter.trans (List.filter_sublist.append List.filter_sublist)

end Before

/-- The task is on the ring and can run. -/
def StaysOn (s : SchedulerState) (t : Nat) : Prop := s.OnRing t ∧ (s.task t).taskState = .running

/-- Task `y` has its turn before `x`, or `x` has no more turns. -/
def Waits (s : SchedulerState) (x y : Nat) : Prop :=
  s.Gone x ∨ ∃ others, s.TurnOrder others ∧ [y, x].Sublist (others ++ [s.currentTask])

/-- The current task has the last turn. -/
theorem TurnOrder.ne_current (horder : s.TurnOrder others) {x y : Nat}
    (hbefore : [y, x].Sublist (others ++ [s.currentTask])) : y ≠ s.currentTask := by
  rintro rfl
  have hshort := before_of_notMem (List.nodup_cons.mp horder.2).1 hbefore
  have hlength := hshort.length_le
  simp at hlength

/-- A call that passes over `y` selects no task behind it. -/
theorem TurnOrder.before_selects (horder : s.TurnOrder others) {x y : Nat}
    (hbefore : [y, x].Sublist (others ++ [s.currentTask])) (hselects : s.Selects others s')
    (hsuccessor : successor s'.task = successor s.task) (hdue : s.Due y) (hne : s'.currentTask ≠ y) :
    s'.currentTask ≠ x ∧
      ∃ others', s'.TurnOrder others' ∧ [y, x].Sublist (others' ++ [s'.currentTask]) := by
  rcases hselects.selected with ⟨front, back, hothers, -, hfront⟩ | ⟨-, -, hnone⟩
  · have hturns := horder.selects hsuccessor hothers
    have hnotMem : y ∉ front ++ [s'.currentTask] := by
      rw [List.mem_append, List.mem_singleton, not_or]
      exact ⟨fun hmem => hfront y hmem hdue, Ne.symm hne⟩
    have hlater : [y, x].Sublist (back ++ [s.currentTask]) := by
      apply before_of_notMem hnotMem
      rw [hothers] at hbefore
      simpa using hbefore
    refine ⟨?_, _, hturns, ?_⟩
    · -- the selected task lies before all that come after `y`
      rintro rfl
      have hmem : s'.currentTask ∈ back ++ [s.currentTask] := hlater.subset (by simp)
      have hnot := (List.nodup_cons.mp hturns.2).1
      simp only [List.mem_append, List.mem_cons] at hmem hnot
      tauto
    · apply hlater.trans
      rw [List.append_assoc]
      apply List.Sublist.append_left
      exact List.singleton_sublist.mpr List.mem_cons_self
  · -- nobody else was due, but `y` was
    have hnotMem : y ∉ others := fun hmem => hnone y hmem hdue
    have hlength := (before_of_notMem hnotMem hbefore).length_le
    simp at hlength

/-- A task without turns gets none. -/
theorem RoundSound.gone_step (h : s.RoundSound ring) {action : RoundAction}
    (hstep : s.RoundStep action s') {t : Nat} (hgone : s.Gone t) (hallocates : ¬ action.Allocates t) :
    s'.Gone t := by
  cases action with
  | call action => exact h.toSound.gone_step hstep.2 hgone hallocates
  | collectorYield sp' =>
    have hstart : Quiet s (s.fallAsleep 200) := .setTask rfl rfl (.inl h.current_alive)
    have hnext : (s.fallAsleep 200).next sp' = some (.ok s') := hstep.2
    have hquiet := hstart.trans (.switched (next_switched hnext))
    unfold Gone at hgone ⊢
    rw [hquiet.linked, hquiet.pending]
    exact hgone.imp_left (And.imp_right (hquiet.dead t))
  | remove previousTask =>
    obtain ⟨-, -, -, -, rfl⟩ := hstep
    obtain ⟨-, -, -, hpending, hlinked⟩ := @removeNext_fields s previousTask
    -- no pending call has the structure of a task that is linked
    have hfree : ∀ caller call, s.pending caller = some call → call.task ≠ t := by
      rcases hgone with ⟨hmem, -⟩ | ⟨-, hfree⟩
      · rintro caller call hcall rfl
        exact BlockUse.noConfusion (h.memory.unique (.pendingOf hcall) (.structOf hmem))
      · exact hfree
    unfold Gone
    rw [hlinked, hpending, Alive, removeNext_state]
    by_cases hmem : t ∈ s.linked.filter fun task => task ≠ successor s.task previousTask
    · rcases hgone with ⟨-, hdead⟩ | ⟨hnot, -⟩
      · exact .inl ⟨hmem, hdead⟩
      · exact absurd (List.mem_of_mem_filter hmem) hnot
    · exact .inr ⟨hmem, hfree⟩

/-- The task that is removed gets no more turns. -/
theorem RoundSound.gone_remove (h : s.RoundSound ring) {previousTask : Nat}
    (hprevious : previousTask ∈ ring) :
    (s.removeNext previousTask).Gone (successor s.task previousTask) := by
  have hmem := h.mem_linked _ (h.links.next_mem hprevious)
  obtain ⟨-, -, -, hpending, hlinked⟩ := @removeNext_fields s previousTask
  refine .inr ⟨?_, ?_⟩
  · rw [hlinked]
    simp
  · rw [hpending]
    rintro caller call hcall heq
    rw [← heq] at hmem
    exact BlockUse.noConfusion (h.memory.unique (.pendingOf hcall) (.structOf hmem))

/-- No action puts a task before one that can run and waits for its turn. -/
theorem Waits.step (h : s.RoundSound ring) {action : RoundAction} (hstep : s.RoundStep action s')
    {x y : Nat} (hallocates : ¬ action.Allocates x) (hstays : s.StaysOn y) (hwaits : s.Waits x y) :
    ((s.roundEntry action).isSome → s'.currentTask ≠ y → s'.currentTask ≠ x ∧ s'.Waits x y) ∧
      (s.roundEntry action = none → s'.Waits x y) := by
  rcases hwaits with hgone | ⟨others, horder, hbefore⟩
  · have hgone' := h.gone_step hstep hgone hallocates
    obtain ⟨ring', hsound⟩ := h.step hstep
    exact ⟨fun _ _ => ⟨hsound.toSound.ne_of_gone hgone', .inl hgone'⟩, fun _ => .inl hgone'⟩
  constructor
  · intro hentry hne
    obtain ⟨⟨s₁, sp⟩, hentry⟩ := Option.isSome_iff_exists.mp hentry
    obtain ⟨hnext, -, hentered⟩ := h.entered hstep hentry
    obtain ⟨others', horder', hselects⟩ := h.selects hstep hentry
    -- the first half of the action has not changed the order
    have hsame : s₁.TurnOrder others := by
      unfold TurnOrder
      rw [hentered.successor, hentered.currentTask]
      exact horder
    obtain rfl := hsame.unique horder'
    have hdue : s₁.Due y := .inl (hentered.running (horder.ne_current hbefore) hstays.2)
    rw [← hentered.currentTask] at hbefore
    obtain ⟨hnotx, hlater⟩ := horder'.before_selects hbefore hselects
      (next_switched hnext).successor_eq hdue hne
    exact ⟨hnotx, .inr hlater⟩
  · intro hentry
    cases action with
    | call action =>
      have hstayed := h.toSound.stayed hstep.2 hentry hstep.1
      obtain ⟨new, hturns⟩ := horder.grown hstayed.grown hstayed.currentTask fun t ht =>
        h.mem_linked t (OnRing.mem h.toInvariant (horder.onRing ht))
      refine .inr ⟨_, hturns, hbefore.trans ?_⟩
      rw [hstayed.currentTask, List.append_assoc]
      exact List.sublist_append_right ..
    | collectorYield sp' => cases hentry
    | remove previousTask =>
      obtain ⟨hcurrent, hprevious, hne, hdead, rfl⟩ := hstep
      by_cases hx : x = successor s.task previousTask
      · subst hx
        exact .inl (h.gone_remove (hprevious.mem h.toInvariant))
      · have hy : y ≠ successor s.task previousTask := by
          rintro rfl
          exact hdead (by rw [Alive, hstays.2]; exact OSProcessState.noConfusion)
        rw [← hcurrent] at hne
        obtain ⟨front, back, rfl, hturns⟩ := horder.removeNext
          (horder.mem_of_onRing hprevious) hne
        refine .inr ⟨_, hturns, ?_⟩
        rw [(@removeNext_fields s previousTask).1, List.append_assoc]
        apply before_remove hy hx
        simpa using hbefore

/-! ## Section 5: Every run -/

/-- A run in which the structure of task `x` is not allocated anew and task `y` stays on
the ring and can run. The list holds the tasks that `OSSchedulerNext` selects. -/
inductive Round (x y : Nat) : SchedulerState → List Nat → SchedulerState → Prop
  | nil (s : SchedulerState) : Round x y s [] s
  /-- An action that selects a task. -/
  | select {s s₁ s' : SchedulerState} {action : RoundAction} {selected : List Nat}
      (hstep : s.RoundStep action s₁) (hentry : (s.roundEntry action).isSome)
      (hallocates : ¬ action.Allocates x) (hstays : s.StaysOn y)
      (hrest : Round x y s₁ selected s') : Round x y s (s₁.currentTask :: selected) s'
  /-- Any other action. -/
  | stay {s s₁ s' : SchedulerState} {action : RoundAction} {selected : List Nat}
      (hstep : s.RoundStep action s₁) (hentry : s.roundEntry action = none)
      (hallocates : ¬ action.Allocates x) (hstays : s.StaysOn y)
      (hrest : Round x y s₁ selected s') : Round x y s selected s'

/-- Whoever waits for a turn before `x` is selected before `x`. -/
theorem Round.selected {x y : Nat} {selected : List Nat} (hround : Round x y s selected s')
    (h : s.RoundSound ring) (hwaits : s.Waits x y) (hne : y ≠ x) {front back : List Nat}
    (heq : selected = front ++ x :: back) : y ∈ front := by
  induction hround generalizing ring front with
  | nil s => simp at heq
  | @select s s₁ s' action selected hstep hentry hallocates hstays _ ih =>
    obtain ⟨ring', hsound⟩ := h.step hstep
    have hcall := (hwaits.step h hstep hallocates hstays).1 hentry
    cases front with
    | nil =>
      obtain ⟨hx, -⟩ := List.cons.inj heq
      exact absurd hx (hcall (fun hy => hne (hy.symm.trans hx))).1
    | cons f front =>
      obtain ⟨rfl, hrest⟩ := List.cons.inj heq
      by_cases hy : s₁.currentTask = y
      · exact hy ▸ List.mem_cons_self
      · exact List.mem_cons_of_mem _ (ih hsound (hcall hy).2 hrest)
  | stay hstep hentry hallocates hstays _ ih =>
    obtain ⟨ring', hsound⟩ := h.step hstep
    exact ih hsound ((hwaits.step h hstep hallocates hstays).2 hentry) heq

theorem Round.staysOn {x y : Nat} {selected : List Nat} (hround : Round x y s selected s')
    (hne : selected ≠ []) : s.StaysOn y := by
  cases hround with
  | nil => exact absurd rfl hne
  | select _ _ _ hstays _ => exact hstays
  | stay _ _ _ hstays _ => exact hstays

/-- Right after the turn of a task, all others have theirs before it. -/
theorem RoundSound.waits_current (h : s.RoundSound ring) {y : Nat} (hy : s.OnRing y)
    (hne : y ≠ s.currentTask) : s.Waits s.currentTask y := by
  obtain ⟨others, horder, -, -⟩ := h.toInvariant.turnOrder
  rcases List.mem_cons.mp (horder.mem_of_onRing hy) with heq | hmem
  · exact absurd heq hne
  · have hfirst : [y].Sublist others := List.singleton_sublist.mpr hmem
    exact .inr ⟨others, horder, hfirst.append (List.Sublist.refl [s.currentTask])⟩

end SchedulerState

open SchedulerState

theorem SchedulerBoot.start_roundSound {boot : SchedulerBoot} (h : boot.Valid) :
    boot.start.RoundSound boot.ring := by
  refine ⟨start_sound h, rfl, ?_⟩
  have hnodup := (start_sound h).nodup
  simp only [ring, List.nodup_cons, List.mem_cons, List.not_mem_nil, or_false, not_or] at hnodup
  -- the kernel's own task runs from the beginning
  have hkernel : (boot.withIdle.task boot.kernelTask).taskState = .running := by
    show ((linkTask _ _ _ _ _ _ _).task boot.kernelTask).taskState = _
    rw [linkTask_old]
    · show (boot.alone.task boot.kernelTask).taskState = _
      rw [alone_kernelTask]
      rfl
    · exact hnodup.2.1
    · exact Ne.symm hnodup.2.1
  show ((linkTask _ _ _ _ _ _ _).task boot.kernelTask).taskState = _
  rw [linkTask_old]
  · exact hkernel
  · exact hnodup.1.2
  · exact Ne.symm hnodup.1.2

/-- In every run, every call of `OSSchedulerNext` selects the first task after the current
one that is due, and the current one only if it runs and no other is due. Between two
turns of a task, every other task that stays on the ring and can run has a turn. -/
theorem round_robin {boot : SchedulerBoot} (h : boot.Valid) {actions : List RoundAction}
    {s : SchedulerState} (htrace : Trace RoundStep boot.start actions s) :
    (∀ action s' s₁ sp, s.RoundStep action s' → s.roundEntry action = some (s₁, sp) →
      s₁.next sp = some (.ok s') ∧ ∃ others, s₁.TurnOrder others ∧ s₁.Selects others s') ∧
    ∀ action s', s.RoundStep action s' → (s.roundEntry action).isSome →
      ∀ y selected s'', y ≠ s'.currentTask →
        Round s'.currentTask y s' (selected ++ [s'.currentTask]) s'' → y ∈ selected := by
  have hkeep : ∀ (s : SchedulerState) action (s' : SchedulerState),
      (∃ ring, s.RoundSound ring) → s.RoundStep action s' → ∃ ring, s'.RoundSound ring := by
    rintro s action s' ⟨ring, hsound⟩ hstep
    exact hsound.step hstep
  obtain ⟨ring, hsound⟩ := htrace.invariant hkeep ⟨_, SchedulerBoot.start_roundSound h⟩
  constructor
  · intro action s' s₁ sp hstep hentry
    exact ⟨(hsound.entered hstep hentry).1, hsound.selects hstep hentry⟩
  · intro action s' hstep _ y selected s'' hne hround
    obtain ⟨ring', hsound'⟩ := hsound.step hstep
    have hstays := hround.staysOn (List.concat_ne_nil _ _)
    exact hround.selected hsound' (hsound'.waits_current hstays.1 hne) hne rfl

/-- Between two turns of the collector, the kernel's own task has one. -/
theorem round_robin_collector : ∃ s' s'', exampleBoot.start.RoundStep (.call (.tick 1)) s' ∧
    s'.currentTask = exampleBoot.collectorTask ∧
    Round s'.currentTask exampleBoot.kernelTask s'
      ([exampleBoot.idleTask, exampleBoot.kernelTask] ++ [s'.currentTask]) s'' ∧
    exampleBoot.kernelTask ∈ [exampleBoot.idleTask, exampleBoot.kernelTask] := by
  have hruns : (exampleBoot.start.nextPasses 1 fun s₁ =>
      decide (s₁.currentTask = exampleBoot.collectorTask ∧
        (s₁.task exampleBoot.kernelTask).taskState = .running) && s₁.nextPasses 2 fun s₂ =>
      decide (s₂.currentTask = exampleBoot.idleTask ∧
        (s₂.task exampleBoot.kernelTask).taskState = .running) && s₂.nextPasses 3 fun s₃ =>
      decide (s₃.currentTask = exampleBoot.kernelTask ∧
        (s₃.task exampleBoot.kernelTask).taskState = .running) && s₃.nextPasses 4 fun s₄ =>
      decide (s₄.currentTask = exampleBoot.collectorTask)) = true := by
    decide +kernel
  obtain ⟨s₁, h₁, hruns⟩ := exists_of_nextPasses hruns
  obtain ⟨hs₁, hruns⟩ := Bool.and_eq_true_iff.mp hruns
  obtain ⟨s₂, h₂, hruns⟩ := exists_of_nextPasses hruns
  obtain ⟨hs₂, hruns⟩ := Bool.and_eq_true_iff.mp hruns
  obtain ⟨s₃, h₃, hruns⟩ := exists_of_nextPasses hruns
  obtain ⟨hs₃, hruns⟩ := Bool.and_eq_true_iff.mp hruns
  obtain ⟨s₄, h₄, hs₄⟩ := exists_of_nextPasses hruns
  obtain ⟨hcurrent₁, hrunning₁⟩ := of_decide_eq_true hs₁
  obtain ⟨hcurrent₂, hrunning₂⟩ := of_decide_eq_true hs₂
  obtain ⟨hcurrent₃, hrunning₃⟩ := of_decide_eq_true hs₃
  have hcurrent₄ := of_decide_eq_true hs₄
  have hstart := SchedulerBoot.start_sound exampleBoot_valid
  have hsound₁ := hstart.toInvariant.next h₁
  have hsound₂ := hsound₁.toInvariant.next h₂
  have hsound₃ := hsound₂.toInvariant.next h₃
  have hkernel : exampleBoot.kernelTask ∈ exampleBoot.ring := by decide
  -- an interrupt is a step of the round
  have htick : ∀ {s s' : SchedulerState} {sp : Nat}, s.next sp = some (.ok s') →
      s.RoundStep (.call (.tick sp)) s' :=
    fun hnext => ⟨fun _ => SchedulerAction.noConfusion, trivial, hnext⟩
  have hturns : Round exampleBoot.collectorTask exampleBoot.kernelTask s₁
      [s₂.currentTask, s₃.currentTask, s₄.currentTask] s₄ := by
    apply Round.select (htick h₂) rfl id ⟨hsound₁.onRing hkernel, hrunning₁⟩
    apply Round.select (htick h₃) rfl id ⟨hsound₂.onRing hkernel, hrunning₂⟩
    apply Round.select (htick h₄) rfl id ⟨hsound₃.onRing hkernel, hrunning₃⟩
    exact Round.nil s₄
  have hround : Round s₁.currentTask exampleBoot.kernelTask s₁
      ([exampleBoot.idleTask, exampleBoot.kernelTask] ++ [s₁.currentTask]) s₄ := by
    rw [hcurrent₂, hcurrent₃, hcurrent₄] at hturns
    rw [hcurrent₁]
    exact hturns
  refine ⟨s₁, s₄, htick h₁, hcurrent₁, hround, ?_⟩
  refine (round_robin exampleBoot_valid (.nil _)).2 _ s₁ (htick h₁) rfl _ _ s₄ ?_ hround
  rw [hcurrent₁]
  decide

end TermOS.OS
