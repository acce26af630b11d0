import TermOS.OS.SchedulerFair
import TermOS.OS.SchedulerYield

/-!
# How long a task sleeps

`OSSchedulerYield(n)` counts entries to `OSSchedulerNext`, its own one twice, and not
timer interrupts: software interrupts of other tasks shorten the sleep. A sleeper gets
`n` interrupts only if at each of the last entries another task comes first; and so
does a task that is interrupted before it has stored its state, which runs on.

## Main Theorems

* `Sleeps.selected_iff` - when an entry selects the sleeper
* `Sleeps.step` - an entry that does not select the sleeper counts one tick down
* `sleep_lasts` - when a task sleeps through `n` interrupts
-/

namespace TermOS.OS

open TermOS.Lib

/-- A state, with what has happened since a task called `OSSchedulerYield`: the entries to
`OSSchedulerNext`, the timer interrupts among them, and the entries that selected the task. -/
structure SleepCount where
  state : YieldState
  entries : Nat
  interrupts : Nat
  selections : Nat

namespace SchedulerState

/-- The search comes to a task only after another one that is due. The current task is the
last one that it looks at. -/
def Preceded (s : SchedulerState) (t : Nat) : Prop :=
  ∀ others front back, s.TurnOrder others → others ++ [s.currentTask] = front ++ t :: back →
    ∃ u ∈ front, s.Due u

end SchedulerState

namespace SleepCount

/-- An action, counted. -/
def Counts (t : Nat) (c : SleepCount) (action : YieldAction) (c' : SleepCount) : Prop :=
  c.state.Step action c'.state ∧
    c'.entries = c.entries + (if (c.state.entry action).isSome then 1 else 0) ∧
    c'.interrupts = c.interrupts + action.interrupts ∧
    c'.selections = c.selections +
      if (c.state.entry action).isSome ∧ c'.state.scheduler.currentTask = t then 1 else 0

/-- At the entry of an action, before `n` interrupts, the task sleeps and has ticks left, or it
is preceded. The entry by which it leaves its call finds all its ticks there. -/
def InTime (t n : Nat) (c : SleepCount) (action : YieldAction) : Prop :=
  ∀ s₁ sp, c.state.entry action = some (s₁, sp) → c.interrupts + action.interrupts < n →
    ((s₁.task t).taskState = .sleeping ∧ (c.entries = 0 ∨ c.entries + 2 < n)) ∨ s₁.Preceded t

end SleepCount

namespace SchedulerState

variable {s s' : SchedulerState} {others : List Nat} {t : Nat}

/-! ## Section 1: Who comes first -/

/-- In the order of turns, a task has one place. -/
theorem preceded_iff (horder : s.TurnOrder others) {front back : List Nat}
    (hsplit : others ++ [s.currentTask] = front ++ t :: back) :
    s.Preceded t ↔ ∃ u ∈ front, s.Due u := by
  refine ⟨fun h => h others front back horder hsplit, ?_⟩
  rintro ⟨u, hu, hdue⟩ others' front' back' horder' hsplit'
  obtain rfl := horder.unique horder'
  -- no task occurs twice in the order, so the two places of `t` are one
  have hnodup : (others' ++ [s.currentTask]).Nodup :=
    List.nodup_append_comm.mp (by simpa using horder.2)
  rw [hsplit, List.nodup_append] at hnodup
  have hfront : t ∉ front := fun hmem => hnodup.2.2 t hmem t List.mem_cons_self rfl
  have hback : t ∉ back := (List.nodup_cons.mp hnodup.2.1).1
  obtain ⟨rfl, -⟩ :=
    (List.append_cons_inj_of_notMem hfront hback).mp (hsplit.symm.trans hsplit')
  exact ⟨u, hu, hdue⟩

/-- Another task is selected if it is due and not preceded. -/
theorem Selects.other_iff (h : s.Selects others s') (horder : s.TurnOrder others) (ht : t ∈ others) :
    s'.currentTask = t ↔ s.Due t ∧ ¬ s.Preceded t := by
  have hcurrent : t ≠ s.currentTask := by
    rintro rfl
    exact (List.nodup_cons.mp horder.2).1 ht
  -- the current task comes behind all others
  have hplace : ∀ {front back : List Nat}, others = front ++ t :: back →
      others ++ [s.currentTask] = front ++ t :: (back ++ [s.currentTask]) := by
    intro front back heq
    rw [heq, List.append_assoc, List.cons_append]
  constructor
  · rintro rfl
    rcases h.selected with ⟨front, back, hothers, hdue, hfront⟩ | ⟨heq, -, -⟩
    · refine ⟨hdue, fun hpreceded => ?_⟩
      obtain ⟨u, hu, hudue⟩ := (preceded_iff horder (hplace hothers)).mp hpreceded
      exact hfront u hu hudue
    · exact absurd heq hcurrent
  · rintro ⟨hdue, hnot⟩
    obtain ⟨front, back, hothers⟩ := List.append_of_mem ht
    rw [preceded_iff horder (hplace hothers)] at hnot
    push Not at hnot
    exact h.current_eq hothers hdue hnot

/-- The current task goes on if it runs and is not preceded. -/
theorem Selects.current_iff (h : s.Selects others s') (horder : s.TurnOrder others) :
    s'.currentTask = s.currentTask ↔
      (s.task s.currentTask).taskState = .running ∧ ¬ s.Preceded s.currentTask := by
  have hnot := (List.nodup_cons.mp horder.2).1
  have hlast : others ++ [s.currentTask] = others ++ s.currentTask :: [] := rfl
  rw [preceded_iff horder hlast]
  constructor
  · intro heq
    rcases h.selected with ⟨front, back, hothers, -, -⟩ | ⟨-, hrunning, hnone⟩
    · -- it is not among the others
      rw [heq] at hothers
      exact absurd (by simp [hothers]) hnot
    · exact ⟨hrunning, fun ⟨u, hu, hdue⟩ => hnone u hu hdue⟩
  · rintro ⟨-, hnone⟩
    rcases h.selected with ⟨front, back, hothers, hdue, -⟩ | ⟨heq, -, -⟩
    · exact absurd ⟨s'.currentTask, by simp [hothers], hdue⟩ hnone
    · exact heq

end SchedulerState

/-! ## Section 2: The sleeper -/

/-- What `OSSchedulerYield(n)` has stored when it comes to a statement. -/
def OSTask.Yielding (task : OSTask) (n : Nat) : YieldPoint → Prop
  | .ticks => task.taskState = .running
  | .state => task.taskState = .running ∧ task.sleepTicks = n
  | .switch => task.taskState = .sleeping ∧ task.sleepTicks = n

namespace YieldState

open SchedulerState

variable {y y' : YieldState} {ring : List Nat} {action : YieldAction} {s₁ : SchedulerState}
  {sp t n entries : Nat}

/-- A task that has called `OSSchedulerYield(n)` and was not selected since. Once it has lost the
processor, it sleeps with what the entries have left it; or it runs, if it was interrupted before
it had stored its state. -/
structure Sleeps (y : YieldState) (ring : List Nat) (t n entries : Nat) : Prop where
  ne_collector : t ≠ y.scheduler.garbageCollectorTask
  linked : t ∈ y.scheduler.linked
  alive : y.scheduler.Alive t
  inside : t = y.scheduler.currentTask → entries = 0 ∧
    ∃ point, y.yields t = some ⟨point, n⟩ ∧ (y.scheduler.task t).Yielding n point
  switched : t ≠ y.scheduler.currentTask → t ∈ ring → (y.scheduler.task t).taskState = .running ∨
    ((y.scheduler.task t).taskState = .sleeping ∧ 0 < entries ∧
      (y.scheduler.task t).sleepTicks = n - 1 - entries)

/-- The first half of an action does not touch a task on the ring that sleeps or runs. -/
theorem Sleeps.entered_task (hsleeps : y.Sleeps ring t n entries) (hentered : Entered y.scheduler s₁)
    (hcurrent : t ≠ y.scheduler.currentTask) (ht : t ∈ ring) :
    s₁.task t = y.scheduler.task t := by
  rcases hentered.other t hcurrent hsleeps.ne_collector with heq | ⟨hblocked, -⟩
  · exact heq
  · rcases hsleeps.switched hcurrent ht with hrunning | ⟨hsleeping, -⟩
    · cases hblocked.symm.trans hrunning
    · cases hblocked.symm.trans hsleeping

/-- Beside the sleeper there is another task on the ring. -/
theorem Sleeps.others_ne_nil (h : y.Sound ring) (hsleeps : y.Sleeps ring t n entries)
    (ht : t ∈ ring) {others : List Nat}
    (hmem : ∀ u, u ∈ s₁.currentTask :: others ↔ u ∈ ring) : others ≠ [] := by
  rintro rfl
  have hone : ∀ u ∈ ring, u = s₁.currentTask := fun u hu => by simpa using (hmem u).mpr hu
  apply hsleeps.ne_collector
  rw [hone t ht, hone _ h.scheduler.collector_mem]

/-- An entry selects the sleeper unless it sleeps with ticks left, or is preceded. -/
theorem Sleeps.selected_iff (h : y.Sound ring) (hsleeps : y.Sleeps ring t n entries)
    (hstep : y.Step action y') (hentry : y.entry action = some (s₁, sp)) :
    y'.scheduler.currentTask = t ↔
      ¬ (((s₁.task t).taskState = .sleeping ∧ (entries = 0 ∨ entries + 2 < n)) ∨ s₁.Preceded t) := by
  obtain ⟨hnext, hinvariant, hentered, hinside⟩ := h.entered hstep hentry
  obtain ⟨others, horder, hmem, hlength⟩ := hinvariant.turnOrder
  by_cases ht : t ∈ ring
  · have hselects := next_selects horder hlength
      (fun heq => absurd heq (hsleeps.others_ne_nil h ht hmem)) hnext
    by_cases hcurrent : t = y.scheduler.currentTask
    · -- inside its call, the task is selected if it has not stored its state
      obtain ⟨hzero, point, hyields, hyielding⟩ := hsleeps.inside hcurrent
      subst hcurrent
      have hsame := hinside fun houtside => by cases hyields.symm.trans houtside
      subst hsame
      rw [hselects.current_iff horder, not_or]
      refine and_congr_left fun _ => ?_
      have hstate : (y.scheduler.task y.scheduler.currentTask).taskState = .running ∨
          (y.scheduler.task y.scheduler.currentTask).taskState = .sleeping := by
        cases point with
        | ticks => exact .inl hyielding
        | state => exact .inl hyielding.1
        | switch => exact .inr hyielding.1
      rcases hstate with hstate | hstate
      · simp [hstate]
      · simp [hstate, hzero]
    · have hother : t ∈ others := by
        rcases List.mem_cons.mp ((hmem t).mpr ht) with heq | hin
        · exact absurd (heq.trans hentered.currentTask) hcurrent
        · exact hin
      have hsame := hsleeps.entered_task hentered hcurrent ht
      -- elsewhere it is selected if it is due, and its ticks say whether it is
      have hdue : s₁.Due t ↔
          ¬ ((s₁.task t).taskState = .sleeping ∧ (entries = 0 ∨ entries + 2 < n)) := by
        unfold Due ticksLeft
        rw [hsame, if_neg (hentered.currentTask ▸ hcurrent)]
        rcases hsleeps.switched hcurrent ht with hrunning | ⟨hsleeping, hpos, hticks⟩
        · simp [hrunning]
        · simp only [hsleeping, hticks, reduceCtorEq, false_or, true_and]
          omega
      rw [hselects.other_iff horder hother, hdue, not_or]
  · -- off the ring there is no turn
    have hpreceded : s₁.Preceded t := by
      intro others' front back horder' hsplit
      obtain rfl := horder.unique horder'
      have hturn : t ∈ others' ++ [s₁.currentTask] := by simp [hsplit]
      refine absurd ((hmem t).mp ?_) ht
      rw [List.mem_append, List.mem_singleton] at hturn
      rw [List.mem_cons]
      exact hturn.symm
    refine iff_of_false ?_ (not_not.mpr (.inr hpreceded))
    rintro rfl
    exact ht (hinvariant.next hnext).current_mem

/-- An entry that does not select the sleeper takes one tick; the one by which it leaves its call
takes two. -/
theorem Sleeps.entered (h : y.Sound ring) (hsleeps : y.Sleeps ring t n entries)
    (hstep : y.Step action y') (hentry : y.entry action = some (s₁, sp))
    (hne : y'.scheduler.currentTask ≠ t) (ht : t ∈ ring) :
    (y'.scheduler.task t).taskState = .running ∨ ((y'.scheduler.task t).taskState = .sleeping ∧
      (y'.scheduler.task t).sleepTicks = n - 1 - (entries + 1)) := by
  obtain ⟨hnext, hinvariant, hentered, hinside⟩ := h.entered hstep hentry
  obtain ⟨others, horder, hmem, hlength⟩ := hinvariant.turnOrder
  have hselects := next_selects horder hlength
    (fun heq => absurd heq (hsleeps.others_ne_nil h ht hmem)) hnext
  -- the count-down takes one tick of each task, and two of the current one
  rw [hselects.state t hne.symm, hselects.ticks t ((hmem t).mpr ht), ticksLeft]
  by_cases hcurrent : t = y.scheduler.currentTask
  · obtain ⟨rfl, point, hyields, hyielding⟩ := hsleeps.inside hcurrent
    obtain rfl := hinside fun houtside => by cases (hcurrent ▸ hyields).symm.trans houtside
    rw [if_pos hcurrent]
    cases point with
    | ticks => exact .inl hyielding
    | state => exact .inl hyielding.1
    | switch => exact .inr ⟨hyielding.1, by rw [hyielding.2]; omega⟩
  · rw [if_neg (hentered.currentTask ▸ hcurrent), hsleeps.entered_task hentered hcurrent ht]
    rcases hsleeps.switched hcurrent ht with hrunning | ⟨hsleeping, -, hticks⟩
    · exact .inl hrunning
    · exact .inr ⟨hsleeping, by omega⟩

/-- A sleeper that is not selected sleeps on. -/
theorem Sleeps.step (h : y.Sound ring) (hsleeps : y.Sleeps ring t n entries) (hlt : n < 2 ^ 32)
    (hstep : y.Step action y')
    (hne : (y.entry action).isSome → y'.scheduler.currentTask ≠ t) :
    ∃ ring', y'.Sound ring' ∧
      y'.Sleeps ring' t n (entries + if (y.entry action).isSome then 1 else 0) := by
  obtain ⟨ring', hsound, hkept⟩ := h.step hstep
  obtain ⟨hlinked, hring⟩ := hkept t hsleeps.linked hsleeps.alive
  have hgc := h.garbageCollectorTask_eq hstep
  refine ⟨ring', hsound, ?_⟩
  cases hentry : y.entry action with
  | some entered =>
    obtain ⟨s₁, sp⟩ := entered
    -- an entry: it has selected another task
    have hother : y'.scheduler.currentTask ≠ t := hne (by rw [hentry]; rfl)
    obtain ⟨hnext, -, hentered, hinside⟩ := h.entered hstep hentry
    refine ⟨hgc ▸ hsleeps.ne_collector, hlinked, ?_, fun heq => absurd heq.symm hother,
      fun _ ht => ?_⟩
    · -- nobody but the current task dies, and the sleeper does not
      have halive : s₁.Alive t := by
        by_cases hcurrent : t = y.scheduler.currentTask
        · obtain ⟨-, point, hyields, -⟩ := hsleeps.inside hcurrent
          rw [hinside fun houtside => by cases (hcurrent ▸ hyields).symm.trans houtside]
          exact hsleeps.alive
        · rcases hentered.other t hcurrent hsleeps.ne_collector with heq | ⟨-, hrunning⟩
          · rw [Alive, heq]
            exact hsleeps.alive
          · rw [Alive, hrunning]
            exact OSProcessState.noConfusion
      rcases (next_switched hnext).state t with heq | ⟨-, hrunning⟩
      · rw [Alive, heq]
        exact halive
      · rw [Alive, hrunning]
        exact OSProcessState.noConfusion
    · rcases hsleeps.entered h hstep hentry hother (hring ht) with hrunning | ⟨hsleeping, hticks⟩
      · exact .inl hrunning
      · exact .inr ⟨hsleeping, Nat.succ_pos _, hticks⟩
  | none =>
    -- no entry: the current task stays the same
    obtain ⟨hcurrent, hstays⟩ := h.stays hstep hentry
    by_cases heq : t = y.scheduler.currentTask
    · -- the call goes on
      obtain ⟨hzero, point, hyields, hyielding⟩ := hsleeps.inside heq
      subst heq
      have hnext : ∃ point, y'.yields y.scheduler.currentTask = some ⟨point, n⟩ ∧
          (y'.scheduler.task y.scheduler.currentTask).Yielding n point := by
        rcases hstep.stores hentry hyields with ⟨rfl, hcall, htask⟩ | ⟨rfl, hcall, htask⟩
        · refine ⟨.state, hcall, ?_⟩
          rw [htask]
          exact ⟨hyielding, Nat.mod_eq_of_lt hlt⟩
        · refine ⟨.switch, hcall, ?_⟩
          rw [htask]
          exact ⟨rfl, hyielding.2⟩
      refine ⟨hgc ▸ hsleeps.ne_collector, hlinked, ?_, fun _ => ⟨hzero, hnext⟩,
        fun hne _ => absurd hcurrent.symm hne⟩
      obtain ⟨point, -, hyielding⟩ := hnext
      rw [Alive]
      cases point with
      | ticks => rw [show _ = _ from hyielding]; exact OSProcessState.noConfusion
      | state => rw [hyielding.1]; exact OSProcessState.noConfusion
      | switch => rw [hyielding.1]; exact OSProcessState.noConfusion
    · have hstay := hstays t hsleeps.linked heq hsleeps.ne_collector
      refine ⟨hgc ▸ hsleeps.ne_collector, hlinked, ?_,
        fun hsame => absurd (hsame.trans hcurrent) heq, fun _ ht => ?_⟩
      · rcases hstay with ⟨hstate, -⟩ | ⟨-, hrunning⟩
        · rw [Alive, hstate]
          exact hsleeps.alive
        · rw [Alive, hrunning]
          exact OSProcessState.noConfusion
      · rcases hstay with ⟨hstate, hticks⟩ | ⟨-, hrunning⟩
        · rw [hstate, hticks]
          exact hsleeps.switched heq (hring ht)
        · exact .inl hrunning

/-- The call of `OSSchedulerYield`. -/
theorem Sound.sleeps (h : y.Sound ring) (hstep : y.Step (.yieldCall n) y') :
    y'.Sound ring ∧ y'.Sleeps ring y.scheduler.currentTask n 0 := by
  obtain ⟨⟨houtside, hcalls⟩, hact⟩ := id hstep
  obtain rfl := Except.ok.inj (Option.some.inj hact)
  have hrunning := h.running hcalls.1 fun call hcall => by cases hcall.symm.trans houtside
  have hsound : (y.setYield (some ⟨.ticks, n⟩)).Sound ring := by
    refine ⟨h.scheduler, (setYield_ne _ hcalls.1.symm).trans h.ne_collector, fun _ _ => hrunning⟩
  refine ⟨hsound, hcalls.1, h.scheduler.mem_linked _ h.scheduler.current_mem,
    h.scheduler.current_alive, fun _ => ⟨rfl, .ticks, setYield_same _, hrunning⟩,
    fun hne _ => absurd rfl hne⟩

end YieldState

/-! ## Section 3: The run -/

namespace SleepCount

open YieldState

variable {c c' : SleepCount} {t n : Nat} {action : YieldAction}

/-- Before `n` interrupts, the task was not selected. -/
def Sleeping (t n : Nat) (c : SleepCount) : Prop :=
  c.interrupts < n → c.selections = 0 ∧
    ∃ ring, c.state.Sound ring ∧ c.state.Sleeps ring t n c.entries

/-- An action at whose entry the sleeper has ticks left, or is preceded. -/
def Step (t n : Nat) (c : SleepCount) (action : YieldAction) (c' : SleepCount) : Prop :=
  c.Counts t action c' ∧ c.InTime t n action

theorem Counts.interrupts_lt (hcounts : c.Counts t action c') (h : c'.interrupts < n) :
    c.interrupts < n := by
  rw [hcounts.2.2.1] at h
  omega

/-- Before `n` interrupts, an entry selects the sleeper exactly if it is not in time. -/
theorem Sleeping.selected_iff (h : c.Sleeping t n) (hcounts : c.Counts t action c')
    (hbefore : c'.interrupts < n) :
    ((c.state.entry action).isSome ∧ c'.state.scheduler.currentTask = t) ↔ ¬ c.InTime t n action := by
  obtain ⟨-, ring, hsound, hsleeps⟩ := h (hcounts.interrupts_lt hbefore)
  obtain ⟨hstep, -, hinterrupts, -⟩ := hcounts
  unfold InTime
  cases hentry : c.state.entry action with
  | none => simp
  | some entered =>
    obtain ⟨s₁, sp⟩ := entered
    rw [hsleeps.selected_iff hsound hstep hentry]
    have hlt := hinterrupts ▸ hbefore
    simp only [Option.isSome_some, true_and, not_iff_not]
    constructor
    · rintro hin _ _ heq -
      obtain ⟨rfl, rfl⟩ := Prod.mk.inj (Option.some.inj heq)
      exact hin
    · intro hin
      exact hin s₁ sp rfl hlt

/-- In time, the sleeper sleeps on. -/
theorem Sleeping.step (h : c.Sleeping t n) (hlt : n < 2 ^ 32) (hstep : Step t n c action c') :
    c'.Sleeping t n := by
  obtain ⟨hcounts, hintime⟩ := hstep
  intro hbefore
  have hnot : ¬ ((c.state.entry action).isSome ∧ c'.state.scheduler.currentTask = t) :=
    fun hselected => (h.selected_iff hcounts hbefore).mp hselected hintime
  obtain ⟨hnone, ring, hsound, hsleeps⟩ := h (hcounts.interrupts_lt hbefore)
  obtain ⟨hstep, hentries, -, hselections⟩ := hcounts
  obtain ⟨ring', hsound', hsleeps'⟩ := hsleeps.step hsound hlt hstep fun hsome heq => hnot ⟨hsome, heq⟩
  refine ⟨?_, ring', hsound', ?_⟩
  · rw [hselections, hnone, if_neg hnot]
  · rw [hentries]
    exact hsleeps'

end SleepCount

namespace SchedulerBoot

/-- After `OSSchedulerInitialize`, no task is inside `OSSchedulerYield`. -/
def yieldStart (boot : SchedulerBoot) : YieldState := ⟨boot.start, fun _ => none⟩

end SchedulerBoot

/-- `OSSchedulerInitialize` establishes the invariant. -/
theorem SchedulerBoot.yieldStart_sound {boot : SchedulerBoot} (h : boot.Valid) :
    boot.yieldStart.Sound boot.ring :=
  have hstart := SchedulerBoot.start_roundSound h
  ⟨hstart.toSound, rfl, fun _ _ => hstart.current_running⟩

/-- A task that calls `OSSchedulerYield(n)` is not selected before `n` timer interrupts,
in every run in which at every entry before the last of these interrupts it sleeps and has
ticks left, or another task that is due comes first; and the first entry at which neither
is the case selects it. -/
theorem sleep_lasts {boot : SchedulerBoot} (h : boot.Valid) {before : List YieldAction}
    {y y₀ : YieldState} (htrace : Trace YieldState.Step boot.yieldStart before y) {n : Nat}
    (hlt : n < 2 ^ 32) (hyield : y.Step (.yieldCall n) y₀) {actions : List YieldAction}
    {c : SleepCount}
    (hrun : Trace (SleepCount.Step y.scheduler.currentTask n) ⟨y₀, 0, 0, 0⟩ actions c) :
    (c.interrupts < n → c.selections = 0) ∧
      ∀ action c', c.Counts y.scheduler.currentTask action c' → c'.interrupts < n →
        ¬ c.InTime y.scheduler.currentTask n action → c'.selections = 1 := by
  -- up to the call the run keeps the invariant, and from the call on the sleeper sleeps
  have hkeep : ∀ (y : YieldState) action y', (∃ ring, y.Sound ring) → y.Step action y' →
      ∃ ring, y'.Sound ring := by
    rintro y action y' ⟨ring, hsound⟩ hstep
    obtain ⟨ring', hsound', -⟩ := hsound.step hstep
    exact ⟨ring', hsound'⟩
  obtain ⟨ring, hsound⟩ := htrace.invariant hkeep ⟨_, SchedulerBoot.yieldStart_sound h⟩
  obtain ⟨hsound₀, hsleeps⟩ := hsound.sleeps hyield
  have hstart : SleepCount.Sleeping y.scheduler.currentTask n ⟨y₀, 0, 0, 0⟩ :=
    fun _ => ⟨rfl, ring, hsound₀, hsleeps⟩
  have hsleeping := hrun.invariant (fun _ _ _ hkeep hstep => hkeep.step hlt hstep) hstart
  refine ⟨fun hbefore => (hsleeping hbefore).1, fun action c' hcounts hbefore hlate => ?_⟩
  have hselected := (hsleeping.selected_iff hcounts hbefore).mpr hlate
  rw [hcounts.2.2.2, if_pos hselected, (hsleeping (hcounts.interrupts_lt hbefore)).1]

/-! ## Section 4: Computing runs -/

namespace YieldState

/-- A test for `Allowed`; it answers no for the other actions. -/
def permits (y : YieldState) : YieldAction → Bool
  | .whole (.tick _) => true
  | .yieldCall _ => decide (y.yields y.scheduler.currentTask = none ∧ y.scheduler.Calls)
  | .yieldStatement _ => decide (y.yields y.scheduler.currentTask ≠ none)
  | _ => false

theorem allowed_of_permits {y : YieldState} {action : YieldAction} (h : y.permits action = true) :
    y.Allowed action := by
  unfold permits at h
  split at h
  · exact ⟨trivial, nofun, trivial⟩
  · exact of_decide_eq_true (p := y.yields y.scheduler.currentTask = none ∧ y.scheduler.Calls) h
  · exact of_decide_eq_true (p := y.yields y.scheduler.currentTask ≠ none) h
  · cases h

end YieldState

namespace SleepCount

/-- The action has no entry before `n` interrupts, or the sleeper has ticks left at it. -/
def early (t n : Nat) (c : SleepCount) (action : YieldAction) : Bool :=
  match c.state.entry action with
  | none => true
  | some (s₁, _) =>
    decide ((s₁.task t).taskState = .sleeping ∧ (c.entries = 0 ∨ c.entries + 2 < n))

theorem inTime_of_early {c : SleepCount} {t n : Nat} {action : YieldAction}
    (h : c.early t n action = true) : c.InTime t n action := by
  intro s₁ sp hentry _
  unfold early at h
  rw [hentry] at h
  exact .inl (of_decide_eq_true h)

/-- The next count, if the action passes the tests. -/
def next? (t : Nat) (test : SleepCount → YieldAction → Bool) (c : SleepCount)
    (action : YieldAction) : Option SleepCount :=
  if c.state.permits action ∧ test c action then
    match c.state.act action with
    | some (.ok y') => some
      ⟨y', c.entries + (if (c.state.entry action).isSome then 1 else 0),
        c.interrupts + action.interrupts, c.selections +
          if (c.state.entry action).isSome ∧ y'.scheduler.currentTask = t then 1 else 0⟩
    | _ => none
  else none

theorem counts_of_next? {t : Nat} {test : SleepCount → YieldAction → Bool} (c : SleepCount)
    (action : YieldAction) (c' : SleepCount) (h : c.next? t test action = some c') :
    c.Counts t action c' ∧ test c action = true := by
  unfold next? at h
  split at h
  · next hpasses =>
    split at h
    · next y' hact =>
      obtain rfl := Option.some.inj h
      exact ⟨⟨⟨YieldState.allowed_of_permits hpasses.1, hact⟩, rfl, rfl, rfl⟩, hpasses.2⟩
    · cases h
  · cases h

end SleepCount

/-- Right after `OSSchedulerInitialize`, the kernel's own task has called `OSSchedulerYield`. -/
def exampleYield (n : Nat) : YieldState := exampleBoot.yieldStart.setYield (some ⟨.ticks, n⟩)

theorem exampleYield_step (n : Nat) : exampleBoot.yieldStart.Step (.yieldCall n) (exampleYield n) :=
  ⟨⟨rfl, by decide +kernel⟩, rfl⟩

/-- Nine ticks last longer than one interrupt. -/
theorem sleep_lasts_nine : ∃ c,
    Trace (SleepCount.Step exampleBoot.yieldStart.scheduler.currentTask 9) ⟨exampleYield 9, 0, 0, 0⟩
      (List.replicate 3 (.yieldStatement 0) ++ [.whole (.tick 1)]) c ∧
    c.interrupts = 1 ∧ c.selections = 0 := by
  have hruns : (Trace.perform (SleepCount.next? exampleBoot.yieldStart.scheduler.currentTask
      (SleepCount.early exampleBoot.yieldStart.scheduler.currentTask 9)) ⟨exampleYield 9, 0, 0, 0⟩
      (List.replicate 3 (.yieldStatement 0) ++ [.whole (.tick 1)])).any
        (fun c => decide (c.interrupts = 1)) = true := by
    decide +kernel
  have hnext : ∀ c action c', SleepCount.next? exampleBoot.yieldStart.scheduler.currentTask
      (SleepCount.early exampleBoot.yieldStart.scheduler.currentTask 9) c action = some c' →
        SleepCount.Step exampleBoot.yieldStart.scheduler.currentTask 9 c action c' := by
    intro c action c' hsome
    obtain ⟨hcounts, hearly⟩ := SleepCount.counts_of_next? c action c' hsome
    exact ⟨hcounts, SleepCount.inTime_of_early hearly⟩
  obtain ⟨c, hrun, hinterrupts⟩ := Trace.exists_of_perform hnext hruns
  have hone : c.interrupts = 1 := of_decide_eq_true hinterrupts
  refine ⟨c, hrun, hone, ?_⟩
  exact (sleep_lasts exampleBoot_valid (.nil _) (by decide) (exampleYield_step 9) hrun).1 (by omega)

/-- Three ticks last for two interrupts: the call itself takes away two. Three thousand last for
three if the first of them comes between the two stores. -/
theorem sleep_three :
    (∃ c, Trace (SleepCount.Counts exampleBoot.yieldStart.scheduler.currentTask)
      ⟨exampleYield 3, 0, 0, 0⟩
      (List.replicate 3 (.yieldStatement 0) ++ [.whole (.tick 1), .whole (.tick 2)]) c ∧
      c.interrupts = 2 ∧ c.selections = 1) ∧
    ∃ c, Trace (SleepCount.Counts exampleBoot.yieldStart.scheduler.currentTask)
      ⟨exampleYield 3000, 0, 0, 0⟩
      [.yieldStatement 0, .whole (.tick 1), .whole (.tick 2), .whole (.tick 3)] c ∧
      c.interrupts = 3 ∧ c.selections = 1 := by
  have hruns : ∀ {n : Nat} {actions : List YieldAction} {interrupts : Nat},
      (Trace.perform (SleepCount.next? exampleBoot.yieldStart.scheduler.currentTask
        fun _ _ => true) ⟨exampleYield n, 0, 0, 0⟩ actions).any
        (fun c => decide (c.interrupts = interrupts ∧ c.selections = 1)) = true →
      ∃ c, Trace (SleepCount.Counts exampleBoot.yieldStart.scheduler.currentTask)
        ⟨exampleYield n, 0, 0, 0⟩ actions c ∧ c.interrupts = interrupts ∧ c.selections = 1 := by
    intro n actions interrupts hpasses
    obtain ⟨c, hrun, hcounted⟩ := Trace.exists_of_perform
      (fun c action c' hnext => (SleepCount.counts_of_next? c action c' hnext).1) hpasses
    exact ⟨c, hrun, of_decide_eq_true hcounted⟩
  constructor
  · apply hruns
    decide +kernel
  · apply hruns
    decide +kernel

end TermOS.OS
