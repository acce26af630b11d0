import Mathlib.Data.List.Find
import Mathlib.Data.List.Perm.Subperm
import TermOS.OS.SchedulerFreed

/-!
# Whose turn it is

`OSSchedulerNext` on a ring: which task it resumes, and what it does to the ticks of
the tasks. The current task is looked at last.

## Main Theorems

* `next_eq` - what a call computes
* `Selects` - the same as a relation between the states before and after it
-/

namespace TermOS.OS

open TermOS.Lib

/-! ## Section 1: The loops on a ring -/

/-- A task that the search stops at. -/
def OSTask.Eligible (task : OSTask) : Prop :=
  task.taskState = .running ∨ (task.taskState = .sleeping ∧ task.sleepTicks = 0)

instance (task : OSTask) : Decidable task.Eligible := inferInstanceAs (Decidable (_ ∨ _))

/-- The ticks of some tasks are counted down by one. -/
def tickDown (ts : List Nat) (task : Nat → OSTask) : Nat → OSTask := fun t =>
  if t ∈ ts then { task t with sleepTicks := (task t).sleepTicks - 1 } else task t

variable {currentTask : Nat} {task : Nat → OSTask}

theorem successor_tickDown (ts : List Nat) (task : Nat → OSTask) :
    successor (tickDown ts task) = successor task := by
  funext t
  unfold successor tickDown
  split
  · rfl
  · rfl

/-- The ticks of one task, as the loop counts them down. -/
theorem tickDown_single (task : Nat → OSTask) (t : Nat) :
    (if 0 < (task t).sleepTicks then
      Function.update task t { task t with sleepTicks := (task t).sleepTicks - 1 }
    else task) = tickDown [t] task := by
  funext u
  unfold tickDown
  by_cases hu : u = t
  · subst hu
    split
    · simp
    · -- there is nothing to count down
      rename_i hzero
      have hsame : (task u).sleepTicks - 1 = (task u).sleepTicks := by omega
      simp [hsame]
  · split
    · simp [hu]
    · simp [hu]

theorem tickDown_cons {t : Nat} {ts : List Nat} (ht : t ∉ ts) (task : Nat → OSTask) :
    tickDown ts (tickDown [t] task) = tickDown (t :: ts) task := by
  funext u
  unfold tickDown
  by_cases hu : u = t
  · subst hu
    simp [ht]
  · simp [hu]

/-- The first loop counts every task from `a` on once. -/
theorem countDownLoop_eq {ys : List Nat} :
    ∀ {a fuel : Nat} {task : Nat → OSTask},
      Links (successor task) a (a :: ys) (successor task currentTask) → (a :: ys).Nodup →
      successor task currentTask ∉ ys → ys.length < fuel →
      countDownLoop currentTask fuel task a = some (tickDown (a :: ys) task) := by
  -- Induction on the rest of the ring; the loop is at its first task.
  induction ys with
  | nil =>
    intro a fuel task hlinks _ _ hfuel
    obtain ⟨fuel, rfl⟩ : ∃ k, fuel = k + 1 := Nat.exists_eq_add_one.mpr hfuel
    rw [countDownLoop]
    simp only [tickDown_single]
    -- The next task is where the loop has started.
    have hstop : successor (tickDown [a] task) a = successor (tickDown [a] task) currentTask := by
      rw [successor_tickDown]
      exact hlinks.2
    exact if_pos hstop
  | cons y ys ih =>
    intro a fuel task hlinks hnodup hstop hfuel
    obtain ⟨fuel, rfl⟩ : ∃ k, fuel = k + 1 := Nat.exists_eq_add_one.mpr (by omega)
    obtain ⟨-, hnext, hrest⟩ := hlinks
    obtain ⟨ha, hys⟩ := List.nodup_cons.mp hnodup
    rw [List.mem_cons, not_or] at hstop
    rw [countDownLoop]
    simp only [tickDown_single]
    -- Counting changes no link, so the rest of the ring is the same.
    have hsuccessor := successor_tickDown [a] task
    have hgo : successor (tickDown [a] task) a = y := by
      rw [hsuccessor]
      exact hnext
    have hne : ¬ (tickDown [a] task a).next = (tickDown [a] task currentTask).next := by
      show ¬ successor (tickDown [a] task) a = successor (tickDown [a] task) currentTask
      rw [hgo, hsuccessor]
      exact fun heq => hstop.1 heq.symm
    rw [if_neg hne, show (tickDown [a] task a).next = y from hgo, ← tickDown_cons ha]
    apply ih
    · rw [hsuccessor]
      exact ⟨rfl, hrest⟩
    · exact hys
    · rw [hsuccessor]
      exact hstop.2
    · simpa using hfuel

/-- A running task is set running once more. -/
theorem update_running {t : Nat} (h : (task t).taskState = .running) :
    Function.update task t { task t with taskState := .running } = task := by
  rw [← h]
  exact Function.update_eq_self ..

/-- The second loop stops at the first eligible task from `a` on, or it comes to the
current task. -/
theorem searchLoop_eq {ys : List Nat} :
    ∀ {a fuel : Nat}, Links (successor task) a (a :: ys) currentTask → currentTask ∉ ys →
      ys.length < fuel →
      searchLoop currentTask fuel task a = some
        (match (a :: ys).find? fun t => (task t).Eligible with
        | some t => .ok (Function.update task t { task t with taskState := .running }, t)
        | none =>
          if (task currentTask).taskState = .running then .ok (task, currentTask)
          else .error .noRunningTasks) := by
  -- Induction on the rest of the ring; the loop is at its first task.
  induction ys with
  | nil =>
    intro a fuel hlinks _ hfuel
    obtain ⟨fuel, rfl⟩ : ∃ k, fuel = k + 1 := Nat.exists_eq_add_one.mpr hfuel
    have hnext : (task a).next = currentTask := hlinks.2
    rw [searchLoop]
    by_cases hrunning : (task a).taskState = .running
    · have heligible : (task a).Eligible := .inl hrunning
      simp [hrunning, heligible, update_running hrunning]
    · by_cases hsleep : (task a).taskState = .sleeping ∧ (task a).sleepTicks = 0
      · have heligible : (task a).Eligible := .inr hsleep
        simp [hsleep, heligible]
      -- The last task is not eligible either, and the next one is the current one.
      · have heligible : ¬ (task a).Eligible := not_or.mpr ⟨hrunning, hsleep⟩
        rw [List.find?_cons_of_neg (by simpa using heligible)]
        simp only [if_neg hsleep, if_neg hrunning, hnext, List.find?_nil, if_true]
        split
        · rfl
        · rfl
  | cons y ys ih =>
    intro a fuel hlinks hcurrent hfuel
    obtain ⟨fuel, rfl⟩ : ∃ k, fuel = k + 1 := Nat.exists_eq_add_one.mpr (by omega)
    obtain ⟨-, hnext, hrest⟩ := hlinks
    rw [List.mem_cons, not_or] at hcurrent
    rw [searchLoop]
    by_cases hrunning : (task a).taskState = .running
    · have heligible : (task a).Eligible := .inl hrunning
      simp [hrunning, heligible, update_running hrunning]
    · by_cases hsleep : (task a).taskState = .sleeping ∧ (task a).sleepTicks = 0
      · have heligible : (task a).Eligible := .inr hsleep
        simp [hsleep, heligible]
      · have heligible : ¬ (task a).Eligible := not_or.mpr ⟨hrunning, hsleep⟩
        have hgo : (task a).next = y := hnext
        have hne : ¬ y = currentTask := fun heq => hcurrent.1 heq.symm
        rw [List.find?_cons_of_neg (by simpa using heligible)]
        simp only [if_neg hsleep, if_neg hrunning, hgo, if_neg hne]
        exact ih ⟨rfl, hrest⟩ hcurrent.2 (by simpa using hfuel)

/-! ## Section 2: A call -/

namespace SchedulerState

variable (s : SchedulerState)

/-- The other tasks of the ring, in the order in which a call looks at them. -/
def TurnOrder (others : List Nat) : Prop :=
  Links (successor s.task) s.currentTask (s.currentTask :: others) s.currentTask ∧
    (s.currentTask :: others).Nodup

/-- The ticks of a task after a call; those of the current task are counted down twice. -/
def ticksLeft (t : Nat) : Nat :=
  (s.task t).sleepTicks - if t = s.currentTask then 2 else 1

/-- The task is running, or has no ticks left after a call. -/
def Due (t : Nat) : Prop :=
  (s.task t).taskState = .running ∨ ((s.task t).taskState = .sleeping ∧ s.ticksLeft t = 0)

instance (t : Nat) : Decidable (s.Due t) := inferInstanceAs (Decidable (_ ∨ _))

/-- The tasks as the search finds them. -/
def counted (sp : Nat) (others : List Nat) : Nat → OSTask :=
  s.countDownCurrent (tickDown (others ++ [s.currentTask])
    (Function.update s.task s.currentTask { s.task s.currentTask with stackPointer := sp }))

/-- A call resumes the first of the others that is due; if there is none, the current task
goes on if it is running. The ticks of every task of the ring are counted down. -/
structure Selects (others : List Nat) (s' : SchedulerState) : Prop where
  selected :
    (∃ front back, others = front ++ s'.currentTask :: back ∧ s.Due s'.currentTask ∧
      ∀ t ∈ front, ¬ s.Due t) ∨
    (s'.currentTask = s.currentTask ∧ (s.task s.currentTask).taskState = .running ∧
      ∀ t ∈ others, ¬ s.Due t)
  ticks : ∀ t ∈ s.currentTask :: others, (s'.task t).sleepTicks = s.ticksLeft t
  state : ∀ t, t ≠ s'.currentTask → (s'.task t).taskState = (s.task t).taskState

variable {s} {s' : SchedulerState} {sp : Nat} {others : List Nat}

theorem countDownCurrent_eq (task : Nat → OSTask) :
    s.countDownCurrent task = tickDown [s.currentTask] task :=
  tickDown_single task s.currentTask

theorem counted_task (sp : Nat) (horder : s.TurnOrder others) {t : Nat} (ht : t ∈ s.currentTask :: others) :
    (s.counted sp others t).taskState = (s.task t).taskState ∧
      (s.counted sp others t).sleepTicks = s.ticksLeft t := by
  obtain ⟨hcurrent, -⟩ := List.nodup_cons.mp horder.2
  unfold counted ticksLeft
  rw [countDownCurrent_eq]
  unfold tickDown
  rcases List.mem_cons.mp ht with rfl | ht
  · -- the current task is counted down once by the loop and once after it
    simp only [List.mem_append, List.mem_singleton, or_true, if_true, Function.update_self]
    exact ⟨trivial, Nat.sub_sub _ 1 1⟩
  · have hne : t ≠ s.currentTask := fun heq => hcurrent (heq ▸ ht)
    simp [hne, ht]

theorem counted_state {t : Nat} : (s.counted sp others t).taskState = (s.task t).taskState := by
  have htick : ∀ (ts : List Nat) (task : Nat → OSTask),
      (tickDown ts task t).taskState = (task t).taskState := by
    intro ts task
    unfold tickDown
    split
    · rfl
    · rfl
  unfold counted
  rw [countDownCurrent_eq, htick, htick]
  by_cases ht : t = s.currentTask
  · simp [ht]
  · simp [ht]

theorem successor_counted : successor (s.counted sp others) = successor s.task := by
  have hloop : successor (tickDown (others ++ [s.currentTask])
      (Function.update s.task s.currentTask { s.task s.currentTask with stackPointer := sp })) =
        successor s.task := by
    rw [successor_tickDown]
    exact successor_update_same rfl
  unfold counted
  rw [countDownCurrent_eq, successor_tickDown, hloop]

theorem eligible_counted (horder : s.TurnOrder others) {t : Nat} (ht : t ∈ others) :
    (s.counted sp others t).Eligible ↔ s.Due t := by
  obtain ⟨hstate, hticks⟩ := counted_task sp horder (List.mem_cons_of_mem _ ht)
  unfold OSTask.Eligible Due
  rw [hstate, hticks]

/-- What a call computes. -/
theorem next_eq (horder : s.TurnOrder others) (hothers : others ≠ [])
    (hbound : others.length < s.live.length) :
    s.next sp = some (match others.find? fun t => s.Due t with
      | some t => .ok (s.resume (Function.update (s.counted sp others) t
          { s.counted sp others t with taskState := .running }) t)
      | none =>
        if (s.task s.currentTask).taskState = .running then
          .ok (s.resume (s.counted sp others) s.currentTask)
        else .error .noRunningTasks) := by
  obtain ⟨a, ys, rfl⟩ := List.exists_cons_of_ne_nil hothers
  have hnodup := horder.2
  obtain ⟨-, ha, hlast⟩ := horder.1
  have hrest : Links (successor s.task) a (a :: ys) s.currentTask := ⟨rfl, hlast⟩
  obtain ⟨hcurrent, hys⟩ := List.nodup_cons.mp hnodup
  obtain ⟨hanot, -⟩ := List.nodup_cons.mp hys
  rw [List.mem_cons, not_or] at hcurrent
  let entered := Function.update s.task s.currentTask
    { s.task s.currentTask with stackPointer := sp }
  have hentered : successor entered = successor s.task := successor_update_same rfl
  have hnext : (entered s.currentTask).next = a := (congrFun hentered s.currentTask).trans ha
  -- the first loop ends where it began, behind the current task
  have hcount : countDownLoop s.currentTask s.loopBound entered a =
      some (tickDown (a :: (ys ++ [s.currentTask])) entered) := by
    apply countDownLoop_eq
    · rw [hentered, ha, ← List.cons_append, Links.concat_iff]
      exact ⟨hrest, ha⟩
    · rw [← List.cons_append]
      exact List.nodup_append_comm.mp hnodup
    · rw [hentered, ha, List.mem_append, not_or]
      refine ⟨hanot, ?_⟩
      rw [List.mem_singleton]
      exact fun heq => hcurrent.1 heq.symm
    · unfold loopBound
      simp only [List.length_cons, List.length_append, List.length_nil] at hbound ⊢
      omega
  have hsearch : searchLoop s.currentTask s.loopBound (s.counted sp (a :: ys)) a = some
      (match (a :: ys).find? fun t => (s.counted sp (a :: ys) t).Eligible with
      | some t => .ok (Function.update (s.counted sp (a :: ys)) t
          { s.counted sp (a :: ys) t with taskState := .running }, t)
      | none =>
        if (s.counted sp (a :: ys) s.currentTask).taskState = .running then
          .ok (s.counted sp (a :: ys), s.currentTask)
        else .error .noRunningTasks) := by
    apply searchLoop_eq
    · rw [successor_counted]
      exact hrest
    · exact hcurrent.2
    · unfold loopBound
      simp only [List.length_cons] at hbound
      omega
  have hfind : ((a :: ys).find? fun t => (s.counted sp (a :: ys) t).Eligible) =
      (a :: ys).find? fun t => s.Due t := by
    apply List.find?_congr
    intro t ht
    exact decide_eq_decide.mpr (eligible_counted horder ht)
  have hstate := (counted_task sp horder List.mem_cons_self).1
  have hsame : successor (s.counted sp (a :: ys)) = successor s.task := successor_counted
  have hfirst : (s.counted sp (a :: ys) s.currentTask).next = a :=
    (congrFun hsame s.currentTask).trans ha
  unfold next
  simp only [show (Function.update s.task s.currentTask
    { s.task s.currentTask with stackPointer := sp }) = entered from rfl, hnext, hcount,
    Option.bind_some]
  rw [show s.countDownCurrent (tickDown (a :: (ys ++ [s.currentTask])) entered) =
    s.counted sp (a :: ys) from rfl, hfirst, hsearch, hfind, hstate, Option.map_some]
  congr 1
  split
  · rfl
  · split
    · rfl
    · rfl

/-- What a call computes on a ring of one task. -/
theorem next_alone (horder : s.TurnOrder []) :
    s.next sp = some (if (s.counted sp [] s.currentTask).Eligible then
        .ok (s.resume (Function.update (s.counted sp []) s.currentTask
          { s.counted sp [] s.currentTask with taskState := .running }) s.currentTask)
      else .error .noRunningTasks) := by
  have hself : successor s.task s.currentTask = s.currentTask := horder.1.2
  -- The stack pointer is stored in the task first, which changes no link.
  let entered := Function.update s.task s.currentTask
    { s.task s.currentTask with stackPointer := sp }
  have hentered : successor entered = successor s.task := successor_update_same rfl
  have hnext : (entered s.currentTask).next = s.currentTask :=
    (congrFun hentered s.currentTask).trans hself
  -- The one task is counted by the first loop.
  have hcount : countDownLoop s.currentTask s.loopBound entered s.currentTask =
      some (tickDown [s.currentTask] entered) := by
    apply countDownLoop_eq
    · rw [hentered, hself]
      exact horder.1
    · exact horder.2
    · exact List.not_mem_nil
    · exact Nat.succ_pos _
  have hsame : successor (s.counted sp []) = successor s.task := successor_counted
  have hfirst : (s.counted sp [] s.currentTask).next = s.currentTask :=
    (congrFun hsame s.currentTask).trans hself
  -- It is also the only one that the second loop looks at.
  have hsearch := searchLoop_eq (hsame ▸ horder.1) List.not_mem_nil (Nat.succ_pos s.live.length)
  rw [show searchLoop s.currentTask (s.live.length + 1) (s.counted sp []) s.currentTask =
    searchLoop s.currentTask s.loopBound (s.counted sp []) (s.counted sp [] s.currentTask).next by
      rw [hfirst]; rfl] at hsearch
  unfold next
  simp only [show (Function.update s.task s.currentTask
    { s.task s.currentTask with stackPointer := sp }) = entered from rfl, hnext, hcount,
    Option.bind_some]
  rw [show s.countDownCurrent (tickDown [s.currentTask] entered) = s.counted sp [] from rfl,
    hsearch, Option.map_some]
  by_cases heligible : (s.counted sp [] s.currentTask).Eligible
  · simp [heligible, Except.map]
  · have hrunning : (s.counted sp [] s.currentTask).taskState ≠ .running :=
      fun hrunning => heligible (.inl hrunning)
    simp [heligible, hrunning, Except.map]

/-! ## Section 3: What a call selects -/

theorem resume_selects (horder : s.TurnOrder others) {t : Nat} {task : Nat → OSTask}
    (hticks : ∀ u, (task u).sleepTicks = (s.counted sp others u).sleepTicks)
    (hstate : ∀ u, u ≠ t → (task u).taskState = (s.counted sp others u).taskState)
    (hselected : (∃ front back, others = front ++ t :: back ∧ s.Due t ∧ ∀ u ∈ front, ¬ s.Due u) ∨
      (t = s.currentTask ∧ (s.task s.currentTask).taskState = .running ∧
        ∀ u ∈ others, ¬ s.Due u)) :
    s.Selects others (s.resume task t) where
  selected := hselected
  ticks u hu := (hticks u).trans (counted_task sp horder hu).2
  state u hu := (hstate u hu).trans counted_state

/-- A call selects the first task that is due. -/
theorem next_selects (horder : s.TurnOrder others) (hbound : others.length < s.live.length)
    (halone : others = [] → (s.task s.currentTask).taskState = .sleeping →
      2 < (s.task s.currentTask).sleepTicks)
    (hnext : s.next sp = some (.ok s')) : s.Selects others s' := by
  have hticks : ∀ t u, (Function.update (s.counted sp others) t
      { s.counted sp others t with taskState := .running } u).sleepTicks =
        (s.counted sp others u).sleepTicks := by
    intro t u
    by_cases hu : u = t
    · simp [hu]
    · simp [hu]
  have hstate : ∀ t u, u ≠ t → (Function.update (s.counted sp others) t
      { s.counted sp others t with taskState := .running } u).taskState =
        (s.counted sp others u).taskState := by
    intro t u hu
    simp [hu]
  by_cases hothers : others = []
  · subst hothers
    rw [next_alone horder] at hnext
    split at hnext
    · rename_i heligible
      obtain rfl := Except.ok.inj (Option.some.inj hnext)
      refine resume_selects horder (hticks _) (hstate _) (.inr ⟨rfl, ?_, by simp⟩)
      obtain ⟨hsame, hleft⟩ := counted_task sp horder List.mem_cons_self
      rcases heligible with hrunning | ⟨hsleeping, hzero⟩
      · exact hsame.symm.trans hrunning
      · -- a sleeper by itself still has ticks
        have hlong := halone rfl (hsame.symm.trans hsleeping)
        rw [hzero, ticksLeft, if_pos rfl] at hleft
        omega
    · cases Option.some.inj hnext
  · rw [next_eq horder hothers hbound] at hnext
    cases hfind : others.find? fun t => s.Due t with
    | some t =>
      rw [hfind] at hnext
      obtain rfl := Except.ok.inj (Option.some.inj hnext)
      obtain ⟨hdue, front, back, heq, hfront⟩ := List.find?_eq_some_iff_append.mp hfind
      refine resume_selects horder (hticks _) (hstate _) (.inl ⟨front, back, heq, ?_, ?_⟩)
      · exact of_decide_eq_true hdue
      · intro u hu
        simpa using hfront u hu
    | none =>
      rw [hfind] at hnext
      simp only at hnext
      split at hnext
      · rename_i hrunning
        obtain rfl := Except.ok.inj (Option.some.inj hnext)
        refine resume_selects horder (fun _ => rfl) (fun _ _ => rfl) (.inr ⟨rfl, hrunning, ?_⟩)
        intro u hu
        simpa using List.find?_eq_none.mp hfind u hu
      · cases Option.some.inj hnext

/-- A call selects a task if one is due, or the current one runs. -/
theorem next_ok (horder : s.TurnOrder others) (hothers : others ≠ [])
    (hbound : others.length < s.live.length)
    (hdue : (∃ t ∈ others, s.Due t) ∨ (s.task s.currentTask).taskState = .running) :
    ∃ s', s.next sp = some (.ok s') := by
  rw [next_eq horder hothers hbound]
  cases hfind : others.find? fun t => s.Due t with
  | some t => exact ⟨_, rfl⟩
  | none =>
    have hnone := List.find?_eq_none.mp hfind
    rcases hdue with ⟨t, ht, hdue⟩ | hrunning
    · exact absurd (decide_eq_true hdue) (hnone t ht)
    · exact ⟨_, congrArg some (if_pos hrunning)⟩

/-- There is one order of turns. -/
theorem TurnOrder.unique (horder : s.TurnOrder others) {others' : List Nat}
    (horder' : s.TurnOrder others') : others' = others :=
  Links.cycle_unique horder'.1 horder.1 horder'.2 horder.2

/-- The first task that is due is the one that is selected. -/
theorem Selects.current_eq (h : s.Selects others s') {t : Nat} {front back : List Nat}
    (hothers : others = front ++ t :: back) (hdue : s.Due t) (hfront : ∀ u ∈ front, ¬ s.Due u) :
    s'.currentTask = t := by
  have hfirst : ∀ {u : Nat} {front back : List Nat}, others = front ++ u :: back → s.Due u →
      (∀ v ∈ front, ¬ s.Due v) → others.find? (fun v => s.Due v) = some u := by
    intro u front back heq hu hnone
    apply List.find?_eq_some_iff_append.mpr
    exact ⟨decide_eq_true hu, front, back, heq, by simpa using hnone⟩
  rcases h.selected with ⟨front', back', hothers', hdue', hfront'⟩ | ⟨-, -, hnone⟩
  · have hsame := (hfirst hothers' hdue' hfront').symm.trans (hfirst hothers hdue hfront)
    exact Option.some.inj hsame
  · exact absurd hdue (hnone t (by simp [hothers]))

/-- On the ring of the invariant, the turns pass through all tasks. -/
theorem Invariant.turnOrder {ring : List Nat} (h : s.Invariant ring) :
    ∃ others, s.TurnOrder others ∧ (∀ t, t ∈ s.currentTask :: others ↔ t ∈ ring) ∧
      others.length < s.live.length := by
  obtain ⟨front, back, hring⟩ := List.append_of_mem h.current_mem
  have hlinks := h.links
  have hnodup := h.nodup
  rw [hring] at hlinks hnodup
  have hmem : ∀ t, t ∈ s.currentTask :: (back ++ front) ↔ t ∈ ring := by
    intro t
    rw [hring]
    simp only [List.mem_cons, List.mem_append]
    tauto
  have hturns : (s.currentTask :: (back ++ front)).Nodup := List.nodup_append_comm.mp hnodup
  refine ⟨back ++ front, ⟨hlinks.rotate, hturns⟩, hmem, ?_⟩
  -- every task of the ring is a live block of its own
  have hlive : s.currentTask :: (back ++ front) ⊆ s.live.map Prod.fst := by
    intro t ht
    have hblock := h.memory.live (.structOf (h.mem_linked t ((hmem t).mp ht)))
    exact List.mem_map.mpr ⟨_, hblock, rfl⟩
  have hlength := (hturns.subperm hlive).length_le
  rwa [List.length_map] at hlength

/-- The state after a call passes a test. -/
def nextPasses (s : SchedulerState) (sp : Nat) (p : SchedulerState → Bool) : Bool :=
  match s.next sp with
  | some (.ok s') => p s'
  | _ => false

theorem exists_of_nextPasses {p : SchedulerState → Bool}
    (h : s.nextPasses sp p = true) : ∃ s', s.next sp = some (.ok s') ∧ p s' = true := by
  unfold nextPasses at h
  split at h
  · rename_i s' hnext
    exact ⟨s', hnext, h⟩
  · cases h

end SchedulerState

end TermOS.OS
