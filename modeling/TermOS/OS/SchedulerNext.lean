import TermOS.OS.Scheduler
import TermOS.Lib.Links

/-!
# What the scheduler's loops do

One lemma for each loop of the scheduler and from them one for `OSSchedulerNext`
and one for `OSSchedulerWakeup`. Proofs about runs use these and do not look
into the loops again.
-/

namespace TermOS.OS

open TermOS.Lib

/-- The successor of a task in the ring. -/
def successor (task : Nat → OSTask) (t : Nat) : Nat := (task t).next

theorem successor_update (task : Nat → OSTask) (t : Nat) (value : OSTask) :
    successor (Function.update task t value) = Function.update (successor task) t value.next := by
  funext u
  rw [successor, Function.apply_update (fun _ (x : OSTask) => x.next)]
  rfl

/-- A write that keeps `next` keeps every list. -/
theorem successor_update_same {task : Nat → OSTask} {t : Nat} {value : OSTask}
    (h : value.next = (task t).next) : successor (Function.update task t value) = successor task := by
  rw [successor_update, h]
  exact Function.update_eq_self ..

/-! ## Section 1: Counting down and looking for a task -/

/-- Time has passed for some tasks: ticks are counted down, and who has slept
enough runs. -/
structure Aged (task task' : Nat → OSTask) : Prop where
  eq : ∀ t, task' t =
    { task t with sleepTicks := (task' t).sleepTicks, taskState := (task' t).taskState }
  state : ∀ t, (task' t).taskState = (task t).taskState ∨
    ((task t).taskState = .sleeping ∧ (task' t).taskState = .running)

namespace Aged

variable {task task' task'' : Nat → OSTask}

theorem refl (task : Nat → OSTask) : Aged task task := ⟨fun _ => rfl, fun _ => .inl rfl⟩

theorem trans (h : Aged task task') (h' : Aged task' task'') : Aged task task'' := by
  constructor
  · intro t
    rw [h'.eq t, h.eq t]
  · intro t
    rcases h.state t with heq | ⟨hsleep, hrun⟩
    · rw [← heq]
      exact h'.state t
    · refine .inr ⟨hsleep, ?_⟩
      rcases h'.state t with heq | ⟨-, hrun'⟩
      · rw [heq, hrun]
      · exact hrun'

theorem successor_eq (h : Aged task task') : successor task' = successor task := by
  funext t
  rw [successor, h.eq t, successor]

/-- Writing ticks and a state that may follow the old one. -/
theorem update (task : Nat → OSTask) (t ticks : Nat) (state : OSProcessState)
    (hstate : state = (task t).taskState ∨ ((task t).taskState = .sleeping ∧ state = .running)) :
    Aged task (Function.update task t { task t with sleepTicks := ticks, taskState := state }) := by
  constructor
  · intro u
    by_cases hu : u = t
    · rw [hu, Function.update_self]
    · rw [Function.update_of_ne hu]
  · intro u
    by_cases hu : u = t
    · rw [hu, Function.update_self]
      exact hstate
    · rw [Function.update_of_ne hu]
      exact .inl rfl

end Aged

variable {currentTask : Nat} {task task' : Nat → OSTask}

theorem countDownLoop_aged {fuel taskIterator : Nat}
    (h : countDownLoop currentTask fuel task taskIterator = some task') : Aged task task' := by
  induction fuel generalizing task taskIterator with
  | zero => simp [countDownLoop] at h
  | succ fuel ih =>
    rw [countDownLoop] at h
    simp only at h
    generalize hturn : (if 0 < (task taskIterator).sleepTicks then
      Function.update task taskIterator
        { task taskIterator with sleepTicks := (task taskIterator).sleepTicks - 1 }
      else task) = turn at h
    have haged : Aged task turn := by
      rw [← hturn]
      split
      · exact Aged.update task taskIterator _ _ (.inl rfl)
      · exact .refl task
    split at h
    · cases h
      exact haged
    · exact haged.trans (ih h)

/-- The task that the search ends with is running and was reached over `next`. -/
theorem searchLoop_ok {fuel nextTask found : Nat}
    (h : searchLoop currentTask fuel task nextTask = some (.ok (task', found))) :
    Aged task task' ∧ (task' found).taskState = .running ∧
      ∃ passed, Links (successor task) nextTask passed found := by
  induction fuel generalizing task nextTask with
  | zero => simp [searchLoop] at h
  | succ fuel ih =>
    rw [searchLoop] at h
    simp only at h
    generalize hturn : (if (task nextTask).taskState = .sleeping ∧ (task nextTask).sleepTicks = 0 then
      Function.update task nextTask { task nextTask with taskState := .running }
      else task) = turn at h
    have haged : Aged task turn := by
      rw [← hturn]
      split
      · rename_i hsleep
        exact Aged.update task nextTask _ _ (.inr ⟨hsleep.1, rfl⟩)
      · exact .refl task
    split at h
    · rename_i hrunning
      cases h
      exact ⟨haged, hrunning, [], rfl⟩
    · have hstep : (turn nextTask).next = successor task nextTask :=
        congrFun haged.successor_eq nextTask
      split at h
      · split at h
        · rename_i hcurrent hrunning
          cases h
          refine ⟨haged, by rwa [hcurrent], [nextTask], rfl, ?_⟩
          exact hstep.symm
        · cases h
      · obtain ⟨haged', hrunning, passed, hpassed⟩ := ih h
        refine ⟨haged.trans haged', hrunning, nextTask :: passed, rfl, ?_⟩
        rw [haged.successor_eq] at hpassed
        rwa [← hstep]

/-- What `OSSchedulerNext` does. -/
structure Switched (s : SchedulerState) (sp : Nat) (s' : SchedulerState) : Prop where
  aged : Aged
    (Function.update s.task s.currentTask { s.task s.currentTask with stackPointer := sp }) s'.task
  reached : ∃ passed, Links (successor s.task) s.currentTask (s.currentTask :: passed) s'.currentTask
  running : (s'.task s'.currentTask).taskState = .running
  cr3 : s'.cr3 =
    if (s.process (s.task s'.currentTask).process).physicalPML4 ≠
        (s.process (s.task s.currentTask).process).physicalPML4 then
      (s.process (s.task s'.currentTask).process).physicalPML4
    else s.cr3
  rsp0 : s'.rsp0 = (s.task s'.currentTask).kernelStackTop
  kernelStackPointer : s'.kernelStackPointer = (s.task s'.currentTask).kernelStackTop
  rest : s' = { s with
    task := s'.task, currentTask := s'.currentTask, cr3 := s'.cr3, rsp0 := s'.rsp0
    kernelStackPointer := s'.kernelStackPointer }

namespace Switched

variable {s s' : SchedulerState} {sp : Nat}

/-- A switch keeps what the scheduler does not manage in a task. -/
theorem task_eq (h : Switched s sp s') (t : Nat) : s'.task t = { s.task t with
    stackPointer := if t = s.currentTask then sp else (s.task t).stackPointer
    sleepTicks := (s'.task t).sleepTicks
    taskState := (s'.task t).taskState } := by
  have heq := h.aged.eq t
  by_cases ht : t = s.currentTask
  · rw [ht, Function.update_self] at heq
    rw [ht, if_pos rfl]
    exact heq
  · rw [Function.update_of_ne ht] at heq
    rw [if_neg ht]
    exact heq

theorem state (h : Switched s sp s') (t : Nat) : (s'.task t).taskState = (s.task t).taskState ∨
    ((s.task t).taskState = .sleeping ∧ (s'.task t).taskState = .running) := by
  have hstate := h.aged.state t
  by_cases ht : t = s.currentTask
  · rw [ht, Function.update_self] at hstate
    rw [ht]
    exact hstate
  · rw [Function.update_of_ne ht] at hstate
    exact hstate

theorem successor_eq (h : Switched s sp s') : successor s'.task = successor s.task := by
  rw [h.aged.successor_eq]
  exact successor_update_same rfl

end Switched

theorem SchedulerState.next_switched {s s' : SchedulerState} {sp : Nat}
    (h : s.next sp = some (.ok s')) : Switched s sp s' := by
  rw [SchedulerState.next] at h
  simp only [Option.bind_eq_some_iff, Option.map_eq_some_iff] at h
  generalize hstart : Function.update s.task s.currentTask
    { s.task s.currentTask with stackPointer := sp } = start at h
  obtain ⟨counted, hcount, result, hsearch, hresult⟩ := h
  -- The first loop and the count of the current task write tick counts only.
  have haged := countDownLoop_aged hcount
  have hcurrent : Aged counted (s.countDownCurrent counted) := by
    rw [SchedulerState.countDownCurrent]
    split
    · exact Aged.update counted s.currentTask _ _ (.inl rfl)
    · exact .refl counted
  cases result with
  | error panic => cases hresult
  | ok found =>
    obtain ⟨task', found⟩ := found
    -- The second loop stops at a running task, which it reaches over the tasks it has passed.
    obtain ⟨hsearched, hrunning, passed, hpassed⟩ := searchLoop_ok hsearch
    have hall : Aged start task' := haged.trans (hcurrent.trans hsearched)
    have hsuccessor : successor (s.countDownCurrent counted) = successor s.task := by
      rw [(haged.trans hcurrent).successor_eq, ← hstart]
      exact successor_update_same rfl
    -- What the processor loads for the task is what the task had before the call.
    have hprocess : ∀ t, (task' t).process = (s.task t).process ∧
        (task' t).kernelStackTop = (s.task t).kernelStackTop := by
      intro t
      rw [hall.eq t, ← hstart]
      by_cases ht : t = s.currentTask
      · rw [ht, Function.update_self]
        exact ⟨rfl, rfl⟩
      · rw [Function.update_of_ne ht]
        exact ⟨rfl, rfl⟩
    obtain rfl : s.resume task' found = s' := by
      simpa [Except.map] using hresult
    refine ⟨?_, ⟨passed, rfl, ?_⟩, hrunning, ?_, (hprocess found).2, (hprocess found).2, rfl⟩
    · rw [hstart]
      exact hall
    · rw [hsuccessor] at hpassed
      have hfirst : (s.countDownCurrent counted s.currentTask).next =
          successor s.task s.currentTask := congrFun hsuccessor s.currentTask
      rwa [hfirst] at hpassed
    · simp only [SchedulerState.resume, (hprocess _).1]

/-! ## Section 2: Waking up -/

/-- Some tasks that wait for a process run again. -/
structure Awakened (processID : UInt32) (task task' : Nat → OSTask) : Prop where
  cases : ∀ t, task' t = task t ∨
    ((task t).taskState = .blocked ∧ (task t).waitingForProcess = processID.toInt32 ∧
      task' t = { task t with taskState := .running, waitingForProcess := -1 })

namespace Awakened

variable {processID : UInt32}

theorem refl (task : Nat → OSTask) : Awakened processID task task := ⟨fun _ => .inl rfl⟩

theorem successor_eq (h : Awakened processID task task') : successor task' = successor task := by
  funext t
  rcases h.cases t with heq | ⟨-, -, heq⟩
  · rw [successor, heq, successor]
  · rw [successor, heq, successor]

theorem update (processID : UInt32) (task : Nat → OSTask) (t : Nat)
    (h : (task t).taskState = .blocked ∧ (task t).waitingForProcess = processID.toInt32) :
    Awakened processID task
      (Function.update task t { task t with taskState := .running, waitingForProcess := -1 }) := by
  constructor
  intro u
  by_cases hu : u = t
  · rw [hu, Function.update_self]
    exact .inr ⟨h.1, h.2, rfl⟩
  · rw [Function.update_of_ne hu]
    exact .inl rfl

/-- Who waits for the process after some wakeups has waited for it before. -/
theorem waiting_of_waiting (h : Awakened processID task task') {t : Nat}
    (hwaiting : (task' t).taskState = .blocked) : task' t = task t := by
  rcases h.cases t with heq | ⟨-, -, heq⟩
  · exact heq
  · rw [heq] at hwaiting
    cases hwaiting

theorem trans {task'' : Nat → OSTask} (h : Awakened processID task task')
    (h' : Awakened processID task' task'') : Awakened processID task task'' := by
  constructor
  intro t
  rcases h'.cases t with heq' | ⟨hblocked, hwaiting, heq'⟩
  · rw [heq']
    exact h.cases t
  · have heq := h.waiting_of_waiting hblocked
    rw [heq] at hblocked hwaiting heq'
    exact .inr ⟨hblocked, hwaiting, heq'⟩

end Awakened

/-- The wakeup loop passes from `iteratorTask` on to the current task and wakes
who waits for the process. -/
theorem wakeupLoop_awakened {processID : UInt32} {fuel iteratorTask : Nat}
    (h : wakeupLoop currentTask processID fuel task iteratorTask = some task') :
    Awakened processID task task' ∧ ∃ rest,
      Links (successor task) iteratorTask (iteratorTask :: rest) currentTask ∧ currentTask ∉ rest ∧
      ∀ t ∈ iteratorTask :: rest, (task' t).taskState = .blocked →
        (task' t).waitingForProcess ≠ processID.toInt32 := by
  induction fuel generalizing task iteratorTask with
  | zero => simp [wakeupLoop] at h
  | succ fuel ih =>
    rw [wakeupLoop] at h
    simp only at h
    generalize hturn : (if (task iteratorTask).taskState = .blocked ∧
        (task iteratorTask).waitingForProcess = processID.toInt32 then
      Function.update task iteratorTask
        { task iteratorTask with taskState := .running, waitingForProcess := -1 }
      else task) = turn at h
    have hawake : Awakened processID task turn := by
      rw [← hturn]
      split
      · rename_i hwaiting
        exact .update processID task iteratorTask hwaiting
      · exact .refl task
    -- the task of this turn no longer waits for the process
    have hdone : (turn iteratorTask).taskState = .blocked →
        (turn iteratorTask).waitingForProcess ≠ processID.toInt32 := by
      intro hblocked hwaiting
      have heq := hawake.waiting_of_waiting hblocked
      rw [heq] at hblocked hwaiting
      rw [← hturn, if_pos ⟨hblocked, hwaiting⟩, Function.update_self] at heq
      rw [← heq] at hblocked
      cases hblocked
    have hstep : (turn iteratorTask).next = successor task iteratorTask :=
      congrFun hawake.successor_eq iteratorTask
    rw [hstep] at h
    split at h
    · rename_i hcurrent
      cases h
      refine ⟨hawake, [], ⟨rfl, hcurrent⟩, by simp, ?_⟩
      intro t ht
      rw [List.mem_singleton] at ht
      rw [ht]
      exact hdone
    · rename_i hcurrent
      obtain ⟨hawake', rest, hlinks, hnotMem, hrest⟩ := ih h
      rw [hawake.successor_eq] at hlinks
      refine ⟨hawake.trans hawake', _, ⟨rfl, hlinks⟩, ?_, ?_⟩
      · rw [List.mem_cons, not_or]
        exact ⟨Ne.symm hcurrent, hnotMem⟩
      · intro t ht
        rcases List.mem_cons.mp ht with rfl | hin
        · intro hblocked
          have heq := hawake'.waiting_of_waiting hblocked
          rw [heq] at hblocked ⊢
          exact hdone hblocked
        · exact hrest t hin

/-- What `OSSchedulerWakeup` does. -/
theorem SchedulerState.wakeup_awakened {s s' : SchedulerState} {processID : UInt32}
    (h : s.wakeup processID = some s') :
    s' = { s with task := s'.task } ∧ Awakened processID s.task s'.task ∧ ∃ rest,
      Links (successor s.task) s.currentTask (s.currentTask :: rest) s.currentTask ∧
      s.currentTask ∉ rest ∧ ∀ t ∈ s.currentTask :: rest, (s'.task t).taskState = .blocked →
        (s'.task t).waitingForProcess ≠ processID.toInt32 := by
  rw [SchedulerState.wakeup, Option.map_eq_some_iff] at h
  obtain ⟨task', hloop, rfl⟩ := h
  exact ⟨rfl, wakeupLoop_awakened hloop⟩

end TermOS.OS
