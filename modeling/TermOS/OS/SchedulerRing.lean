import TermOS.OS.SchedulerMemory

/-!
# The ring of tasks

The invariant of the scheduler: the tasks form one cycle through the garbage
collector, the collector's local variables point into it in the right order,
and tasks and stacks occupy live blocks that do not overlap. Every action keeps
the invariant; the list of the ring changes only when a task is linked in and
when the collector unlinks one.
-/

namespace TermOS.OS

open TermOS.Lib

namespace SchedulerState

variable (s : SchedulerState)

/-! ## Section 1: The invariant -/

/-- A task that is not dead. -/
def Alive (t : Nat) : Prop := (s.task t).taskState ≠ .dead

/-- The collector's `nextTask` comes after its `previousTask`, before the
collector itself is reached again. Between the two lie tasks that were linked
in after `nextTask` was read. -/
def Ahead (ring : List Nat) : Prop :=
  s.collector.previousTask ∈ ring ∧ ∃ gap, Links (successor s.task) s.collector.previousTask
    (s.collector.previousTask :: gap) s.collector.nextTask ∧ s.garbageCollectorTask ∉ gap

/-- The collector's `nextTask` is off the ring and waits to be freed. -/
def Unlinked (ring : List Nat) : Prop :=
  s.collector.previousTask ∈ ring ∧ s.collector.nextTask ∈ s.linked ∧
    s.collector.nextTask ∉ ring ∧ ¬ s.Alive s.collector.nextTask

/-- What holds of the collector's local variables at each of its statements. -/
def CollectorAt (ring : List Nat) : CollectorPoint → Prop
  | .enter => True
  | .first | .yieldTicks | .yieldState | .yieldSwitch => True
  | .second | .reread => s.collector.previousTask ∈ ring
  | .test => s.Ahead ring
  | .check | .advance => s.Ahead ring ∧ s.collector.nextTask ≠ s.garbageCollectorTask
  | .unlink => s.Ahead ring ∧ s.collector.nextTask ≠ s.garbageCollectorTask ∧
      ¬ s.Alive s.collector.nextTask
  | .freeStack | .freeTask => s.Unlinked ring
  | .follow => s.collector.nextTask ∈ ring ∧ s.collector.previousTask = s.collector.nextTask

/-- The invariant of the scheduler; `ring` are its tasks, the collector first. -/
structure Invariant (ring : List Nat) : Prop where
  links : Links (successor s.task) s.garbageCollectorTask ring s.garbageCollectorTask
  nodup : ring.Nodup
  collector_mem : s.garbageCollectorTask ∈ ring
  current_mem : s.currentTask ∈ ring
  mem_linked : ∀ t ∈ ring, t ∈ s.linked
  collector_alive : s.Alive s.garbageCollectorTask
  memory : s.TaskMemory
  self : s.collector.point = .enter ∨ s.collector.self = s.garbageCollectorTask
  collector : s.CollectorAt ring s.collector.point

/-- The invariant between two actions: the current task is not dead. -/
structure Sound (ring : List Nat) : Prop extends s.Invariant ring where
  current_alive : s.Alive s.currentTask

end SchedulerState

/-! ## Section 2: Actions that keep the ring -/

/-- Neither the list of tasks nor the collector has changed, and no dead task
has come back. -/
structure SameRing (s s' : SchedulerState) : Prop where
  successor : successor s'.task = successor s.task
  dead : ∀ t, ¬ s.Alive t → ¬ s'.Alive t
  garbageCollectorTask : s'.garbageCollectorTask = s.garbageCollectorTask
  collector : s'.collector = s.collector
  linked : s'.linked = s.linked

/-- The memory of the tasks has not changed either. -/
structure Quiet (s s' : SchedulerState) : Prop extends SameRing s s', SchedulerState.SameBlocks s s'

namespace Quiet

variable {s s' s'' : SchedulerState}

theorem refl (s : SchedulerState) : Quiet s s where
  successor := rfl
  dead _ := id
  garbageCollectorTask := rfl
  collector := rfl
  linked := rfl
  kernelStackBase _ := rfl
  pending := rfl
  live := rfl
  freed := rfl

theorem trans (h : Quiet s s') (h' : Quiet s' s'') : Quiet s s'' where
  successor := h'.successor.trans h.successor
  kernelStackBase t := (h'.kernelStackBase t).trans (h.kernelStackBase t)
  dead t ht := h'.dead t (h.dead t ht)
  garbageCollectorTask := h'.garbageCollectorTask.trans h.garbageCollectorTask
  collector := h'.collector.trans h.collector
  pending := h'.pending.trans h.pending
  live := h'.live.trans h.live
  linked := h'.linked.trans h.linked
  freed := h'.freed.trans h.freed

/-- Writing fields of a task other than `next` and the stack. -/
theorem setTask {t : Nat} {value : OSTask} (hnext : value.next = (s.task t).next)
    (hbase : value.kernelStackBase = (s.task t).kernelStackBase)
    (hdead : s.Alive t ∨ value.taskState = .dead) : Quiet s (s.setTask t value) where
  successor := successor_update_same hnext
  kernelStackBase u := by
    by_cases hu : u = t
    · rw [hu, SchedulerState.setTask_same, hbase]
    · rw [SchedulerState.setTask_ne _ _ hu]
  dead u hu := by
    by_cases hut : u = t
    · rcases hdead with halive | hvalue
      · rw [hut] at hu
        exact absurd halive hu
      · rw [hut, SchedulerState.Alive, SchedulerState.setTask_same, not_not]
        exact hvalue
    · rwa [SchedulerState.Alive, SchedulerState.setTask_ne _ _ hut]
  garbageCollectorTask := rfl
  collector := rfl
  pending := rfl
  live := rfl
  linked := rfl
  freed := rfl

theorem signal (h : s.Alive s.garbageCollectorTask) : Quiet s s.postGarbageCollectorSignal := by
  rw [SchedulerState.postGarbageCollectorSignal]
  split
  · exact .refl s
  · exact .setTask rfl rfl (.inl h)

theorem switched {sp : Nat} (h : Switched s sp s') : Quiet s s' where
  successor := h.successor_eq
  dead t hdead halive := by
    rw [SchedulerState.Alive, not_not] at hdead
    rcases h.state t with heq | ⟨hsleep, -⟩
    · exact halive (heq.trans hdead)
    · rw [hdead] at hsleep
      cases hsleep
  kernelStackBase t := by rw [h.task_eq t]
  garbageCollectorTask := by rw [h.rest]
  collector := by rw [h.rest]
  pending := by rw [h.rest]
  live := by rw [h.rest]
  linked := by rw [h.rest]
  freed := by rw [h.rest]

theorem awakened {processID : UInt32} (h : s.wakeup processID = some s') : Quiet s s' := by
  obtain ⟨hrest, hawake, -⟩ := SchedulerState.wakeup_awakened h
  have hdead : ∀ t, ¬ s.Alive t → ¬ s'.Alive t := by
    intro t hdead halive
    rw [SchedulerState.Alive, not_not] at hdead
    rcases hawake.cases t with heq | ⟨hblocked, -, -⟩
    · rw [SchedulerState.Alive, heq] at halive
      exact halive hdead
    · rw [hdead] at hblocked
      cases hblocked
  have hbase : ∀ t, (s'.task t).kernelStackBase = (s.task t).kernelStackBase := by
    intro t
    rcases hawake.cases t with heq | ⟨-, -, heq⟩
    · rw [heq]
    · rw [heq]
  rw [hrest]
  exact { successor := hawake.successor_eq, dead := hdead, kernelStackBase := hbase,
          garbageCollectorTask := rfl, collector := rfl, pending := rfl, live := rfl, linked := rfl,
          freed := rfl }

end Quiet

namespace SameRing

variable {s s' : SchedulerState}

theorem ahead (h : SameRing s s') {ring : List Nat} (hahead : s.Ahead ring) : s'.Ahead ring := by
  rw [SchedulerState.Ahead, h.successor, h.collector, h.garbageCollectorTask]
  exact hahead

theorem collectorAt (h : SameRing s s') {ring : List Nat} {point : CollectorPoint}
    (hat : s.CollectorAt ring point) : s'.CollectorAt ring point := by
  have hgc := h.garbageCollectorTask
  have hcollector := h.collector
  cases point with
  | enter => trivial
  | first => trivial
  | second =>
    simp only [SchedulerState.CollectorAt] at hat ⊢
    rwa [hcollector]
  | test => exact h.ahead hat
  | check =>
    simp only [SchedulerState.CollectorAt] at hat ⊢
    rw [hcollector, hgc]
    exact ⟨h.ahead hat.1, hat.2⟩
  | unlink =>
    simp only [SchedulerState.CollectorAt] at hat ⊢
    rw [hcollector, hgc]
    exact ⟨h.ahead hat.1, hat.2.1, h.dead _ hat.2.2⟩
  | freeStack =>
    simp only [SchedulerState.CollectorAt, SchedulerState.Unlinked] at hat ⊢
    rw [hcollector, h.linked]
    exact ⟨hat.1, hat.2.1, hat.2.2.1, h.dead _ hat.2.2.2⟩
  | freeTask =>
    simp only [SchedulerState.CollectorAt, SchedulerState.Unlinked] at hat ⊢
    rw [hcollector, h.linked]
    exact ⟨hat.1, hat.2.1, hat.2.2.1, h.dead _ hat.2.2.2⟩
  | reread =>
    simp only [SchedulerState.CollectorAt] at hat ⊢
    rwa [hcollector]
  | advance =>
    simp only [SchedulerState.CollectorAt] at hat ⊢
    rw [hcollector, hgc]
    exact ⟨h.ahead hat.1, hat.2⟩
  | follow =>
    simp only [SchedulerState.CollectorAt] at hat ⊢
    rwa [hcollector]
  | yieldTicks => trivial
  | yieldState => trivial
  | yieldSwitch => trivial

/-- The invariant is kept as long as the current task stays on the ring, the
collector alive and memory in order. -/
theorem invariant (h : SameRing s s') {ring : List Nat} (hs : s.Invariant ring)
    (hmemory : s'.TaskMemory) (hcurrent : s'.currentTask ∈ ring)
    (halive : s'.Alive s'.garbageCollectorTask) : s'.Invariant ring where
  links := by
    rw [h.successor, h.garbageCollectorTask]
    exact hs.links
  nodup := hs.nodup
  collector_mem := by
    rw [h.garbageCollectorTask]
    exact hs.collector_mem
  current_mem := hcurrent
  mem_linked t ht := by
    rw [h.linked]
    exact hs.mem_linked t ht
  collector_alive := halive
  memory := hmemory
  self := by
    rw [h.collector, h.garbageCollectorTask]
    exact hs.self
  collector := by
    rw [h.collector]
    exact h.collectorAt hs.collector

end SameRing

theorem Quiet.invariant {s s' : SchedulerState} (h : Quiet s s') {ring : List Nat}
    (hs : s.Invariant ring) (hcurrent : s'.currentTask ∈ ring)
    (halive : s'.Alive s'.garbageCollectorTask) : s'.Invariant ring :=
  h.toSameRing.invariant hs (h.toSameBlocks.memory hs.memory) hcurrent halive

namespace SchedulerState

variable {s s' : SchedulerState} {ring : List Nat} {sp : Nat}

/-- `OSSchedulerNext` resumes a task of the ring that runs. -/
theorem Invariant.switched (h : s.Invariant ring) (hswitch : Switched s sp s') : s'.Sound ring := by
  obtain ⟨passed, hpassed⟩ := hswitch.reached
  have hgc := (Quiet.switched hswitch).garbageCollectorTask
  refine { (Quiet.switched hswitch).invariant h (h.links.reached_mem h.current_mem hpassed) ?_ with
    current_alive := ?_ }
  · rw [hgc, Alive]
    rcases hswitch.state s.garbageCollectorTask with heq | ⟨-, hrunning⟩
    · rw [heq]
      exact h.collector_alive
    · rw [hrunning]
      decide
  · rw [Alive, hswitch.running]
    decide

theorem Invariant.next (h : s.Invariant ring) (hnext : s.next sp = some (.ok s')) : s'.Sound ring :=
  h.switched (next_switched hnext)

/-- Writing fields of the current task, which is not the collector. -/
theorem Invariant.setCurrent (h : s.Invariant ring) {value : OSTask}
    (hnext : value.next = (s.task s.currentTask).next)
    (hbase : value.kernelStackBase = (s.task s.currentTask).kernelStackBase)
    (hdead : s.Alive s.currentTask ∨ value.taskState = .dead)
    (hcurrent : s.currentTask ≠ s.garbageCollectorTask) :
    (s.setTask s.currentTask value).Invariant ring := by
  apply (Quiet.setTask hnext hbase hdead).invariant h h.current_mem
  show (s.setTask s.currentTask value).Alive s.garbageCollectorTask
  rw [Alive, setTask_ne _ _ hcurrent.symm]
  exact h.collector_alive

theorem Invariant.signal (h : s.Invariant ring) : s.postGarbageCollectorSignal.Invariant ring := by
  have hquiet := Quiet.signal h.collector_alive
  apply hquiet.invariant h
  · rw [postGarbageCollectorSignal]
    split
    · exact h.current_mem
    · exact h.current_mem
  · rw [hquiet.garbageCollectorTask, Alive, postGarbageCollectorSignal]
    split
    · exact h.collector_alive
    · rw [setTask_same]
      exact OSProcessState.noConfusion

theorem Invariant.wakeup (h : s.Invariant ring) {processID : UInt32}
    (hwakeup : s.wakeup processID = some s') :
    s'.Invariant ring ∧ s'.currentTask = s.currentTask ∧ (s.Alive s.currentTask → s'.Alive s'.currentTask) := by
  obtain ⟨hrest, hawake, -⟩ := wakeup_awakened hwakeup
  have hquiet := Quiet.awakened hwakeup
  have hcurrent : s'.currentTask = s.currentTask := by rw [hrest]
  have halive : ∀ t, s.Alive t → s'.Alive t := by
    intro t ht
    rcases hawake.cases t with heq | ⟨-, -, heq⟩
    · rw [Alive, heq]
      exact ht
    · rw [Alive, heq]
      exact OSProcessState.noConfusion
  refine ⟨hquiet.invariant h ?_ ?_, hcurrent, fun ht => ?_⟩
  · rw [hcurrent]
    exact h.current_mem
  · rw [hquiet.garbageCollectorTask]
    exact halive _ h.collector_alive
  · rw [hcurrent]
    exact halive _ ht

/-- `OSSchedulerYield` is quiet. -/
theorem Sound.yieldTask (h : s.Sound ring) (hcurrent : s.currentTask ≠ s.garbageCollectorTask)
    {ticks : Nat} (hyield : s.yieldTask ticks sp = some (.ok s')) : s'.Sound ring ∧ Quiet s s' := by
  rw [SchedulerState.yieldTask] at hyield
  constructor
  · refine Invariant.next ?_ hyield
    exact h.setCurrent rfl rfl (.inl h.current_alive) hcurrent
  · refine Quiet.trans ?_ (.switched (next_switched hyield))
    exact .setTask rfl rfl (.inl h.current_alive)

/-- `OSSchedulerBlock` is quiet. -/
theorem Sound.block (h : s.Sound ring) (hcurrent : s.currentTask ≠ s.garbageCollectorTask)
    {processID : UInt32} (hblock : s.block processID sp = some (.ok s')) :
    s'.Sound ring ∧ Quiet s s' := by
  rw [SchedulerState.block] at hblock
  constructor
  · refine Invariant.next ?_ hblock
    exact h.setCurrent rfl rfl (.inl h.current_alive) hcurrent
  · refine Quiet.trans ?_ (.switched (next_switched hblock))
    exact .setTask rfl rfl (.inl h.current_alive)

/-- `OSSchedulerTerminate` is quiet: the dying task stays on the ring. -/
theorem Invariant.terminate (h : s.Invariant ring)
    (hcurrent : s.currentTask ≠ s.garbageCollectorTask)
    (hterminate : s.terminate sp = some (.ok s')) : s'.Sound ring ∧ Quiet s s' := by
  rw [SchedulerState.terminate, Option.bind_eq_some_iff] at hterminate
  obtain ⟨woken, hwakeup, hnext⟩ := hterminate
  have hdead : (s.setCurrentState .dead).Invariant ring :=
    h.setCurrent rfl rfl (.inr rfl) hcurrent
  have hwoken := (hdead.wakeup hwakeup).1
  constructor
  · exact hwoken.signal.next hnext
  · have hstart : Quiet s (s.setCurrentState .dead) := .setTask rfl rfl (.inr rfl)
    exact ((hstart.trans (.awakened hwakeup)).trans (.signal hwoken.collector_alive)).trans
      (.switched (next_switched hnext))

/-- A fault is quiet. -/
theorem Sound.fault (h : s.Sound ring) (hcurrent : s.currentTask ≠ s.garbageCollectorTask)
    (hfault : s.fault sp = some (.ok s')) : s'.Sound ring ∧ Quiet s s' := by
  rw [SchedulerState.fault] at hfault
  have hdead : (s.setCurrentState .dead).Invariant ring :=
    h.setCurrent rfl rfl (.inr rfl) hcurrent
  obtain ⟨hsound, hquiet⟩ := hdead.terminate hcurrent hfault
  have hstart : Quiet s (s.setCurrentState .dead) := .setTask rfl rfl (.inr rfl)
  exact ⟨hsound, hstart.trans hquiet⟩

theorem Sound.signal (h : s.Sound ring) (hcurrent : s.currentTask ≠ s.garbageCollectorTask) :
    s.postGarbageCollectorSignal.Sound ring ∧
      s.postGarbageCollectorSignal.currentTask = s.currentTask ∧
      s.postGarbageCollectorSignal.garbageCollectorTask = s.garbageCollectorTask := by
  refine ⟨{ h.toInvariant.signal with current_alive := ?_ }, ?_, ?_⟩
  all_goals rw [postGarbageCollectorSignal]
  · split
    · exact h.current_alive
    · show ((s.setTask _ _).task s.currentTask).taskState ≠ _
      rw [setTask_ne _ _ hcurrent]
      exact h.current_alive
  · split
    · rfl
    · rfl
  · split
    · rfl
    · rfl

/-! ## Section 3: Linking a task in -/

section Link

variable {task stackBaseAddress entry owner fixedUserStackPointer : Nat} {isUser : Bool}

theorem Ahead.link (h : s.Invariant ring) (hahead : s.Ahead ring) (hring : task ∉ ring) :
    (s.linkTask task stackBaseAddress entry owner isUser fixedUserStackPointer).Ahead
      (Links.insertAfter s.currentTask task ring) := by
  obtain ⟨hprevious, gap, hgap, hgc⟩ := hahead
  have hne : task ≠ s.currentTask := fun heq => hring (heq ▸ h.current_mem)
  have hfresh : task ∉ s.collector.previousTask :: gap :=
    fun hmem => hring (h.links.passed_mem hprevious hgap hmem)
  obtain ⟨gap', hlinks, hgap'⟩ := hgap.insert_behind hfresh s.currentTask
  rw [← successor_linkTask hne] at hlinks
  refine ⟨Links.mem_insertAfter.mpr (.inl hprevious), gap', hlinks, fun hmem => ?_⟩
  rcases hgap' _ hmem with hold | heq
  · exact hgc hold
  · exact hring (heq ▸ h.collector_mem)

theorem Invariant.link (h : s.Invariant ring) (htask : s.Spare task sizeofTask)
    (hstack : s.Spare stackBaseAddress stackSize)
    (hne : task ≠ stackBaseAddress) :
    (s.linkTask task stackBaseAddress entry owner isUser fixedUserStackPointer).Invariant
      (Links.insertAfter s.currentTask task ring) := by
  have hlinked : task ∉ s.linked := fun hmem => htask.unused (.structOf hmem) rfl
  have hring : task ∉ ring := fun hmem => hlinked (h.mem_linked task hmem)
  have hnew : task ≠ s.currentTask := fun heq => hring (heq ▸ h.current_mem)
  -- The new block is none of the linked tasks, so all of them are as before.
  have hstate : ∀ t ∈ s.linked, ((s.linkTask task stackBaseAddress entry owner isUser
      fixedUserStackPointer).task t).taskState = (s.task t).taskState := by
    intro t ht
    rw [linkTask_old hnew fun heq => hlinked (heq ▸ ht)]
  have hdead : ¬ s.Alive s.collector.nextTask → s.collector.nextTask ∈ s.linked →
      ¬ (s.linkTask task stackBaseAddress entry owner isUser fixedUserStackPointer).Alive
        s.collector.nextTask := by
    intro hdead hmem
    rw [Alive, hstate _ hmem]
    exact hdead
  -- What the collector looks at next is on the ring, and so not the new task.
  have hnext : s.Ahead ring → s.collector.nextTask ∈ ring := by
    rintro ⟨hprevious, gap, hgap, -⟩
    exact h.links.reached_mem hprevious hgap
  -- A task that the collector has unlinked stays off the ring.
  have hunlinked : s.Unlinked ring →
      (s.linkTask task stackBaseAddress entry owner isUser fixedUserStackPointer).Unlinked
        (Links.insertAfter s.currentTask task ring) := by
    rintro ⟨hprevious, hmem, hoff, halive⟩
    refine ⟨Links.mem_insertAfter.mpr (.inl hprevious), List.mem_cons_of_mem _ hmem, ?_,
      hdead halive hmem⟩
    rw [Links.mem_insertAfter]
    rintro (hin | ⟨-, heq⟩)
    · exact hoff hin
    · exact hlinked (heq ▸ hmem)
  refine ⟨?_, Links.nodup_insertAfter h.nodup hring, Links.mem_insertAfter.mpr (.inl h.collector_mem),
    Links.mem_insertAfter.mpr (.inl h.current_mem), ?_, ?_,
    h.memory.link htask hstack hne (h.mem_linked _ h.current_mem), h.self, ?_⟩
  · rw [successor_linkTask hnew]
    exact h.links.insert hring s.currentTask
  · intro t ht
    rcases Links.mem_insertAfter.mp ht with hold | ⟨-, rfl⟩
    · exact List.mem_cons_of_mem _ (h.mem_linked t hold)
    · exact List.mem_cons_self
  · show Alive _ s.garbageCollectorTask
    rw [Alive, hstate _ (h.mem_linked _ h.collector_mem)]
    exact h.collector_alive
  -- By the collector's point: the ring has grown, and its two tasks are still on it.
  · have hat := h.collector
    show CollectorAt _ _ s.collector.point
    cases hpoint : s.collector.point with
    | enter => trivial
    | first => trivial
    | second =>
      rw [hpoint] at hat
      exact Links.mem_insertAfter.mpr (.inl hat)
    | test =>
      rw [hpoint] at hat
      exact Ahead.link h hat hring
    | check =>
      rw [hpoint] at hat
      exact ⟨Ahead.link h hat.1 hring, hat.2⟩
    | unlink =>
      rw [hpoint] at hat
      exact ⟨Ahead.link h hat.1 hring, hat.2.1, hdead hat.2.2 (h.mem_linked _ (hnext hat.1))⟩
    | freeStack =>
      rw [hpoint] at hat
      exact hunlinked hat
    | freeTask =>
      rw [hpoint] at hat
      exact hunlinked hat
    | reread =>
      rw [hpoint] at hat
      exact Links.mem_insertAfter.mpr (.inl hat)
    | advance =>
      rw [hpoint] at hat
      exact ⟨Ahead.link h hat.1 hring, hat.2⟩
    | follow =>
      rw [hpoint] at hat
      exact ⟨Links.mem_insertAfter.mpr (.inl hat.1), hat.2⟩
    | yieldTicks => trivial
    | yieldState => trivial
    | yieldSwitch => trivial

/-- The task that calls `OSSchedulerSpawn` goes on. -/
theorem Sound.link (h : s.Sound ring) (htask : s.Spare task sizeofTask)
    (hstack : s.Spare stackBaseAddress stackSize) (hne : task ≠ stackBaseAddress) :
    (s.linkTask task stackBaseAddress entry owner isUser fixedUserStackPointer).Sound
      (Links.insertAfter s.currentTask task ring) := by
  refine { h.toInvariant.link htask hstack hne with current_alive := ?_ }
  have hnew : task ≠ s.currentTask := by
    rintro rfl
    exact htask.unused (.structOf (h.mem_linked _ h.current_mem)) rfl
  show Alive _ s.currentTask
  rw [Alive, linkTask_current hnew]
  exact h.current_alive

end Link

end SchedulerState

end TermOS.OS
