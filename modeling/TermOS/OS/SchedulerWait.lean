import TermOS.OS.SchedulerLost

/-!
# Waiting for a process

`OSSchedulerWakeup` runs once for a process, when it terminates, and
`OSSchedulerBlock` does not look at whether the process is still there. A task
that begins to wait while some task of the process is alive is woken; one that
begins to wait later is not. Here the garbage collector is not preempted, as
when timer interrupts only arrive in ring 3.
-/

namespace TermOS.OS

open TermOS.Lib SchedulerState

/-! ## Section 1: Changes that serve who waits -/

/-- A task has not begun to wait and has not died. -/
structure OSTask.Calm (old new : OSTask) : Prop where
  waiting : new.taskState = .blocked →
    old.taskState = .blocked ∧ new.waitingForProcess = old.waitingForProcess
  alive : old.taskState ≠ .dead → new.taskState ≠ .dead
  id : new.id = old.id

namespace OSTask.Calm

variable {old new newer : OSTask}

theorem refl (task : OSTask) : task.Calm task := ⟨fun h => ⟨h, rfl⟩, fun h => h, rfl⟩

theorem trans (h : old.Calm new) (h' : new.Calm newer) : old.Calm newer where
  waiting hnewer := by
    obtain ⟨hnew, heq'⟩ := h'.waiting hnewer
    obtain ⟨hold, heq⟩ := h.waiting hnew
    exact ⟨hold, heq'.trans heq⟩
  alive hold := h'.alive (h.alive hold)
  id := h'.id.trans h.id

/-- A task that is neither blocked nor dead after the change. -/
theorem of_state (hstate : new.taskState = .running ∨ new.taskState = .sleeping)
    (hid : new.id = old.id) : old.Calm new where
  waiting hblocked := by
    rcases hstate with heq | heq
    · rw [heq] at hblocked
      cases hblocked
    · rw [heq] at hblocked
      cases hblocked
  alive _ := by
    rcases hstate with heq | heq
    · rw [heq]
      exact OSProcessState.noConfusion
    · rw [heq]
      exact OSProcessState.noConfusion
  id := hid

/-- A change of other fields. -/
theorem of_eq (hstate : new.taskState = old.taskState)
    (hwaiting : new.waitingForProcess = old.waitingForProcess) (hid : new.id = old.id) :
    old.Calm new where
  waiting hblocked := ⟨hstate ▸ hblocked, hwaiting⟩
  alive halive := hstate ▸ halive
  id := hid

end OSTask.Calm

namespace SchedulerState

variable {s s' : SchedulerState} {ring : List Nat} {sp : Nat}

/-- Every waiting task of the ring waits for a process of which the ring has a
task that is not dead. -/
def Served (s : SchedulerState) (ring : List Nat) : Prop :=
  ∀ t ∈ ring, (s.task t).taskState = .blocked →
    ∃ u ∈ ring, s.Alive u ∧ (s.task u).id.toInt32 = (s.task t).waitingForProcess

theorem Served.of_calm (h : s.Served ring) (hcalm : ∀ t ∈ ring, (s.task t).Calm (s'.task t)) :
    s'.Served ring := by
  intro t ht hblocked
  obtain ⟨hold, hwaiting⟩ := (hcalm t ht).waiting hblocked
  obtain ⟨u, hu, halive, hid⟩ := h t ht hold
  refine ⟨u, hu, (hcalm u hu).alive halive, ?_⟩
  rw [(hcalm u hu).id, hwaiting]
  exact hid

theorem calm_setTask {a : Nat} {value : OSTask} (h : (s.task a).Calm value) (t : Nat) :
    (s.task t).Calm ((s.setTask a value).task t) := by
  by_cases ht : t = a
  · rw [ht, setTask_same]
    exact h
  · rw [setTask_ne _ _ ht]
    exact .refl _

theorem calm_switched (h : Switched s sp s') (t : Nat) : (s.task t).Calm (s'.task t) := by
  have heq := h.task_eq t
  rcases h.state t with hstate | ⟨-, hrunning⟩
  · apply OSTask.Calm.of_eq hstate
    · rw [heq]
    · rw [heq]
  · apply OSTask.Calm.of_state (.inl hrunning)
    rw [heq]

theorem calm_signal (s : SchedulerState) (t : Nat) :
    (s.task t).Calm (s.postGarbageCollectorSignal.task t) := by
  rw [postGarbageCollectorSignal]
  split
  · exact .refl _
  · refine calm_setTask ?_ t
    exact .of_state (.inl rfl) rfl

theorem calm_awakened {processID : UInt32} (h : s.wakeup processID = some s') (t : Nat) :
    (s.task t).Calm (s'.task t) := by
  obtain ⟨-, hawake, -⟩ := wakeup_awakened h
  rcases hawake.cases t with heq | ⟨-, -, heq⟩
  · rw [heq]
    exact .refl _
  · rw [heq]
    exact .of_state (.inl rfl) rfl

theorem calm_yieldTask {ticks : Nat} (h : s.yieldTask ticks sp = some (.ok s')) (t : Nat) :
    (s.task t).Calm (s'.task t) := by
  rw [SchedulerState.yieldTask] at h
  refine .trans (calm_setTask ?_ t) (calm_switched (next_switched h) t)
  exact .of_state (.inr rfl) rfl

theorem linked_signal (s : SchedulerState) : s.postGarbageCollectorSignal.linked = s.linked := by
  rw [postGarbageCollectorSignal]
  split
  · rfl
  · rfl

theorem linked_yieldTask {ticks : Nat} (h : s.yieldTask ticks sp = some (.ok s')) :
    s'.linked = s.linked := by
  rw [SchedulerState.yieldTask] at h
  rw [(next_switched h).rest]
  rfl

/-- Tasks that were there stay calm, and new ones do not wait. -/
structure CalmStep (s s' : SchedulerState) : Prop where
  old : ∀ t ∈ s.linked, (s.task t).Calm (s'.task t)
  new : ∀ t ∈ s'.linked, t ∉ s.linked → (s'.task t).taskState ≠ .blocked

theorem CalmStep.of_linked (hlinked : s'.linked = s.linked)
    (hcalm : ∀ t, (s.task t).Calm (s'.task t)) : CalmStep s s' where
  old t _ := hcalm t
  new _ ht hnot := absurd (hlinked ▸ ht) hnot

theorem CalmStep.link {s₀ : SchedulerState}
    {task stackBaseAddress entry owner fixedUserStackPointer : Nat} {isUser : Bool}
    (htask : s₀.task = s.task) (hlinked : s₀.linked = s.linked) (hcurrent : s₀.currentTask ∈ s.linked)
    (hnew : task ∉ s.linked) :
    CalmStep s (s₀.linkTask task stackBaseAddress entry owner isUser fixedUserStackPointer) := by
  have hne : task ≠ s₀.currentTask := fun heq => hnew (heq ▸ hcurrent)
  constructor
  · intro t ht
    rw [linkTask_old hne fun heq => hnew (heq ▸ ht), htask]
    exact .of_eq rfl rfl rfl
  · intro t ht hnot
    rcases List.mem_cons.mp ht with rfl | hold
    · rw [linkTask_new hne]
      exact OSProcessState.noConfusion
    · exact absurd (hlinked ▸ hold) hnot

theorem Sound.calm_spawn (h : s.Sound ring)
    {task stackBaseAddress entry owner fixedUserStackPointer : Nat} {isUser : Bool}
    (htask : task ≠ 0 → FreshBlock s.live task sizeofTask)
    (hspawn : s.spawn task stackBaseAddress entry owner isUser fixedUserStackPointer sp =
      some (.ok s')) : CalmStep s s' := by
  rw [SchedulerState.spawn] at hspawn
  split at hspawn
  · cases hspawn
    exact .of_linked rfl fun t => .refl _
  rename_i htask0
  have hspare := h.memory.spare (htask htask0) (by decide)
  split at hspawn
  · apply CalmStep.of_linked
    · rw [linked_yieldTask hspawn, linked_signal]
      rfl
    · intro t
      exact (calm_signal ((s.heapAllocate task sizeofTask).setPending _) t).trans
        (calm_yieldTask hspawn t)
  · cases hspawn
    exact CalmStep.link rfl rfl (h.mem_linked _ h.current_mem)
      fun hmem => hspare.unused (.structOf hmem) rfl

theorem Sound.calm_spawnRetry (h : s.Sound ring) {call : PendingSpawn} {stackBaseAddress : Nat}
    (hcall : s.pending s.currentTask = some call) :
    CalmStep s (s.spawnRetry call stackBaseAddress) := by
  rw [SchedulerState.spawnRetry]
  split
  · exact .of_linked rfl fun t => .refl _
  · exact CalmStep.link rfl rfl (h.mem_linked _ h.current_mem)
      fun hmem => (h.memory.unpend hcall).2.unused (.structOf hmem) rfl

/-- The collector's statements do not touch waiting tasks. -/
theorem calm_collect (hcollect : s.collect sp = some (.ok s')) : CalmStep s s' := by
  cases collected hcollect with
  | move collector => exact .of_linked rfl fun _ => .refl _
  | unlink collector =>
    refine .of_linked rfl fun t => ?_
    show (s.task t).Calm (s.unlinkNext.task t)
    rw [unlinkNext_task]
    exact .of_eq rfl rfl rfl
  | freeStack collector => exact .of_linked rfl fun _ => .refl _
  | freeTask collector =>
    exact ⟨fun _ _ => .refl _, fun t ht hnot => absurd (List.mem_of_mem_filter ht) hnot⟩
  | yieldTicks collector =>
    refine .of_linked rfl (calm_setTask ?_)
    exact .of_eq rfl rfl rfl
  | yieldState collector =>
    refine .of_linked rfl (calm_setTask ?_)
    exact .of_state (.inr rfl) rfl
  | yieldSwitch hpoint hnext =>
    have hswitch := next_switched hnext
    apply CalmStep.of_linked
    · rw [hswitch.rest]
      rfl
    · intro t
      exact calm_switched hswitch t

/-! ## Section 2: Waiting and dying -/

theorem Served.block (hserved : s.Served ring) {processID : UInt32}
    (hthere : ∃ u ∈ ring, s.Alive u ∧ (s.task u).id.toInt32 = processID.toInt32)
    (hblock : s.block processID sp = some (.ok s')) : s'.Served ring := by
  rw [SchedulerState.block] at hblock
  refine Served.of_calm ?_ fun t _ => calm_switched (next_switched hblock) t
  -- writing the wait keeps who is alive and every id
  generalize hvalue : ({ s.task s.currentTask with
    taskState := .blocked, waitingForProcess := processID.toInt32 } : OSTask) = value
  have hkeep : ∀ u, s.Alive u →
      (s.setTask s.currentTask value).Alive u ∧
        ((s.setTask s.currentTask value).task u).id = (s.task u).id := by
    intro u hu
    by_cases heq : u = s.currentTask
    · rw [heq, Alive, setTask_same, ← hvalue]
      exact ⟨OSProcessState.noConfusion, rfl⟩
    · rw [Alive, setTask_ne _ _ heq]
      exact ⟨hu, rfl⟩
  intro t ht hblocked
  by_cases heq : t = s.currentTask
  · obtain ⟨u, hu, halive, hid⟩ := hthere
    obtain ⟨halive', hid'⟩ := hkeep u halive
    refine ⟨u, hu, halive', ?_⟩
    rw [hid', heq, setTask_same, ← hvalue]
    exact hid
  · rw [setTask_ne _ _ heq] at hblocked ⊢
    obtain ⟨u, hu, halive, hid⟩ := hserved t ht hblocked
    obtain ⟨halive', hid'⟩ := hkeep u halive
    exact ⟨u, hu, halive', by rw [hid']; exact hid⟩

/-- The wakeup of a dying task reaches the whole ring. -/
theorem Invariant.wakeup_all (h : s.Invariant ring) {processID : UInt32}
    (hwakeup : s.wakeup processID = some s') : ∀ t ∈ ring, (s'.task t).taskState = .blocked →
      s'.task t = s.task t ∧ (s.task t).waitingForProcess ≠ processID.toInt32 := by
  obtain ⟨-, hawake, rest, hrest, -, hnone⟩ := wakeup_awakened hwakeup
  intro t ht hblocked
  have heq := hawake.waiting_of_waiting hblocked
  refine ⟨heq, ?_⟩
  obtain ⟨front, back, hring⟩ := List.append_of_mem h.current_mem
  have hlinks := h.links
  rw [hring] at hlinks ht
  have hmem : t ∈ s.currentTask :: rest := by
    apply hrest.passed_mem List.mem_cons_self hlinks.rotate
    simp only [List.mem_append, List.mem_cons] at ht ⊢
    tauto
  rw [← heq]
  exact hnone t hmem hblocked

/-- When the current task dies, whoever waits for its process is woken. -/
theorem served_terminate (h : s.Invariant ring)
    (hcurrent : s.currentTask ≠ s.garbageCollectorTask)
    (hserved : ∀ t ∈ ring, t ≠ s.currentTask → (s.task t).taskState = .blocked →
      (s.task t).waitingForProcess ≠ (s.task s.currentTask).id.toInt32 →
      ∃ u ∈ ring, u ≠ s.currentTask ∧ s.Alive u ∧
        (s.task u).id.toInt32 = (s.task t).waitingForProcess)
    (hterminate : s.terminate sp = some (.ok s')) : s'.Served ring := by
  rw [SchedulerState.terminate, Option.bind_eq_some_iff] at hterminate
  obtain ⟨woken, hwakeup, hnext⟩ := hterminate
  have hdead : (s.setCurrentState .dead).Invariant ring := h.setCurrent rfl rfl (.inr rfl) hcurrent
  have hwoken : woken.Served ring := by
    intro t ht hblocked
    obtain ⟨heq, hne⟩ := hdead.wakeup_all hwakeup t ht hblocked
    have htne : t ≠ s.currentTask := by
      rintro rfl
      rw [heq, setCurrentState, setTask_same] at hblocked
      cases hblocked
    rw [heq] at hblocked ⊢
    rw [setCurrentState, setTask_ne _ _ htne] at hblocked hne ⊢
    obtain ⟨u, hu, hune, halive, hid⟩ := hserved t ht htne hblocked hne
    have hcalm := calm_awakened hwakeup u
    rw [setCurrentState, setTask_ne _ _ hune] at hcalm
    exact ⟨u, hu, hcalm.alive halive, by rw [hcalm.id]; exact hid⟩
  refine (hwoken.of_calm fun t _ => calm_signal woken t).of_calm fun t _ => ?_
  exact calm_switched (next_switched hnext) t

theorem Served.terminate (hserved : s.Served ring) (h : s.Invariant ring)
    (hcurrent : s.currentTask ≠ s.garbageCollectorTask)
    (hterminate : s.terminate sp = some (.ok s')) : s'.Served ring := by
  refine served_terminate h hcurrent ?_ hterminate
  intro t ht _ hblocked hne
  obtain ⟨u, hu, halive, hid⟩ := hserved t ht hblocked
  refine ⟨u, hu, ?_, halive, hid⟩
  rintro rfl
  exact hne hid.symm

theorem Served.fault (hserved : s.Served ring) (h : s.Invariant ring)
    (hcurrent : s.currentTask ≠ s.garbageCollectorTask)
    (hfault : s.fault sp = some (.ok s')) : s'.Served ring := by
  rw [SchedulerState.fault] at hfault
  have hdead : (s.setCurrentState .dead).Invariant ring := h.setCurrent rfl rfl (.inr rfl) hcurrent
  refine served_terminate hdead hcurrent ?_ hfault
  show ∀ t ∈ ring, t ≠ s.currentTask → _
  intro t ht htne hblocked hne
  rw [setCurrentState, setTask_ne _ _ htne] at hblocked hne ⊢
  change _ ≠ ((s.setTask s.currentTask _).task s.currentTask).id.toInt32 at hne
  rw [setTask_same] at hne
  obtain ⟨u, hu, halive, hid⟩ := hserved t ht hblocked
  have hune : u ≠ s.currentTask := by
    rintro rfl
    exact hne hid.symm
  refine ⟨u, hu, hune, ?_, ?_⟩
  · rw [Alive, setTask_ne _ _ hune]
    exact halive
  · rw [setTask_ne _ _ hune]
    exact hid

/-- Only spawning and the collector change the ring. -/
theorem RingChange.eq_of_other {action : SchedulerAction} {ring' : List Nat}
    (h : RingChange s s' ring action ring') (hcollect : ∀ sp, action ≠ .collect sp)
    (hspawns : ¬ action.Spawns) : ring' = ring := by
  cases h with
  | same _ => rfl
  | link hspawn _ _ => exact absurd hspawn hspawns
  | @unlink sp _ _ _ _ _ _ => exact absurd rfl (hcollect sp)
  | free _ _ => rfl

/-- A calm step serves whoever was served: only dead tasks leave the ring. -/
theorem Served.calm_step (hserved : s.Served ring) (h : s.Sound ring) {action : SchedulerAction}
    {ring' : List Nat} (hchange : RingChange s s' ring action ring')
    (hring : ∀ t ∈ s'.linked, s'.Alive t → t ∈ ring') (hlinked : ∀ t ∈ ring', t ∈ s'.linked)
    (hcalm : CalmStep s s') : s'.Served ring' := by
  -- a task that was on the ring and is alive is still on it
  have hstays : ∀ u ∈ ring, s.Alive u → u ∈ s'.linked → u ∈ ring' := by
    intro u hu halive hmem
    exact hring u hmem ((hcalm.old u (h.mem_linked u hu)).alive halive)
  have hkept : ∀ u ∈ ring, s.Alive u → u ∈ s'.linked := by
    intro u hu halive
    have hold := h.mem_linked u hu
    cases hchange with
    | same heq => exact heq ▸ hold
    | link _ _ heq => exact heq ▸ List.mem_cons_of_mem _ hold
    | unlink _ _ heq => exact heq ▸ hold
    | free hpoint heq =>
      rw [heq, List.mem_filter]
      refine ⟨hold, decide_eq_true ?_⟩
      rintro rfl
      have hat := h.collector
      rw [hpoint] at hat
      exact hat.2.2.1 hu
  intro t ht hblocked
  by_cases hnew : t ∈ s.linked
  · obtain ⟨hold, hwaiting⟩ := (hcalm.old t hnew).waiting hblocked
    have htring : t ∈ ring := by
      cases hchange with
      | same _ => exact ht
      | link _ htask _ =>
        rcases Links.mem_insertAfter.mp ht with hin | ⟨-, rfl⟩
        · exact hin
        · exact absurd hnew htask
      | unlink _ heq _ =>
        rw [heq]
        exact (Links.bypass_sublist ..).subset ht
      | free _ _ => exact ht
    obtain ⟨u, hu, halive, hid⟩ := hserved t htring hold
    refine ⟨u, hstays u hu halive (hkept u hu halive), ?_, ?_⟩
    · exact (hcalm.old u (h.mem_linked u hu)).alive halive
    · rw [(hcalm.old u (h.mem_linked u hu)).id, hwaiting]
      exact hid
  · exact absurd hblocked (hcalm.new t (hlinked t ht) hnew)

/-! ## Section 3: A collector that is not preempted -/

/-- Another task only runs while the collector sleeps, and no task was linked in
before the collector's `nextTask` since that was read. -/
structure Undisturbed (s : SchedulerState) : Prop where
  resting : s.currentTask ≠ s.garbageCollectorTask →
    s.collector.point = .enter ∨ s.collector.point = .first
  next : s.collector.point = .test ∨ s.collector.point = .check ∨ s.collector.point = .unlink →
    (s.task s.collector.previousTask).next = s.collector.nextTask

theorem Undisturbed.collect (hundisturbed : s.Undisturbed) (h : s.Sound ring)
    (hcurrent : s.currentTask = s.garbageCollectorTask) (hcollect : s.collect sp = some (.ok s')) :
    s'.Undisturbed := by
  have hresting : ∀ {point : CollectorPoint}, s.currentTask ≠ s.garbageCollectorTask →
      point = .enter ∨ point = .first := fun hne => absurd hcurrent hne
  have hat := h.collector
  have hnext := hundisturbed.next
  rw [SchedulerState.collect] at hcollect
  cases hpoint : s.collector.point with
  | second | reread =>
    -- the next task was just read from the previous one
    simp only [hpoint] at hcollect
    cases hcollect
    exact ⟨hresting, fun _ => rfl⟩
  | test =>
    simp only [hpoint] at hcollect
    cases hcollect
    exact ⟨hresting, fun _ => hnext (.inl hpoint)⟩
  | check =>
    simp only [hpoint] at hcollect
    cases hcollect
    exact ⟨hresting, fun _ => hnext (.inr (.inl hpoint))⟩
  | follow =>
    simp only [hpoint] at hcollect hat
    cases hcollect
    refine ⟨hresting, fun _ => ?_⟩
    show (s.task s.collector.previousTask).next = (s.task s.collector.nextTask).next
    rw [hat.2]
  | freeStack =>
    simp only [hpoint] at hcollect
    split at hcollect
    · cases hcollect
      exact ⟨hresting, by simp [setCollector]⟩
    · cases hcollect
      exact ⟨hresting, by simp [setCollector]⟩
  | enter | first | unlink | freeTask | advance | yieldTicks | yieldState =>
    -- at the next statement the collector does not compare its two tasks
    simp only [hpoint] at hcollect
    cases hcollect
    exact ⟨hresting, by simp [setCollector]⟩
  | yieldSwitch =>
    -- from here on other tasks run
    simp only [hpoint] at hcollect
    have hswitch := next_switched hcollect
    have hcollector : s'.collector.point = .first := by
      rw [hswitch.rest]
      rfl
    refine ⟨fun _ => .inr hcollector, fun hpoints => ?_⟩
    rw [hcollector] at hpoints
    simp at hpoints

/-- An action, with timer interrupts only while the collector is not running. -/
def UserStep (s : SchedulerState) (action : SchedulerAction) (s' : SchedulerState) : Prop :=
  s.Step action s' ∧ ∀ sp, action = .tick sp → s.currentTask ≠ s.garbageCollectorTask

theorem Undisturbed.step (hundisturbed : s.Undisturbed) (h : s.Sound ring) {action : SchedulerAction}
    (hstep : s.UserStep action s') : s'.Undisturbed := by
  obtain ⟨hstep, htick⟩ := hstep
  have hother : (∀ sp, action ≠ .collect sp) → s.currentTask ≠ s.garbageCollectorTask →
      s'.Undisturbed := by
    intro hne hcurrent
    obtain ⟨hcollector, -⟩ := h.collector_eq hstep hne
    have hpoint := hundisturbed.resting hcurrent
    constructor
    · intro _
      rw [hcollector]
      exact hpoint
    · intro hpoints
      rw [hcollector] at hpoints
      rcases hpoint with heq | heq
      · simp [heq] at hpoints
      · simp [heq] at hpoints
  have hallowed := hstep.1
  cases action with
  | tick sp => exact hother (fun _ => SchedulerAction.noConfusion) (htick sp rfl)
  | spawn _ _ _ _ _ _ _ => exact hother (fun _ => SchedulerAction.noConfusion) hallowed.1.1
  | spawnRetry _ => exact hother (fun _ => SchedulerAction.noConfusion) hallowed.1
  | block _ _ => exact hother (fun _ => SchedulerAction.noConfusion) hallowed.1
  | wakeup _ => exact hother (fun _ => SchedulerAction.noConfusion) hallowed.1
  | yieldTask _ _ => exact hother (fun _ => SchedulerAction.noConfusion) hallowed.1
  | terminate _ => exact hother (fun _ => SchedulerAction.noConfusion) hallowed.1
  | fault _ => exact hother (fun _ => SchedulerAction.noConfusion) hallowed.1
  | collect sp => exact hundisturbed.collect h hallowed hstep.2
  | setProcess _ _ => exact hother (fun _ => SchedulerAction.noConfusion) hallowed.1.1
  | store address value =>
    have hact := hstep.2
    rw [act] at hact
    cases hact
    exact ⟨hundisturbed.resting, hundisturbed.next⟩

/-- While it is not preempted, the collector unlinks nothing but the dead task. -/
theorem Undisturbed.clean (hundisturbed : s.Undisturbed) {action : SchedulerAction}
    (hstep : s.Step action s') : s.CleanStep action s' :=
  ⟨hstep, fun _ _ hpoint => onlyDeadBetween_of_next (hundisturbed.next (.inr (.inr hpoint)))⟩

/-! ## Section 4: No lost wakeup -/

/-- A task with this id that is not dead is reached from the current task. -/
def HasTask (s : SchedulerState) (id : Int32) : Prop :=
  ∃ passed u, Links (successor s.task) s.currentTask passed u ∧ s.Alive u ∧
    (s.task u).id.toInt32 = id

/-- Whoever waits for a process waits for one that has a task. -/
def NoLostWakeup (s : SchedulerState) : Prop :=
  ∀ t ∈ s.linked, (s.task t).taskState = .blocked → s.HasTask (s.task t).waitingForProcess

/-- An action in which nobody begins to wait for a process without a task. -/
def WaitStep (s : SchedulerState) (action : SchedulerAction) (s' : SchedulerState) : Prop :=
  s.UserStep action s' ∧
    ∀ processID sp, action = .block processID sp → s.HasTask processID.toInt32

/-- What holds in every state of a run in which nobody waits in vain. -/
structure WaitInvariant (s : SchedulerState) (ring : List Nat) : Prop where
  sound : s.Sound ring
  kept : ∀ t ∈ s.linked, s.Alive t → t ∈ ring
  served : s.Served ring
  undisturbed : s.Undisturbed

theorem WaitInvariant.step (h : s.WaitInvariant ring) {action : SchedulerAction}
    (hstep : s.WaitStep action s') : ∃ ring', s'.WaitInvariant ring' := by
  obtain ⟨huser, hwait⟩ := hstep
  have hsound := h.sound
  obtain ⟨ring', hsound', hchange⟩ := hsound.step huser.1
  have hkept := hsound.clean_step h.kept (h.undisturbed.clean huser.1) hchange
  refine ⟨ring', hsound', hkept, ?_, h.undisturbed.step hsound huser⟩
  -- a quiet action keeps the ring
  have hcalm : CalmStep s s' → s'.Served ring' :=
    fun hcalm => h.served.calm_step hsound hchange hkept hsound'.mem_linked hcalm
  obtain ⟨hallowed, hact⟩ := huser.1
  cases action with
  | tick sp =>
    have hswitch := next_switched hact
    exact hcalm (.of_linked (Quiet.switched hswitch).linked (calm_switched hswitch))
  | spawn task stackBaseAddress entry owner isUser fixedUserStackPointer sp =>
    exact hcalm (hsound.calm_spawn hallowed.2.1 hact)
  | spawnRetry stackBaseAddress =>
    obtain ⟨call, hcall⟩ := Option.isSome_iff_exists.mp hallowed.2.1
    rw [act, hcall] at hact
    cases hact
    exact hcalm (hsound.calm_spawnRetry hcall)
  | block processID sp =>
    rw [hchange.eq_of_other (fun _ => SchedulerAction.noConfusion) id]
    refine h.served.block ?_ hact
    obtain ⟨passed, u, hpassed, halive, hid⟩ := hwait processID sp rfl
    exact ⟨u, hsound.links.reached_mem hsound.current_mem hpassed, halive, hid⟩
  | wakeup processID =>
    rw [act, Option.map_eq_some_iff] at hact
    obtain ⟨woken, hwakeup, heq⟩ := hact
    cases heq
    exact hcalm (.of_linked (Quiet.awakened hwakeup).linked (calm_awakened hwakeup))
  | yieldTask ticks sp =>
    exact hcalm (.of_linked (linked_yieldTask hact) (calm_yieldTask hact))
  | terminate sp =>
    rw [hchange.eq_of_other (fun _ => SchedulerAction.noConfusion) id]
    exact h.served.terminate hsound.toInvariant hallowed.1 hact
  | fault sp =>
    rw [hchange.eq_of_other (fun _ => SchedulerAction.noConfusion) id]
    exact h.served.fault hsound.toInvariant hallowed.1 hact
  | collect sp => exact hcalm (calm_collect hact)
  | setProcess address process =>
    cases hact
    exact hcalm (.of_linked rfl fun _ => .refl _)
  | store address value =>
    cases hact
    exact hcalm (.of_linked rfl fun _ => .refl _)

theorem WaitInvariant.noLostWakeup (h : s.WaitInvariant ring) : s.NoLostWakeup := by
  intro t ht hblocked
  have htring : t ∈ ring := by
    apply h.kept t ht
    rw [Alive, hblocked]
    exact OSProcessState.noConfusion
  obtain ⟨u, hu, halive, hid⟩ := h.served t htring hblocked
  -- the ring is reached from the current task
  obtain ⟨front, back, hring⟩ := List.append_of_mem h.sound.current_mem
  have hlinks := h.sound.links
  rw [hring] at hlinks hu
  have hmem : u ∈ s.currentTask :: back ++ front := by
    rw [List.mem_append] at hu ⊢
    exact hu.symm
  obtain ⟨passed, rest, hsplit⟩ := List.append_of_mem hmem
  have hrotate := hlinks.rotate
  rw [hsplit] at hrotate
  obtain ⟨_, hpassed, rfl, -⟩ := Links.append_iff.mp hrotate
  exact ⟨passed, _, hpassed, halive, hid⟩

end SchedulerState

theorem SchedulerState.not_blocked_spawnTask {s : SchedulerState}
    {task stackBaseAddress entry owner fixedUserStackPointer : Nat} {isUser : Bool}
    (hne : task ≠ s.currentTask) (h : ∀ t, (s.task t).taskState ≠ .blocked) (t : Nat) :
    ((s.spawnTask task stackBaseAddress entry owner isUser fixedUserStackPointer).task t).taskState ≠
      .blocked := by
  have hne' : task ≠ ((s.heapAllocate task sizeofTask).heapAllocate stackBaseAddress
    stackSize).currentTask := hne
  rw [spawnTask]
  by_cases ht : t = task
  · rw [ht, linkTask_new hne']
    exact OSProcessState.noConfusion
  · rw [linkTask_old hne' ht]
    exact h t

/-- At the start every task runs and the collector has not begun. -/
theorem SchedulerBoot.start_waitInvariant {boot : SchedulerBoot} (h : boot.Valid) :
    boot.start.WaitInvariant boot.ring := by
  have hnodup := (start_sound h).nodup
  simp only [ring, List.nodup_cons, List.mem_cons, List.not_mem_nil, or_false, not_or] at hnodup
  have halone : ∀ t, (boot.alone.task t).taskState ≠ .blocked := by
    intro t
    by_cases ht : t = boot.kernelTask
    · rw [ht, alone_kernelTask]
      exact OSProcessState.noConfusion
    · rw [alone]
      show (Function.update (fun _ => OSTask.zero) boot.kernelTask boot.kernelOSTask t).taskState ≠ _
      rw [Function.update_of_ne ht]
      exact OSProcessState.noConfusion
  have hstart : ∀ t, (boot.start.task t).taskState ≠ .blocked :=
    not_blocked_spawnTask hnodup.1.2 (not_blocked_spawnTask hnodup.2.1 halone)
  have hpoint : boot.start.collector.point = .enter := rfl
  refine ⟨start_sound h, fun t ht _ => ht, fun t _ hblocked => absurd hblocked (hstart t),
    fun _ => .inl hpoint, fun hpoints => ?_⟩
  rw [hpoint] at hpoints
  simp at hpoints

/-- In every run in which timer interrupts do not preempt the collector and in
which every process has a task that is not dead when a task begins to wait for
it, that holds of every process as long as a task waits for it. -/
theorem no_lost_wakeup {boot : SchedulerBoot} (h : boot.Valid) {actions : List SchedulerAction}
    {s : SchedulerState} (htrace : Trace WaitStep boot.start actions s) : s.NoLostWakeup := by
  have hstep : ∀ (s : SchedulerState) action (s' : SchedulerState),
      (∃ ring, s.WaitInvariant ring) → s.WaitStep action s' → ∃ ring', s'.WaitInvariant ring' := by
    rintro s action s' ⟨ring, hinvariant⟩ hstep
    exact hinvariant.step hstep
  obtain ⟨ring, hinvariant⟩ := htrace.invariant hstep ⟨_, SchedulerBoot.start_waitInvariant h⟩
  exact hinvariant.noLostWakeup

/-- A parent (process 1) spawns a child (process 2) and waits for it; then the
child exits and the collector frees it. -/
def exampleWait : List SchedulerAction :=
  [.spawn 0x100c0 0x40000 0x400 0x101 true 0x70000000 0, .tick 1,
    .spawn 0x10140 0x50000 0x500 0x102 true 0x70000000 0, .block 2 2, .terminate 3] ++
    List.replicate 25 (.collect 4) ++ [.tick 5, .tick 6]

/-- The parent waits while the child lives, and runs again in the end. -/
theorem no_lost_wakeup_child : ∃ s, Trace WaitStep exampleBoot.start exampleWait s ∧
    s.currentTask = 0x100c0 ∧ s.NoLostWakeup := by
  have hrun : ((perform (fun s action => match action with
      | .tick _ => s.currentTask ≠ s.garbageCollectorTask
      | .block processID _ => (s.task (s.task s.currentTask).next).taskState ≠ .dead ∧
          (s.task (s.task s.currentTask).next).id.toInt32 = processID.toInt32
      | _ => true) exampleBoot.start exampleWait).any fun s => s.currentTask = 0x100c0) = true := by
    decide +kernel
  have hwait : ∀ (s : SchedulerState) action (s' : SchedulerState), s.Step action s' →
      (match action with
        | .tick _ => decide (s.currentTask ≠ s.garbageCollectorTask)
        | .block processID _ => decide ((s.task (s.task s.currentTask).next).taskState ≠ .dead ∧
            (s.task (s.task s.currentTask).next).id.toInt32 = processID.toInt32)
        | _ => true) = true → s.WaitStep action s' := by
    intro s action s' hstep htest
    refine ⟨⟨hstep, ?_⟩, ?_⟩
    · rintro sp rfl
      exact of_decide_eq_true htest
    · rintro processID sp rfl
      obtain ⟨halive, hid⟩ := of_decide_eq_true htest
      exact ⟨[s.currentTask], _, ⟨rfl, rfl⟩, halive, hid⟩
  obtain ⟨s, htrace, hcurrent⟩ := exists_trace hwait hrun
  exact ⟨s, htrace, of_decide_eq_true hcurrent, no_lost_wakeup exampleBoot_valid htrace⟩

/-- A parent (process 1) spawns a child (process 2) and is preempted; the child
exits, the collector frees it, and then the parent waits for it. -/
def exampleLateWait : List SchedulerAction :=
  [.spawn 0x100c0 0x40000 0x400 0x101 true 0x70000000 0, .tick 1,
    .spawn 0x10140 0x50000 0x500 0x102 true 0x70000000 0, .tick 2, .terminate 3] ++
    List.replicate 25 (.collect 4) ++ [.tick 5, .tick 6, .block 2 7]

/-- The parent is blocked on a process that has no task any more. -/
theorem wakeup_lost : ∃ s, Trace UserStep exampleBoot.start exampleLateWait s ∧
    ¬ s.NoLostWakeup := by
  have hrun : ((perform (fun s action => !action.isTick ||
      decide (s.currentTask ≠ s.garbageCollectorTask)) exampleBoot.start exampleLateWait).any fun s =>
      0x100c0 ∈ s.linked ∧ (s.task 0x100c0).taskState = .blocked ∧
        (s.task 0x100c0).waitingForProcess = 2 ∧ s.currentTask = 0x10040 ∧
        successor s.task 0x10040 = 0x10000 ∧ successor s.task 0x10000 = 0x100c0 ∧
        successor s.task 0x100c0 = 0x10080 ∧ successor s.task 0x10080 = 0x10040 ∧
        ∀ u ∈ [0x10040, 0x10000, 0x100c0, 0x10080], (s.task u).id.toInt32 ≠ 2) = true := by
    decide +kernel
  have huser : ∀ (s : SchedulerState) action (s' : SchedulerState), s.Step action s' →
      (!action.isTick || decide (s.currentTask ≠ s.garbageCollectorTask)) = true →
        s.UserStep action s' := by
    intro s action s' hstep htest
    refine ⟨hstep, ?_⟩
    rintro sp rfl
    exact of_decide_eq_true htest
  obtain ⟨s, htrace, hend⟩ := exists_trace huser hrun
  obtain ⟨hlinked, hblocked, hwaiting, hcurrent, hidle, hkernel, hparent, hcollector, hids⟩ :=
    of_decide_eq_true hend
  refine ⟨s, htrace, fun hserved => ?_⟩
  obtain ⟨passed, u, hpassed, -, hid⟩ := hserved 0x100c0 hlinked hblocked
  have hring : Links (successor s.task) 0x10040 [0x10040, 0x10000, 0x100c0, 0x10080] 0x10040 := by
    simp only [Links.cons_iff, Links.nil_iff, hidle, hkernel, hparent, hcollector, and_self]
  rw [hcurrent] at hpassed
  rw [hwaiting] at hid
  exact hids u (hring.reached_mem List.mem_cons_self hpassed) hid

end TermOS.OS
