import TermOS.OS.SchedulerRing

/-!
# Runs of the scheduler

Every action keeps the invariant of the scheduler, and `OSSchedulerInitialize`
establishes it. In every run, what the collector has freed is never reached
again, and a dead task never becomes the current one.
-/

namespace TermOS.OS

open TermOS.Lib

/-- The action is part of an `OSSchedulerSpawn`. -/
def SchedulerAction.Spawns : SchedulerAction → Prop
  | .spawn _ _ _ _ _ _ _ | .spawnRetry _ => True
  | _ => False

/-- The action is a timer interrupt. -/
def SchedulerAction.isTick : SchedulerAction → Bool
  | .tick _ => true
  | _ => false

namespace SchedulerState

variable {s s' : SchedulerState} {ring : List Nat} {sp : Nat}

/-- How an action changes the ring. -/
inductive RingChange (s s' : SchedulerState) (ring : List Nat) :
    SchedulerAction → List Nat → Prop
  /-- Nothing was linked or unlinked. -/
  | same {action : SchedulerAction} (hlinked : s'.linked = s.linked) : RingChange s s' ring action ring
  /-- `OSSchedulerSpawn` has put a task behind the current one. -/
  | link {action : SchedulerAction} {task : Nat} (hspawns : action.Spawns) (htask : task ∉ s.linked)
      (hlinked : s'.linked = task :: s.linked) :
      RingChange s s' ring action (Links.insertAfter s.currentTask task ring)
  /-- The collector has unlinked `nextTask` and what lies before it. -/
  | unlink {sp : Nat} {front gap back : List Nat} (hpoint : s.collector.point = .unlink)
      (hring : ring = front ++ s.collector.previousTask :: (gap ++ s.collector.nextTask :: back))
      (hlinked : s'.linked = s.linked) :
      RingChange s s' ring (.collect sp) (front ++ s.collector.previousTask :: back)
  /-- The collector has freed `nextTask`. -/
  | free {sp : Nat} (hpoint : s.collector.point = .freeTask)
      (hlinked : s'.linked = s.linked.filter fun task => task ≠ s.collector.nextTask) :
      RingChange s s' ring (.collect sp) ring

/-! ## Section 1: The collector -/

theorem Sound.moveCollector (h : s.Sound ring) {collector : Collector}
    (hpoint : s.collector.point ≠ .freeTask)
    (hself : collector.point = .enter ∨ collector.self = s.garbageCollectorTask)
    (hat : (s.setCollector collector).CollectorAt ring collector.point) :
    (s.setCollector collector).Sound ring where
  links := h.links
  nodup := h.nodup
  collector_mem := h.collector_mem
  current_mem := h.current_mem
  mem_linked := h.mem_linked
  collector_alive := h.collector_alive
  memory := h.memory.moveCollector hpoint
  self := hself
  collector := hat
  current_alive := h.current_alive

theorem successor_unlinkNext : successor s.unlinkNext.task =
    Function.update (successor s.task) s.collector.previousTask
      (successor s.task s.collector.nextTask) := successor_update ..

/-- The store changes nothing but one link. -/
theorem unlinkNext_task (t : Nat) :
    s.unlinkNext.task t = { s.task t with next := (s.unlinkNext.task t).next } := by
  rw [unlinkNext]
  by_cases ht : t = s.collector.previousTask
  · rw [ht, setTask_same]
  · rw [setTask_ne _ _ ht]

theorem sameBlocks_unlinkNext : SameBlocks s s.unlinkNext :=
  ⟨fun t => by rw [unlinkNext_task], rfl, rfl, rfl, rfl, rfl⟩

theorem alive_unlinkNext {t : Nat} : s.unlinkNext.Alive t ↔ s.Alive t := by
  rw [Alive, unlinkNext_task, Alive]

/-- The store under the lock takes `nextTask`, and with it what was linked in
before it, off the ring. -/
theorem Sound.unlink (h : s.Sound ring) (hpoint : s.collector.point = .unlink)
    (hself : s.collector.self = s.garbageCollectorTask)
    (hcurrent : s.currentTask = s.garbageCollectorTask) :
    ∃ front gap back,
      ring = front ++ s.collector.previousTask :: (gap ++ s.collector.nextTask :: back) ∧
      (s.unlinkNext.setCollector { s.collector with point := .freeStack }).Sound
        (front ++ s.collector.previousTask :: back) := by
  have hat := h.collector
  rw [hpoint] at hat
  obtain ⟨⟨hprevious, gap, hgap, hgc⟩, hne, hdead⟩ := hat
  obtain ⟨front, rest, hfront⟩ := List.append_of_mem hprevious
  have hlinks := h.links
  have hnodup := h.nodup
  have hmem := h.collector_mem
  rw [hfront] at hlinks hnodup hmem
  -- both the ring and the collector's path go on from `previousTask`
  obtain ⟨_, -, rfl, hrest⟩ := Links.append_iff.mp hlinks
  obtain ⟨back, rfl, -⟩ := hrest.prefix_of_notMem hgap.2 hgc hne
  refine ⟨front, gap, back, hfront, ?_⟩
  have hsublist := Links.bypass_sublist front s.collector.previousTask s.collector.nextTask gap back
  have hnext : s.collector.nextTask ∈ ring := by
    rw [hfront]
    simp
  have hkeep : s.garbageCollectorTask ∈ front ++ s.collector.previousTask :: back := by
    simp only [List.mem_append, List.mem_cons] at hmem ⊢
    have hne' : s.garbageCollectorTask ≠ s.collector.nextTask := hne.symm
    tauto
  constructor
  · constructor
    · show Links (successor s.unlinkNext.task) _ _ _
      rw [successor_unlinkNext]
      exact hlinks.bypass hnodup
    · exact hsublist.nodup hnodup
    · exact hkeep
    · show s.currentTask ∈ _
      rw [hcurrent]
      exact hkeep
    · intro t ht
      apply h.mem_linked
      rw [hfront]
      exact hsublist.subset ht
    · exact alive_unlinkNext.mpr h.collector_alive
    · apply (sameBlocks_unlinkNext.memory h.memory).moveCollector
      show s.collector.point ≠ _
      rw [hpoint]
      exact CollectorPoint.noConfusion
    · exact .inr hself
    · exact ⟨List.mem_append_right _ List.mem_cons_self, h.mem_linked _ hnext,
        Links.notMem_bypass hnodup, fun halive => hdead (alive_unlinkNext.mp halive)⟩
  · exact alive_unlinkNext.mpr h.current_alive

/-- Freeing blocks of the unlinked task does not touch the ring. -/
theorem Sound.collectorFree (h : s.Sound ring) {address : Nat} {point : CollectorPoint}
    (hself : s.collector.self = s.garbageCollectorTask)
    (hmemory : ((s.collectorFree address).setCollector
      { s.collector with point := point }).TaskMemory)
    (hat : ((s.collectorFree address).setCollector
      { s.collector with point := point }).CollectorAt ring point) :
    ((s.collectorFree address).setCollector { s.collector with point := point }).Sound ring where
  links := h.links
  nodup := h.nodup
  collector_mem := h.collector_mem
  current_mem := h.current_mem
  mem_linked := h.mem_linked
  collector_alive := h.collector_alive
  memory := hmemory
  self := .inr hself
  collector := hat
  current_alive := h.current_alive

theorem Sound.freeTask (h : s.Sound ring) (hpoint : s.collector.point = .freeTask)
    (hself : s.collector.self = s.garbageCollectorTask) :
    (s.freeNext.setCollector { s.collector with point := .reread }).Sound ring := by
  have hat := h.collector
  rw [hpoint] at hat
  obtain ⟨hprevious, hlinked, hoff, -⟩ := hat
  constructor
  · constructor
    · exact h.links
    · exact h.nodup
    · exact h.collector_mem
    · exact h.current_mem
    · intro t ht
      apply List.mem_filter.mpr
      refine ⟨h.mem_linked t ht, ?_⟩
      rw [decide_eq_true_iff]
      rintro rfl
      exact hoff ht
    · exact h.collector_alive
    · exact h.memory.collectorFreeTask hlinked
    · exact .inr hself
    · exact hprevious
  · exact h.current_alive

/-- What a statement of the collector changes, whatever its variables are afterwards. -/
inductive Collected (s : SchedulerState) (sp : Nat) : SchedulerState → Prop
  /-- Only the collector's own variables. -/
  | move (collector : Collector) : Collected s sp (s.setCollector collector)
  | unlink (collector : Collector) : Collected s sp (s.unlinkNext.setCollector collector)
  | freeStack (collector : Collector) :
      Collected s sp
        ((s.collectorFree (s.task s.collector.nextTask).kernelStackBase).setCollector collector)
  | freeTask (collector : Collector) : Collected s sp (s.freeNext.setCollector collector)
  | yieldTicks (collector : Collector) :
      Collected s sp ((s.setTask s.currentTask
        { s.task s.currentTask with sleepTicks := 200 }).setCollector collector)
  | yieldState (collector : Collector) :
      Collected s sp ((s.setCurrentState .sleeping).setCollector collector)
  /-- The collector gives up the processor. -/
  | yieldSwitch {s' : SchedulerState} (hpoint : s.collector.point = .yieldSwitch)
      (hnext : (s.setCollector { s.collector with point := .first }).next sp = some (.ok s')) :
      Collected s sp s'

theorem collected (hcollect : s.collect sp = some (.ok s')) : s.Collected sp s' := by
  rw [SchedulerState.collect] at hcollect
  cases hpoint : s.collector.point with
  | freeStack =>
    simp only [hpoint] at hcollect
    split at hcollect
    · cases hcollect
      exact .freeStack _
    · -- the kernel's first task has no stack that was allocated
      cases hcollect
      exact .move _
  | yieldSwitch =>
    simp only [hpoint] at hcollect
    exact .yieldSwitch hpoint hcollect
  | unlink =>
    simp only [hpoint] at hcollect
    cases hcollect
    exact .unlink _
  | freeTask =>
    simp only [hpoint] at hcollect
    cases hcollect
    exact .freeTask _
  | yieldTicks =>
    simp only [hpoint] at hcollect
    cases hcollect
    exact .yieldTicks _
  | yieldState =>
    simp only [hpoint] at hcollect
    cases hcollect
    exact .yieldState _
  | enter | first | second | test | check | reread | advance | follow =>
    simp only [hpoint] at hcollect
    cases hcollect
    exact .move _

/-- The collector writes its own ticks or state before it yields. -/
theorem Sound.collectorYields (h : s.Sound ring) {value : OSTask} {point : CollectorPoint}
    (hcurrent : s.currentTask = s.garbageCollectorTask)
    (hself : s.collector.self = s.garbageCollectorTask)
    (hnext : value.next = (s.task s.currentTask).next)
    (hbase : value.kernelStackBase = (s.task s.currentTask).kernelStackBase)
    (halive : value.taskState ≠ .dead) (hpoint : s.collector.point ≠ .freeTask)
    (hat : point = .yieldState ∨ point = .yieldSwitch) :
    ((s.setTask s.currentTask value).setCollector { s.collector with point := point }).Sound
      ring := by
  have hvalue : (s.setTask s.currentTask value).Alive s.currentTask := by
    rw [Alive, setTask_same]
    exact halive
  have hwritten : (s.setTask s.currentTask value).Invariant ring := by
    apply (Quiet.setTask hnext hbase (.inl h.current_alive)).invariant h.toInvariant h.current_mem
    show Alive _ s.garbageCollectorTask
    rw [← hcurrent]
    exact hvalue
  have hsound : (s.setTask s.currentTask value).Sound ring :=
    { hwritten with current_alive := hvalue }
  refine hsound.moveCollector hpoint (.inr hself) ?_
  rcases hat with rfl | rfl
  · trivial
  · trivial

/-- The statements with which the collector walks along the ring write its own
variables only, and leave them as its next statement needs them. -/
theorem Sound.collectorWalks (h : s.Sound ring) (hcurrent : s.currentTask = s.garbageCollectorTask)
    (hcollect : s.collect sp = some (.ok s'))
    (hwalks : s.collector.point ∈
      [.enter, .first, .second, .test, .check, .reread, .advance, .follow]) :
    s'.Sound ring ∧ s'.linked = s.linked := by
  have hat := h.collector
  have hself := h.self
  rw [SchedulerState.collect] at hcollect
  cases hpoint : s.collector.point with
  | enter =>
    simp only [hpoint] at hcollect hat
    cases hcollect
    -- it takes its own task for `self`
    refine ⟨h.moveCollector ?_ (.inr hcurrent) trivial, rfl⟩
    simp [hpoint]
  | first =>
    simp only [hpoint, reduceCtorEq, false_or] at hcollect hat hself
    cases hcollect
    refine ⟨h.moveCollector ?_ (.inr hself) ?_, rfl⟩
    · simp [hpoint]
    -- it starts at its own task, which is on the ring
    · show s.collector.self ∈ ring
      rw [hself]
      exact h.collector_mem
  | second =>
    simp only [hpoint, reduceCtorEq, false_or] at hcollect hat hself
    cases hcollect
    refine ⟨h.moveCollector ?_ (.inr hself) ?_, rfl⟩
    · simp [hpoint]
    -- the path to its successor has no task in between
    · exact ⟨hat, [], ⟨rfl, rfl⟩, by simp⟩
  | test =>
    simp only [hpoint, reduceCtorEq, false_or] at hcollect hat hself
    cases hcollect
    refine ⟨h.moveCollector ?_ (.inr hself) ?_, rfl⟩
    · simp [hpoint]
    · split
      · rename_i hne
        exact ⟨hat, hself ▸ hne⟩
      · trivial
  | check =>
    simp only [hpoint, reduceCtorEq, false_or] at hcollect hat hself
    cases hcollect
    refine ⟨h.moveCollector ?_ (.inr hself) ?_, rfl⟩
    · simp [hpoint]
    · split
      · rename_i hdead
        exact ⟨hat.1, hat.2, fun halive => halive hdead⟩
      · exact hat
  | reread =>
    simp only [hpoint, reduceCtorEq, false_or] at hcollect hat hself
    cases hcollect
    refine ⟨h.moveCollector ?_ (.inr hself) ?_, rfl⟩
    · simp [hpoint]
    · exact ⟨hat, [], ⟨rfl, rfl⟩, by simp⟩
  | advance =>
    simp only [hpoint, reduceCtorEq, false_or] at hcollect hat hself
    cases hcollect
    refine ⟨h.moveCollector ?_ (.inr hself) ?_, rfl⟩
    · simp [hpoint]
    · obtain ⟨⟨hprevious, gap, hgap, -⟩, -⟩ := hat
      exact ⟨h.links.reached_mem hprevious hgap, rfl⟩
  | follow =>
    simp only [hpoint, reduceCtorEq, false_or] at hcollect hat hself
    cases hcollect
    refine ⟨h.moveCollector ?_ (.inr hself) ?_, rfl⟩
    · simp [hpoint]
    · obtain ⟨hmem, heq⟩ := hat
      refine ⟨heq ▸ hmem, [], ⟨rfl, ?_⟩, by simp⟩
      show successor s.task s.collector.previousTask = (s.task s.collector.nextTask).next
      rw [heq, successor]
  | unlink | freeStack | freeTask | yieldTicks | yieldState | yieldSwitch => simp [hpoint] at hwalks

/-- The collector's sleep: its ticks, its state, and the switch to another task with
its variables at the start of a pass. -/
theorem Sound.collectorSleeps (h : s.Sound ring) (hcurrent : s.currentTask = s.garbageCollectorTask)
    (hcollect : s.collect sp = some (.ok s'))
    (hsleeps : s.collector.point ∈ [.yieldTicks, .yieldState, .yieldSwitch]) :
    s'.Sound ring ∧ s'.linked = s.linked := by
  have hself := h.self
  rw [SchedulerState.collect] at hcollect
  cases hpoint : s.collector.point with
  | yieldTicks =>
    simp only [hpoint, reduceCtorEq, false_or] at hcollect hself
    cases hcollect
    refine ⟨h.collectorYields hcurrent hself rfl rfl h.current_alive ?_ (.inl rfl), rfl⟩
    simp [hpoint]
  | yieldState =>
    simp only [hpoint, reduceCtorEq, false_or] at hcollect hself
    cases hcollect
    refine ⟨h.collectorYields hcurrent hself rfl rfl OSProcessState.noConfusion ?_ (.inr rfl), rfl⟩
    simp [hpoint]
  | yieldSwitch =>
    simp only [hpoint, reduceCtorEq, false_or] at hcollect hself
    -- its variables are back at the start before another task goes on
    have hmoved : (s.setCollector { s.collector with point := .first }).Sound ring := by
      refine h.moveCollector ?_ (.inr hself) ?_
      · simp [hpoint]
      · trivial
    have hswitch := next_switched hcollect
    refine ⟨hmoved.next hcollect, ?_⟩
    rw [hswitch.rest]
    rfl
  | _ => simp [hpoint] at hsleeps

/-- Every statement of the collector keeps the invariant. -/
theorem Sound.collect (h : s.Sound ring) (hcurrent : s.currentTask = s.garbageCollectorTask)
    (hcollect : s.collect sp = some (.ok s')) :
    ∃ ring', s'.Sound ring' ∧ RingChange s s' ring (.collect sp) ring' := by
  have hat := h.collector
  have hself := h.self
  cases hpoint : s.collector.point with
  | enter | first | second | test | check | reread | advance | follow =>
    obtain ⟨hsound, hlinked⟩ := h.collectorWalks hcurrent hcollect (by simp [hpoint])
    exact ⟨ring, hsound, .same hlinked⟩
  | yieldTicks | yieldState | yieldSwitch =>
    obtain ⟨hsound, hlinked⟩ := h.collectorSleeps hcurrent hcollect (by simp [hpoint])
    exact ⟨ring, hsound, .same hlinked⟩
  | unlink =>
    simp only [SchedulerState.collect, hpoint, reduceCtorEq, false_or] at hcollect hself
    cases hcollect
    -- the one statement that takes tasks out of the ring
    obtain ⟨front, gap, back, hring, hsound⟩ := h.unlink hpoint hself hcurrent
    exact ⟨_, hsound, .unlink hpoint hring rfl⟩
  | freeStack =>
    simp only [SchedulerState.collect, hpoint, reduceCtorEq, false_or] at hcollect hat hself
    split at hcollect
    · rename_i hbase
      cases hcollect
      exact ⟨ring, h.collectorFree hself
        (h.memory.collectorFreeStack hpoint hat.2.1 rfl hbase) hat, .same rfl⟩
    · cases hcollect
      refine ⟨ring, h.moveCollector ?_ (.inr hself) hat, .same rfl⟩
      simp [hpoint]
  | freeTask =>
    simp only [SchedulerState.collect, hpoint, reduceCtorEq, false_or] at hcollect hself
    cases hcollect
    exact ⟨ring, h.freeTask hpoint hself, .free hpoint rfl⟩

/-! ## Section 2: Spawning -/

/-- A change of memory alone. -/
theorem Sound.of_memory (h : s.Sound ring) (hring : SameRing s s') (hmemory : s'.TaskMemory)
    (hcurrent : s'.currentTask = s.currentTask) (halive : ∀ t, s.Alive t → s'.Alive t) :
    s'.Sound ring := by
  refine { hring.invariant h.toInvariant hmemory ?_ ?_ with current_alive := ?_ }
  · rw [hcurrent]
    exact h.current_mem
  · rw [hring.garbageCollectorTask]
    exact halive _ h.collector_alive
  · rw [hcurrent]
    exact halive _ h.current_alive

theorem Sound.heapAllocate (h : s.Sound ring) (address size : Nat) :
    (s.heapAllocate address size).Sound ring :=
  h.of_memory ⟨rfl, fun _ => id, rfl, rfl, rfl⟩ (h.memory.heapAllocate address size) rfl
    fun _ => id

/-- `OSSchedulerSpawn` with memory for both blocks. -/
theorem Sound.spawnTask (h : s.Sound ring)
    {task stackBaseAddress entry owner fixedUserStackPointer : Nat} {isUser : Bool}
    (htask : FreshBlock s.live task sizeofTask)
    (hstack : FreshBlock ((task, sizeofTask) :: s.live) stackBaseAddress stackSize) :
    (s.spawnTask task stackBaseAddress entry owner isUser fixedUserStackPointer).Sound
      (Links.insertAfter s.currentTask task ring) := by
  have htask' := @Spare.heapAllocate _ _ _ stackBaseAddress stackSize (h.memory.spare htask (by decide))
  have hstack' := (h.memory.heapAllocate task sizeofTask).spare hstack (by decide)
  have hne : task ≠ stackBaseAddress :=
    hstack.ne_of_mem List.mem_cons_self (by decide) (by decide)
  exact ((h.heapAllocate task sizeofTask).heapAllocate stackBaseAddress stackSize).link htask'
    hstack' hne

/-- The task structure is there, the stack is not. -/
theorem Sound.pend (h : s.Sound ring) {call : PendingSpawn}
    (hspare : (s.heapAllocate call.task sizeofTask).Spare call.task sizeofTask) :
    ((s.heapAllocate call.task sizeofTask).setPending (some call)).Sound ring :=
  (h.heapAllocate call.task sizeofTask).of_memory ⟨rfl, fun _ => id, rfl, rfl, rfl⟩
    ((h.memory.heapAllocate call.task sizeofTask).pend hspare) rfl fun _ => id

theorem Sound.spawn (h : s.Sound ring)
    {task stackBaseAddress entry owner fixedUserStackPointer : Nat} {isUser : Bool}
    (hcurrent : s.currentTask ≠ s.garbageCollectorTask)
    (htask : task ≠ 0 → FreshBlock s.live task sizeofTask)
    (hstack : stackBaseAddress ≠ 0 →
      FreshBlock ((task, sizeofTask) :: s.live) stackBaseAddress stackSize)
    (hspawn : s.spawn task stackBaseAddress entry owner isUser fixedUserStackPointer sp =
      some (.ok s')) :
    ∃ ring', s'.Sound ring' ∧ RingChange s s' ring
      (.spawn task stackBaseAddress entry owner isUser fixedUserStackPointer sp) ring' := by
  rw [SchedulerState.spawn] at hspawn
  split at hspawn
  · cases hspawn
    exact ⟨ring, h, .same rfl⟩
  rename_i htask0
  split at hspawn
  · -- no memory for the stack: signal the collector and yield
    have hspare := h.memory.spare (htask htask0) (by decide)
    have hpend := @Sound.pend _ _ h ⟨task, entry, if owner = 0 then s.kernelProcess else owner, isUser,
      fixedUserStackPointer⟩ hspare
    obtain ⟨hsignal, hsame, hgc⟩ := hpend.signal hcurrent
    obtain ⟨hsound, hquiet⟩ := hsignal.yieldTask (by rw [hsame, hgc]; exact hcurrent) hspawn
    refine ⟨ring, hsound, .same ?_⟩
    rw [hquiet.linked]
    exact (Quiet.signal hpend.collector_alive).linked
  · rename_i hstack0
    cases hspawn
    refine ⟨_, h.spawnTask (htask htask0) (hstack hstack0), .link trivial ?_ rfl⟩
    exact fun hmem => (h.memory.spare (htask htask0) (by decide)).unused (.structOf hmem) rfl

theorem Sound.spawnRetry (h : s.Sound ring) {call : PendingSpawn} {stackBaseAddress : Nat}
    (hcall : s.pending s.currentTask = some call)
    (hstack : stackBaseAddress ≠ 0 → FreshBlock s.live stackBaseAddress stackSize) :
    ∃ ring', (s.spawnRetry call stackBaseAddress).Sound ring' ∧
      RingChange s (s.spawnRetry call stackBaseAddress) ring (.spawnRetry stackBaseAddress) ring' := by
  obtain ⟨hmemory, hspare⟩ := h.memory.unpend hcall
  have hunpend : (s.setPending none).Sound ring :=
    h.of_memory ⟨rfl, fun _ => id, rfl, rfl, rfl⟩ hmemory rfl fun _ => id
  rw [SchedulerState.spawnRetry]
  split
  · exact ⟨ring, hunpend.of_memory ⟨rfl, fun _ => id, rfl, rfl, rfl⟩ (hmemory.heapFree hspare) rfl
      fun _ => id, .same rfl⟩
  · rename_i hstack0
    have hstack' := hmemory.spare (hstack hstack0) (by decide)
    have hne : call.task ≠ stackBaseAddress :=
      (hstack hstack0).ne_of_mem hspare.live (by decide) hspare.size_pos
    refine ⟨_, (hunpend.heapAllocate stackBaseAddress stackSize).link hspare.heapAllocate hstack' hne,
      .link trivial ?_ rfl⟩
    exact fun hmem => hspare.unused (.structOf hmem) rfl

/-! ## Section 3: Every action -/

/-- Processes, memory and registers are not the scheduler's. -/
theorem Sound.outside (h : s.Sound ring) (process : Nat → TaskOwner) (memory : Memory) (cr3 : Nat) :
    { s with process := process, memory := memory, cr3 := cr3 }.Sound ring ∧
      Quiet s { s with process := process, memory := memory, cr3 := cr3 } := by
  have hquiet : Quiet s { s with process := process, memory := memory, cr3 := cr3 } :=
    { Quiet.refl s with }
  exact ⟨{ hquiet.invariant h.toInvariant h.current_mem h.collector_alive with
    current_alive := h.current_alive }, hquiet⟩

/-- Every action keeps the invariant. -/
theorem Sound.step (h : s.Sound ring) {action : SchedulerAction} (hstep : s.Step action s') :
    ∃ ring', s'.Sound ring' ∧ RingChange s s' ring action ring' := by
  obtain ⟨hallowed, hact⟩ := hstep
  have hquiet : s'.Sound ring ∧ Quiet s s' →
      ∃ ring', s'.Sound ring' ∧ RingChange s s' ring action ring' :=
    fun hboth => ⟨ring, hboth.1, .same hboth.2.linked⟩
  cases action with
  | tick sp =>
    have hswitch := next_switched hact
    exact hquiet ⟨h.switched hswitch, .switched hswitch⟩
  | spawn task stackBaseAddress entry owner isUser fixedUserStackPointer sp =>
    exact h.spawn hallowed.1.1 hallowed.2.1 hallowed.2.2 hact
  | spawnRetry stackBaseAddress =>
    obtain ⟨call, hcall⟩ := Option.isSome_iff_exists.mp hallowed.2.1
    rw [act, hcall] at hact
    cases hact
    exact h.spawnRetry hcall hallowed.2.2
  | block processID sp => exact hquiet (h.block hallowed.1 hact)
  | wakeup processID =>
    rw [act, Option.map_eq_some_iff] at hact
    obtain ⟨woken, hwakeup, heq⟩ := hact
    cases heq
    obtain ⟨hinvariant, -, halive⟩ := h.toInvariant.wakeup hwakeup
    exact hquiet ⟨{ hinvariant with current_alive := halive h.current_alive }, .awakened hwakeup⟩
  | yieldTask ticks sp => exact hquiet (h.yieldTask hallowed.1 hact)
  | terminate sp => exact hquiet (h.toInvariant.terminate hallowed.1 hact)
  | fault sp => exact hquiet (h.fault hallowed.1 hact)
  | collect sp => exact h.collect hallowed hact
  | setProcess address process =>
    cases hact
    exact hquiet (h.outside _ _ _)
  | store address value =>
    cases hact
    exact hquiet (h.outside _ _ _)

/-- A task that is alive stays linked, and comes to the ring only with its own spawn. -/
theorem RingChange.kept {action : SchedulerAction} {ring' : List Nat} (h : s.Sound ring)
    (hchange : RingChange s s' ring action ring') (ht : t ∈ s.linked) (halive : s.Alive t) :
    t ∈ s'.linked ∧ (t ∈ ring' → t ∈ ring) := by
  cases hchange with
  | same hlinked => exact ⟨hlinked ▸ ht, id⟩
  | link _ htask hlinked =>
    refine ⟨hlinked ▸ List.mem_cons_of_mem _ ht, fun hmem => ?_⟩
    rcases Links.mem_insertAfter.mp hmem with hold | ⟨-, rfl⟩
    · exact hold
    · exact absurd ht htask
  | unlink _ hring hlinked =>
    refine ⟨hlinked ▸ ht, fun hmem => ?_⟩
    rw [hring]
    exact (Links.bypass_sublist ..).subset hmem
  | free hpoint hlinked =>
    have hat := h.collector
    rw [hpoint] at hat
    have hne : t ≠ s.collector.nextTask := fun heq => hat.2.2.2 (heq ▸ halive)
    exact ⟨hlinked ▸ List.mem_filter.mpr ⟨ht, decide_eq_true hne⟩, id⟩

/-- Only the collector's own statements move it. -/
theorem Sound.collector_eq (h : s.Sound ring) {action : SchedulerAction} (hstep : s.Step action s')
    (hother : ∀ sp, action ≠ .collect sp) :
    s'.collector = s.collector ∧ s'.garbageCollectorTask = s.garbageCollectorTask := by
  obtain ⟨hallowed, hact⟩ := hstep
  have hquiet : Quiet s s' →
      s'.collector = s.collector ∧ s'.garbageCollectorTask = s.garbageCollectorTask :=
    fun hquiet => ⟨hquiet.collector, hquiet.garbageCollectorTask⟩
  cases action with
  | tick sp => exact hquiet (.switched (next_switched hact))
  | spawn task stackBaseAddress entry owner isUser fixedUserStackPointer sp =>
    rw [act, SchedulerState.spawn] at hact
    split at hact
    · cases hact
      exact ⟨rfl, rfl⟩
    rename_i htask0
    split at hact
    · have hspare := h.memory.spare (hallowed.2.1 htask0) (by decide)
      have hpend := @Sound.pend _ _ h ⟨task, entry, if owner = 0 then s.kernelProcess else owner,
        isUser, fixedUserStackPointer⟩ hspare
      obtain ⟨hsignal, hsame, hgc⟩ := hpend.signal hallowed.1.1
      obtain ⟨-, hyield⟩ := hsignal.yieldTask (by rw [hsame, hgc]; exact hallowed.1.1) hact
      have hall := (Quiet.signal hpend.collector_alive).trans hyield
      exact ⟨hall.collector, hall.garbageCollectorTask⟩
    · cases hact
      exact ⟨rfl, rfl⟩
  | spawnRetry stackBaseAddress =>
    obtain ⟨call, hcall⟩ := Option.isSome_iff_exists.mp hallowed.2.1
    rw [act, hcall] at hact
    cases hact
    rw [SchedulerState.spawnRetry]
    split
    · exact ⟨rfl, rfl⟩
    · exact ⟨rfl, rfl⟩
  | block processID sp => exact hquiet (h.block hallowed.1 hact).2
  | wakeup processID =>
    rw [act, Option.map_eq_some_iff] at hact
    obtain ⟨woken, hwakeup, heq⟩ := hact
    cases heq
    exact hquiet (.awakened hwakeup)
  | yieldTask ticks sp => exact hquiet (h.yieldTask hallowed.1 hact).2
  | terminate sp => exact hquiet (h.toInvariant.terminate hallowed.1 hact).2
  | fault sp => exact hquiet (h.fault hallowed.1 hact).2
  | collect sp => exact absurd rfl (hother sp)
  | setProcess address process =>
    cases hact
    exact ⟨rfl, rfl⟩
  | store address value =>
    cases hact
    exact ⟨rfl, rfl⟩

/-! ## Section 4: Dead tasks -/

/-- What an action does to tasks that are dead or not linked. -/
structure Effects (s s' : SchedulerState) (action : SchedulerAction) : Prop where
  dead : ∀ t ∈ s.linked, ¬ s.Alive t → ¬ s'.Alive t
  pending : ∀ caller call, s'.pending caller = some call →
    s.pending caller = some call ∨ action.Allocates call.task
  linked : ∀ t ∈ s'.linked, t ∈ s.linked ∨ action.Allocates t ∨
    ∃ caller call, s.pending caller = some call ∧ call.task = t

theorem Effects.of_quiet (h : Quiet s s') (action : SchedulerAction) : Effects s s' action where
  dead t _ hdead := h.dead t hdead
  pending caller call hcall := by
    rw [h.pending] at hcall
    exact .inl hcall
  linked t ht := by
    rw [h.linked] at ht
    exact .inl ht

/-- Linking a task in from a state that differs from `s` in memory only. -/
theorem Effects.link {s₀ : SchedulerState} {action : SchedulerAction}
    {task stackBaseAddress entry owner fixedUserStackPointer : Nat} {isUser : Bool}
    (htask : s₀.task = s.task) (hlinked : s₀.linked = s.linked) (hcurrent : s₀.currentTask ∈ s.linked)
    (hpending : ∀ caller call, s₀.pending caller = some call → s.pending caller = some call)
    (hnew : task ∉ s.linked) (hsource : action.Allocates task ∨
      ∃ caller call, s.pending caller = some call ∧ call.task = task) :
    Effects s (s₀.linkTask task stackBaseAddress entry owner isUser fixedUserStackPointer) action where
  dead t ht hdead := by
    have hne : t ≠ task := fun heq => hnew (heq ▸ ht)
    have hnew' : task ≠ s₀.currentTask := fun heq => hnew (heq ▸ hcurrent)
    rw [Alive, linkTask_old hnew' hne, htask]
    exact hdead
  pending caller call hcall := .inl (hpending caller call hcall)
  linked t ht := by
    rcases List.mem_cons.mp ht with rfl | hold
    · exact .inr hsource
    · exact .inl (hlinked ▸ hold)

theorem Sound.effects_spawn (h : s.Sound ring)
    {task stackBaseAddress entry owner fixedUserStackPointer : Nat} {isUser : Bool}
    (hcurrent : s.currentTask ≠ s.garbageCollectorTask)
    (htask : task ≠ 0 → FreshBlock s.live task sizeofTask)
    (hspawn : s.spawn task stackBaseAddress entry owner isUser fixedUserStackPointer sp =
      some (.ok s')) :
    Effects s s' (.spawn task stackBaseAddress entry owner isUser fixedUserStackPointer sp) := by
  rw [SchedulerState.spawn] at hspawn
  split at hspawn
  · cases hspawn
    exact .of_quiet (.refl s) _
  rename_i htask0
  have hspare := h.memory.spare (htask htask0) (by decide)
  split at hspawn
  · have hpend := @Sound.pend _ _ h ⟨task, entry, if owner = 0 then s.kernelProcess else owner, isUser,
      fixedUserStackPointer⟩ hspare
    obtain ⟨hsignal, hsame, hgc⟩ := hpend.signal hcurrent
    obtain ⟨-, hyield⟩ := hsignal.yieldTask (by rw [hsame, hgc]; exact hcurrent) hspawn
    have hquiet := (Quiet.signal hpend.collector_alive).trans hyield
    constructor
    · intro t _ hdead
      exact hquiet.dead t hdead
    · intro caller call hcall
      rw [hquiet.pending, setPending_pending] at hcall
      by_cases hcaller : caller = (s.heapAllocate task sizeofTask).currentTask
      · rw [if_pos hcaller] at hcall
        rw [← Option.some.inj hcall]
        exact .inr rfl
      · rw [if_neg hcaller] at hcall
        exact .inl hcall
    · intro t ht
      rw [hquiet.linked] at ht
      exact .inl ht
  · cases hspawn
    rw [SchedulerState.spawnTask]
    refine Effects.link rfl rfl (h.mem_linked _ h.current_mem) (fun _ _ hcall => hcall) ?_ (.inl rfl)
    exact fun hmem => hspare.unused (.structOf hmem) rfl

theorem Sound.effects_spawnRetry (h : s.Sound ring) {call : PendingSpawn} {stackBaseAddress : Nat}
    (hcall : s.pending s.currentTask = some call) (action : SchedulerAction) :
    Effects s (s.spawnRetry call stackBaseAddress) action := by
  have hpending : ∀ caller call', (s.setPending none).pending caller = some call' →
      s.pending caller = some call' := by
    intro caller call' heq
    rw [setPending_pending] at heq
    split at heq
    · cases heq
    · exact heq
  rw [SchedulerState.spawnRetry]
  split
  · exact ⟨fun t _ hdead => hdead, fun caller call' heq => .inl (hpending caller call' heq),
      fun t ht => .inl ht⟩
  · refine Effects.link rfl rfl (h.mem_linked _ h.current_mem) hpending ?_
      (.inr ⟨_, call, hcall, rfl⟩)
    exact fun hmem => (h.memory.unpend hcall).2.unused (.structOf hmem) rfl

/-- The collector allocates nothing and brings no task back. -/
theorem Sound.effects_collect (h : s.Sound ring)
    (hcollect : s.collect sp = some (.ok s')) (action : SchedulerAction) : Effects s s' action := by
  have hquiet : ∀ {s₁ : SchedulerState} (collector : Collector), Quiet s s₁ →
      s₁.pending = s.pending → s₁.linked = s.linked → Effects s (s₁.setCollector collector) action := by
    intro s₁ collector hquiet hpending hlinked
    refine ⟨fun t _ hdead => hquiet.dead t hdead, fun _ _ hcall => .inl ?_, fun _ ht => .inl ?_⟩
    · rw [← hpending]
      exact hcall
    · rw [← hlinked]
      exact ht
  cases collected hcollect with
  | move collector => exact hquiet collector (.refl s) rfl rfl
  | unlink collector =>
    exact ⟨fun t _ hdead halive => hdead (alive_unlinkNext.mp halive),
      fun _ _ hcall => .inl hcall, fun _ ht => .inl ht⟩
  | freeStack collector =>
    exact ⟨fun _ _ hdead => hdead, fun _ _ hcall => .inl hcall, fun _ ht => .inl ht⟩
  | freeTask collector =>
    exact ⟨fun _ _ hdead => hdead, fun _ _ hcall => .inl hcall,
      fun _ ht => .inl (List.mem_of_mem_filter ht)⟩
  | yieldTicks collector =>
    exact hquiet collector (.setTask rfl rfl (.inl h.current_alive)) rfl rfl
  | yieldState collector =>
    exact hquiet collector (.setTask rfl rfl (.inl h.current_alive)) rfl rfl
  | yieldSwitch hpoint hnext =>
    have hquiet := Quiet.switched (next_switched hnext)
    constructor
    · exact fun t _ hdead => hquiet.dead t hdead
    · intro caller call hcall
      rw [hquiet.pending] at hcall
      exact .inl hcall
    · intro t ht
      rw [hquiet.linked] at ht
      exact .inl ht

theorem Sound.effects (h : s.Sound ring) {action : SchedulerAction} (hstep : s.Step action s') :
    Effects s s' action := by
  obtain ⟨hallowed, hact⟩ := hstep
  cases action with
  | tick sp => exact .of_quiet (.switched (next_switched hact)) _
  | spawn task stackBaseAddress entry owner isUser fixedUserStackPointer sp =>
    exact h.effects_spawn hallowed.1.1 hallowed.2.1 hact
  | spawnRetry stackBaseAddress =>
    obtain ⟨call, hcall⟩ := Option.isSome_iff_exists.mp hallowed.2.1
    rw [act, hcall] at hact
    cases hact
    exact h.effects_spawnRetry hcall _
  | block processID sp => exact .of_quiet (h.block hallowed.1 hact).2 _
  | wakeup processID =>
    rw [act, Option.map_eq_some_iff] at hact
    obtain ⟨woken, hwakeup, heq⟩ := hact
    cases heq
    exact .of_quiet (.awakened hwakeup) _
  | yieldTask ticks sp => exact .of_quiet (h.yieldTask hallowed.1 hact).2 _
  | terminate sp => exact .of_quiet (h.toInvariant.terminate hallowed.1 hact).2 _
  | fault sp => exact .of_quiet (h.fault hallowed.1 hact).2 _
  | collect sp => exact h.effects_collect hact _
  | setProcess address process =>
    cases hact
    exact .of_quiet (h.outside _ _ _).2 _
  | store address value =>
    cases hact
    exact .of_quiet (h.outside _ _ _).2 _

/-- A task that can never be resumed: it is dead, or its structure is not in
use at all. -/
def Gone (s : SchedulerState) (t : Nat) : Prop :=
  (t ∈ s.linked ∧ ¬ s.Alive t) ∨
    (t ∉ s.linked ∧ ∀ caller call, s.pending caller = some call → call.task ≠ t)

theorem Sound.ne_of_gone (h : s.Sound ring) {t : Nat} (hgone : s.Gone t) : s.currentTask ≠ t := by
  rintro rfl
  rcases hgone with ⟨-, hdead⟩ | ⟨hlinked, -⟩
  · exact hdead h.current_alive
  · exact hlinked (h.mem_linked _ h.current_mem)

/-- A task that is gone stays gone unless its structure is allocated again. -/
theorem Sound.gone_step (h : s.Sound ring) {action : SchedulerAction} (hstep : s.Step action s')
    {t : Nat} (hgone : s.Gone t) (hallocates : ¬ action.Allocates t) : s'.Gone t := by
  have heffects := h.effects hstep
  -- no pending call has its structure
  have hpending : ∀ caller call, s.pending caller = some call → call.task ≠ t := by
    rcases hgone with ⟨hlinked, -⟩ | ⟨-, hpending⟩
    · rintro caller call hcall rfl
      exact BlockUse.noConfusion (h.memory.unique (.pendingOf hcall) (.structOf hlinked))
    · exact hpending
  have hpending' : ∀ caller call, s'.pending caller = some call → call.task ≠ t := by
    rintro caller call hcall rfl
    rcases heffects.pending caller call hcall with hold | hnew
    · exact hpending caller call hold rfl
    · exact hallocates hnew
  by_cases hlinked : t ∈ s'.linked
  · rcases hgone with ⟨hold, hdead⟩ | ⟨hnot, -⟩
    · exact .inl ⟨hlinked, heffects.dead t hold hdead⟩
    · rcases heffects.linked t hlinked with hold | hnew | ⟨caller, call, hcall, heq⟩
      · exact absurd hold hnot
      · exact absurd hnew hallocates
      · exact absurd heq (hpending caller call hcall)
  · exact .inr ⟨hlinked, hpending'⟩

/-! ## Section 5: Computing runs -/

instance (live : List (Nat × Nat)) (address size : Nat) : Decidable (FreshBlock live address size) :=
  inferInstanceAs (Decidable (_ ∧ _))

instance (s : SchedulerState) : Decidable s.Calls := inferInstanceAs (Decidable (_ ∧ _))

/-- A test for `Allowed`; it answers no for `setProcess`. -/
def permits (s : SchedulerState) : SchedulerAction → Bool
  | .setProcess _ _ => false
  | .tick _ => true
  | .spawn task stackBaseAddress _ _ _ _ _ =>
    s.Calls ∧ (task ≠ 0 → FreshBlock s.live task sizeofTask) ∧
      (stackBaseAddress ≠ 0 → FreshBlock ((task, sizeofTask) :: s.live) stackBaseAddress stackSize)
  | .spawnRetry stackBaseAddress =>
    s.currentTask ≠ s.garbageCollectorTask ∧ (s.pending s.currentTask).isSome ∧
      (stackBaseAddress ≠ 0 → FreshBlock s.live stackBaseAddress stackSize)
  | .collect _ => s.currentTask = s.garbageCollectorTask
  | .store address _ => decide (∀ task ∈ s.linked, task ≠ s.currentTask →
      address < (s.task task).kernelStackBase ∨ (s.task task).kernelStackTop ≤ address)
  | .block _ _ | .wakeup _ | .yieldTask _ _ | .terminate _ | .fault _ => s.Calls

theorem allowed_of_permits {action : SchedulerAction} (h : s.permits action = true) :
    s.Allowed action := by
  cases action with
  | setProcess address process => cases h
  | tick sp => trivial
  | spawn task stackBaseAddress entry owner isUser fixedUserStackPointer sp =>
    simp only [permits, decide_eq_true_eq] at h
    exact h
  | spawnRetry stackBaseAddress =>
    simp only [permits, decide_eq_true_eq] at h
    exact h
  | block processID sp => exact of_decide_eq_true (p := s.Calls) h
  | wakeup processID => exact of_decide_eq_true (p := s.Calls) h
  | yieldTask ticks sp => exact of_decide_eq_true (p := s.Calls) h
  | terminate sp => exact of_decide_eq_true (p := s.Calls) h
  | fault sp => exact of_decide_eq_true (p := s.Calls) h
  | collect sp => exact of_decide_eq_true (p := s.currentTask = s.garbageCollectorTask) h
  | store address value =>
    simp only [permits, decide_eq_true_eq] at h
    exact h

/-- Take the actions one after the other, if all pass the test. -/
def perform (test : SchedulerState → SchedulerAction → Bool) :
    SchedulerState → List SchedulerAction → Option SchedulerState
  | s, [] => some s
  | s, action :: actions =>
    if s.permits action ∧ test s action then
      match s.act action with
      | some (.ok next) => perform test next actions
      | _ => none
    else none

/-- A computed run whose last state passes a test. -/
theorem exists_trace {test : SchedulerState → SchedulerAction → Bool} {p : SchedulerState → Bool}
    {next : SchedulerState → SchedulerAction → SchedulerState → Prop} {actions : List SchedulerAction}
    (hnext : ∀ s action s', s.Step action s' → test s action = true → next s action s')
    (h : (perform test s actions).any p = true) : ∃ s', Trace next s actions s' ∧ p s' = true := by
  induction actions generalizing s with
  | nil => exact ⟨s, .nil s, h⟩
  | cons action actions ih =>
    rw [perform] at h
    split at h
    · rename_i hpasses
      split at h
      · rename_i s₁ hact
        obtain ⟨s', htrace, hp⟩ := ih h
        exact ⟨s', .cons (hnext s action s₁ ⟨allowed_of_permits hpasses.1, hact⟩ hpasses.2) htrace, hp⟩
      · cases h
    · cases h

end SchedulerState

end TermOS.OS
