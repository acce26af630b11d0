import TermOS.OS.SchedulerRun

/-!
# Freed tasks are never reached

`OSSchedulerInitialize` establishes the invariant of the scheduler. In every
run from there, nothing that the garbage collector has freed is on the ring,
is current, or is the stack of the current task, and a dead task never becomes
current again.
-/

namespace TermOS.OS

open TermOS.Lib SchedulerState

/-! ## Section 1: The start -/

/-- Naming the garbage collector before it has run. -/
def SchedulerState.setGarbageCollector (s : SchedulerState) (t : Nat) : SchedulerState :=
  { s with garbageCollectorTask := t }

theorem SchedulerState.Sound.setGarbageCollector {s : SchedulerState} {front back : List Nat} {t : Nat}
    (h : s.Sound (s.garbageCollectorTask :: front ++ t :: back)) (hpoint : s.collector.point = .enter)
    (halive : s.Alive t) :
    (s.setGarbageCollector t).Sound (t :: back ++ s.garbageCollectorTask :: front) := by
  have hmem : ∀ u, u ∈ t :: back ++ s.garbageCollectorTask :: front ↔
      u ∈ s.garbageCollectorTask :: front ++ t :: back := by
    intro u
    rw [List.mem_append, List.mem_append, or_comm]
  have hblocks : SameBlocks s (s.setGarbageCollector t) := ⟨fun _ => rfl, rfl, rfl, rfl, rfl, rfl⟩
  constructor
  · constructor
    · exact h.links.rotate
    · exact List.nodup_append_comm.mp h.nodup
    · exact List.mem_append_left _ List.mem_cons_self
    · exact (hmem _).mpr h.current_mem
    · exact fun u hu => h.mem_linked u ((hmem u).mp hu)
    · exact halive
    · exact hblocks.memory h.memory
    · exact .inl hpoint
    · show CollectorAt _ _ s.collector.point
      rw [hpoint]
      trivial
  · exact h.current_alive

namespace SchedulerBoot

variable {boot : SchedulerBoot}

theorem alone_kernelTask (boot : SchedulerBoot) :
    boot.alone.task boot.kernelTask = boot.kernelOSTask := by
  rw [alone]
  exact Function.update_self boot.kernelTask boot.kernelOSTask fun _ => OSTask.zero

theorem alone_memory (h : boot.Valid) : boot.alone.TaskMemory := by
  have huses : ∀ {use a n}, boot.alone.Uses use a n →
      use = .structOf boot.kernelTask ∧ a = boot.kernelTask ∧ n = sizeofTask := by
    rintro use a n (ht | @⟨t, ht, hstack, -⟩ | hcall)
    · rw [List.mem_singleton.mp ht]
      exact ⟨rfl, rfl, rfl⟩
    · -- the kernel's own task runs on the boot stack
      rw [List.mem_singleton.mp ht, alone_kernelTask] at hstack
      exact absurd rfl hstack
    · cases hcall
  constructor
  · intro use a n huse
    obtain ⟨-, rfl, rfl⟩ := huses huse
    exact List.mem_cons_self
  · intro use use' a n n' huse huse'
    rw [(huses huse).1, (huses huse').1]
  · exact fun _ => List.not_mem_nil
  · intro use a n huse
    obtain ⟨-, rfl, -⟩ := huses huse
    exact h.kernelTask
  · exact List.not_mem_nil

/-- The kernel's own task is a ring by itself. -/
theorem alone_sound (h : boot.Valid) :
    (boot.alone.setGarbageCollector boot.kernelTask).Sound [boot.kernelTask] := by
  have halive : boot.alone.Alive boot.kernelTask := by
    rw [Alive, alone_kernelTask]
    exact OSProcessState.noConfusion
  have hblocks : SameBlocks boot.alone (boot.alone.setGarbageCollector boot.kernelTask) :=
    ⟨fun _ => rfl, rfl, rfl, rfl, rfl, rfl⟩
  constructor
  · constructor
    · refine ⟨rfl, ?_⟩
      show successor boot.alone.task boot.kernelTask = boot.kernelTask
      rw [successor, alone_kernelTask]
      rfl
    · exact List.nodup_singleton _
    · exact List.mem_singleton_self _
    · exact List.mem_singleton_self _
    · exact fun t ht => ht
    · exact halive
    · exact hblocks.memory (alone_memory h)
    · exact .inl rfl
    · trivial
  · exact halive

/-- The tasks at the start: the collector, the idle task, the kernel's own. -/
def ring (boot : SchedulerBoot) : List Nat := [boot.collectorTask, boot.idleTask, boot.kernelTask]

theorem ring_eq (h : boot.Valid) :
    Links.insertAfter boot.kernelTask boot.collectorTask
      (Links.insertAfter boot.kernelTask boot.idleTask [boot.kernelTask]) =
    boot.kernelTask :: [] ++ boot.collectorTask :: [boot.idleTask] := by
  have hidle : boot.idleTask ≠ boot.kernelTask :=
    (h.idleTask.ne_of_mem List.mem_cons_self (by decide) (by decide)).symm
  rw [Links.insertAfter_cons_same, Links.insertAfter_cons_same, Links.insertAfter_nil,
    Links.insertAfter_cons_ne _ _ hidle, Links.insertAfter_nil]
  rfl

/-- `OSSchedulerInitialize` establishes the invariant. -/
theorem start_sound (h : boot.Valid) : boot.start.Sound boot.ring := by
  -- until the collector has a task, the kernel's own task stands for it
  let lone := boot.alone.setGarbageCollector boot.kernelTask
  let idle := lone.spawnTask boot.idleTask boot.idleStack boot.idleEntry boot.kernelProcess false 0
  let both := idle.spawnTask boot.collectorTask boot.collectorStack boot.collectorEntry
    boot.kernelProcess false 0
  have hidle : idle.Sound (Links.insertAfter boot.kernelTask boot.idleTask [boot.kernelTask]) :=
    (alone_sound h).spawnTask h.idleTask h.idleStack
  have hboth : both.Sound (boot.kernelTask :: [] ++ boot.collectorTask :: [boot.idleTask]) := by
    rw [← ring_eq h]
    exact hidle.spawnTask h.collectorTask h.collectorStack
  have hne : boot.collectorTask ≠ boot.kernelTask := by
    have hmem := hboth.nodup
    intro heq
    simp [heq] at hmem
  have halive : both.Alive boot.collectorTask := by
    show ((linkTask _ _ _ _ _ _ _).task boot.collectorTask).taskState ≠ _
    rw [linkTask_new hne]
    exact OSProcessState.noConfusion
  exact hboth.setGarbageCollector rfl halive

end SchedulerBoot

/-! ## Section 2: Every run -/

namespace SchedulerState

variable {s s' : SchedulerState} {ring : List Nat}

theorem Sound.trace (h : s.Sound ring) {actions : List SchedulerAction}
    (htrace : Trace Step s actions s') : ∃ ring', s'.Sound ring' := by
  refine htrace.invariant (I := fun s => ∃ ring, s.Sound ring) ?_ ⟨ring, h⟩
  rintro s action s' ⟨ring, hsound⟩ hstep
  obtain ⟨ring', hsound', -⟩ := hsound.step hstep
  exact ⟨ring', hsound'⟩

/-- The task whose stack the collector frees first is off the ring. -/
theorem Sound.not_stackFreed (h : s.Sound ring) {t : Nat} (ht : t ∈ ring) : ¬ s.StackFreed t := by
  rintro ⟨hpoint, rfl⟩
  have hat := h.collector
  rw [hpoint] at hat
  exact hat.2.2.1 ht

/-- What lies on the ring is not freed. -/
theorem Sound.notMem_freed (h : s.Sound ring) {t : Nat} (ht : t ∈ ring) :
    t ∉ s.freed ∧ (s.task t).kernelStackBase ∉ s.freed := by
  have hlinked := h.mem_linked t ht
  constructor
  · exact h.memory.notFreed (.structOf hlinked)
  · by_cases hbase : (s.task t).kernelStackBase = 0
    · rw [hbase]
      exact h.memory.zero_notFreed
    · exact h.memory.notFreed (.stackOf hlinked hbase (h.not_stackFreed ht))

/-- A task that is gone never runs again before its structure is allocated anew. -/
theorem Sound.gone_trace (h : s.Sound ring) {t : Nat} (hgone : s.Gone t)
    {actions : List SchedulerAction} (htrace : Trace Step s actions s')
    (hallocates : ∀ action ∈ actions, ¬ action.Allocates t) : s'.currentTask ≠ t := by
  induction htrace generalizing ring with
  | nil s => exact h.ne_of_gone hgone
  | cons hstep _ ih =>
    obtain ⟨ring', hsound, -⟩ := h.step hstep
    refine ih hsound (h.gone_step hstep hgone (hallocates _ List.mem_cons_self)) ?_
    exact fun action ha => hallocates action (List.mem_cons_of_mem _ ha)

end SchedulerState

/-! ## Section 3: What is reached -/

/-- A machine to run the scheduler on: five allocations that follow each other. -/
def exampleBoot : SchedulerBoot where
  kernelProcess := 0x100
  physicalPML4 := 0x1000
  bootStackTop := 0x9000
  kernelTask := 0x10000
  idleTask := 0x10040
  idleStack := 0x20000
  idleEntry := 0x200
  collectorTask := 0x10080
  collectorStack := 0x30000
  collectorEntry := 0x300
  process := fun address => ⟨address % 0x100, 0x1000 + 0x1000 * (address % 0x100)⟩
  memory := fun _ => 0

theorem exampleBoot_valid : exampleBoot.Valid := by
  constructor
  all_goals decide +kernel

/-- The kernel spawns a task, which runs and dies; the collector unlinks and
frees it. -/
def exampleDeath : List SchedulerAction :=
  [.spawn 0x100c0 0x40000 0x400 0x108 true 0x70000000 0, .tick 1, .terminate 2] ++
    List.replicate 16 (.collect 3)

/-- In every run, what is reached from the current task over `next`, the current
task among it, occupies live blocks that the collector has not freed; and a
task that is dead is not resumed before its structure is allocated again. -/
theorem freed_never_reached {boot : SchedulerBoot} (h : boot.Valid) {actions : List SchedulerAction}
    {s : SchedulerState} (htrace : Trace Step boot.start actions s) :
    (∀ passed t, Links (successor s.task) s.currentTask passed t →
      t ∉ s.freed ∧ (t, sizeofTask) ∈ s.live ∧ (s.task t).kernelStackBase ∉ s.freed ∧
        ((s.task t).kernelStackBase ≠ 0 → ((s.task t).kernelStackBase, stackSize) ∈ s.live)) ∧
    ∀ t ∈ s.linked, ¬ s.Alive t → ∀ later s', Trace Step s later s' →
      (∀ action ∈ later, ¬ action.Allocates t) → s'.currentTask ≠ t := by
  obtain ⟨ring, hsound⟩ := (SchedulerBoot.start_sound h).trace htrace
  constructor
  · intro passed t hpassed
    have ht : t ∈ ring := hsound.links.reached_mem hsound.current_mem hpassed
    have hlinked := hsound.mem_linked t ht
    obtain ⟨htask, hstack⟩ := hsound.notMem_freed ht
    refine ⟨htask, hsound.memory.live (.structOf hlinked), hstack, fun hbase => ?_⟩
    apply hsound.memory.live (.stackOf hlinked hbase ?_)
    exact hsound.not_stackFreed ht
  · intro t ht hdead later s' hlater hallocates
    exact hsound.gone_trace (.inl ⟨ht, hdead⟩) hlater hallocates

/-- The two blocks of the dead task are freed, and nothing on the ring is. -/
theorem freed_never_reached_death : ∃ s, Trace Step exampleBoot.start exampleDeath s ∧
    s.freed = [0x100c0, 0x40000] ∧
    ∀ passed t, Links (successor s.task) s.currentTask passed t → t ∉ s.freed := by
  have hrun : ((perform (fun _ _ => true) exampleBoot.start exampleDeath).any fun s =>
      s.freed = [0x100c0, 0x40000]) = true := by
    decide +kernel
  obtain ⟨s, htrace, hfreed⟩ := exists_trace (fun _ _ _ hstep _ => hstep) hrun
  refine ⟨s, htrace, of_decide_eq_true hfreed, fun passed t hpassed => ?_⟩
  exact ((freed_never_reached exampleBoot_valid htrace).1 passed t hpassed).1

end TermOS.OS
