import TermOS.OS.SchedulerFreed

/-!
# Spawned tasks that are lost

The garbage collector reads `previousTask->next` and later, when it unlinks a
dead `nextTask`, overwrites it. What was linked in behind `previousTask`
between the two is lost. As long as nothing but dead tasks lies between the two
when the collector unlinks, all tasks that are not dead form one cycle.
-/

namespace TermOS.OS

open TermOS.Lib SchedulerState

namespace SchedulerState

variable {s s' : SchedulerState} {ring : List Nat}

/-- The list reached from the current task by `next` is a cycle without
repetitions, and every linked task that is not dead is on it. -/
def OneCycle (s : SchedulerState) : Prop :=
  ∃ cycle, Links (successor s.task) s.currentTask cycle s.currentTask ∧ cycle ≠ [] ∧ cycle.Nodup ∧
    ∀ t ∈ s.linked, s.Alive t → t ∈ cycle

/-- Nothing but dead tasks lies between the collector's `previousTask` and its
`nextTask`. -/
def OnlyDeadBetween (s : SchedulerState) : Prop :=
  ∀ gap, Links (successor s.task) (s.task s.collector.previousTask).next gap s.collector.nextTask →
    s.collector.nextTask ∉ gap → ∀ t ∈ gap, ¬ s.Alive t

/-- A step which, if it is the collector's store under the lock, takes only dead
tasks off the ring. -/
def CleanStep (s : SchedulerState) (action : SchedulerAction) (s' : SchedulerState) : Prop :=
  s.Step action s' ∧
    ∀ sp, action = .collect sp → s.collector.point = .unlink → s.OnlyDeadBetween

/-- If `nextTask` still follows `previousTask`, nothing lies between them. -/
theorem onlyDeadBetween_of_next (h : (s.task s.collector.previousTask).next = s.collector.nextTask) :
    s.OnlyDeadBetween := by
  intro gap hgap hnotMem t ht
  rw [h] at hgap
  cases gap with
  | nil => cases ht
  | cons x xs =>
    obtain ⟨heq, -⟩ := hgap
    exact absurd (heq ▸ List.mem_cons_self) hnotMem

/-- A clean step keeps every task that is not dead on the ring. -/
theorem Sound.clean_step (h : s.Sound ring) (hkept : ∀ t ∈ s.linked, s.Alive t → t ∈ ring)
    {action : SchedulerAction} (hstep : s.CleanStep action s') {ring' : List Nat}
    (hchange : RingChange s s' ring action ring') : ∀ t ∈ s'.linked, s'.Alive t → t ∈ ring' := by
  obtain ⟨hstep, hclean⟩ := hstep
  have halive : ∀ t ∈ s.linked, s'.Alive t → s.Alive t := by
    intro t ht
    have := (h.effects hstep).dead t ht
    tauto
  cases hchange with
  | same hlinked =>
    intro t ht halive'
    rw [hlinked] at ht
    exact hkept t ht (halive t ht halive')
  | link _ htask hlinked =>
    intro t ht halive'
    rw [hlinked, List.mem_cons] at ht
    rw [Links.mem_insertAfter]
    rcases ht with heq | hold
    · exact .inr ⟨h.current_mem, heq⟩
    · exact .inl (hkept t hold (halive t hold halive'))
  | @unlink sp front gap back hpoint hring hlinked =>
    intro t ht halive'
    rw [hlinked] at ht
    have hold := halive t ht halive'
    have hmem := hkept t ht hold
    have hlinks := h.links
    have hnodup := h.nodup
    rw [hring] at hlinks hnodup hmem
    -- what the store drops lies on the way from `previousTask` to `nextTask`
    obtain ⟨_, -, rfl, hrest⟩ := Links.append_iff.mp hlinks
    obtain ⟨_, hgap, rfl, -⟩ := Links.append_iff.mp hrest
    have hnotMem : s.collector.nextTask ∉ gap := by
      intro hin
      simp only [List.nodup_append', List.nodup_cons] at hnodup
      exact hnodup.2.1.2.2.2 hin List.mem_cons_self
    have hdead : ∀ t ∈ gap, ¬ s.Alive t := hclean sp rfl hpoint gap hgap hnotMem
    have hnext : ¬ s.Alive s.collector.nextTask := by
      have hat := h.collector
      rw [hpoint] at hat
      exact hat.2.2
    have hgapNe : t ∉ gap := fun hin => hdead t hin hold
    have hnextNe : t ≠ s.collector.nextTask := fun heq => hnext (heq ▸ hold)
    simp only [List.mem_append, List.mem_cons] at hmem ⊢
    tauto
  | free hpoint hlinked =>
    intro t ht halive'
    rw [hlinked] at ht
    have ht' := List.mem_of_mem_filter ht
    exact hkept t ht' (halive t ht' halive')

/-- A ring with every task on it is one cycle when entered at the current task. -/
theorem Sound.oneCycle (h : s.Sound ring) (hkept : ∀ t ∈ s.linked, s.Alive t → t ∈ ring) :
    s.OneCycle := by
  obtain ⟨front, back, rfl⟩ := List.append_of_mem h.current_mem
  refine ⟨s.currentTask :: back ++ front, h.links.rotate, by simp, ?_, ?_⟩
  · exact List.nodup_append_comm.mp h.nodup
  · intro t ht halive
    have hmem := hkept t ht halive
    rw [List.mem_append] at hmem ⊢
    exact hmem.symm

end SchedulerState

/-- In every run in which the collector's unlinking store takes only dead tasks
off the ring, all tasks that are not dead are on one cycle through the current
task. -/
theorem spawned_tasks_kept {boot : SchedulerBoot} (h : boot.Valid) {actions : List SchedulerAction}
    {s : SchedulerState} (htrace : Trace CleanStep boot.start actions s) : s.OneCycle := by
  have hstart : ∃ ring, boot.start.Sound ring ∧
      ∀ t ∈ boot.start.linked, boot.start.Alive t → t ∈ ring :=
    ⟨boot.ring, SchedulerBoot.start_sound h, fun t ht _ => ht⟩
  have hstep : ∀ (s : SchedulerState) action (s' : SchedulerState),
      (∃ ring, s.Sound ring ∧ ∀ t ∈ s.linked, s.Alive t → t ∈ ring) → s.CleanStep action s' →
      ∃ ring', s'.Sound ring' ∧ ∀ t ∈ s'.linked, s'.Alive t → t ∈ ring' := by
    rintro s action s' ⟨ring, hsound, hkept⟩ hstep
    obtain ⟨ring', hsound', hchange⟩ := hsound.step hstep.1
    exact ⟨ring', hsound', hsound.clean_step hkept hstep hchange⟩
  obtain ⟨ring, hsound, hkept⟩ := htrace.invariant hstep hstart
  exact hsound.oneCycle hkept

/-- A task is spawned, dies and is collected; the collector unlinks nothing else. -/
theorem spawned_tasks_kept_death : ∃ s, Trace CleanStep exampleBoot.start exampleDeath s ∧
    0x100c0 ∉ s.linked ∧ s.OneCycle := by
  have hrun : ((perform (fun s _ => s.collector.point = .unlink →
      (s.task s.collector.previousTask).next = s.collector.nextTask) exampleBoot.start
      exampleDeath).any fun s => 0x100c0 ∉ s.linked) = true := by
    decide +kernel
  have hclean : ∀ (s : SchedulerState) action s', s.Step action s' →
      decide (s.collector.point = .unlink →
        (s.task s.collector.previousTask).next = s.collector.nextTask) = true →
      s.CleanStep action s' := by
    intro s action s' hstep htest
    exact ⟨hstep, fun _ _ hpoint => onlyDeadBetween_of_next (of_decide_eq_true htest hpoint)⟩
  obtain ⟨s, htrace, hlinked⟩ := exists_trace hclean hrun
  exact ⟨s, htrace, of_decide_eq_true hlinked, spawned_tasks_kept exampleBoot_valid htrace⟩

/-- The collector has read the dead task 0x100c0 behind the kernel's own task.
Before it goes on, the kernel spawns the task 0x10140 there, which runs and is
preempted. -/
def exampleRace : List SchedulerAction :=
  [.spawn 0x100c0 0x40000 0x400 0x108 true 0x70000000 0, .tick 1, .terminate 2] ++
    List.replicate 12 (.collect 3) ++
    [.tick 4, .tick 5, .spawn 0x10140 0x50000 0x500 0x108 true 0x70000000 0, .tick 6, .tick 7] ++
    List.replicate 2 (.collect 8)

/-- The spawned task is lost, though it has not died. -/
theorem spawned_task_lost : ∃ s, Trace Step exampleBoot.start exampleRace s ∧ ¬ s.OneCycle := by
  have hrun : ((perform (fun _ _ => true) exampleBoot.start exampleRace).any fun s =>
      s.currentTask = 0x10080 ∧ successor s.task 0x10080 = 0x10040 ∧
        successor s.task 0x10040 = 0x10000 ∧ successor s.task 0x10000 = 0x10080 ∧
        0x10140 ∈ s.linked ∧ (s.task 0x10140).taskState = .running) = true := by
    decide +kernel
  obtain ⟨s, htrace, hend⟩ := exists_trace (fun _ _ _ hstep _ => hstep) hrun
  obtain ⟨hcurrent, hcollector, hidle, hkernel, hlinked, hrunning⟩ := of_decide_eq_true hend
  refine ⟨s, htrace, ?_⟩
  rintro ⟨cycle, hlinks, -, -, hall⟩
  -- the current task is on a cycle of three without the new one
  have hring : Links (successor s.task) 0x10080 [0x10080, 0x10040, 0x10000] 0x10080 := by
    simp only [Links.cons_iff, Links.nil_iff, hcollector, hidle, hkernel, and_self]
  have hmem : 0x10140 ∈ cycle := by
    apply hall _ hlinked
    rw [Alive, hrunning]
    exact OSProcessState.noConfusion
  rw [hcurrent] at hlinks
  have hbad := hring.passed_mem List.mem_cons_self hlinks hmem
  simp at hbad

end TermOS.OS
