import TermOS.OS.KernelBoot
import TermOS.OS.SchedulerProgress

/-!
# The life of the first program

The kernel boots, and its first task starts the first program. The program gets a page, exits, and
is freed by the garbage collector, which walks over the tasks of the boot to it. Its frames stay in
use.

## Main Theorems

* `collector_walks` - the collector comes to a dead task
* `exists_lifecycle` - a life of the first program, from power-on
* `lifecycle_not_neutral` - after its life a process has used up frames
-/

namespace TermOS.OS

open TermOS.Lib TermOS.Kernel TermOS.VM TermOS.FS TermOS.Tools SchedulerState

/-! ## Section 1: Turns of the tasks -/

section Turns

variable {k : Kernel} {collectorTask t : Nat} {others rest : List Nat}

/-- The next task has its turn. -/
theorem Rested.next (h : Rested k collectorTask (t :: rest)) (sp : Nat) :
    ∃ s, k.scheduler.next sp = some (.ok s) ∧ s.currentTask = t ∧
      Rested { k with scheduler := s } collectorTask (rest ++ [k.scheduler.currentTask]) := by
  obtain ⟨s, hnext, hselects, hcurrent, horder, hswitched⟩ :=
    @TurnOrder.next _ sp _ _ h.order h.length_lt (.inl (h.running t (by simp)))
  have hmem : ∀ u ∈ s.currentTask :: (rest ++ [k.scheduler.currentTask]),
      u ∈ k.scheduler.currentTask :: t :: rest := by
    intro u hu
    rw [hcurrent] at hu
    simp only [List.mem_cons, List.mem_append, List.not_mem_nil, or_false] at hu ⊢
    tauto
  refine ⟨s, hnext, hcurrent, ⟨horder, fun u hu => ?_⟩, fun u hu => ?_, ?_, ?_, ?_⟩
  · show (u, sizeofTask) ∈ s.live
    rw [hswitched.rest]
    exact h.live u (hmem u hu)
  · show (s.task u).taskState = .running
    by_cases hu' : u = s.currentTask
    · rw [hu']
      exact hswitched.running
    · rw [hselects.state u hu']
      exact h.running u (hmem u hu)
  · rw [hswitched.rest]
    exact h.point
  · rw [hswitched.rest]
    exact h.pending
  · rw [hswitched.rest]
    exact h.collector_eq

/-- Waking up ends, and leaves those alone that are not blocked. -/
theorem TurnOrder.wakeup {s : SchedulerState} (h : s.TurnOrder others)
    (hlength : others.length < s.live.length) (processID : UInt32) :
    ∃ s', s.wakeup processID = some s' ∧ s' = { s with task := s'.task } ∧ s'.TurnOrder others ∧
      ∀ t, (s.task t).taskState ≠ .blocked → s'.task t = s.task t := by
  obtain ⟨task, hloop⟩ := @wakeupLoop_ok _ processID _ _ s.loopBound _ h.1 (Nat.lt_succ_of_lt hlength)
  have hwakeup : s.wakeup processID = some { s with task := task } := by
    rw [SchedulerState.wakeup, hloop, Option.map_some]
  obtain ⟨-, hawakened, -⟩ := SchedulerState.wakeup_awakened hwakeup
  exact ⟨_, hwakeup, rfl, h.congr hawakened.successor_eq rfl, fun t hstate =>
    (hawakened.cases t).resolve_right fun hblocked => hstate hblocked.1⟩

/-- The current task dies, and the collector, which is the next one, has its turn. -/
theorem Rested.terminate (h : Rested k collectorTask (collectorTask :: rest)) (hne : collectorTask ≠ 0)
    (sp : Nat) :
    ∃ s, k.scheduler.terminate sp = some (.ok s) ∧ s.currentTask = collectorTask ∧
      s.garbageCollectorTask = collectorTask ∧ s.collector.point = .enter ∧
      s.TurnOrder (rest ++ [k.scheduler.currentTask]) ∧
      (∀ t ∈ rest, (s.task t).taskState = .running) ∧
      (s.task k.scheduler.currentTask).taskState = .dead := by
  have hnodup := h.order.2
  simp only [List.nodup_cons, List.mem_cons, not_or] at hnodup
  obtain ⟨⟨hother, hcurrent⟩, hfirst, -⟩ := hnodup
  have hlength := h.length_lt
  -- Of the tasks only the state of the current one has changed, and it is not woken up again.
  obtain ⟨woken, hwakeup, hrest, horder, hkept⟩ := @TurnOrder.wakeup _ (k.scheduler.setCurrentState .dead)
    (h.order.congr (successor_update_same rfl) rfl) hlength (k.scheduler.task k.scheduler.currentTask).id
  have hdead : (woken.task k.scheduler.currentTask).taskState = .dead := by
    rw [hkept _ (by rw [SchedulerState.setCurrentState, setTask_same]; exact OSProcessState.noConfusion),
      SchedulerState.setCurrentState, setTask_same]
  have hrunning : ∀ t ∈ rest, (woken.task t).taskState = .running := by
    intro t ht
    have hsame : (k.scheduler.setCurrentState .dead).task t = k.scheduler.task t :=
      setTask_ne _ _ fun heq => hcurrent (heq ▸ ht)
    have hstate := h.running t (by simp [ht])
    rw [hkept t (by rw [hsame, hstate]; exact OSProcessState.noConfusion), hsame, hstate]
  -- The signal makes the collector ready to run.
  have hgc : woken.garbageCollectorTask = collectorTask := by
    rw [hrest]
    exact h.collector_eq
  generalize hready : woken.setTask collectorTask
    { woken.task collectorTask with taskState := .running, sleepTicks := 0 } = ready
  have hsignal : woken.postGarbageCollectorSignal = ready := by
    rw [← hready, SchedulerState.postGarbageCollectorSignal, hgc, if_neg hne]
  have hreadyTask : ∀ t, t ≠ collectorTask → ready.task t = woken.task t := by
    intro t ht
    rw [← hready]
    exact setTask_ne _ _ ht
  have hreadyRest : ready = { k.scheduler with task := ready.task } := by
    rw [← hready, setTask, hrest]
    rfl
  have hreadyOrder : ready.TurnOrder (collectorTask :: rest) := by
    rw [← hready]
    exact horder.congr (successor_update_same rfl) rfl
  have hdue : ready.Due collectorTask := by
    refine .inl ?_
    rw [← hready, setTask_same]
  obtain ⟨s, hnext, hselects, hcollector, hturns, hswitched⟩ :=
    @TurnOrder.next _ sp _ _ hreadyOrder (by rw [hreadyRest]; exact hlength) hdue
  rw [show ready.currentTask = k.scheduler.currentTask by rw [hreadyRest]] at hturns
  refine ⟨s, ?_, hcollector, ?_, ?_, hturns, fun t ht => ?_, ?_⟩
  · unfold SchedulerState.terminate
    simp only [hwakeup, Option.bind_some, hsignal, hnext]
  · rw [hswitched.rest, hreadyRest]
    exact h.collector_eq
  · rw [hswitched.rest, hreadyRest]
    exact h.point
  · have ht' : t ≠ collectorTask := fun heq => hfirst (heq ▸ ht)
    rw [hselects.state t (hcollector ▸ ht'), hreadyTask t ht']
    exact hrunning t ht
  · rw [hselects.state _ (hcollector ▸ hother), hreadyTask _ hother]
    exact hdead

end Turns

/-! ## Section 2: The collector -/

section Collects

variable {k : Kernel} {others : OtherTasks} {a b c : Nat}

/-- The collector with other local variables. -/
def Kernel.withCollector (k : Kernel) (collector : Collector) : Kernel :=
  { k with scheduler := k.scheduler.setCollector collector }

/-- A statement that only moves the collector on. -/
theorem collect_moves {collector : Collector}
    (hcurrent : k.scheduler.currentTask = k.scheduler.garbageCollectorTask)
    (hpoint : k.scheduler.collector.point ≠ .freeStack ∧ k.scheduler.collector.point ≠ .freeTask)
    (hcollect : k.scheduler.collect 0 = some (.ok (k.scheduler.setCollector collector))) :
    KernelStep others k (k.withCollector collector) := by
  have hheap : k.collectHeap = k := by
    unfold Kernel.collectHeap
    dsimp only
    split
    · exact absurd (by assumption) hpoint.1
    · exact absurd (by assumption) hpoint.2
    · rfl
  refine .collect 0 hcurrent ?_
  rw [Kernel.collect, hheap, hcollect]
  rfl

/-- From any task on, the collector walks over those that are not dead to the dead one behind them. -/
theorem collector_walks (others : OtherTasks) {mid : List Nat} {previous next : Nat}
    (hturn : k.scheduler.currentTask = k.scheduler.garbageCollectorTask)
    (hlinks : Links (successor k.scheduler.task) next mid a)
    (halive : ∀ t ∈ mid, t ≠ b ∧ (k.scheduler.task t).taskState ≠ .dead)
    (ha : a ≠ b ∧ (k.scheduler.task a).taskState = .dead) :
    ∃ previous', Relation.ReflTransGen (KernelStep others)
      (k.withCollector ⟨.test, b, previous, next⟩) (k.withCollector ⟨.unlink, b, previous', a⟩) := by
  -- The task is not the collector itself, so its state is looked at.
  have htest : ∀ {previous next : Nat}, next ≠ b → KernelStep others
      (k.withCollector ⟨.test, b, previous, next⟩) (k.withCollector ⟨.check, b, previous, next⟩) := by
    intro previous next hne
    refine collect_moves hturn (by simp [Kernel.withCollector, SchedulerState.setCollector]) ?_
    simp [SchedulerState.collect, Kernel.withCollector, SchedulerState.setCollector, hne]
  induction mid generalizing previous next with
  | nil =>
    obtain rfl : next = a := hlinks
    have hcheck : KernelStep others (k.withCollector ⟨.check, b, previous, next⟩)
        (k.withCollector ⟨.unlink, b, previous, next⟩) := by
      refine collect_moves hturn (by simp [Kernel.withCollector, SchedulerState.setCollector]) ?_
      simp [SchedulerState.collect, Kernel.withCollector, SchedulerState.setCollector, ha.2]
    exact ⟨previous, .head (htest ha.1) (.single hcheck)⟩
  | cons t mid ih =>
    obtain ⟨rfl, hrest⟩ := hlinks
    obtain ⟨hne, hstate⟩ := halive next List.mem_cons_self
    -- It is not dead, and the collector goes on behind it.
    have hcheck : KernelStep others (k.withCollector ⟨.check, b, previous, next⟩)
        (k.withCollector ⟨.advance, b, previous, next⟩) := by
      refine collect_moves hturn (by simp [Kernel.withCollector, SchedulerState.setCollector]) ?_
      simp [SchedulerState.collect, Kernel.withCollector, SchedulerState.setCollector, hstate]
    have hadvance : KernelStep others (k.withCollector ⟨.advance, b, previous, next⟩)
        (k.withCollector ⟨.follow, b, next, next⟩) :=
      collect_moves hturn (by simp [Kernel.withCollector, SchedulerState.setCollector]) rfl
    have hfollow : KernelStep others (k.withCollector ⟨.follow, b, next, next⟩)
        (k.withCollector ⟨.test, b, next, successor k.scheduler.task next⟩) :=
      collect_moves hturn (by simp [Kernel.withCollector, SchedulerState.setCollector]) rfl
    obtain ⟨previous', hwalk⟩ := @ih next _ hrest fun u hu => halive u (List.mem_cons_of_mem _ hu)
    exact ⟨previous', .head (htest hne) (.head hcheck (.head hadvance (.head hfollow hwalk)))⟩

/-- So it comes from its start to the one dead task. -/
theorem collector_finds (others : OtherTasks) {mid rest : List Nat}
    (hcurrent : k.scheduler.currentTask = b) (hcollector : k.scheduler.garbageCollectorTask = b)
    (hpoint : k.scheduler.collector.point = .enter)
    (horder : k.scheduler.TurnOrder (mid ++ a :: rest))
    (halive : ∀ t ∈ mid, (k.scheduler.task t).taskState ≠ .dead)
    (hdead : (k.scheduler.task a).taskState = .dead) :
    ∃ previous, Relation.ReflTransGen (KernelStep others) k
      (k.withCollector ⟨.unlink, b, previous, a⟩) := by
  have hturn : k.scheduler.currentTask = k.scheduler.garbageCollectorTask :=
    hcurrent.trans hcollector.symm
  subst hcurrent
  obtain ⟨hlinks, hnodup⟩ := horder
  obtain ⟨-, hpath⟩ := hlinks
  obtain ⟨a', hmid, hrest⟩ := Links.append_iff.mp hpath
  obtain ⟨rfl, -⟩ := hrest
  have hother : ∀ t ∈ mid ++ a' :: rest, t ≠ k.scheduler.currentTask := by
    rintro t ht rfl
    exact (List.nodup_cons.mp hnodup).1 ht
  -- It starts at its own task and takes the next one as the first candidate.
  have hfirst : KernelStep others k (k.withCollector
      { k.scheduler.collector with self := k.scheduler.currentTask, point := .first }) := by
    apply collect_moves hturn (by simp [hpoint])
    unfold SchedulerState.collect
    simp only [hpoint]
  have hsecond : KernelStep others (k.withCollector
      { k.scheduler.collector with self := k.scheduler.currentTask, point := .first })
      (k.withCollector ⟨.second, k.scheduler.currentTask, k.scheduler.currentTask,
        k.scheduler.collector.nextTask⟩) :=
    collect_moves hturn (by simp [Kernel.withCollector, SchedulerState.setCollector]) rfl
  have hthird : KernelStep others (k.withCollector ⟨.second, k.scheduler.currentTask,
      k.scheduler.currentTask, k.scheduler.collector.nextTask⟩)
      (k.withCollector ⟨.test, k.scheduler.currentTask, k.scheduler.currentTask,
        successor k.scheduler.task k.scheduler.currentTask⟩) :=
    collect_moves hturn (by simp [Kernel.withCollector, SchedulerState.setCollector]) rfl
  obtain ⟨previous, hwalk⟩ := @collector_walks k _ _ others mid k.scheduler.currentTask _ hturn hmid
    (fun t ht => ⟨hother t (List.mem_append_left _ ht), halive t ht⟩)
    ⟨hother a' (by simp), hdead⟩
  exact ⟨previous, .head hfirst (.head hsecond (.head hthird hwalk))⟩

/-- Freeing a block changes memory only. -/
theorem collectHeap_scheduler (k : Kernel) : k.collectHeap.scheduler =
    { k.scheduler with memory := k.collectHeap.scheduler.memory } := by
  unfold Kernel.collectHeap
  dsimp only
  split
  · split
    · rfl
    · rfl
  · rfl
  · rfl

/-- A statement of the collector that ends without a panic; what it frees in the heap is
in `memory`. -/
theorem collect_step (others : OtherTasks) (effect : SchedulerState → SchedulerState)
    (hturn : k.scheduler.currentTask = k.scheduler.garbageCollectorTask)
    (hcollect : ∀ memory, ({ k.scheduler with memory := memory } : SchedulerState).collect 0 =
      some (.ok (effect { k.scheduler with memory := memory }))) :
    ∃ k' memory, KernelStep others k k' ∧
      k'.scheduler = effect { k.scheduler with memory := memory } := by
  refine ⟨{ k.collectHeap with
    scheduler := effect { k.scheduler with memory := k.collectHeap.scheduler.memory } },
    k.collectHeap.scheduler.memory, .collect 0 hturn ?_, rfl⟩
  rw [Kernel.collect, collectHeap_scheduler, hcollect]
  rfl

/-- Then it frees the dead task. -/
theorem collector_frees (others : OtherTasks)
    (hturn : k.scheduler.currentTask = k.scheduler.garbageCollectorTask)
    (hpoint : k.scheduler.collector = ⟨.unlink, b, c, a⟩) :
    ∃ k', Relation.ReflTransGen (KernelStep others) k k' ∧ a ∉ k'.scheduler.linked := by
  -- Three statements: the dead task is unlinked, its stack is freed, then its structure.
  obtain ⟨k₁, memory₁, hunlink, hk₁⟩ := collect_step others
    (fun s => s.unlinkNext.setCollector ⟨.freeStack, b, c, a⟩) hturn fun memory => by
      unfold SchedulerState.collect
      simp only [hpoint]
  have hpoint₁ : k₁.scheduler.collector = ⟨.freeStack, b, c, a⟩ := by
    rw [hk₁]
    rfl
  have hturn₁ : k₁.scheduler.currentTask = k₁.scheduler.garbageCollectorTask := by
    rw [hk₁]
    exact hturn
  obtain ⟨k₂, memory₂, hfreeStack, hk₂⟩ := collect_step others
    (fun s => (if (s.task a).kernelStackBase ≠ 0 then s.collectorFree (s.task a).kernelStackBase
      else s).setCollector ⟨.freeTask, b, c, a⟩) hturn₁ fun memory => by
      unfold SchedulerState.collect
      simp only [hpoint₁]
  have hpoint₂ : k₂.scheduler.collector = ⟨.freeTask, b, c, a⟩ := by
    rw [hk₂]
    rfl
  have hturn₂ : k₂.scheduler.currentTask = k₂.scheduler.garbageCollectorTask := by
    rw [hk₂]
    dsimp only
    split
    · exact hturn₁
    · exact hturn₁
  obtain ⟨k₃, memory₃, hfreeTask, hk₃⟩ := collect_step others
    (fun s => s.freeNext.setCollector ⟨.reread, b, c, a⟩) hturn₂ fun memory => by
      unfold SchedulerState.collect
      simp only [hpoint₂]
  refine ⟨k₃, .head hunlink (.head hfreeStack (.single hfreeTask)), ?_⟩
  rw [hk₃]
  simp [SchedulerState.freeNext, SchedulerState.setCollector, hpoint₂]

end Collects

/-! ## Section 3: A whole life -/

/-- While the collector has not begun and is the next one behind the current task, a program that is
started runs, gets a page, exits, and is freed. -/
theorem Rested.lifecycle {k : Kernel} {collectorTask entry owner fixedUserStackPointer : Nat}
    {isUser : Bool} {rest : List Nat} (h : Rested k collectorTask (collectorTask :: rest))
    (hne : collectorTask ≠ 0) (others : OtherTasks) {executablePath processName : List UInt8}
    {r : SpawnResult}
    (hresult : k.osLoaderProcessSpawn others executablePath processName = some (.ok r))
    (hstarted : r.task ≠ 0) (hlinks : LinksTask k.scheduler r.kernel.scheduler r.task entry owner isUser
      fixedUserStackPointer) :
    ∃ k', Lifecycle others executablePath processName k k' := by
  -- a timer interrupt lets the program run
  obtain ⟨s₁, htick, hcurrent₁, hrested₁⟩ := (h.spawn hlinks).next 0
  have hother : r.task ≠ collectorTask := by
    rintro rfl
    rw [← hcurrent₁] at hrested₁
    exact (List.nodup_cons.mp hrested₁.order.2).1 List.mem_cons_self
  have hcalls : s₁.Calls := by
    refine ⟨?_, hrested₁.pending _⟩
    rw [hcurrent₁, show s₁.garbageCollectorTask = collectorTask from hrested₁.collector_eq]
    exact hother
  -- it exits, and the collector has its turn
  obtain ⟨s₂, hterminate, hcurrent₂, hcollector₂, hpoint₂, horder₂, hrunning₂, hdead₂⟩ :=
    hrested₁.terminate hne 0
  rw [show ({ r.kernel with scheduler := s₁ } : Kernel).scheduler.currentTask = r.task from hcurrent₁]
    at horder₂ hdead₂
  generalize hk₁ : ({ r.kernel with scheduler := s₁ } : Kernel).memoryAllocate 0x1000 = k₁
  have hscheduler : k₁.scheduler = s₁ := by
    rw [← hk₁]
    rfl
  obtain ⟨previous, hfinds⟩ := @collector_finds { k₁ with scheduler := s₂ } _ _ others _ [] hcurrent₂
    hcollector₂ hpoint₂ horder₂
    (fun t ht => by rw [hrunning₂ t ht]; exact OSProcessState.noConfusion) hdead₂
  obtain ⟨k', hfrees, hfreed⟩ := @collector_frees (({ k₁ with scheduler := s₂ } : Kernel).withCollector
    ⟨.unlink, collectorTask, previous, r.task⟩) _ _ _ others (hcurrent₂.trans hcollector₂.symm) rfl
  refine ⟨k', r, k₁, { k₁ with scheduler := s₂ }, hresult, hstarted, ?_, ?_, ?_,
    hfinds.trans hfrees, hfreed⟩
  · have hruns : KernelStep others r.kernel { r.kernel with scheduler := s₁ } :=
      .schedule (show SchedulerAction.Switches (.tick 0) from trivial) ⟨trivial, htick⟩
    refine .head hruns (.single ?_)
    rw [← hk₁]
    exact .memoryAllocate _ _
  · rw [hscheduler, hcurrent₁]
  · refine ⟨0, s₂, rfl, .inl ⟨?_, ?_⟩⟩
    · rw [hscheduler]
      exact hcalls
    · rw [hscheduler]
      exact hterminate

/-- From power-on to the end of the first program: `k` is the kernel when `kmain` has come to its end,
and `s` its scheduler when the first task runs, which starts the program. -/
theorem exists_lifecycle : ∃ k s k',
    kmain smallBoot noOtherTasks initMachine Kernel.yieldOnce 'x'.toUInt8 2 = some (.ok k) ∧
      k.scheduler.next 0 = some (.ok s) ∧
      Lifecycle noOtherTasks initPath ("init".toList.map Char.toUInt8) { k with scheduler := s } k' := by
  obtain ⟨heap, vm, hboot, hcount⟩ :=
    volumeMachine_bootHeap fun x => Memory.zeroPadded initArchive (x - 0x1000)
  have hboots := bootsElf_smallBoot hboot hcount
  let parse : ByteVec → Option Elf := fun _ => some smallElf
  have hparse : parse smallBuffer = some smallElf := rfl
  have hcontent : elf2hot parse smallBuffer = some initEntry.content :=
    elf2hot_eq_some hparse smallElf_loadable.inBounds
  obtain ⟨k₀, collectorTask, idle, hmounts, hready₀, hwaiting⟩ :=
    hboots.mounts noOtherTasks (show ([] ++ initEntry :: []).length < 2 by decide)
  obtain ⟨hwait, hrested₀⟩ := hwaiting.awaitsKey_yieldOnce
  obtain ⟨k, task, hmain, hbooted, hrests⟩ :=
    kmain_booted (c := 'x'.toUInt8) hmounts hready₀ hwaiting fun _ => hwait
  have hrested : Rested k collectorTask [task, collectorTask, idle] := hrests hrested₀
  -- the first task runs
  obtain ⟨s, hnext, hcurrent, hrested'⟩ := hrested.next 0
  obtain ⟨s', hnext', -, -, hready⟩ := hbooted.next 0
  obtain rfl : s = s' := Except.ok.inj (Option.some.inj (hnext.symm.trans hnext'))
  obtain ⟨r, -, hruns, hspawn, entry, hlinks⟩ :=
    hready.initTaskEntry hboots hparse hcontent noOtherTasks
  -- the collector's task is a block of the heap
  have hne : collectorTask ≠ 0 := by
    have hbounds := hready.room.ordered.held_bounds (hrested'.live collectorTask (by simp))
    have hpos : 0 < kVMKernelHeapStart := by decide
    omega
  obtain ⟨k', hlife⟩ := hrested'.lifecycle hne noOtherTasks hspawn hruns.task_ne hlinks
  exact ⟨k, s, k', hmain, hnext, hlife⟩

/-- After its life a process has used up frames, in every run. -/
theorem lifecycle_not_neutral (others : OtherTasks) (executablePath processName : List UInt8)
    (k k' : Kernel) (h : Lifecycle others executablePath processName k k') :
    ¬ ResourceNeutral k k' := by
  intro hneutral
  obtain ⟨f, hfree, htaken⟩ := h.loses_frame
  exact htaken ((hneutral.frames f).mpr hfree)

/-- The first program of a booted kernel has used up frames in the end. -/
theorem lifecycle_not_neutral_first : ∃ k s k',
    kmain smallBoot noOtherTasks initMachine Kernel.yieldOnce 'x'.toUInt8 2 = some (.ok k) ∧
      k.scheduler.next 0 = some (.ok s) ∧ ¬ ResourceNeutral { k with scheduler := s } k' := by
  obtain ⟨k, s, k', hmain, hnext, hlife⟩ := exists_lifecycle
  exact ⟨k, s, k', hmain, hnext, lifecycle_not_neutral noOtherTasks _ _ _ k' hlife⟩

/-- A life that is not neutral: the first program, which gets one page, and exits. -/
theorem exists_lifecycle_not_neutral : ¬ ∀ (others : OtherTasks)
    (executablePath processName : List UInt8) (k k' : Kernel),
    Lifecycle others executablePath processName k k' → ResourceNeutral k k' := by
  intro hneutral
  obtain ⟨k, s, k', -, -, hlife⟩ := exists_lifecycle
  obtain ⟨f, hfree, htaken⟩ := hlife.loses_frame
  exact htaken (((hneutral _ _ _ _ _ hlife).frames f).mpr hfree)

end TermOS.OS
