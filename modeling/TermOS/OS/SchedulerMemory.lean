import TermOS.OS.SchedulerNext

/-!
# The memory of tasks

Tasks and their kernel stacks occupy blocks of the kernel heap. The blocks in
use are live and were not freed, and no block has two uses. This module says
what allocating, freeing and handing over a block does to that.
-/

namespace TermOS.OS

open TermOS.Lib

namespace SchedulerState

/-! ## Section 1: Blocks in use -/

section Blocks

variable (s : SchedulerState)

/-- What a block of the heap is used for. -/
inductive BlockUse
  | structOf (task : Nat)
  | stackOf (task : Nat)
  | pendingOf (caller : Nat)

/-- The collector has freed the stack of a task and not yet the task. -/
def StackFreed (t : Nat) : Prop :=
  s.collector.point = .freeTask ∧ t = s.collector.nextTask

/-- The blocks that the scheduler uses. -/
inductive Uses : BlockUse → Nat → Nat → Prop
  | structOf {t : Nat} (ht : t ∈ s.linked) : Uses (.structOf t) t sizeofTask
  | stackOf {t : Nat} (ht : t ∈ s.linked) (hbase : (s.task t).kernelStackBase ≠ 0)
      (hfreed : ¬ s.StackFreed t) : Uses (.stackOf t) (s.task t).kernelStackBase stackSize
  | pendingOf {caller : Nat} {call : PendingSpawn} (hcall : s.pending caller = some call) :
      Uses (.pendingOf caller) call.task sizeofTask

/-- Every block in use is live and not freed, and has one use. -/
structure TaskMemory : Prop where
  live : ∀ {use address size}, s.Uses use address size → (address, size) ∈ s.live
  unique : ∀ {use use' address size size'}, s.Uses use address size → s.Uses use' address size' →
    use = use'
  notFreed : ∀ {use address size}, s.Uses use address size → address ∉ s.freed
  ne_zero : ∀ {use address size}, s.Uses use address size → address ≠ 0
  zero_notFreed : 0 ∉ s.freed

end Blocks

variable {s s' : SchedulerState}

/-- The blocks and their uses have not changed. -/
structure SameBlocks (s s' : SchedulerState) : Prop where
  kernelStackBase : ∀ t, (s'.task t).kernelStackBase = (s.task t).kernelStackBase
  collector : s'.collector = s.collector
  pending : s'.pending = s.pending
  live : s'.live = s.live
  linked : s'.linked = s.linked
  freed : s'.freed = s.freed

theorem SameBlocks.symm (h : SameBlocks s s') : SameBlocks s' s :=
  ⟨fun t => (h.kernelStackBase t).symm, h.collector.symm, h.pending.symm, h.live.symm,
    h.linked.symm, h.freed.symm⟩

theorem SameBlocks.uses (h : SameBlocks s s') {use : BlockUse} {address size : Nat}
    (huse : s.Uses use address size) : s'.Uses use address size := by
  rcases huse with ht | @⟨t, ht, hbase, hfreed⟩ | hcall
  · exact .structOf (h.linked.symm ▸ ht)
  · rw [← h.kernelStackBase] at hbase ⊢
    refine .stackOf (h.linked.symm ▸ ht) hbase ?_
    rwa [StackFreed, h.collector]
  · exact .pendingOf (h.pending.symm ▸ hcall)

theorem SameBlocks.memory (h : SameBlocks s s') (hmemory : s.TaskMemory) : s'.TaskMemory where
  live huse := by
    rw [h.live]
    exact hmemory.live (h.symm.uses huse)
  unique huse huse' := hmemory.unique (h.symm.uses huse) (h.symm.uses huse')
  notFreed huse := by
    rw [h.freed]
    exact hmemory.notFreed (h.symm.uses huse)
  ne_zero huse := hmemory.ne_zero (h.symm.uses huse)
  zero_notFreed := by
    rw [h.freed]
    exact hmemory.zero_notFreed

/-! ## Section 2: Allocating and freeing -/

/-- A live block that the scheduler does not use yet. -/
structure Spare (s : SchedulerState) (address size : Nat) : Prop where
  live : (address, size) ∈ s.live
  ne_zero : address ≠ 0
  size_pos : 0 < size
  notFreed : address ∉ s.freed
  unused : ∀ {use address' size'}, s.Uses use address' size' → address' ≠ address

theorem Uses.size_pos {use : BlockUse} {address size : Nat} (h : s.Uses use address size) :
    0 < size := by
  cases h with
  | structOf _ => decide
  | stackOf _ _ _ => decide
  | pendingOf _ => decide

theorem FreshBlock.ne_of_mem {live : List (Nat × Nat)} {address size address' size' : Nat}
    (h : FreshBlock live address size) (hmem : (address', size') ∈ live) (hsize : 0 < size)
    (hsize' : 0 < size') : address' ≠ address := by
  rintro rfl
  have := h.2 _ hmem
  simp only at this
  omega

theorem uses_heapAllocate_iff {use : BlockUse} {address size a n : Nat} :
    (s.heapAllocate a n).Uses use address size ↔ s.Uses use address size := by
  constructor
  · rintro (ht | ⟨ht, hbase, hfreed⟩ | hcall)
    · exact .structOf ht
    · exact .stackOf ht hbase hfreed
    · exact .pendingOf hcall
  · rintro (ht | ⟨ht, hbase, hfreed⟩ | hcall)
    · exact .structOf ht
    · exact .stackOf ht hbase hfreed
    · exact .pendingOf hcall

theorem TaskMemory.heapAllocate (h : s.TaskMemory) (a n : Nat) : (s.heapAllocate a n).TaskMemory where
  live huse := List.mem_cons_of_mem _ (h.live (uses_heapAllocate_iff.mp huse))
  unique huse huse' := h.unique (uses_heapAllocate_iff.mp huse) (uses_heapAllocate_iff.mp huse')
  notFreed huse hmem := h.notFreed (uses_heapAllocate_iff.mp huse) (List.mem_of_mem_filter hmem)
  ne_zero huse := h.ne_zero (uses_heapAllocate_iff.mp huse)
  zero_notFreed hmem := h.zero_notFreed (List.mem_of_mem_filter hmem)

/-- An allocated block is spare. -/
theorem TaskMemory.spare (h : s.TaskMemory) {a n : Nat} (hfresh : FreshBlock s.live a n)
    (hn : 0 < n) : (s.heapAllocate a n).Spare a n where
  live := List.mem_cons_self
  ne_zero := hfresh.1
  size_pos := hn
  notFreed hmem := by simp [SchedulerState.heapAllocate] at hmem
  unused huse := by
    rw [uses_heapAllocate_iff] at huse
    exact hfresh.ne_of_mem (h.live huse) hn huse.size_pos

/-- A spare block stays spare when another one is allocated. -/
theorem Spare.heapAllocate {address size a n : Nat} (h : s.Spare address size) :
    (s.heapAllocate a n).Spare address size where
  live := List.mem_cons_of_mem _ h.live
  ne_zero := h.ne_zero
  size_pos := h.size_pos
  notFreed hmem := h.notFreed (List.mem_of_mem_filter hmem)
  unused huse := h.unused (uses_heapAllocate_iff.mp huse)

/-- Blocks leave: what is still in use was in use and lies elsewhere. -/
theorem TaskMemory.release (h : s.TaskMemory) {address : Nat}
    (huses : ∀ {use a n}, s'.Uses use a n → s.Uses use a n ∧ a ≠ address)
    (hlive : s'.live = s.live.filter fun block => block.1 ≠ address)
    (hfreed : ∀ a, a ∈ s'.freed → a = address ∨ a ∈ s.freed) (hzero : address ≠ 0) :
    s'.TaskMemory where
  live huse := by
    obtain ⟨huse, hne⟩ := huses huse
    rw [hlive, List.mem_filter]
    exact ⟨h.live huse, by simpa using hne⟩
  unique huse huse' := h.unique (huses huse).1 (huses huse').1
  notFreed huse hmem := by
    obtain ⟨huse, hne⟩ := huses huse
    rcases hfreed _ hmem with heq | hold
    · exact hne heq
    · exact h.notFreed huse hold
  ne_zero huse := h.ne_zero (huses huse).1
  zero_notFreed hmem := by
    rcases hfreed _ hmem with heq | hold
    · exact hzero heq.symm
    · exact h.zero_notFreed hold

theorem TaskMemory.heapFree (h : s.TaskMemory) {a n : Nat} (hspare : s.Spare a n) :
    (s.heapFree a).TaskMemory := by
  have hlive : (s.heapFree a).live = s.live.filter fun block => block.1 ≠ a := rfl
  apply h.release ?_ hlive (fun _ hmem => .inr hmem) hspare.ne_zero
  intro use address size huse
  have hold : s.Uses use address size := by
    rcases huse with ht | ⟨ht, hbase, hfreed⟩ | hcall
    · exact .structOf ht
    · exact .stackOf ht hbase hfreed
    · exact .pendingOf hcall
  exact ⟨hold, hspare.unused hold⟩

/-- Spare blocks come into use, each in one way. -/
theorem TaskMemory.grow (h : s.TaskMemory) (new : BlockUse → Nat → Nat → Prop)
    (huses : ∀ {use a n}, s'.Uses use a n → s.Uses use a n ∨ new use a n)
    (hspare : ∀ {use a n}, new use a n → s.Spare a n)
    (hunique : ∀ {use use' a n n'}, new use a n → new use' a n' → use = use')
    (hlive : s'.live = s.live) (hfreed : s'.freed = s.freed) : s'.TaskMemory where
  live huse := by
    rw [hlive]
    rcases huses huse with hold | hnew
    · exact h.live hold
    · exact (hspare hnew).live
  unique huse huse' := by
    -- Spare blocks are unused, so an old use and a new one never share a block.
    rcases huses huse with hold | hnew
    · rcases huses huse' with hold' | hnew'
      · exact h.unique hold hold'
      · exact absurd rfl ((hspare hnew').unused hold)
    · rcases huses huse' with hold' | hnew'
      · exact absurd rfl ((hspare hnew).unused hold')
      · exact hunique hnew hnew'
  notFreed huse := by
    rw [hfreed]
    rcases huses huse with hold | hnew
    · exact h.notFreed hold
    · exact (hspare hnew).notFreed
  ne_zero huse := by
    rcases huses huse with hold | hnew
    · exact h.ne_zero hold
    · exact (hspare hnew).ne_zero
  zero_notFreed := by
    rw [hfreed]
    exact h.zero_notFreed

/-- The current task begins to wait for memory for a stack. -/
theorem TaskMemory.pend (h : s.TaskMemory) {call : PendingSpawn}
    (hspare : s.Spare call.task sizeofTask) :
    (s.setPending (some call)).TaskMemory := by
  apply h.grow fun use a n => use = .pendingOf s.currentTask ∧ a = call.task ∧ n = sizeofTask
  · rintro use a n (ht | ⟨ht, hbase, hfreed⟩ | @⟨caller, call', hcall⟩)
    · exact .inl (.structOf ht)
    · exact .inl (.stackOf ht hbase hfreed)
    · rw [setPending_pending] at hcall
      split at hcall
      · rename_i hcaller
        rw [hcaller, Option.some.inj hcall]
        exact .inr ⟨rfl, rfl, rfl⟩
      · exact .inl (.pendingOf hcall)
  · rintro use a n ⟨-, rfl, rfl⟩
    exact hspare
  · rintro use use' a n n' ⟨rfl, -⟩ ⟨rfl, -⟩
    rfl
  · rfl
  · rfl

theorem uses_of_setPending_none {use : BlockUse} {a n : Nat}
    (huse : (s.setPending none).Uses use a n) : s.Uses use a n ∧ use ≠ .pendingOf s.currentTask := by
  rcases huse with ht | ⟨ht, hbase, hfreed⟩ | @⟨caller, call', hcall⟩
  · exact ⟨.structOf ht, BlockUse.noConfusion⟩
  · exact ⟨.stackOf ht hbase hfreed, BlockUse.noConfusion⟩
  · rw [setPending_pending] at hcall
    split at hcall
    · cases hcall
    · rename_i hcaller
      exact ⟨.pendingOf hcall, fun heq => hcaller (BlockUse.pendingOf.inj heq)⟩

/-- The current task has stopped waiting: its task structure is spare. -/
theorem TaskMemory.unpend (h : s.TaskMemory) {call : PendingSpawn}
    (hcall : s.pending s.currentTask = some call) :
    (s.setPending none).TaskMemory ∧ (s.setPending none).Spare call.task sizeofTask := by
  have hused : s.Uses (.pendingOf s.currentTask) call.task sizeofTask := .pendingOf hcall
  constructor
  · apply h.grow fun _ _ _ => False
    · intro use a n huse
      exact .inl (uses_of_setPending_none huse).1
    · exact False.elim
    · exact False.elim
    · rfl
    · rfl
  · refine ⟨h.live hused, h.ne_zero hused, by decide, h.notFreed hused, ?_⟩
    rintro use a n huse rfl
    obtain ⟨hold, hne⟩ := uses_of_setPending_none huse
    exact hne (h.unique hold hused)

/-! ## Section 3: Linking a task in -/

section Link

variable {task stackBaseAddress entry owner fixedUserStackPointer : Nat} {isUser : Bool}

theorem linkTask_new (hne : task ≠ s.currentTask) :
    (s.linkTask task stackBaseAddress entry owner isUser fixedUserStackPointer).task task =
      s.spawnedTask stackBaseAddress (pushWords s.memory (stackBaseAddress + stackSize)
        (spawnFrame entry (if isUser then fixedUserStackPointer else stackBaseAddress + stackSize)
          isUser)).2 owner := by
  rw [linkTask]
  show (setTask _ s.currentTask _).task task = _
  rw [setTask_ne _ _ hne, setTask_same]

theorem linkTask_current (hne : task ≠ s.currentTask) :
    (s.linkTask task stackBaseAddress entry owner isUser fixedUserStackPointer).task s.currentTask =
      { s.task s.currentTask with next := task } := by
  rw [linkTask]
  show (setTask _ s.currentTask _).task s.currentTask = _
  rw [setTask_same]
  simp only [setTask_ne _ _ hne.symm]

theorem linkTask_other {t : Nat} (hnew : t ≠ task) (hcurrent : t ≠ s.currentTask) :
    (s.linkTask task stackBaseAddress entry owner isUser fixedUserStackPointer).task t =
      s.task t := by
  rw [linkTask]
  show (setTask _ s.currentTask _).task t = _
  rw [setTask_ne _ _ hcurrent, setTask_ne _ _ hnew]

theorem successor_linkTask (hne : task ≠ s.currentTask) :
    successor (s.linkTask task stackBaseAddress entry owner isUser fixedUserStackPointer).task =
      Function.update (Function.update (successor s.task) task (successor s.task s.currentTask))
        s.currentTask task := by
  funext t
  by_cases hcurrent : t = s.currentTask
  · rw [hcurrent, successor, linkTask_current hne, Function.update_self]
  · rw [Function.update_of_ne hcurrent]
    by_cases hnew : t = task
    · rw [hnew, successor, linkTask_new hne, Function.update_self, spawnedTask, successor]
    · rw [Function.update_of_ne hnew, successor, linkTask_other hnew hcurrent, successor]

/-- A task that was there keeps everything but its place in the ring. -/
theorem linkTask_old {t : Nat} (hne : task ≠ s.currentTask) (hnew : t ≠ task) :
    (s.linkTask task stackBaseAddress entry owner isUser fixedUserStackPointer).task t =
      { s.task t with next :=
        if t = s.currentTask then task else (s.task t).next } := by
  by_cases hcurrent : t = s.currentTask
  · rw [hcurrent, linkTask_current hne, if_pos rfl]
  · rw [linkTask_other hnew hcurrent, if_neg hcurrent]

theorem TaskMemory.link (h : s.TaskMemory) (htask : s.Spare task sizeofTask)
    (hstack : s.Spare stackBaseAddress stackSize) (hne : task ≠ stackBaseAddress)
    (hcurrent : s.currentTask ∈ s.linked) :
    (s.linkTask task stackBaseAddress entry owner isUser fixedUserStackPointer).TaskMemory := by
  have hnotMem : task ∉ s.linked := fun hmem => htask.unused (.structOf hmem) rfl
  have hnew : task ≠ s.currentTask := fun heq => hnotMem (heq ▸ hcurrent)
  -- Two uses are new: the structure of the task and its stack.
  apply h.grow fun use a n => (use = .structOf task ∧ a = task ∧ n = sizeofTask) ∨
    (use = .stackOf task ∧ a = stackBaseAddress ∧ n = stackSize)
  · rintro use a n (@⟨t, ht⟩ | @⟨t, ht, hbase, hfreed⟩ | hcall)
    · rcases List.mem_cons.mp ht with rfl | hold
      · exact .inr (.inl ⟨rfl, rfl, rfl⟩)
      · exact .inl (.structOf hold)
    · rcases List.mem_cons.mp ht with rfl | hold
      · rw [linkTask_new hnew]
        exact .inr (.inr ⟨rfl, rfl, rfl⟩)
      · have htne : t ≠ task := fun heq => hnotMem (heq ▸ hold)
        rw [linkTask_old hnew htne] at hbase ⊢
        exact .inl (.stackOf hold hbase hfreed)
    · exact .inl (.pendingOf hcall)
  · rintro use a n (⟨-, rfl, rfl⟩ | ⟨-, rfl, rfl⟩)
    · exact htask
    · exact hstack
  · rintro use use' a n n' (⟨rfl, rfl, rfl⟩ | ⟨rfl, rfl, rfl⟩) (⟨rfl, heq, rfl⟩ | ⟨rfl, heq, rfl⟩)
    · rfl
    · exact absurd heq hne
    · exact absurd heq.symm hne
    · rfl
  · rfl
  · rfl

end Link

/-! ## Section 4: The collector's frees -/

/-- The collector frees the stack of the task that it has unlinked. -/
theorem TaskMemory.collectorFreeStack (h : s.TaskMemory) (hpoint : s.collector.point = .freeStack)
    (hlinked : s.collector.nextTask ∈ s.linked) {address : Nat}
    (haddress : address = (s.task s.collector.nextTask).kernelStackBase) (hzero : address ≠ 0) :
    ((s.collectorFree address).setCollector { s.collector with point := .freeTask }).TaskMemory := by
  have hnotFreed : ∀ t, ¬ s.StackFreed t := by
    rintro t ⟨hat, -⟩
    rw [hpoint] at hat
    cases hat
  have hused : s.Uses (.stackOf s.collector.nextTask) address stackSize := by
    rw [haddress] at hzero ⊢
    exact .stackOf hlinked hzero (hnotFreed _)
  refine h.release ?_ rfl ?_ hzero
  · rintro use a n (ht | @⟨t, ht, hbase, hfreed⟩ | hcall)
    · have hold : s.Uses _ _ _ := .structOf ht
      exact ⟨hold, fun heq => BlockUse.noConfusion (h.unique (heq ▸ hold) hused)⟩
    · have hold : s.Uses (.stackOf t) _ _ := .stackOf ht hbase (hnotFreed t)
      exact ⟨hold, fun heq => hfreed ⟨rfl, BlockUse.stackOf.inj (h.unique (heq ▸ hold) hused)⟩⟩
    · have hold : s.Uses _ _ _ := .pendingOf hcall
      exact ⟨hold, fun heq => BlockUse.noConfusion (h.unique (heq ▸ hold) hused)⟩
  · intro a hmem
    exact List.mem_cons.mp hmem

/-- The collector frees the task that it has unlinked. -/
theorem TaskMemory.collectorFreeTask (h : s.TaskMemory)
    (hlinked : s.collector.nextTask ∈ s.linked) :
    (s.freeNext.setCollector { s.collector with point := .reread }).TaskMemory := by
  have hused : s.Uses (.structOf s.collector.nextTask) s.collector.nextTask sizeofTask :=
    .structOf hlinked
  refine h.release ?_ rfl ?_ (h.ne_zero hused)
  · rintro use a n (ht | @⟨t, ht, hbase, hfreed⟩ | hcall)
    · obtain ⟨hmem, hne⟩ := List.mem_filter.mp ht
      exact ⟨.structOf hmem, by simpa using hne⟩
    · obtain ⟨hmem, hne⟩ := List.mem_filter.mp ht
      have hold : s.Uses (.stackOf t) (s.task t).kernelStackBase stackSize := by
        refine .stackOf hmem hbase ?_
        rintro ⟨-, heq⟩
        simp [heq] at hne
      exact ⟨hold, fun heq => BlockUse.noConfusion (h.unique (heq ▸ hold) hused)⟩
    · have hold : s.Uses _ _ _ := .pendingOf hcall
      exact ⟨hold, fun heq => BlockUse.noConfusion (h.unique (heq ▸ hold) hused)⟩
  · intro a hmem
    exact List.mem_cons.mp hmem

/-- Moving the collector while no stack is half freed. -/
theorem TaskMemory.moveCollector (h : s.TaskMemory) {collector : Collector}
    (hpoint : s.collector.point ≠ .freeTask) :
    (s.setCollector collector).TaskMemory := by
  apply h.grow fun _ _ _ => False
  · rintro use a n (ht | ⟨ht, hbase, -⟩ | hcall)
    · exact .inl (.structOf ht)
    · exact .inl (.stackOf ht hbase fun hfreed => hpoint hfreed.1)
    · exact .inl (.pendingOf hcall)
  · exact False.elim
  · exact False.elim
  · rfl
  · rfl

end SchedulerState

end TermOS.OS
