import TermOS.Kernel.Bootinfo
import TermOS.OS.KeyWait
import TermOS.OS.ReservedMemory
import TermOS.Tools.Elf2HotSpawn

/-!
# From power-on to the first program

Model of `kmain` in `kernel/src/kmain.c`, of `OSSchedulerInitialize` in
`kernel/src/OS/OSScheduler.c` and of `init_task_entry` in `kernel/src/OS/Exec/OSLoader.c`: what is
set up one after the other, on the one heap from which tasks, stacks and nodes are taken. What is
drawn and logged, the descriptor tables, the interrupt controller and the timer are left out.

## Main Definitions

* `kmain` - the kernel up to the first task that it starts
* `Kernel.initTaskEntry` - the task that starts the first program
-/

namespace TermOS.OS

open TermOS.Lib TermOS.Kernel TermOS.VM TermOS.FS TermOS.Tools SchedulerState

/-! ## Section 1: The code -/

/-- `sizeof(FSVNode)` -/
def sizeofNode : Nat := 328

/-- What the linker and the boot loader have fixed: the addresses of the kernel's process, its
boot stack and the functions that it starts as tasks, and of the boot information the fields that
only `kmain` looks at. -/
structure BootImage where
  sOSSchedulerKernelProcess : Nat
  bootStackTop : Nat
  idleTask : Nat
  garbageCollector : Nat
  initTask : Nat
  kshEntry : Nat
  magic : Nat
  initramfsAddress : Nat
  initramfsSize : Nat

/-- The calls of `OSPanic` on the way. -/
inductive BootPanic
  | bootinfo
  | scheduler
  | cpio (panic : CPIOPanic)
  | framebuffer
  deriving DecidableEq

def BootPanic.message : BootPanic → String
  | bootinfo => "Corrupt bootinfo!"
  | scheduler => "Failed to initialize scheduler: OOm"
  | cpio panic => panic.message
  | framebuffer => "No framebuffer found!!"

/-- The kernel after `VMHeapInitialize`: there are no tasks, nothing is mounted, and it sees the memory
through its own page table. -/
def BootImage.afterHeap (image : BootImage) (vm : VMState) : Kernel where
  vm := vm
  scheduler :=
    { task := fun _ => .zero
      process := fun _ => ⟨0, 0⟩
      kernelProcess := image.sOSSchedulerKernelProcess
      currentTask := 0
      garbageCollectorTask := 0
      collector := ⟨.enter, 0, 0, 0⟩
      pending := fun _ => none
      live := []
      linked := []
      freed := []
      memory := (vmHeapInitialize (memoryView vm vm.kernelPML4)).memory
      cr3 := vm.kernelPML4
      rsp0 := 0
      kernelStackPointer := image.bootStackTop }
  sVMHeapListHead := (vmHeapInitialize (memoryView vm vm.kernelPML4)).listHead
  volume := { node := fun _ => .zero, allocated := 0 }
  gFSVirtualFileSystemRoot := 0
  process := fun _ => .zero
  gOSSchedulerNextProcessID := 1
  spaces := []

namespace Kernel

variable (k : Kernel)

/-- `kernelTask` of `OSSchedulerInitialize` becomes the current task. -/
def becomeKernelTask (kernelTask : Nat) : Kernel :=
  let s := k.scheduler
  let task : OSTask :=
    { OSTask.zero with
      process := s.kernelProcess
      next := kernelTask
      taskState := .running
      waitingForProcess := -1 }
  { k with scheduler :=
    { s.setTask kernelTask task with
      process := Function.update s.process s.kernelProcess ⟨0, k.vm.kernelPML4⟩
      currentTask := kernelTask
      linked := [kernelTask] } }

/-- `OSSchedulerInitialize` -/
def osSchedulerInitialize (others : OtherTasks) (idleTask garbageCollector : Nat) :
    Option (Except BootPanic Kernel) :=
  (k.heapAllocate sizeofTask).bind fun (kernelTask, k) =>
    if kernelTask = 0 then some (.error .scheduler)
    else
      let k := k.becomeKernelTask kernelTask
      (k.osSchedulerSpawn others idleTask k.scheduler.kernelProcess false 0).bind fun (_, k) =>
        (k.osSchedulerSpawn others garbageCollector k.scheduler.kernelProcess false 0).map
          fun (task, k) =>
            .ok { k with scheduler := { k.scheduler with garbageCollectorTask := task } }

/-- So many calls of `VMHeapAllocate(sizeof(FSVNode))`: their results, and the kernel behind them. -/
def allocateNodes : Nat → Option (List Nat × Kernel)
  | 0 => some ([], k)
  | count + 1 =>
    (allocateNodes count).bind fun (nodes, k) =>
      (k.heapAllocate sizeofNode).map fun (node, k) => (nodes ++ [node], k)

/-- The result of the call with this number. -/
def nodeAllocation (i : Nat) : Nat :=
  match k.allocateNodes (i + 1) with
  | some (nodes, _) => nodes.getD i 0
  | none => 0

/-- `FSCPIOMount` and `FSVirtualFileSystemInitialize`. The archive lies outside the heap, so it is
read as it was before the first node was allocated. -/
def mountStartupVolume (baseAddress totalSize fuel : Nat) : Option (Except BootPanic Kernel) :=
  (fsCPIOMount k.nodeAllocation k.scheduler.memory baseAddress totalSize fuel).bind fun result =>
    match result with
    | .error panic => some (.error (.cpio panic))
    | .ok (root, volume) =>
      (k.allocateNodes volume.allocated).map fun (_, k) =>
        .ok { k with volume := volume, gFSVirtualFileSystemRoot := root }

end Kernel

/-- `kmain` up to the question for a key; `fuel` bounds the loop over the volume. -/
def kmainMounts (image : BootImage) (others : OtherTasks) (m : Machine) (fuel : Nat) :
    Option (Except BootPanic Kernel) :=
  if image.magic ≠ bootinfoMagic then some (.error .bootinfo) else
  m.bootHeap.bind fun (_, vm) =>
    ((image.afterHeap vm).osSchedulerInitialize others image.idleTask image.garbageCollector).bind
      fun started =>
        match started with
        | .error panic => some (.error panic)
        | .ok k =>
          (k.mountStartupVolume (physToHhdm image.initramfsAddress) image.initramfsSize fuel).map
            fun mounted =>
              match mounted with
              | .error panic => .error panic
              | .ok k =>
                -- the boot information now says where VMVirtualMemoryInitialize has mapped it
                let framebuffer := fbVirtBase
                if framebuffer = 0 then .error .framebuffer else .ok k

/-- `kmain`. `IOKeyboardGetCharacter` is asked for the key `c` only if there is a volume, and `wait`
says in which state it then returns. -/
def kmain (image : BootImage) (others : OtherTasks) (m : Machine) (wait : Kernel → Kernel) (c : UInt8)
    (fuel : Nat) : Option (Except BootPanic Kernel) :=
  (kmainMounts image others m fuel).bind fun mounted =>
    match mounted with
    | .error panic => some (.error panic)
    | .ok k =>
      let k := if image.initramfsAddress = 0 then k else wait k
      let rescueMode := image.initramfsAddress = 0 ∨ c = 'q'.toUInt8
      let entry := if rescueMode then image.kshEntry else image.initTask
      (k.osSchedulerSpawn others entry 0 false 0).map fun (_, k) => .ok k

/-- `"/System/CoreServices/init"` -/
def initPath : List UInt8 := "/System/CoreServices/init".toList.map Char.toUInt8

/-- The calls of `OSPanic` of the first task. -/
inductive InitPanic
  | loader (panic : LoaderPanic)
  | init
  deriving DecidableEq

def InitPanic.message : InitPanic → String
  | loader panic => panic.message
  | init => "FATAL: Failed to spawn /System/CoreServices/init"

/-- `init_task_entry`, until it halts. -/
def Kernel.initTaskEntry (k : Kernel) (others : OtherTasks) : Option (Except InitPanic SpawnResult) :=
  (k.osLoaderProcessSpawn others initPath ("init".toList.map Char.toUInt8)).map fun result =>
    match result with
    | .error panic => .error (.loader panic)
    | .ok spawned => if spawned.status < 0 then .error .init else .ok spawned

/-! ## Section 2: The ring of tasks -/

/-- The tasks that wait behind the current one, in the order of the ring. -/
structure Behind (k : Kernel) (others : List Nat) : Prop where
  order : k.scheduler.TurnOrder others
  live : ∀ t ∈ k.scheduler.currentTask :: others, (t, sizeofTask) ∈ k.scheduler.live

/-- The tasks wait since the boot: all of them run, none is inside a spawn, and the collector has not
begun. -/
structure Rested (k : Kernel) (collectorTask : Nat) (others : List Nat) : Prop
    extends Behind k others where
  running : ∀ t ∈ k.scheduler.currentTask :: others, (k.scheduler.task t).taskState = .running
  point : k.scheduler.collector.point = .enter
  pending : ∀ t, k.scheduler.pending t = none
  collector_eq : k.scheduler.garbageCollectorTask = collectorTask

/-- They wait on stacks from the heap, and the current one is not the collector. -/
structure Waiting (k : Kernel) (collectorTask : Nat) (others : List Nat) : Prop
    extends Rested k collectorTask others where
  stack : ∀ t ∈ k.scheduler.currentTask :: others,
    (k.scheduler.task t).kernelStackTop = (k.scheduler.task t).kernelStackBase ∨
    (((k.scheduler.task t).kernelStackBase, stackSize) ∈ k.scheduler.live ∧
      (k.scheduler.task t).kernelStackTop = (k.scheduler.task t).kernelStackBase + stackSize)
  current_ne : k.scheduler.currentTask ≠ collectorTask

section Ring

variable {k k' : Kernel} {others : List Nat}
  {collectorTask task entry owner fixedUserStackPointer : Nat} {isUser : Bool}

theorem Waiting.calls (h : Waiting k collectorTask others) : k.scheduler.Calls :=
  ⟨h.collector_eq ▸ h.current_ne, h.pending _⟩

/-- What linking a task in leaves of the other tasks, and what it makes of the new one. -/
theorem LinksTask.task_eq
    (hlinks : LinksTask k.scheduler k'.scheduler task entry owner isUser fixedUserStackPointer)
    (hne : task ≠ k.scheduler.currentTask) :
    k'.scheduler.currentTask = k.scheduler.currentTask ∧
      k'.scheduler.garbageCollectorTask = k.scheduler.garbageCollectorTask ∧
      k'.scheduler.collector = k.scheduler.collector ∧
      k'.scheduler.pending = k.scheduler.pending ∧
      (k'.scheduler.task task).taskState = .running ∧
      (((k'.scheduler.task task).kernelStackBase, stackSize) ∈ k'.scheduler.live ∧
        (k'.scheduler.task task).kernelStackTop =
          (k'.scheduler.task task).kernelStackBase + stackSize) ∧
      ∀ t, t ≠ task →
        k'.scheduler.task t = { k.scheduler.task t with next := (k'.scheduler.task t).next } := by
  obtain ⟨stackBaseAddress, s, hsame, hstack, hlinked⟩ := hlinks.links
  have htasks : s.task = k.scheduler.task := by rw [hsame]
  have hold : s.currentTask = k.scheduler.currentTask := by rw [hsame]
  have hne' : task ≠ s.currentTask := hold ▸ hne
  rw [hlinked, linkTask_new hne']
  refine ⟨hold, ?_, ?_, ?_, rfl, ⟨hstack, rfl⟩, fun t ht => ?_⟩
  · show s.garbageCollectorTask = _
    rw [hsame]
  · show s.collector = _
    rw [hsame]
  · show s.pending = _
    rw [hsame]
  · rw [linkTask_old hne' ht, htasks]

/-- A new task is the next one. -/
theorem Behind.spawn (h : Behind k others)
    (hlinks : LinksTask k.scheduler k'.scheduler task entry owner isUser fixedUserStackPointer) :
    Behind k' (task :: others) ∧ task ∉ k.scheduler.currentTask :: others := by
  obtain ⟨stackBaseAddress, s, hsame, hstack, hlinked⟩ := hlinks.links
  have htasks : s.task = k.scheduler.task := by rw [hsame]
  have hold : s.currentTask = k.scheduler.currentTask := by rw [hsame]
  have hnew : task ∉ k.scheduler.currentTask :: others := by
    intro hmem
    exact hlinks.fresh _ (h.live task hmem) rfl
  have hne : task ≠ s.currentTask := fun heq => hnew (heq ▸ hold ▸ List.mem_cons_self)
  have hcurrent : k'.scheduler.currentTask = k.scheduler.currentTask := by
    rw [hlinked]
    exact hold
  obtain ⟨hring, hnodup⟩ := h.order
  obtain ⟨hfirst, hrest⟩ := List.nodup_cons.mp hnodup
  have hsuccessor : successor k'.scheduler.task = Function.update
      (Function.update (successor k.scheduler.task) task
        (successor k.scheduler.task k.scheduler.currentTask)) k.scheduler.currentTask task := by
    rw [hlinked, successor_linkTask hne, htasks, hold]
  refine ⟨⟨⟨?_, ?_⟩, ?_⟩, hnew⟩
  · have hinsert := hring.insert hnew k.scheduler.currentTask
    rw [Links.insertAfter_cons_same, Links.insertAfter_of_notMem hfirst] at hinsert
    rw [hcurrent, hsuccessor]
    exact hinsert
  · rw [hcurrent]
    simp only [List.nodup_cons, List.mem_cons, not_or] at hnew ⊢
    exact ⟨⟨Ne.symm hnew.1, hfirst⟩, hnew.2, hrest⟩
  · intro t ht
    rw [hcurrent] at ht
    by_cases htask : t = task
    · exact htask ▸ hlinks.live.1
    · exact hlinks.live.2 (h.live t (by simpa [htask] using ht))

/-- So it waits with the others. -/
theorem Rested.spawn (h : Rested k collectorTask others)
    (hlinks : LinksTask k.scheduler k'.scheduler task entry owner isUser fixedUserStackPointer) :
    Rested k' collectorTask (task :: others) := by
  obtain ⟨hbehind, hnew⟩ := h.toBehind.spawn hlinks
  obtain ⟨hcurrent, hgc, hcollector, hpending, hrunning, -, htasks⟩ :=
    hlinks.task_eq fun heq => hnew (heq ▸ List.mem_cons_self)
  refine ⟨hbehind, fun t ht => ?_, by rw [hcollector, h.point], by rw [hpending]; exact h.pending,
    hgc.trans h.collector_eq⟩
  rw [hcurrent] at ht
  by_cases htask : t = task
  · rw [htask]
    exact hrunning
  · rw [htasks t htask]
    exact h.running t (by simpa [htask] using ht)

theorem Waiting.spawn (h : Waiting k collectorTask others)
    (hlinks : LinksTask k.scheduler k'.scheduler task entry owner isUser fixedUserStackPointer) :
    Waiting k' collectorTask (task :: others) := by
  obtain ⟨-, hnew⟩ := h.toBehind.spawn hlinks
  obtain ⟨hcurrent, -, -, -, -, hstack, htasks⟩ :=
    hlinks.task_eq fun heq => hnew (heq ▸ List.mem_cons_self)
  refine ⟨h.toRested.spawn hlinks, fun t ht => ?_, by rw [hcurrent]; exact h.current_ne⟩
  rw [hcurrent] at ht
  by_cases htask : t = task
  · rw [htask]
    exact .inr hstack
  · rw [htasks t htask]
    refine (h.stack t (by simpa [htask] using ht)).imp_right fun hheld => ⟨?_, hheld.2⟩
    exact hlinks.live.2 hheld.1

/-- The kernel's own task, when it is all there is. -/
theorem waiting_becomeKernelTask {kernelTask : Nat}
    (hheld : (kernelTask, sizeofTask) ∈ k.scheduler.live)
    (hpoint : k.scheduler.collector.point = .enter)
    (hgc : kernelTask ≠ k.scheduler.garbageCollectorTask) (hpending : ∀ t, k.scheduler.pending t = none) :
    Waiting (k.becomeKernelTask kernelTask) k.scheduler.garbageCollectorTask [] := by
  have htask : (k.becomeKernelTask kernelTask).scheduler.task kernelTask =
      { OSTask.zero with
        process := k.scheduler.kernelProcess
        next := kernelTask
        taskState := .running
        waitingForProcess := -1 } := setTask_same ..
  refine ⟨⟨⟨⟨⟨rfl, ?_⟩, List.nodup_singleton _⟩, ?_⟩, ?_, hpoint, hpending, rfl⟩, ?_, hgc⟩
  · show ((k.becomeKernelTask kernelTask).scheduler.task kernelTask).next = kernelTask
    rw [htask]
  · intro t ht
    obtain rfl : t = kernelTask := List.mem_singleton.mp ht
    exact hheld
  · intro t ht
    obtain rfl : t = kernelTask := List.mem_singleton.mp ht
    rw [htask]
  · intro t ht
    obtain rfl : t = kernelTask := List.mem_singleton.mp ht
    rw [htask]
    exact .inl rfl

/-- With room for its five blocks, the scheduler is initialized: the idle task and the garbage
collector wait behind the kernel's task. -/
theorem osSchedulerInitialize_ok {room : Nat}
    (h : HasRoom k (room + taskCost + taskCost + blockCost sizeofTask))
    (hpoint : k.scheduler.collector.point = .enter) (hgc : k.scheduler.garbageCollectorTask = 0)
    (hpending : ∀ t, k.scheduler.pending t = none)
    (others : OtherTasks) (idleTask garbageCollector : Nat) :
    ∃ collectorTask idle k', k.osSchedulerInitialize others idleTask garbageCollector = some (.ok k') ∧
      HasRoom k' room ∧ KeepsLoader k k' ∧ Waiting k' collectorTask [collectorTask, idle] := by
  obtain ⟨kernelTask, k₁, hkernel, hne, h₁, hlive₁⟩ := h.allocate (by decide) (by decide)
  have hheld : (kernelTask, sizeofTask) ∈ k₁.scheduler.live := hlive₁ ▸ List.mem_cons_self
  have h₂ : HasRoom (k₁.becomeKernelTask kernelTask) (room + taskCost + taskCost) := h₁.congr rfl rfl
  obtain ⟨idle, k₃, hidle, -, h₃, hspawn₃⟩ := h₂.spawnsTask others idleTask k₁.scheduler.kernelProcess
    false 0
  obtain ⟨collectorTask, k₄, hcollector, -, h₄, hspawn₄⟩ :=
    h₃.spawnsTask others garbageCollector k₃.scheduler.kernelProcess false 0
  have hallocated := heapOnly_allocate hkernel
  have hsame := hallocated.scheduler_eq
  have hwaiting := ((waiting_becomeKernelTask hheld (by rw [hsame]; exact hpoint)
    (by rw [hsame]; exact hgc ▸ hne) (by rw [hsame]; exact hpending)).spawn
      hspawn₃.toLinksTask).spawn hspawn₄.toLinksTask
  have hother : k₄.scheduler.currentTask ≠ collectorTask := by
    intro heq
    exact (List.nodup_cons.mp hwaiting.order.2).1 (heq ▸ List.mem_cons_self)
  refine ⟨collectorTask, idle,
    { k₄ with scheduler := { k₄.scheduler with garbageCollectorTask := collectorTask } }, ?_,
    h₄.congr rfl rfl, ?_, ⟨⟨⟨hwaiting.order, hwaiting.live⟩, hwaiting.running, hwaiting.point,
      hwaiting.pending, rfl⟩, hwaiting.stack, hother⟩⟩
  · unfold Kernel.osSchedulerInitialize
    rw [hkernel, Option.bind_some]
    simp only [if_neg hne]
    rw [show (k₁.becomeKernelTask kernelTask).scheduler.kernelProcess = k₁.scheduler.kernelProcess
      from rfl, hidle, Option.bind_some]
    simp only [hcollector, Option.map_some]
  · have hbefore : KeepsLoader k (k₁.becomeKernelTask kernelTask) :=
      ⟨hallocated.vm_eq, hallocated.nextProcessID_eq, hallocated.spaces_eq,
        fun x hx => h.ordered.allocate_below hkernel hx⟩
    have hafter := (hbefore.trans hspawn₃.toKeepsLoader).trans hspawn₄.toKeepsLoader
    exact ⟨hafter.vm_eq, hafter.nextProcessID_eq, hafter.spaces_eq, hafter.below⟩

end Ring

/-! ## Section 3: The startup volume -/

/-- The nodes that were allocated one after the other; the heap is all that has changed. -/
structure AllocatesNodes (k : Kernel) (count : Nat) (nodes : List Nat) (k' : Kernel) : Prop
    extends HeapOnly k k' where
  allocate_eq : k.allocateNodes count = some (nodes, k')
  length_eq : nodes.length = count
  nodup : nodes.Nodup
  ne_zero : 0 ∉ nodes
  below : ∀ x, x < kVMKernelHeapStart → k'.scheduler.memory x = k.scheduler.memory x
  nodes_live : ∀ node ∈ nodes, (node, sizeofNode) ∈ k'.scheduler.live
  live : k.scheduler.live ⊆ k'.scheduler.live

section Volume

variable {k k' : Kernel} {room count : Nat} {nodes : List Nat}

theorem HasRoom.allocateNodes (h : HasRoom k (room + count * blockCost sizeofNode)) :
    ∃ nodes k', AllocatesNodes k count nodes k' ∧ HasRoom k' room := by
  induction count generalizing room with
  | zero =>
    have hsame : HeapOnly k k := ⟨rfl, rfl, rfl, rfl, rfl, rfl⟩
    exact ⟨[], k, ⟨hsame, rfl, rfl, List.nodup_nil, List.not_mem_nil, fun _ _ => rfl, by simp, by simp⟩,
      by simpa using h⟩
  | succ count ih =>
    have hroom : HasRoom k (room + blockCost sizeofNode + count * blockCost sizeofNode) :=
      h.mono (by rw [Nat.add_one_mul]; omega)
    obtain ⟨nodes, k₁, h₁, hroom₁⟩ := ih hroom
    obtain ⟨node, k₂, hnode, hne, hroom₂, hlive⟩ := hroom₁.allocate (by decide) (by decide)
    have hfresh := hroom₁.fresh (by decide) hnode hne
    have hnew : node ∉ nodes := fun hmem => hfresh _ (h₁.nodes_live node hmem) rfl
    refine ⟨nodes ++ [node], k₂, ⟨h₁.toHeapOnly.trans (heapOnly_allocate hnode), ?_, ?_, ?_, ?_, ?_, ?_,
      ?_⟩, hroom₂⟩
    · simp only [Kernel.allocateNodes, h₁.allocate_eq, Option.bind_some, hnode, Option.map_some]
    · rw [List.length_append, h₁.length_eq, List.length_singleton]
    · rw [List.nodup_append_comm, List.singleton_append, List.nodup_cons]
      exact ⟨hnew, h₁.nodup⟩
    · simpa [h₁.ne_zero] using Ne.symm hne
    · intro x hx
      exact (hroom₁.ordered.allocate_below hnode hx).trans (h₁.below x hx)
    · intro other hmem
      rw [hlive]
      rcases List.mem_append.mp hmem with hold | hlast
      · exact List.mem_cons_of_mem _ (h₁.nodes_live other hold)
      · rw [List.mem_singleton.mp hlast]
        exact List.mem_cons_self
    · intro block hblock
      rw [hlive]
      exact List.mem_cons_of_mem _ (h₁.live hblock)

/-- Earlier calls do not depend on later ones. -/
theorem allocateNodes_take (h : k.allocateNodes count = some (nodes, k')) (hlength : nodes.length = count)
    {i : Nat} (hi : i ≤ count) : ∃ k'', k.allocateNodes i = some (nodes.take i, k'') := by
  induction count generalizing nodes k' with
  | zero =>
    obtain rfl : i = 0 := Nat.le_zero.mp hi
    exact ⟨k, rfl⟩
  | succ count ih =>
    rcases Nat.lt_or_eq_of_le hi with hlt | rfl
    · obtain ⟨⟨before, k₁⟩, hbefore, hrest⟩ := Option.bind_eq_some_iff.mp h
      obtain ⟨⟨node, k₂⟩, -, hpair⟩ := Option.map_eq_some_iff.mp hrest
      obtain ⟨rfl, -⟩ := Prod.mk.inj hpair
      have hcount : before.length = count := by simpa using hlength
      obtain ⟨k'', htake⟩ := ih hbefore hcount (Nat.le_of_lt_succ hlt)
      refine ⟨k'', ?_⟩
      rw [htake, List.take_append_of_le_length (by omega)]
    · rw [List.take_of_length_le (by omega)]
      exact ⟨k', h⟩

theorem AllocatesNodes.nodeAllocation_eq (h : AllocatesNodes k count nodes k') {i : Nat} (hi : i < count) :
    k.nodeAllocation i = nodes.getD i 0 := by
  obtain ⟨k'', htake⟩ := allocateNodes_take h.allocate_eq h.length_eq (Nat.succ_le_of_lt hi)
  have hlength := h.length_eq
  rw [Kernel.nodeAllocation, htake]
  simp [List.getD_eq_getElem?_getD, List.getElem?_take_of_lt]

/-- The nodes are what a mount asks of its allocations. -/
theorem AllocatesNodes.succeed (h : AllocatesNodes k count nodes k') :
    AllocationsSucceed k.nodeAllocation count := by
  have hlength := h.length_eq
  constructor
  · intro i hi hzero
    rw [h.nodeAllocation_eq hi, List.getD_eq_getElem _ _ (by omega)] at hzero
    exact h.ne_zero (hzero ▸ List.getElem_mem _)
  · intro i hi j hj heq
    rw [h.nodeAllocation_eq hi, h.nodeAllocation_eq (by omega), List.getD_eq_getElem _ _ (by omega),
      List.getD_eq_getElem _ _ (by omega)] at heq
    have := (h.nodup.getElem_inj_iff).mp heq
    omega

/-- Other blocks and other nodes do not matter to the ring. -/
theorem Waiting.heapOnly {collectorTask : Nat} {others : List Nat} (h : Waiting k collectorTask others)
    (hheap : HeapOnly k k') (hlive : k.scheduler.live ⊆ k'.scheduler.live) :
    Waiting k' collectorTask others := by
  have hsame := hheap.scheduler_eq
  obtain ⟨⟨⟨⟨hring, hnodup⟩, hheld⟩, hrunning, hpoint, hpending, hgc⟩, hstacks, hother⟩ := h
  have htask : k'.scheduler.task = k.scheduler.task := by rw [hsame]
  have hcurrent : k'.scheduler.currentTask = k.scheduler.currentTask := by rw [hsame]
  refine ⟨⟨⟨⟨?_, ?_⟩, ?_⟩, ?_, ?_, ?_, ?_⟩, ?_, ?_⟩
  · rwa [htask, hcurrent]
  · rwa [hcurrent]
  · intro t ht
    rw [hcurrent] at ht
    exact hlive (hheld t ht)
  · rwa [htask, hcurrent]
  · rw [hsame]
    exact hpoint
  · rw [hsame]
    exact hpending
  · rw [hsame]
    exact hgc
  · intro t ht
    rw [hcurrent] at ht
    rw [htask]
    exact (hstacks t ht).imp_right fun hstack => ⟨hlive hstack.1, hstack.2⟩
  · rw [hsame]
    exact hother

theorem Holds.of_below {m m' : Memory} {base : Nat} {bytes : List UInt8} (h : m.Holds base bytes)
    (hbelow : base + bytes.length ≤ kVMKernelHeapStart)
    (hsame : ∀ x, x < kVMKernelHeapStart → m' x = m x) : m'.Holds base bytes :=
  h.congr fun i hi => hsame _ (by omega)

/-- With room for its nodes, an archive of valid entries is mounted. -/
theorem mountStartupVolume_ok {base fuel : Nat} {entries : List NewcEntry} {trailer : NewcEntry}
    {rest : List UInt8} (h : HasRoom k (room + (entries.length + 1) * blockCost sizeofNode))
    (hvalid : ∀ e ∈ entries, e.Valid) (htrailer : trailer.name = trailerName)
    (hholds : k.scheduler.memory.Holds base (newcArchive entries trailer rest))
    (hbelow : base + (newcArchive entries trailer rest).length ≤ kVMKernelHeapStart)
    (hfuel : entries.length < fuel) :
    ∃ k', k.mountStartupVolume base (newcArchive entries trailer rest).length fuel = some (.ok k') ∧
      HasRoom k' room ∧ KeepsLoader k k' ∧ StartupVolume k' base entries trailer rest ∧
      ∀ collectorTask others, Waiting k collectorTask others → Waiting k' collectorTask others := by
  obtain ⟨nodes, k₁, hnodes, h₁⟩ := h.allocateNodes
  have hend : base + (newcArchive entries trailer rest).length < 2 ^ 64 :=
    lt_of_le_of_lt hbelow (by decide)
  obtain ⟨volume, tail, hmount, hmounted⟩ :=
    fsCPIOMount_mounted hvalid htrailer hholds hend hnodes.succeed hfuel
  have hallocate : k.allocateNodes volume.allocated = some (nodes, k₁) := by
    rw [hmounted.allocated]
    exact hnodes.allocate_eq
  refine ⟨{ k₁ with volume := volume, gFSVirtualFileSystemRoot := k.nodeAllocation 0 }, ?_,
    h₁.congr rfl rfl, ⟨hnodes.vm_eq, hnodes.nextProcessID_eq, hnodes.spaces_eq, hnodes.below⟩, ?_, ?_⟩
  · unfold Kernel.mountStartupVolume
    simp only [hmount, Option.bind_some, hallocate, Option.map_some]
  · exact {
      valid := hvalid
      trailer_name := htrailer
      holds := Holds.of_below hholds hbelow hnodes.below
      below := hbelow
      mounted := ⟨k.nodeAllocation, k.scheduler.memory, fuel, hholds, hnodes.succeed, hfuel, hmount⟩ }
  · intro collectorTask others hwaiting
    obtain ⟨⟨⟨horder, hlive⟩, hrunning, hpoint, hpending, hgc⟩, hstacks, hother⟩ :=
      hwaiting.heapOnly hnodes.toHeapOnly hnodes.live
    exact ⟨⟨⟨horder, hlive⟩, hrunning, hpoint, hpending, hgc⟩, hstacks, hother⟩

/-- The volume is where it was, as long as nothing below the heap changes. -/
theorem startupVolume_keeps {base : Nat} {entries : List NewcEntry} {trailer : NewcEntry}
    {rest : List UInt8} (h : StartupVolume k base entries trailer rest)
    (hbelow : ∀ x, x < kVMKernelHeapStart → k'.scheduler.memory x = k.scheduler.memory x)
    (hvolume : k'.volume = k.volume)
    (hroot : k'.gFSVirtualFileSystemRoot = k.gFSVirtualFileSystemRoot) :
    StartupVolume k' base entries trailer rest := by
  obtain ⟨hvalid, htrailer, hheld, hlow, hmounted⟩ := h
  exact ⟨hvalid, htrailer, Holds.of_below hheld hlow hbelow, hlow, by rwa [hroot, hvolume]⟩

/-- Of no bytes, only the root is mounted. -/
theorem mountStartupVolume_empty {base : Nat} (h : HasRoom k (room + blockCost sizeofNode))
    (hbase : base < 2 ^ 64) (fuel : Nat) :
    ∃ k', k.mountStartupVolume base 0 (fuel + 1) = some (.ok k') ∧ HasRoom k' room ∧
      ∀ collectorTask others, Waiting k collectorTask others → Waiting k' collectorTask others := by
  obtain ⟨nodes, k₁, hnodes, h₁⟩ := @HasRoom.allocateNodes k room 1 (by rwa [Nat.one_mul])
  have hroot : k.nodeAllocation 0 ≠ 0 := hnodes.succeed.1 0 Nat.one_pos
  have hmount : ∃ volume, fsCPIOMount k.nodeAllocation k.scheduler.memory base 0 (fuel + 1) =
      some (.ok (k.nodeAllocation 0, volume)) ∧ volume.allocated = 1 := by
    simp only [fsCPIOMount, FSVolume.allocateNode, if_neg hroot, Nat.add_zero, Nat.mod_eq_of_lt hbase,
      fsCPIOMountLoop, Nat.lt_irrefl, not_false_eq_true, if_true, Option.map_some]
    exact ⟨_, rfl, rfl⟩
  obtain ⟨volume, hmount, hallocated⟩ := hmount
  refine ⟨{ k₁ with volume := volume, gFSVirtualFileSystemRoot := k.nodeAllocation 0 }, ?_,
    h₁.congr rfl rfl, fun collectorTask others hwaiting => ?_⟩
  · unfold Kernel.mountStartupVolume
    simp only [hmount, Option.bind_some, hallocated, hnodes.allocate_eq, Option.map_some]
  · obtain ⟨⟨⟨horder, hlive⟩, hrunning, hpoint, hpending, hgc⟩, hstacks, hother⟩ :=
      hwaiting.heapOnly hnodes.toHeapOnly hnodes.live
    exact ⟨⟨⟨horder, hlive⟩, hrunning, hpoint, hpending, hgc⟩, hstacks, hother⟩

end Volume

/-! ## Section 4: The wait for a key -/

section Wait

variable {k k' : Kernel} {others : List Nat} {collectorTask room : Nat}

/-- A step of the wait stores into one stack at most, and so it loses no room and changes nothing below
the heap. -/
theorem HasRoom.waitStep {y y' : YieldState} {kernelTask : Nat} {action : YieldAction}
    (hwaiting : Waiting k collectorTask others)
    (h : HasRoom { k with scheduler := y.scheduler } room)
    (hidling : k.scheduler.Idling (k.scheduler.currentTask :: others) y.scheduler)
    (hstep : y.WaitStep kernelTask action y') :
    HasRoom { k with scheduler := y'.scheduler } room ∧
      ∀ x, x < kVMKernelHeapStart → y'.scheduler.memory x = y.scheduler.memory x := by
  obtain ⟨hidling', hmemory⟩ := hidling.step hwaiting.order.1 hstep
  have hlive : y.scheduler.live = k.scheduler.live := by rw [hidling.rest]
  have hlive' : y'.scheduler.live = k.scheduler.live := by rw [hidling'.rest]
  rcases hwaiting.stack _ hidling.current_mem with htop | ⟨hheld, htop⟩
  · -- the kernel's own stack is none of the heap's
    rw [htop] at hmemory
    have hsame : y'.scheduler.memory = y.scheduler.memory :=
      funext fun x => hmemory x (by omega)
    exact ⟨h.congr (by simp only [Kernel.heap, hsame]) (hlive'.trans hlive.symm),
      fun x _ => congrFun hsame x⟩
  · rw [htop] at hmemory
    have hheld' : ((k.scheduler.task y.scheduler.currentTask).kernelStackBase, stackSize) ∈
        y.scheduler.live := hlive ▸ hheld
    have hbounds := h.ordered.held_bounds hheld'
    refine ⟨(h.of_write hheld' hmemory).congr rfl (hlive'.trans hlive.symm), fun x hx => ?_⟩
    exact hmemory x (by omega)

/-- While it waits for a key, the kernel keeps its tasks, the room in its heap and what lies below. -/
theorem Waiting.awaitsKey (h : Waiting k collectorTask others) (hroom : HasRoom k room)
    (hwait : k.AwaitsKey k') :
    Behind k' others ∧ HasRoom k' room ∧ KeepsLoader k k' ∧ k'.volume = k.volume ∧
      k'.gFSVirtualFileSystemRoot = k.gFSVirtualFileSystemRoot := by
  obtain ⟨s, ⟨actions, htrace, hcurrent⟩, rfl⟩ := hwait
  have hstart : k.scheduler.Idling (k.scheduler.currentTask :: others) k.scheduler :=
    { rest := rfl
      task_eq := fun _ => rfl
      current_mem := List.mem_cons_self
      alive := fun t ht => by
        rw [Alive, h.running t ht]
        exact OSProcessState.noConfusion
      walks := by
        unfold Collector.Walks
        rw [h.point]
        trivial }
  have hkeep : ∀ (y : YieldState) action y',
      k.scheduler.Idling (k.scheduler.currentTask :: others) y.scheduler ∧
        HasRoom { k with scheduler := y.scheduler } room ∧
        (∀ x, x < kVMKernelHeapStart → y.scheduler.memory x = k.scheduler.memory x) →
      y.WaitStep k.scheduler.currentTask action y' →
      k.scheduler.Idling (k.scheduler.currentTask :: others) y'.scheduler ∧
        HasRoom { k with scheduler := y'.scheduler } room ∧
        (∀ x, x < kVMKernelHeapStart → y'.scheduler.memory x = k.scheduler.memory x) := by
    rintro y action y' ⟨hidling, hroom, hbelow⟩ hstep
    obtain ⟨hroom', hsame⟩ := hroom.waitStep h hidling hstep
    exact ⟨(hidling.step h.order.1 hstep).1, hroom', fun x hx => (hsame x hx).trans (hbelow x hx)⟩
  obtain ⟨hends, hroom', hbelow⟩ := htrace.invariant hkeep ⟨hstart, hroom, fun _ _ => rfl⟩
  have hidling : k.scheduler.Idling (k.scheduler.currentTask :: others) s := hends
  have hlive : s.live = k.scheduler.live := by rw [hidling.rest]
  refine ⟨⟨?_, fun t ht => ?_⟩, hroom', ⟨rfl, rfl, rfl, hbelow⟩, rfl, rfl⟩
  · show TurnOrder s others
    rw [TurnOrder, hidling.successor_eq, hcurrent]
    exact h.order
  · show (t, sizeofTask) ∈ s.live
    rw [hlive]
    exact h.live t (hcurrent ▸ ht)

/-- The blocks of tasks in the ring are different ones. -/
theorem Behind.length_lt {others : List Nat} (h : Behind k others) :
    others.length < k.scheduler.live.length := by
  have hpairs : ((k.scheduler.currentTask :: others).map fun t => (t, sizeofTask)).Nodup :=
    h.order.2.map fun _ _ heq => congrArg Prod.fst heq
  have hsub : ((k.scheduler.currentTask :: others).map fun t => (t, sizeofTask)) ⊆
      k.scheduler.live := by
    intro block hblock
    obtain ⟨t, ht, rfl⟩ := List.mem_map.mp hblock
    exact h.live t ht
  have hlength := (hpairs.subperm hsub).length_le
  rw [List.length_map, List.length_cons] at hlength
  omega

/-- One yield and two timer interrupts are a wait. -/
def Kernel.yieldOnce (k : Kernel) : Kernel :=
  match k.scheduler.yieldOnce with
  | some (.ok s) => { k with scheduler := s }
  | _ => k

theorem Waiting.awaitsKey_yieldOnce {idle : Nat} (h : Waiting k collectorTask [collectorTask, idle]) :
    k.AwaitsKey k.yieldOnce ∧ Rested k.yieldOnce collectorTask [collectorTask, idle] := by
  obtain ⟨s, hyield, hwait, horder, hcurrent, hrunning, hrest⟩ := SchedulerState.awaitsKey_yieldOnce
    h.calls h.order h.toBehind.length_lt (h.running collectorTask (by simp)) (h.running idle (by simp))
  have heq : k.yieldOnce = { k with scheduler := s } := by
    unfold Kernel.yieldOnce
    rw [hyield]
  rw [heq]
  refine ⟨⟨s, hwait, rfl⟩, ⟨horder, ?_⟩, ?_, ?_, ?_, ?_⟩
  · show ∀ t ∈ s.currentTask :: _, (t, sizeofTask) ∈ s.live
    rw [hcurrent, hrest]
    exact h.live
  · show ∀ t ∈ s.currentTask :: _, (s.task t).taskState = .running
    rw [hcurrent]
    exact hrunning
  · rw [hrest]
    exact h.point
  · rw [hrest]
    exact h.pending
  · rw [hrest]
    exact h.collector_eq

end Wait

/-! ## Section 5: The boot -/

/-- What the boot takes from the heap: the kernel's task, three tasks with their stacks, and a node
for each entry and the root. -/
def bootCost (entries : Nat) : Nat :=
  taskCost + (entries + 1) * blockCost sizeofNode + taskCost + taskCost + blockCost sizeofTask

/-- There is room for programs of the volume, and none has been started. -/
structure ReadyForPrograms (vm : VMState) (base : Nat) (entries : List NewcEntry)
    (trailer : NewcEntry) (rest : List UInt8) (room : Nat) (k : Kernel) : Prop where
  vm_eq : k.vm = vm
  nextProcessID_eq : k.gOSSchedulerNextProcessID = 1
  spaces_eq : k.spaces = []
  room : HasRoom k room
  volume : StartupVolume k base entries trailer rest

/-- A kernel that has started: `task` waits to be the first one that is switched to. -/
structure Booted (vm : VMState) (base : Nat) (entries : List NewcEntry) (trailer : NewcEntry)
    (rest : List UInt8) (room entry task : Nat) (k : Kernel) : Prop
    extends ReadyForPrograms vm base entries trailer rest room k where
  behind : ∃ collectorTask idle, Behind k [task, collectorTask, idle]
  running : (k.scheduler.task task).taskState = .running
  frame : irqExit k.scheduler.memory (k.scheduler.task task).stackPointer =
    .start entry (k.scheduler.task task).kernelStackTop false

section Boot

variable {k k' : Kernel} {room task entry owner : Nat}

/-- A kernel task begins on its own stack. -/
theorem irqExit_linkTask (s : SchedulerState) {stackBaseAddress : Nat} (hne : task ≠ s.currentTask) :
    irqExit (s.linkTask task stackBaseAddress entry owner false 0).memory
        ((s.linkTask task stackBaseAddress entry owner false 0).task task).stackPointer =
      .start entry ((s.linkTask task stackBaseAddress entry owner false 0).task task).kernelStackTop
        false := by
  have hrsp : frameSize ≤ stackBaseAddress + stackSize := by
    simp only [frameSize, stackSize]
    omega
  have hframe := irqExit_spawnFrame s.memory hrsp entry (stackBaseAddress + stackSize) false
  have hpointer : (pushWords s.memory (stackBaseAddress + stackSize)
      (spawnFrame entry (stackBaseAddress + stackSize) false)).2 =
        stackBaseAddress + stackSize - frameSize := by
    rw [pushWords_rsp, spawnFrame_length]
    rfl
  simp [SchedulerState.linkTask, SchedulerState.spawnedTask, setTask_ne _ _ hne, hframe, hpointer]

theorem SpawnsTask.frame (h : SpawnsTask k task entry owner false 0 k')
    (hne : task ≠ k.scheduler.currentTask) :
    irqExit k'.scheduler.memory (k'.scheduler.task task).stackPointer =
      .start entry (k'.scheduler.task task).kernelStackTop false := by
  obtain ⟨stackBaseAddress, s, hsame, -, hlinks⟩ := h.links
  have hold : s.currentTask = k.scheduler.currentTask := by rw [hsame]
  rw [hlinks]
  exact irqExit_linkTask s (hold ▸ hne)

theorem afterHeap_hasRoom (image : BootImage) (vm : VMState) {room : Nat}
    (hroom : room ≤ heapArenaSize - sizeofHeader) : HasRoom (image.afterHeap vm) room :=
  ⟨[VMHeap.wholeArena], VMHeap.layout_initialize _, VMHeap.wholeArena, List.mem_cons_self, rfl, hroom⟩

variable {image : BootImage} {m : Machine} {heap : List Nat} {vm : VMState} {c : UInt8} {fuel : Nat}
  {entries : List NewcEntry} {trailer : NewcEntry} {rest : List UInt8}

/-- The boot comes to the question for a key. -/
theorem kmainMounts_waiting (others : OtherTasks) (hmagic : image.magic = bootinfoMagic)
    (hboot : m.bootHeap = some (heap, vm))
    (hsize : image.initramfsSize = (newcArchive entries trailer rest).length)
    (hholds : (memoryView vm vm.kernelPML4).Holds (physToHhdm image.initramfsAddress)
      (newcArchive entries trailer rest))
    (hbelow : physToHhdm image.initramfsAddress + (newcArchive entries trailer rest).length ≤
      kVMKernelHeapStart)
    (hvalid : ∀ e ∈ entries, e.Valid) (htrailer : trailer.name = trailerName)
    (hfuel : entries.length < fuel)
    (hroom : room + bootCost entries.length ≤ heapArenaSize - sizeofHeader) :
    ∃ k collectorTask idle, kmainMounts image others m fuel = some (.ok k) ∧
      ReadyForPrograms vm (physToHhdm image.initramfsAddress) entries trailer rest (room + taskCost) k ∧
      Waiting k collectorTask [collectorTask, idle] := by
  have h₀ : HasRoom (image.afterHeap vm) (room + taskCost +
      (entries.length + 1) * blockCost sizeofNode + taskCost + taskCost + blockCost sizeofTask) := by
    apply afterHeap_hasRoom
    unfold bootCost at hroom
    omega
  obtain ⟨collectorTask, idle, k₁, hstart, h₁, hkeeps₁, hwaiting₁⟩ :=
    osSchedulerInitialize_ok h₀ rfl rfl (fun _ => rfl) others image.idleTask image.garbageCollector
  -- the heap's first header lies above the archive
  have hbelow₀ : ∀ x, x < kVMKernelHeapStart →
      (image.afterHeap vm).scheduler.memory x = memoryView vm vm.kernelPML4 x :=
    fun x hx => VMHeap.initialize_below _ hx
  have hholds₁ : k₁.scheduler.memory.Holds (physToHhdm image.initramfsAddress)
      (newcArchive entries trailer rest) :=
    Holds.of_below (Holds.of_below hholds hbelow hbelow₀) hbelow hkeeps₁.below
  obtain ⟨k₂, hmount, h₂, hkeeps₂, hvolume, hwaiting₂⟩ :=
    mountStartupVolume_ok h₁ hvalid htrailer hholds₁ hbelow hfuel
  have hkeeps := hkeeps₁.trans hkeeps₂
  refine ⟨k₂, collectorTask, idle, ?_, ?_, hwaiting₂ _ _ hwaiting₁⟩
  · unfold kmainMounts
    simp only [hmagic, ne_eq, not_true_eq_false, if_false, hboot, Option.bind_some, hstart, hsize,
      hmount, show fbVirtBase ≠ 0 by decide, Option.map_some]
  · exact ⟨hkeeps.vm_eq, hkeeps.nextProcessID_eq, hkeeps.spaces_eq, h₂, hvolume⟩

/-- The boot comes to its end, and the task that it was asked for is the next one to be switched to. -/
theorem kmain_booted {base : Nat} {others : OtherTasks} {wait : Kernel → Kernel}
    {collectorTask idle : Nat} (hmounts : kmainMounts image others m fuel = some (.ok k))
    (h : ReadyForPrograms vm base entries trailer rest (room + taskCost) k)
    (hwaiting : Waiting k collectorTask [collectorTask, idle])
    (hwait : image.initramfsAddress ≠ 0 → k.AwaitsKey (wait k)) :
    ∃ k' task, kmain image others m wait c fuel = some (.ok k') ∧
      Booted vm base entries trailer rest room
        (if image.initramfsAddress = 0 ∨ c = 'q'.toUInt8 then image.kshEntry else image.initTask)
        task k' ∧
      (Rested (if image.initramfsAddress = 0 then k else wait k) collectorTask [collectorTask, idle] →
        Rested k' collectorTask [task, collectorTask, idle]) := by
  obtain ⟨k₁, hk₁, hbehind, h₁, hkeeps, hvolume, hroot⟩ : ∃ k₁,
      (if image.initramfsAddress = 0 then k else wait k) = k₁ ∧ Behind k₁ [collectorTask, idle] ∧
        HasRoom k₁ (room + taskCost) ∧ KeepsLoader k k₁ ∧ k₁.volume = k.volume ∧
        k₁.gFSVirtualFileSystemRoot = k.gFSVirtualFileSystemRoot := by
    by_cases haddress : image.initramfsAddress = 0
    · exact ⟨k, if_pos haddress, hwaiting.toBehind, h.room, ⟨rfl, rfl, rfl, fun _ _ => rfl⟩, rfl, rfl⟩
    · exact ⟨wait k, if_neg haddress, hwaiting.awaitsKey h.room (hwait haddress)⟩
  generalize hentry : (if image.initramfsAddress = 0 ∨ c = 'q'.toUInt8 then image.kshEntry
    else image.initTask) = entry
  obtain ⟨task, k₂, hspawn, -, h₂, hspawned⟩ := h₁.spawnsTask others entry 0 false 0
  obtain ⟨hbehind', hnew⟩ := hbehind.spawn hspawned.toLinksTask
  have hne : task ≠ k₁.scheduler.currentTask := fun heq => hnew (heq ▸ List.mem_cons_self)
  have hkeeps' := hkeeps.trans hspawned.toKeepsLoader
  refine ⟨k₂, task, ?_, ?_, fun hrested => ?_⟩
  · unfold kmain
    simp only [hmounts, Option.bind_some, hk₁, hentry, hspawn, Option.map_some]
  · exact {
      vm_eq := hkeeps'.vm_eq.trans h.vm_eq
      nextProcessID_eq := hkeeps'.nextProcessID_eq.trans h.nextProcessID_eq
      spaces_eq := hkeeps'.spaces_eq.trans h.spaces_eq
      room := h₂
      volume := startupVolume_keeps h.volume hkeeps'.below (hspawned.volume_eq.trans hvolume)
        (hspawned.root_eq.trans hroot)
      behind := ⟨collectorTask, idle, hbehind'⟩
      running := (hspawned.toLinksTask.task_eq hne).2.2.2.2.1
      frame := hspawned.frame hne }
  · rw [hk₁] at hrested
    exact hrested.spawn hspawned.toLinksTask

/-- The next task runs: the first interrupt switches to it, and changes nothing of its own. -/
theorem Behind.next {others : List Nat} (h : Behind k (task :: others))
    (hrunning : (k.scheduler.task task).taskState = .running) (sp : Nat) :
    ∃ s, k.scheduler.next sp = some (.ok s) ∧ s.currentTask = task ∧
      (s.task task).stackPointer = (k.scheduler.task task).stackPointer ∧
      (s.task task).kernelStackTop = (k.scheduler.task task).kernelStackTop ∧
      s.memory = k.scheduler.memory ∧ s.live = k.scheduler.live := by
  obtain ⟨s, hnext, -, hcurrent, -, hswitched⟩ :=
    @TurnOrder.next _ sp _ _ h.order h.length_lt (.inl hrunning)
  have hlive : s.live = k.scheduler.live := by rw [hswitched.rest]
  have hne : task ≠ k.scheduler.currentTask := by
    rintro rfl
    exact (List.nodup_cons.mp h.order.2).1 List.mem_cons_self
  have hmemory : s.memory = k.scheduler.memory := by rw [hswitched.rest]
  refine ⟨s, hnext, hcurrent, ?_, ?_, hmemory, hlive⟩
  · rw [hswitched.task_eq, if_neg hne]
  · rw [hswitched.task_eq]

/-- The first interrupt switches to it. -/
theorem Booted.next {base : Nat} (h : Booted vm base entries trailer rest room entry task k) (sp : Nat) :
    ∃ s, k.scheduler.next sp = some (.ok s) ∧ s.currentTask = task ∧
      irqExit s.memory (s.task s.currentTask).stackPointer =
        .start entry (s.task s.currentTask).kernelStackTop false ∧
      ReadyForPrograms vm base entries trailer rest room { k with scheduler := s } := by
  obtain ⟨collectorTask, idle, hbehind⟩ := h.behind
  obtain ⟨s, hnext, hcurrent, hpointer, htop, hmemory, hlive⟩ := hbehind.next h.running sp
  refine ⟨s, hnext, hcurrent, ?_, ?_⟩
  · rw [hcurrent, hmemory, hpointer, htop]
    exact h.frame
  · exact {
      vm_eq := h.vm_eq
      nextProcessID_eq := h.nextProcessID_eq
      spaces_eq := h.spaces_eq
      room := h.room.congr (by simp only [Kernel.heap, hmemory]) hlive
      volume := startupVolume_keeps h.volume (fun x _ => congrFun hmemory x) rfl rfl }

/-- Without a volume no key is asked for, and the first interrupt switches to the rescue shell. -/
theorem boot_without_volume (image : BootImage) (others : OtherTasks) (hmagic : image.magic = bootinfoMagic)
    (hboot : m.bootHeap = some (heap, vm)) (haddress : image.initramfsAddress = 0)
    (hsize : image.initramfsSize = 0) (wait : Kernel → Kernel) (c : UInt8) (fuel sp : Nat) :
    ∃ k s, kmain image others m wait c (fuel + 1) = some (.ok k) ∧ k.scheduler.next sp = some (.ok s) ∧
      irqExit s.memory (s.task s.currentTask).stackPointer =
        .start image.kshEntry (s.task s.currentTask).kernelStackTop false := by
  have h₀ : HasRoom (image.afterHeap vm) (taskCost + blockCost sizeofNode + taskCost + taskCost +
      blockCost sizeofTask) := afterHeap_hasRoom image vm (by decide)
  obtain ⟨collectorTask, idle, k₁, hstart, h₁, -, hwaiting₁⟩ :=
    osSchedulerInitialize_ok h₀ rfl rfl (fun _ => rfl) others image.idleTask image.garbageCollector
  obtain ⟨k₂, hmount, h₂, hwaiting₂⟩ :=
    mountStartupVolume_empty h₁ (show physToHhdm 0 < 2 ^ 64 by decide) fuel
  have hroom : HasRoom k₂ (0 + taskCost) := by rwa [Nat.zero_add]
  obtain ⟨task, k₃, hspawn, -, -, hspawned⟩ := hroom.spawnsTask others image.kshEntry 0 false 0
  obtain ⟨hbehind, hnew⟩ := (hwaiting₂ _ _ hwaiting₁).toBehind.spawn hspawned.toLinksTask
  have hne : task ≠ k₂.scheduler.currentTask := fun heq => hnew (heq ▸ List.mem_cons_self)
  obtain ⟨s, hnext, hcurrent, hpointer, htop, hmemory, -⟩ :=
    hbehind.next (hspawned.toLinksTask.task_eq hne).2.2.2.2.1 sp
  refine ⟨k₃, s, ?_, hnext, ?_⟩
  · unfold kmain kmainMounts
    simp only [hmagic, ne_eq, not_true_eq_false, if_false, hboot, Option.bind_some, hstart, haddress,
      hsize, hmount, show fbVirtBase ≠ 0 by decide, Option.map_some, if_true, true_or, hspawn]
  · rw [hcurrent, hmemory, hpointer, htop]
    exact hspawned.frame hne

end Boot

/-! ## Section 6: The first program -/

/-- What a boot needs for the first program: the machine starts, the startup volume is in memory of its
own, and its first file of the program's name is what the converter made of `elf`. -/
structure BootsElf (image : BootImage) (m : Machine) (vm : VMState) (elf : Elf) (buffer : ByteVec)
    (before after : List NewcEntry) (first trailer : NewcEntry) (rest : List UInt8) : Prop where
  accepted : m.Accepted
  fits : m.FitsDirectMap
  heap : ∃ heap, m.bootHeap = some (heap, vm)
  magic : image.magic = bootinfoMagic
  size : image.initramfsSize = (newcArchive (before ++ first :: after) trailer rest).length
  loads : LoadsVolume m image.initramfsAddress (newcArchive (before ++ first :: after) trailer rest)
  valid : ∀ e ∈ before ++ first :: after, e.Valid
  trailer_name : trailer.name = trailerName
  name_eq : initPath = '/'.toUInt8 :: first.name
  name_first : ∀ other ∈ before, other.name ≠ first.name
  loadable : elf.Loadable buffer
  entry_ne : elf.entry ≠ 0
  room : (taskCost + blockCost first.content.length + blockCost sizeofProcess) +
    bootCost (before ++ first :: after).length ≤ heapArenaSize - sizeofHeader
  frames : framesNeeded (vmVirtualMemoryCreateAddressSpace vm).2
    (vmVirtualMemoryCreateAddressSpace vm).1 (elf.pages ++ userStackPages) ≤
      (vmVirtualMemoryCreateAddressSpace vm).2.pmm.freeCount

/-- The kernel sees the volume where it looks for it. -/
theorem BootsElf.holds {image : BootImage} {m : Machine} {vm : VMState} {elf : Elf} {buffer : ByteVec}
    {before after : List NewcEntry} {first trailer : NewcEntry} {rest : List UInt8}
    (h : BootsElf image m vm elf buffer before after first trailer rest) :
    (memoryView vm vm.kernelPML4).Holds (physToHhdm image.initramfsAddress)
      (newcArchive (before ++ first :: after) trailer rest) := by
  obtain ⟨heap, hboot⟩ := h.heap
  obtain ⟨-, pmm, -, hpmm, -⟩ := physicalMemoryInitialize_eq_some h.accepted.map
  exact (keepsForeign_boot h.accepted h.fits hboot hpmm).holds h.accepted h.fits hpmm h.loads.holds
    h.loads.foreign List.mem_cons_self

/-- Once the kernel is ready, the first task starts the program. -/
theorem ReadyForPrograms.initTaskEntry {image : BootImage} {m : Machine} {vm : VMState} {elf : Elf}
    {buffer : ByteVec} {before after : List NewcEntry} {first trailer : NewcEntry} {rest : List UInt8}
    {base : Nat} {k : Kernel} (h : BootsElf image m vm elf buffer before after first trailer rest)
    (hready : ReadyForPrograms vm base (before ++ first :: after) trailer rest
      (taskCost + blockCost first.content.length + blockCost sizeofProcess) k)
    {parse : ByteVec → Option Elf} (hparse : parse buffer = some elf)
    (hcontent : elf2hot parse buffer = some first.content) (others : OtherTasks) :
    ∃ r, k.initTaskEntry others = some (.ok r) ∧ RunsElf elf buffer 1 r ∧
      k.osLoaderProcessSpawn others initPath ("init".toList.map Char.toUInt8) = some (.ok r) ∧ ∃ entry,
        LinksTask k.scheduler r.kernel.scheduler r.task entry r.newProcess true kOSUserStackTop := by
  obtain ⟨heap, hboot⟩ := h.heap
  have hconsistent : ∃ role, Consistent k.spaces role k.vm := by
    rw [hready.spaces_eq, hready.vm_eq]
    exact (kernelIsolated_of_bootHeap h.accepted hboot).1
  obtain ⟨r, hspawn, hruns, hlinks⟩ := spawn_runsElf parse buffer elf hparse h.loadable h.entry_ne others k
    hconsistent hready.volume rfl h.name_first hcontent hready.room (by rw [hready.vm_eq]; exact h.frames)
    ("init".toList.map Char.toUInt8)
  rw [hready.nextProcessID_eq] at hruns
  rw [← h.name_eq] at hspawn
  refine ⟨r, ?_, hruns, hspawn, hlinks⟩
  -- the number of the first process is no error
  have hstatus : ¬ r.status < 0 := by
    rw [hruns.status_eq]
    decide
  rw [Kernel.initTaskEntry, hspawn, Option.map_some]
  simp only [hstatus, if_false]

/-- The kernel comes to the question for a key, with room for all that follows. -/
theorem BootsElf.mounts {image : BootImage} {m : Machine} {vm : VMState} {elf : Elf} {buffer : ByteVec}
    {before after : List NewcEntry} {first trailer : NewcEntry} {rest : List UInt8}
    (h : BootsElf image m vm elf buffer before after first trailer rest) (others : OtherTasks) {fuel : Nat}
    (hfuel : (before ++ first :: after).length < fuel) :
    ∃ k collectorTask idle, kmainMounts image others m fuel = some (.ok k) ∧
      ReadyForPrograms vm (physToHhdm image.initramfsAddress) (before ++ first :: after) trailer rest
        (taskCost + blockCost first.content.length + blockCost sizeofProcess + taskCost) k ∧
      Waiting k collectorTask [collectorTask, idle] := by
  obtain ⟨heap, hboot⟩ := h.heap
  exact kmainMounts_waiting others h.magic hboot h.size h.holds
    (h.loads.below h.fits (newcArchive_ne_nil _ trailer rest)) h.valid h.trailer_name hfuel h.room

/-- From power-on to the first program. Whatever happens while `kmain` waits for a key, and whatever the
key is, `kmain` comes to its end, and the first timer interrupt after it has started a task switches to
that task, the rescue shell when it was asked for and else the first task; that one then starts the
program that the archive holds under the first program's name, and the process shows the image of the
ELF file. -/
theorem boot_runs_init (image : BootImage) (m : Machine) (vm : VMState) (elf : Elf) (buffer : ByteVec)
    (before after : List NewcEntry) (first trailer : NewcEntry) (rest : List UInt8)
    (h : BootsElf image m vm elf buffer before after first trailer rest)
    (parse : ByteVec → Option Elf) (hparse : parse buffer = some elf)
    (hcontent : elf2hot parse buffer = some first.content) (others : OtherTasks) {fuel : Nat}
    (hfuel : (before ++ first :: after).length < fuel) (wait : Kernel → Kernel)
    (hwait : image.initramfsAddress ≠ 0 →
      ∀ k, kmainMounts image others m fuel = some (.ok k) → k.AwaitsKey (wait k))
    (c : UInt8) (sp : Nat) :
    ∃ k s, kmain image others m wait c fuel = some (.ok k) ∧ k.scheduler.next sp = some (.ok s) ∧
      irqExit s.memory (s.task s.currentTask).stackPointer =
        .start (if image.initramfsAddress = 0 ∨ c = 'q'.toUInt8 then image.kshEntry else image.initTask)
          (s.task s.currentTask).kernelStackTop false ∧
      (¬ (image.initramfsAddress = 0 ∨ c = 'q'.toUInt8) →
        ∃ r, { k with scheduler := s }.initTaskEntry others = some (.ok r) ∧
          RunsElf elf buffer 1 r) := by
  obtain ⟨k₀, collectorTask, idle, hmounts, hready, hwaiting⟩ := h.mounts others hfuel
  obtain ⟨k, task, hmain, hbooted, -⟩ := kmain_booted (c := c) hmounts hready hwaiting
    fun haddress => hwait haddress k₀ hmounts
  obtain ⟨s, hnext, -, hstart, hready⟩ := hbooted.next sp
  refine ⟨k, s, hmain, hnext, hstart, fun _ => ?_⟩
  obtain ⟨r, hentry, hruns, -⟩ := hready.initTaskEntry h hparse hcontent others
  exact ⟨r, hentry, hruns⟩

/-- The small program under the name that the kernel looks for. -/
def initEntry : NewcEntry :=
  plainEntry ("System/CoreServices/init".toList.map Char.toUInt8) (smallElf.hotFile smallBuffer) 1 0x81ED

/-- The small program's archive. -/
def initArchive : List UInt8 := newcArchive [initEntry] (plainEntry trailerName [] 0 0) []

/-- A kernel image, and the archive one page above the start of memory. -/
def smallBoot : BootImage where
  sOSSchedulerKernelProcess := 0xFFFFFFFF80104000
  bootStackTop := 0xFFFFFFFF80110000
  idleTask := 0xFFFFFFFF80101000
  garbageCollector := 0xFFFFFFFF80101100
  initTask := 0xFFFFFFFF80101200
  kshEntry := 0xFFFFFFFF80101300
  magic := bootinfoMagic
  initramfsAddress := 0x1000
  initramfsSize := initArchive.length

/-- The machine with that archive. -/
def initMachine : Machine := volumeMachine fun x => Memory.zeroPadded initArchive (x - 0x1000)

theorem bootsElf_smallBoot {heap : List Nat} {vm : VMState} (hboot : initMachine.bootHeap = some (heap, vm))
    (hcount : 600 ≤ vm.pmm.freeCount) :
    BootsElf smallBoot initMachine vm smallElf smallBuffer [] [] initEntry
      (plainEntry trailerName [] 0 0) [] := by
  have harchive : newcArchive ([] ++ initEntry :: []) (plainEntry trailerName [] 0 0) [] = initArchive := by
    rw [List.nil_append, initArchive]
  have hlength : initArchive.length ≤ 4096 := by decide +kernel
  have hloads : LoadsVolume initMachine 0x1000 initArchive :=
    volumeMachine_loads (Memory.holds_zeroPadded 0x1000 initArchive) (by omega)
  have haccepted : initMachine.Accepted := volumeMachine_accepted _
  refine {
    accepted := haccepted
    fits := volumeMachine_fits _
    heap := ⟨heap, hboot⟩
    magic := rfl
    size := rfl
    loads := by rw [harchive]; exact hloads
    valid := ?_
    trailer_name := rfl
    name_eq := rfl
    name_first := by simp
    loadable := smallElf_loadable
    entry_ne := by decide
    room := by decide +kernel
    frames := ?_ }
  · intro e he
    obtain rfl : e = initEntry := by simpa using he
    exact ⟨by decide, by decide, by decide, by decide, by decide +kernel⟩
  · obtain ⟨pml4, s, hcreated, -, -, -, hfree⟩ :=
      (kernelIsolated_of_bootHeap haccepted hboot).createAddressSpace (by omega)
    have hpages : smallElf.pages = [0x400000, 0x402000] := by decide +kernel
    have hle := framesNeeded_le s pml4 (smallElf.pages ++ userStackPages)
    rw [hcreated]
    rw [hpages, userStackPages_eq] at hle ⊢
    simp only [List.length_append, List.length_cons, List.length_nil] at hle
    simp only
    omega

theorem boot_runs_init_small : ∃ k s r,
    kmain smallBoot noOtherTasks initMachine Kernel.yieldOnce 'x'.toUInt8 2 = some (.ok k) ∧
      k.scheduler.next 0 = some (.ok s) ∧
      { k with scheduler := s }.initTaskEntry noOtherTasks = some (.ok r) ∧
      StartsAt r.kernel.scheduler r.task 0x400FFE r.newProcess ∧
      userByte r.kernel.vm (r.kernel.process r.newProcess).physicalPML4 0x402010 = some 0x2A := by
  obtain ⟨heap, vm, hboot, hcount⟩ :=
    volumeMachine_bootHeap fun x => Memory.zeroPadded initArchive (x - 0x1000)
  have hboots := bootsElf_smallBoot hboot hcount
  have hfuel : ([] ++ initEntry :: []).length < 2 := by decide
  have hcontent : elf2hot (fun _ => some smallElf) smallBuffer = some initEntry.content :=
    elf2hot_eq_some rfl smallElf_loadable.inBounds
  have hwait : ∀ k, kmainMounts smallBoot noOtherTasks initMachine 2 = some (.ok k) →
      k.AwaitsKey k.yieldOnce := by
    intro k hmounts
    obtain ⟨k', collectorTask, idle, hmounts', -, hwaiting⟩ := hboots.mounts noOtherTasks hfuel
    obtain rfl := Except.ok.inj (Option.some.inj (hmounts.symm.trans hmounts'))
    exact hwaiting.awaitsKey_yieldOnce.1
  obtain ⟨k, s, hmain, hnext, -, hinit⟩ := boot_runs_init smallBoot initMachine vm smallElf smallBuffer
    [] [] initEntry (plainEntry trailerName [] 0 0) [] hboots (fun _ => some smallElf) rfl hcontent
    noOtherTasks hfuel Kernel.yieldOnce (fun _ => hwait) 'x'.toUInt8 0
  obtain ⟨r, hspawn, hruns⟩ := hinit (by decide)
  refine ⟨k, s, r, hmain, hnext, hspawn, hruns.starts, ?_⟩
  rw [hruns.image 0x402010 (by decide) (by simp only [InUserStack]; decide)]
  decide +kernel

end TermOS.OS
