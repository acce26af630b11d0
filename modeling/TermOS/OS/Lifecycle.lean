import Mathlib.Logic.Relation
import TermOS.OS.SchedulerRun
import TermOS.OS.SpawnFailure

/-!
# The life of a process

A process is started by the loader, gets memory, terminates by itself or by a
fault, and is freed by the garbage collector. The collector frees its task and
its kernel stack. No part of the kernel frees a frame, so the frames of the
process are lost with it.

## Main Theorem

* `Lifecycle.loses_frame` - a frame of the process that was free is in use for good
-/

namespace TermOS.OS

open TermOS.Lib TermOS.Kernel TermOS.VM TermOS.FS VMState

/-! ## Section 1: Steps of the kernel -/

/-- The actions of the scheduler that allocate and free nothing. -/
def SchedulerAction.Switches : SchedulerAction → Prop
  | .tick _ | .block _ _ | .wakeup _ | .yieldTask _ _ | .terminate _ | .fault _ => True
  | _ => False

namespace Kernel

variable (k : Kernel)

/-- `OSServiceMemoryAllocate` for the process of the current task. -/
def memoryAllocate (size : Nat) : Kernel :=
  let process := (k.scheduler.task k.scheduler.currentTask).process
  let result := osServiceMemoryAllocate k.vm (k.process process).toOSProcess size
  { k with
    vm := result.2.1
    process := Function.update k.process process
      { k.process process with toOSProcess := result.2.2 } }

/-- The effect of the collector's next statement on the heap. -/
def collectHeap : Kernel :=
  let nextTask := k.scheduler.collector.nextTask
  match k.scheduler.collector.point with
  | .freeStack =>
    if (k.scheduler.task nextTask).kernelStackBase ≠ 0 then
      k.setHeap (k.heap.vmHeapFree (k.scheduler.task nextTask).kernelStackBase)
    else k
  | .freeTask => k.setHeap (k.heap.vmHeapFree nextTask)
  | _ => k

/-- The next statement of `OSSchedulerGarbageCollector`. -/
def collect (sp : Nat) : Option (Except SchedulerPanic Kernel) :=
  (k.collectHeap.scheduler.collect sp).map fun result =>
    result.map fun scheduler => { k.collectHeap with scheduler := scheduler }

end Kernel

/-- One step of the kernel, by whichever task is the current one. -/
inductive KernelStep (others : OtherTasks) : Kernel → Kernel → Prop
  /-- `OSServiceMemoryAllocate` -/
  | memoryAllocate (k : Kernel) (size : Nat) : KernelStep others k (k.memoryAllocate size)
  /-- `OSServiceProcessSpawn` -/
  | processSpawn {k : Kernel} {executablePath processName : List UInt8} {r : SpawnResult} :
      k.osLoaderProcessSpawn others executablePath processName = some (.ok r) →
      KernelStep others k r.kernel
  /-- A timer interrupt or another service. -/
  | schedule {k : Kernel} {action : SchedulerAction} {scheduler : SchedulerState} :
      action.Switches → k.scheduler.Step action scheduler →
      KernelStep others k { k with scheduler := scheduler }
  /-- A statement of the collector. -/
  | collect {k k' : Kernel} (sp : Nat) : k.scheduler.currentTask = k.scheduler.garbageCollectorTask →
      k.collect sp = some (.ok k') → KernelStep others k k'

/-- The current task exits or faults. -/
def Terminates (k k' : Kernel) : Prop :=
  ∃ sp scheduler, k' = { k with scheduler := scheduler } ∧
    (k.scheduler.Step (.terminate sp) scheduler ∨ k.scheduler.Step (.fault sp) scheduler)

/-- A process is started in `k`, takes its steps, terminates, and has been freed by the
collector in `k'`. -/
structure Lifecycle (others : OtherTasks) (executablePath processName : List UInt8)
    (k k' : Kernel) : Prop where
  exists_run : ∃ r k₁ k₂,
    k.osLoaderProcessSpawn others executablePath processName = some (.ok r) ∧ r.task ≠ 0 ∧
    Relation.ReflTransGen (KernelStep others) r.kernel k₁ ∧
    k₁.scheduler.currentTask = r.task ∧ Terminates k₁ k₂ ∧
    Relation.ReflTransGen (KernelStep others) k₂ k' ∧ r.task ∉ k'.scheduler.linked

/-- The free frames and the blocks in use are the same. -/
structure ResourceNeutral (k k' : Kernel) : Prop where
  frames : ∀ f, k'.vm.pmm.FrameFree f ↔ k.vm.pmm.FrameFree f
  blocks : ∀ block, block ∈ k'.scheduler.live ↔ block ∈ k.scheduler.live

/-! ## Section 2: Frames stay in use -/

section Frames

variable {k k' : Kernel} {others : OtherTasks} {executablePath processName : List UInt8}
  {r : SpawnResult}

/-- The loader frees no frame, whatever it returns. -/
theorem osLoaderProcessSpawn_keeps
    (hresult : k.osLoaderProcessSpawn others executablePath processName = some (.ok r)) :
    Keeps k.vm r.kernel.vm := by
  -- By what the loader came to; each part that it has run frees no frame.
  rcases osLoaderProcessSpawn_cases hresult with ⟨-, heq⟩ | ⟨_, k₀, -, -, halloc, heq⟩ |
    ⟨file, newProcess, k₁, hcreate, hspawn⟩
  · obtain rfl := Except.ok.inj heq
    exact Keeps.refl _
  · obtain rfl := Except.ok.inj heq
    rw [show k₀.vm = k.vm from (heapOnly_allocate halloc).vm_eq]
    exact Keeps.refl _
  have hcreated := keeps_createAddressSpace k.vm
  rcases spawnFile_cases hspawn with ⟨k₀, halloc, heq⟩ | ⟨imageBuffer, k₂, hread, hspawn⟩
  · obtain rfl := Except.ok.inj heq
    rw [heapFree_vm, (heapOnly_allocate halloc).vm_eq, hcreate.vm_eq.1]
    exact hcreated
  have hloaded : Keeps k.vm ((k₂.loadImage newProcess imageBuffer).2.heapFree imageBuffer).vm := by
    rw [(hcreate.loaded hread).vm_eq]
    exact hcreated.trans (keeps_hotLoad _ _ _)
  rcases spawnImage_cases hspawn with ⟨-, heq⟩ | ⟨-, hspawn⟩
  · obtain rfl := Except.ok.inj heq
    rw [heapFree_vm]
    exact hloaded
  rcases startProcess_cases hspawn with ⟨-, heq⟩ | ⟨-, task, k₄, htask, hcases⟩
  · exact absurd heq (by simp)
  -- Other tasks may run while `OSSchedulerSpawn` waits for a stack.
  have hmeanwhile := osSchedulerSpawn_meanwhile hcreate.newProcess_ne htask
  have hstarted : Keeps k.vm k₄.vm :=
    (hloaded.trans (keeps_setupUserStack _ _)).trans hmeanwhile.calls.keeps
  rcases hcases with ⟨-, heq⟩ | ⟨-, heq⟩
  · obtain rfl := Except.ok.inj heq
    rw [heapFree_vm]
    exact hstarted
  · obtain rfl := Except.ok.inj heq
    exact hstarted

/-- The collector frees blocks of the heap only. -/
theorem collectHeap_vm (k : Kernel) : k.collectHeap.vm = k.vm := by
  unfold Kernel.collectHeap
  dsimp only
  split
  · split
    · rfl
    · rfl
  · rfl
  · rfl

/-- No step frees a frame. -/
theorem KernelStep.keeps (h : KernelStep others k k') : Keeps k.vm k'.vm := by
  cases h with
  | memoryAllocate size => exact keeps_memoryAllocate _ _ _
  | processSpawn hresult => exact osLoaderProcessSpawn_keeps hresult
  | schedule _ _ => exact Keeps.refl _
  | collect sp _ hcollect =>
    obtain ⟨result, -, heq⟩ := Option.map_eq_some_iff.mp hcollect
    cases result with
    | error panic => exact absurd heq (by simp [Except.map])
    | ok scheduler =>
      obtain rfl := Except.ok.inj heq
      rw [show ({ k.collectHeap with scheduler := scheduler } : Kernel).vm = k.vm from
        collectHeap_vm k]
      exact Keeps.refl _

/-- So no run does. -/
theorem keeps_of_run (h : Relation.ReflTransGen (KernelStep others) k k') : Keeps k.vm k'.vm := by
  induction h with
  | refl => exact Keeps.refl _
  | tail _ hstep ih => exact ih.trans hstep.keeps

/-- The frame of the page table is not free any more when the process is started. -/
theorem started_takes
    (hresult : k.osLoaderProcessSpawn others executablePath processName = some (.ok r))
    (hstarted : r.task ≠ 0) :
    ∃ f, k.vm.pmm.FrameFree f ∧ ¬ r.kernel.vm.pmm.FrameFree f := by
  obtain ⟨file, k₁, imageBuffer, k₂, hcreate, hread, hstack, hmeanwhile⟩ :=
    exists_points_of_started hresult hstarted
  have hloaded := hcreate.loaded hread
  have hkeeps : Keeps (vmVirtualMemoryCreateAddressSpace k.vm).2
      ((k₂.loadImage r.newProcess imageBuffer).2.heapFree imageBuffer).vm := by
    rw [hloaded.vm_eq]
    exact keeps_hotLoad _ _ _
  by_cases hfull : k.vm.pmm.freeCount = 0
  · -- the stack would not have been set up
    have hempty := full_of_keeps ((keeps_createAddressSpace k.vm).trans hkeeps) hfull
    rw [setupUserStack_fails hempty] at hstack
    exact absurd hstack (by simp)
  · obtain ⟨f, hfree, htaken⟩ := createAddressSpace_takes hfull
    have hlater : Keeps (vmVirtualMemoryCreateAddressSpace k.vm).2 r.kernel.vm :=
      (hkeeps.trans (keeps_setupUserStack _ _)).trans hmeanwhile.calls.keeps
    exact ⟨f, hfree, fun hf => htaken (hlater.free_of_free hf)⟩

/-- Its frame is lost. -/
theorem Lifecycle.loses_frame (h : Lifecycle others executablePath processName k k') :
    ∃ f, k.vm.pmm.FrameFree f ∧ ¬ k'.vm.pmm.FrameFree f := by
  obtain ⟨r, k₁, k₂, hresult, hstarted, hrun, -, hterminates, hrest, -⟩ := h.exists_run
  obtain ⟨f, hfree, htaken⟩ := started_takes hresult hstarted
  obtain ⟨sp, scheduler, rfl, -⟩ := hterminates
  have hafter := keeps_of_run hrest
  have hkeeps := (keeps_of_run hrun).trans hafter
  exact ⟨f, hfree, fun hf => htaken (hkeeps.free_of_free hf)⟩

end Frames

end TermOS.OS
