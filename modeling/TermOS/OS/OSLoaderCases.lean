import TermOS.Kernel.HeapClients
import TermOS.OS.OtherTasks

/-!
# The ways through the loader

The points that `OSLoaderProcessSpawn` comes to, and what it has done by then.
Until a task is linked in, the loader changes memory and the heap only.
-/

namespace TermOS.OS

open TermOS.Lib TermOS.Kernel TermOS.VM TermOS.FS VMState

/-! ## Section 1: The heap -/

/-- Only the heap is different. -/
structure HeapOnly (k k' : Kernel) : Prop where
  vm_eq : k'.vm = k.vm
  volume_eq : k'.volume = k.volume
  process_eq : k'.process = k.process
  nextProcessID_eq : k'.gOSSchedulerNextProcessID = k.gOSSchedulerNextProcessID
  spaces_eq : k'.spaces = k.spaces
  scheduler_eq : k'.scheduler = { k.scheduler with
    live := k'.scheduler.live
    freed := k'.scheduler.freed
    memory := k'.scheduler.memory }

/-- The invariant of the heap: its blocks are in order, and those that were
handed out and not freed are in use. -/
def HeapOrdered (k : Kernel) : Prop := ∃ bs, k.heap.Layout bs k.scheduler.live

/-- The states in which a program is started. -/
structure LoaderReady (k : Kernel) : Prop where
  consistent : ∃ role, Consistent k.spaces role k.vm
  heap : HeapOrdered k

section Heap

variable {k k' k'' : Kernel} {size pointer : Nat}

theorem HeapOnly.task_eq (h : HeapOnly k k') : k'.scheduler.task = k.scheduler.task := by
  rw [h.scheduler_eq]

theorem HeapOnly.linked_eq (h : HeapOnly k k') : k'.scheduler.linked = k.scheduler.linked := by
  rw [h.scheduler_eq]

theorem HeapOnly.currentTask_eq (h : HeapOnly k k') :
    k'.scheduler.currentTask = k.scheduler.currentTask := by
  rw [h.scheduler_eq]

theorem HeapOnly.trans (h : HeapOnly k k') (h' : HeapOnly k' k'') : HeapOnly k k'' where
  vm_eq := h'.vm_eq.trans h.vm_eq
  volume_eq := h'.volume_eq.trans h.volume_eq
  process_eq := h'.process_eq.trans h.process_eq
  nextProcessID_eq := h'.nextProcessID_eq.trans h.nextProcessID_eq
  spaces_eq := h'.spaces_eq.trans h.spaces_eq
  scheduler_eq := h'.scheduler_eq.trans (congrArg (fun s : SchedulerState => { s with
    live := k''.scheduler.live
    freed := k''.scheduler.freed
    memory := k''.scheduler.memory }) h.scheduler_eq)

theorem heapOnly_allocate (h : k.heapAllocate size = some (pointer, k')) : HeapOnly k k' := by
  obtain ⟨⟨address, heap⟩, -, heq⟩ := Option.map_eq_some_iff.mp h
  simp only at heq
  split at heq
  · obtain ⟨-, rfl⟩ := Prod.mk.inj heq
    exact ⟨rfl, rfl, rfl, rfl, rfl, rfl⟩
  · obtain ⟨-, rfl⟩ := Prod.mk.inj heq
    exact ⟨rfl, rfl, rfl, rfl, rfl, rfl⟩

theorem heapOnly_free (k : Kernel) (pointer : Nat) : HeapOnly k (k.heapFree pointer) :=
  ⟨rfl, rfl, rfl, rfl, rfl, rfl⟩

theorem heapOnly_readImage (k : Kernel) (executableFile imageBuffer : Nat) :
    HeapOnly k (k.readImage executableFile imageBuffer) :=
  ⟨rfl, rfl, rfl, rfl, rfl, rfl⟩

/-- An allocation finds no room, or hands out a block that was not in use. -/
theorem HeapOrdered.allocate (h : HeapOrdered k) (hsize : size + 15 < 2 ^ 64) :
    k.heapAllocate size = some (0, k) ∨
    ∃ pointer k', k.heapAllocate size = some (pointer, k') ∧ pointer ≠ 0 ∧ HeapOrdered k' ∧
      k'.scheduler.live = (pointer, size) :: k.scheduler.live ∧
      (∀ block ∈ k.scheduler.live, block.1 ≠ pointer) := by
  obtain ⟨bs, h⟩ := h
  rcases h.allocateInternal hsize with hnone | ⟨pointer, heap', bs', hsome, halloc⟩
  · left
    rw [Kernel.heapAllocate, VMHeap.vmHeapAllocate, hnone]
    rfl
  · right
    let k' : Kernel := { k.setHeap heap' with
      scheduler := (k.setHeap heap').scheduler.heapAllocate pointer size }
    refine ⟨pointer, k', ?_, halloc.pointer_ne, ⟨bs', halloc.layout⟩, rfl, ?_⟩
    · rw [Kernel.heapAllocate, VMHeap.vmHeapAllocate, hsome, Option.map_some]
      simp only [if_neg halloc.pointer_ne, k']
    · -- what is held is a block in use
      intro block hblock heq
      obtain ⟨b, hb, hused, haddress, -⟩ := h.held block.1 block.2 hblock
      exact halloc.fresh b hb hused (heq.symm.trans haddress)

/-- Freeing what is held. -/
theorem HeapOrdered.free (h : HeapOrdered k) (hheld : Held k.scheduler.live pointer) :
    HeapOrdered (k.heapFree pointer) := by
  obtain ⟨bs, h⟩ := h
  obtain ⟨⟨bs', h'⟩, -⟩ := HeapLayout.free_held adjacency_eq h hheld
  exact ⟨bs', h'⟩

theorem heapFree_live (k : Kernel) (pointer : Nat) :
    (k.heapFree pointer).scheduler.live =
      k.scheduler.live.filter fun block => block.1 ≠ pointer := rfl

/-- A block that is freed right after others were freed leaves what was there before. -/
theorem filter_fresh {live : List (Nat × Nat)} (hfresh : ∀ block ∈ live, block.1 ≠ pointer) :
    ((pointer, size) :: live).filter (fun block => block.1 ≠ pointer) = live := by
  rw [List.filter_cons_of_neg (by simp)]
  apply List.filter_eq_self.mpr
  intro block hblock
  simpa using hfresh block hblock

/-- Nothing below the heap is written. -/
theorem HeapOrdered.allocate_below (h : HeapOrdered k)
    (hsome : k.heapAllocate size = some (pointer, k')) {x : Nat} (hx : x < kVMKernelHeapStart) :
    k'.scheduler.memory x = k.scheduler.memory x := by
  obtain ⟨bs, h⟩ := h
  obtain ⟨⟨address, heap⟩, halloc, heq⟩ := Option.map_eq_some_iff.mp hsome
  have hbelow : heap.memory x = k.scheduler.memory x := h.allocate_below halloc hx
  simp only at heq
  split at heq
  · obtain ⟨-, rfl⟩ := Prod.mk.inj heq
    exact hbelow
  · obtain ⟨-, rfl⟩ := Prod.mk.inj heq
    exact hbelow

end Heap

/-! ## Section 2: The points of the loader -/

/-- The file is open and has a process, in the kernel `k₁`. -/
structure CreatesProcess (k : Kernel) (executablePath processName : List UInt8)
    (executableFile newProcess : Nat) (k₁ : Kernel) : Prop where
  openPath_eq : k.openPath executablePath = some executableFile
  executableFile_ne : executableFile ≠ 0
  newProcess_ne : newProcess ≠ 0
  exists_allocated : ∃ k₀, k.heapAllocate sizeofProcess = some (newProcess, k₀) ∧
    k₁ = k₀.createProcess newProcess processName

/-- The file is in `imageBuffer`, in the kernel `k₂`. -/
structure ReadsImage (k₁ : Kernel) (executableFile imageBuffer : Nat) (k₂ : Kernel) : Prop where
  imageBuffer_ne : imageBuffer ≠ 0
  exists_allocated : ∃ k₀, k₁.heapAllocate (k₁.volume.node executableFile).dataLength =
      some (imageBuffer, k₀) ∧ k₂ = k₀.readImage executableFile imageBuffer

section Points

variable {k k₁ k₂ k₃ : Kernel} {others : OtherTasks} {executablePath processName : List UInt8}
  {executableFile newProcess imageBuffer entryPoint : Nat}
  {result : Except LoaderPanic SpawnResult}

theorem CreatesProcess.spawn_eq
    (h : CreatesProcess k executablePath processName executableFile newProcess k₁) :
    k.osLoaderProcessSpawn others executablePath processName =
      k₁.spawnFile others newProcess executableFile := by
  obtain ⟨k₀, halloc, rfl⟩ := h.exists_allocated
  unfold Kernel.osLoaderProcessSpawn
  simp only [h.openPath_eq, Option.bind_some, if_neg h.executableFile_ne, halloc,
    if_neg h.newProcess_ne]

theorem ReadsImage.spawn_eq (h : ReadsImage k₁ executableFile imageBuffer k₂) :
    k₁.spawnFile others newProcess executableFile = k₂.spawnImage others newProcess imageBuffer := by
  obtain ⟨k₀, halloc, rfl⟩ := h.exists_allocated
  unfold Kernel.spawnFile
  simp only [halloc, Option.bind_some, if_neg h.imageBuffer_ne]

/-- The loader returns without a process, or creates one. -/
theorem osLoaderProcessSpawn_cases
    (h : k.osLoaderProcessSpawn others executablePath processName = some result) :
    (k.openPath executablePath = some 0 ∧ result = .ok ⟨-1, 0, 0, k⟩) ∨
    (∃ executableFile k₀, k.openPath executablePath = some executableFile ∧ executableFile ≠ 0 ∧
      k.heapAllocate sizeofProcess = some (0, k₀) ∧ result = .ok ⟨-2, 0, 0, k₀⟩) ∨
    ∃ executableFile newProcess k₁,
      CreatesProcess k executablePath processName executableFile newProcess k₁ ∧
      k₁.spawnFile others newProcess executableFile = some result := by
  obtain ⟨executableFile, hopen, h⟩ := Option.bind_eq_some_iff.mp h
  split at h
  · next hzero =>
    subst hzero
    exact .inl ⟨hopen, (Option.some.inj h).symm⟩
  · next hfile =>
    obtain ⟨⟨newProcess, k₀⟩, halloc, h⟩ := Option.bind_eq_some_iff.mp h
    simp only at h
    split at h
    · next hzero =>
      subst hzero
      exact .inr (.inl ⟨executableFile, k₀, hopen, hfile, halloc, (Option.some.inj h).symm⟩)
    · next hprocess =>
      exact .inr (.inr ⟨executableFile, newProcess, _,
        ⟨hopen, hfile, hprocess, k₀, halloc, rfl⟩, h⟩)

/-- A process gets an image, or is freed again. -/
theorem spawnFile_cases (h : k₁.spawnFile others newProcess executableFile = some result) :
    (∃ k₀, k₁.heapAllocate (k₁.volume.node executableFile).dataLength = some (0, k₀) ∧
      result = .ok ⟨-3, newProcess, 0, k₀.heapFree newProcess⟩) ∨
    ∃ imageBuffer k₂, ReadsImage k₁ executableFile imageBuffer k₂ ∧
      k₂.spawnImage others newProcess imageBuffer = some result := by
  obtain ⟨⟨imageBuffer, k₀⟩, halloc, h⟩ := Option.bind_eq_some_iff.mp h
  simp only at h
  split at h
  · next hzero =>
    subst hzero
    exact .inl ⟨k₀, halloc, (Option.some.inj h).symm⟩
  · next hbuffer => exact .inr ⟨imageBuffer, _, ⟨hbuffer, k₀, halloc, rfl⟩, h⟩

/-- The image has an entry point, or image and process are freed again. -/
theorem spawnImage_cases (h : k₂.spawnImage others newProcess imageBuffer = some result) :
    ((k₂.loadImage newProcess imageBuffer).1 = 0 ∧ result = .ok ⟨-4, newProcess, 0,
      ((k₂.loadImage newProcess imageBuffer).2.heapFree imageBuffer).heapFree newProcess⟩) ∨
    ((k₂.loadImage newProcess imageBuffer).1 ≠ 0 ∧
      ((k₂.loadImage newProcess imageBuffer).2.heapFree imageBuffer).startProcess others newProcess
        (k₂.loadImage newProcess imageBuffer).1 = some result) := by
  unfold Kernel.spawnImage at h
  simp only at h
  split at h
  · next hzero => exact .inl ⟨hzero, (Option.some.inj h).symm⟩
  · next hentry => exact .inr ⟨hentry, h⟩

/-- The loader panics, frees the process, or returns the number of a process with
a task. -/
theorem startProcess_cases (h : k₃.startProcess others newProcess entryPoint = some result) :
    ((k₃.setupUserStack newProcess).1 = false ∧ result = .error .userStack) ∨
    ((k₃.setupUserStack newProcess).1 = true ∧ ∃ task k₄,
      (k₃.setupUserStack newProcess).2.osSchedulerSpawn others entryPoint newProcess true
        kOSUserStackTop = some (task, k₄) ∧
      ((task = 0 ∧ result = .ok ⟨-5, newProcess, 0, k₄.heapFree newProcess⟩) ∨
        (task ≠ 0 ∧ result = .ok
          ⟨(UInt32.ofNat (k₄.process newProcess).processId).toInt32, newProcess, task, k₄⟩))) := by
  unfold Kernel.startProcess at h
  simp only at h
  split at h
  · next hpanic => exact .inl ⟨hpanic, (Option.some.inj h).symm⟩
  · next hok =>
    obtain ⟨⟨task, k₄⟩, hspawn, heq⟩ := Option.map_eq_some_iff.mp h
    refine .inr ⟨by simpa using hok, task, k₄, hspawn, ?_⟩
    simp only at heq
    split at heq
    · next hzero => exact .inl ⟨hzero, heq.symm⟩
    · next htask => exact .inr ⟨htask, heq.symm⟩

/-- The kernel when the image is loaded and its buffer freed: what has become of
memory, and of the new process. -/
structure Loaded (k : Kernel) (newProcess : Nat) (data : Memory) (k₃ : Kernel) : Prop where
  toOSProcess_eq : (k₃.process newProcess).toOSProcess =
    ⟨(vmVirtualMemoryCreateAddressSpace k.vm).1, kOSHeapStart⟩
  processId_eq : (k₃.process newProcess).processId = k.gOSSchedulerNextProcessID.toNat
  vm_eq : k₃.vm = (hotLoad (vmVirtualMemoryCreateAddressSpace k.vm).2
    ⟨(vmVirtualMemoryCreateAddressSpace k.vm).1, kOSHeapStart⟩ data).2
  spaces_eq : k₃.spaces = if (vmVirtualMemoryCreateAddressSpace k.vm).1 = 0 then k.spaces
    else (vmVirtualMemoryCreateAddressSpace k.vm).1 :: k.spaces
  scheduler_eq : k₃.scheduler = { k.scheduler with
    process := Function.update k.scheduler.process newProcess
      ⟨k.gOSSchedulerNextProcessID.toNat, (vmVirtualMemoryCreateAddressSpace k.vm).1⟩
    live := k₃.scheduler.live
    freed := k₃.scheduler.freed
    memory := k₃.scheduler.memory }

theorem Loaded.task_eq {data : Memory} (h : Loaded k newProcess data k₃) :
    k₃.scheduler.task = k.scheduler.task := by
  rw [h.scheduler_eq]

theorem Loaded.linked_eq {data : Memory} (h : Loaded k newProcess data k₃) :
    k₃.scheduler.linked = k.scheduler.linked := by
  rw [h.scheduler_eq]

/-- The kernel with the image: memory, and what is loaded into. -/
theorem CreatesProcess.imageRead
    (h : CreatesProcess k executablePath processName executableFile newProcess k₁)
    (hread : ReadsImage k₁ executableFile imageBuffer k₂) :
    k₂.vm = (vmVirtualMemoryCreateAddressSpace k.vm).2 ∧
    (k₂.process newProcess).toOSProcess =
      ⟨(vmVirtualMemoryCreateAddressSpace k.vm).1, kOSHeapStart⟩ ∧
    (k₂.process newProcess).processId = k.gOSSchedulerNextProcessID.toNat ∧
    k₂.spaces = (if (vmVirtualMemoryCreateAddressSpace k.vm).1 = 0 then k.spaces
      else (vmVirtualMemoryCreateAddressSpace k.vm).1 :: k.spaces) ∧
    k₂.scheduler = { k.scheduler with
      process := Function.update k.scheduler.process newProcess
        ⟨k.gOSSchedulerNextProcessID.toNat, (vmVirtualMemoryCreateAddressSpace k.vm).1⟩
      live := k₂.scheduler.live
      freed := k₂.scheduler.freed
      memory := k₂.scheduler.memory } := by
  -- Both calls of the allocator change the heap only.
  obtain ⟨k₀, halloc, rfl⟩ := h.exists_allocated
  obtain ⟨k₀', halloc', rfl⟩ := hread.exists_allocated
  have hbefore := heapOnly_allocate halloc
  have hafter := (heapOnly_allocate halloc').trans (heapOnly_readImage k₀' executableFile imageBuffer)
  generalize k₀'.readImage executableFile imageBuffer = k₂ at hafter
  have hprocess : k₂.process newProcess =
      k₀.newRecord (vmVirtualMemoryCreateAddressSpace k₀.vm).1 processName := by
    rw [hafter.process_eq]
    exact Function.update_self ..
  refine ⟨?_, ?_, ?_, ?_, ?_⟩
  · rw [hafter.vm_eq, ← hbefore.vm_eq]
    rfl
  · rw [hprocess, ← hbefore.vm_eq]
    rfl
  · rw [← hbefore.nextProcessID_eq]
    exact congrArg ProcessRecord.processId hprocess
  · rw [hafter.spaces_eq, ← hbefore.vm_eq, ← hbefore.spaces_eq]
    rfl
  · refine hafter.scheduler_eq.trans ?_
    rw [← hbefore.nextProcessID_eq, ← hbefore.vm_eq]
    exact congrArg (fun s : SchedulerState => { s with
      process := Function.update s.process newProcess
        ⟨k₀.gOSSchedulerNextProcessID.toNat, (vmVirtualMemoryCreateAddressSpace k₀.vm).1⟩
      live := k₂.scheduler.live
      freed := k₂.scheduler.freed
      memory := k₂.scheduler.memory }) hbefore.scheduler_eq

/-- What is loaded, and into which page tables. -/
theorem CreatesProcess.loadImage_eq
    (h : CreatesProcess k executablePath processName executableFile newProcess k₁)
    (hread : ReadsImage k₁ executableFile imageBuffer k₂) :
    ((k₂.loadImage newProcess imageBuffer).1, (k₂.loadImage newProcess imageBuffer).2.vm) =
      hotLoad (vmVirtualMemoryCreateAddressSpace k.vm).2
        ⟨(vmVirtualMemoryCreateAddressSpace k.vm).1, kOSHeapStart⟩ (k₂.bytesAt imageBuffer) := by
  obtain ⟨hvm, hrecord, -⟩ := h.imageRead hread
  rw [← hvm, ← hrecord]
  rfl

theorem CreatesProcess.loaded
    (h : CreatesProcess k executablePath processName executableFile newProcess k₁)
    (hread : ReadsImage k₁ executableFile imageBuffer k₂) :
    Loaded k newProcess (k₂.bytesAt imageBuffer)
      ((k₂.loadImage newProcess imageBuffer).2.heapFree imageBuffer) := by
  obtain ⟨-, hrecord, hpid, hspaces, hscheduler⟩ := h.imageRead hread
  exact {
    toOSProcess_eq := hrecord
    processId_eq := hpid
    vm_eq := congrArg Prod.snd (h.loadImage_eq hread)
    spaces_eq := hspaces
    scheduler_eq := congrArg (fun s : SchedulerState => { s with
      live := ((k₂.loadImage newProcess imageBuffer).2.heapFree imageBuffer).scheduler.live
      freed := ((k₂.loadImage newProcess imageBuffer).2.heapFree imageBuffer).scheduler.freed
      memory := ((k₂.loadImage newProcess imageBuffer).2.heapFree imageBuffer).scheduler.memory })
        hscheduler }

end Points

/-! ## Section 3: Spawning a task -/

section Spawn

variable {k k' : Kernel} {others : OtherTasks} {entry owner task fixedUserStackPointer : Nat}
  {isUser : Bool}

/-- Nothing that other tasks could have changed has changed. -/
theorem Meanwhile.of_eq {newProcess : Nat} (hvm : k'.vm = k.vm) (hspaces : k'.spaces = k.spaces)
    (hprocess : k'.process = k.process)
    (hcurrent : k'.scheduler.currentTask = k.scheduler.currentTask) : Meanwhile newProcess k k' where
  process_eq := by rw [hprocess]
  currentTask_eq := hcurrent
  calls := by
    rw [hvm, hspaces]
    exact .refl _ _

theorem HeapOnly.meanwhile (h : HeapOnly k k') (newProcess : Nat) : Meanwhile newProcess k k' :=
  .of_eq h.vm_eq h.spaces_eq h.process_eq h.currentTask_eq

theorem OtherCalls.trans {own : Nat} {spaces spaces₁ spaces₂ : List Nat} {s s₁ s₂ : VMState}
    (h : OtherCalls own spaces s spaces₁ s₁) (h' : OtherCalls own spaces₁ s₁ spaces₂ s₂) :
    OtherCalls own spaces s spaces₂ s₂ := by
  induction h' with
  | refl => exact h
  | tail _ hcall ih => exact (ih h).tail hcall

theorem Meanwhile.trans {newProcess : Nat} {k'' : Kernel} (h : Meanwhile newProcess k k')
    (h' : Meanwhile newProcess k' k'') : Meanwhile newProcess k k'' where
  process_eq := h'.process_eq.trans h.process_eq
  currentTask_eq := h'.currentTask_eq.trans h.currentTask_eq
  calls := by
    have hcalls := h'.calls
    rw [h.process_eq] at hcalls
    exact h.calls.trans hcalls

theorem yieldForStack_meanwhile (k : Kernel) (call : PendingSpawn) (newProcess : Nat) :
    Meanwhile newProcess k (k.yieldForStack call) := by
  have hcurrent : (k.yieldForStack call).scheduler.currentTask = k.scheduler.currentTask := by
    show (SchedulerState.postGarbageCollectorSignal _).currentTask = _
    unfold SchedulerState.postGarbageCollectorSignal
    split <;> rfl
  exact .of_eq rfl rfl rfl hcurrent

theorem spawnRetry_meanwhile {call : PendingSpawn} (newProcess : Nat)
    (h : k.spawnRetry call = some (task, k')) : Meanwhile newProcess k k' := by
  obtain ⟨⟨stackBaseAddress, k₁⟩, halloc, heq⟩ := Option.map_eq_some_iff.mp h
  have hheap : HeapOnly _ k₁ := heapOnly_allocate halloc
  simp only at heq
  split at heq
  · obtain ⟨-, rfl⟩ := Prod.mk.inj heq
    have hfree := hheap.trans (heapOnly_free k₁ call.task)
    exact .of_eq hfree.vm_eq hfree.spaces_eq hfree.process_eq hfree.currentTask_eq
  · obtain ⟨-, rfl⟩ := Prod.mk.inj heq
    exact .of_eq hheap.vm_eq hheap.spaces_eq hheap.process_eq hheap.currentTask_eq

/-- Spawning a task changes memory only by what other tasks do in the meantime. -/
theorem osSchedulerSpawn_meanwhile (howner : owner ≠ 0)
    (h : k.osSchedulerSpawn others entry owner isUser fixedUserStackPointer = some (task, k')) :
    Meanwhile owner k k' := by
  obtain ⟨⟨task₀, k₁⟩, htask, h⟩ := Option.bind_eq_some_iff.mp h
  have hheap := heapOnly_allocate htask
  dsimp only at h
  split at h
  · -- no room for the task
    obtain ⟨-, rfl⟩ := Prod.mk.inj (Option.some.inj h)
    exact hheap.meanwhile owner
  · obtain ⟨⟨stackBaseAddress, k₂⟩, hstack, h⟩ := Option.bind_eq_some_iff.mp h
    have hheap' := hheap.trans (heapOnly_allocate hstack)
    simp only at h
    split at h
    · -- no room for the stack
      obtain ⟨k₃, hresume, hretry⟩ := Option.bind_eq_some_iff.mp h
      exact (hheap'.meanwhile owner).trans ((yieldForStack_meanwhile _ _ _).trans
        ((others.meanwhile hresume).trans (spawnRetry_meanwhile owner hretry)))
    · obtain ⟨-, rfl⟩ := Prod.mk.inj (Option.some.inj h)
      exact .of_eq hheap'.vm_eq hheap'.spaces_eq hheap'.process_eq hheap'.currentTask_eq

end Spawn

end TermOS.OS
