import TermOS.OS.SpawnBuilt

/-!
# What a failed spawn leaves behind

The loader gives back its two heap blocks on every way out. The frames of the
address space, of the page tables and of the pages are never given back, so that
a spawn that fails after its address space was created has used them up.

## Main Theorems

* `osLoaderProcessSpawn_traceless_iff` - when a failed spawn leaves no trace
* `osLoaderProcessSpawn_refuses_iff` - when a file without the magic number is refused
-/

namespace TermOS.OS

open TermOS.Lib TermOS.Kernel TermOS.VM TermOS.FS TermOS.Lib.TableForest VMState

/-! ## Section 1: Frames -/

section Frames

variable {own : Nat} {spaces spaces' : List Nat} {s s' : VMState}

theorem OtherCall.keeps (h : OtherCall own spaces s spaces' s') : Keeps s s' := by
  cases h with
  | noAddressSpace _ => exact keeps_createAddressSpace s
  | createAddressSpace _ => exact keeps_createAddressSpace s
  | hotLoad process data _ _ => exact keeps_hotLoad s process data
  | setupUserStack pml4 _ _ => exact keeps_setupUserStack s pml4
  | memoryAllocate process size _ _ => exact keeps_memoryAllocate s process size

theorem OtherCalls.keeps (h : OtherCalls own spaces s spaces' s') : Keeps s s' := by
  induction h with
  | refl => exact Keeps.refl _
  | tail _ hcall ih => exact ih.trans hcall.keeps

/-- An address space takes a frame, if one is free. -/
theorem createAddressSpace_takes (hfree : s.pmm.freeCount ≠ 0) :
    ∃ f, s.pmm.FrameFree f ∧ ¬ (vmVirtualMemoryCreateAddressSpace s).2.pmm.FrameFree f := by
  rcases allocatePage_state_cases s with ⟨hnone, -⟩ | ⟨f, s₁, hf, heq, -, -, -, -, -, hfree₁⟩
  · exact absurd (freeCount_eq_zero_iff.mpr hnone) hfree
  · refine ⟨f, hf, fun hf' => ((hfree₁ f).mp ?_).2 rfl⟩
    have hkeeps : ∀ virt kernelVirt n, (copyKernelHalf (s₁.clearPage (physToHhdm (f * kVMPageSize)))
        virt kernelVirt 256 n).pmm = s₁.pmm := by
      intro virt kernelVirt n
      rw [copyKernelHalf_pmm, clearPage_pmm]
    rw [vmVirtualMemoryCreateAddressSpace, heq] at hf'
    simp only at hf'
    split at hf'
    · exact hf'
    · rwa [hkeeps _ _ 256] at hf'

theorem createAddressSpace_of_full (hfull : s.pmm.freeCount = 0) :
    vmVirtualMemoryCreateAddressSpace s = (0, s) := by
  rcases allocatePage_state_cases s with ⟨-, heq⟩ | ⟨f, -, hf, -⟩
  · rw [vmVirtualMemoryCreateAddressSpace, heq]
    rfl
  · exact absurd hf (freeCount_eq_zero_iff.mp hfull f)

end Frames

/-! ## Section 2: Traces -/

/-- The free frames, the blocks of the heap that are in use, and the ring of
tasks are the same. -/
structure SameResources (k k' : Kernel) : Prop where
  frames : ∀ f, k'.vm.pmm.FrameFree f ↔ k.vm.pmm.FrameFree f
  blocks : ∀ block, block ∈ k'.scheduler.live ↔ block ∈ k.scheduler.live
  linked : k'.scheduler.linked = k.scheduler.linked
  next : ∀ task, (k'.scheduler.task task).next = (k.scheduler.task task).next

/-- If the spawn fails, it leaves no trace. -/
def Traceless (others : OtherTasks) (k : Kernel) (executablePath processName : List UInt8) : Prop :=
  ∀ r, k.osLoaderProcessSpawn others executablePath processName = some (.ok r) → r.status < 0 →
    SameResources k r.kernel

/-- `OSSchedulerSpawn` finds no room: none for the task, or beside it none for the task's
stack, neither at once nor in the heap that the other tasks leave. -/
def NoTaskRoom (others : OtherTasks) (k : Kernel) (entry owner : Nat) : Prop :=
  ¬ HasRoom k (alignSize sizeofTask) ∨
    ∃ task k₁ k₂ k₃, k.heapAllocate sizeofTask = some (task, k₁) ∧
      ¬ HasRoom k₁ (alignSize stackSize) ∧
      others.resume owner (k₁.yieldForStack ⟨task, entry, owner, true, kOSUserStackTop⟩) = some k₂ ∧
      ({ k₂ with scheduler := k₂.scheduler.setPending none } : Kernel).heapAllocate stackSize =
        some (0, k₃)

/-- The image asks for user-half pages only. -/
def AsksUserHalf (k : Kernel) (executablePath processName : List UInt8) : Prop :=
  ∀ executableFile newProcess k₁ imageBuffer k₂,
    CreatesProcess k executablePath processName executableFile newProcess k₁ →
    ReadsImage k₁ executableFile imageBuffer k₂ →
    ∀ page ∈ hotPages (k₂.bytesAt imageBuffer), ¬ KernelHalf page

/-- Nothing fails once the process `newProcess` has its structure, unless the
stack finds no frame. -/
structure NothingFails (others : OtherTasks) (k₁ : Kernel) (newProcess executableFile : Nat) :
    Prop where
  /-- The file is not empty, and a free block takes it. -/
  image : (k₁.volume.node executableFile).dataLength ≠ 0 ∧
    HasRoom k₁ (alignSize (k₁.volume.node executableFile).dataLength)
  /-- With the magic number, the header has an entry point. -/
  entry : ∀ imageBuffer k₂, ReadsImage k₁ executableFile imageBuffer k₂ →
    (readHeader (k₂.bytesAt imageBuffer)).magic = hotMagic →
    (readHeader (k₂.bytesAt imageBuffer)).entryPoint ≠ 0
  /-- There is room for the task, and the number of the process fits into 31 bits, or the other
  tasks never let the loader go on. -/
  task : ∀ imageBuffer k₂, ReadsImage k₁ executableFile imageBuffer k₂ →
    let loaded := k₂.loadImage newProcess imageBuffer
    let stack := (loaded.2.heapFree imageBuffer).setupUserStack newProcess
    stack.1 = true → ¬ NoTaskRoom others stack.2 loaded.1 newProcess ∧
      ((k₁.process newProcess).processId < 2 ^ 31 ∨
        stack.2.osSchedulerSpawn others loaded.1 newProcess true kOSUserStackTop = none)

section Traces

variable {k k₁ k₂ k₃ : Kernel} {others : OtherTasks} {executablePath processName : List UInt8}
  {executableFile newProcess imageBuffer : Nat} {data : Memory}

/-- `OSSchedulerSpawn` returns null exactly if it finds no room. -/
theorem osSchedulerSpawn_null_iff (hheap : HeapOrdered k) {owner : Nat} (howner : owner ≠ 0)
    (entry : Nat) :
    (∃ k', k.osSchedulerSpawn others entry owner true kOSUserStackTop = some (0, k')) ↔
      NoTaskRoom others k entry owner := by
  have htaskRoom := (hheap.allocate_null_iff (show sizeofTask + 15 < 2 ^ 64 by decide)).trans
    (or_iff_right (by decide))
  unfold Kernel.osSchedulerSpawn NoTaskRoom
  rw [← htaskRoom]
  rcases hheap.allocate (show sizeofTask + 15 < 2 ^ 64 by decide) with
    hnull | ⟨task, k₁, htask, hne, hheap₁, -, -⟩
  · -- no room for the task
    exact ⟨fun _ => .inl ⟨k, hnull⟩, fun _ => ⟨k, by rw [hnull]; rfl⟩⟩
  have htask' : ¬ ∃ k', some (task, k₁) = some (0, k') := by
    rintro ⟨k', hnull⟩
    exact hne (Prod.mk.inj (Option.some.inj hnull)).1
  have hroom := (hheap₁.allocate_null_iff (show stackSize + 15 < 2 ^ 64 by decide)).trans
    (or_iff_right (by decide))
  simp only [htask, Option.bind_some, if_neg hne, if_neg howner]
  rcases hheap₁.allocate (show stackSize + 15 < 2 ^ 64 by decide) with
    hnull | ⟨stackBaseAddress, k₂, hstack, hne', -⟩
  · -- no room for the stack: the other tasks run, and it is asked for again
    simp only [hnull, Option.bind_some, if_true]
    constructor
    · rintro ⟨k', h⟩
      obtain ⟨k₂, hresume, hretry⟩ := Option.bind_eq_some_iff.mp h
      obtain ⟨⟨stackBaseAddress, k₃⟩, halloc, heq⟩ := Option.map_eq_some_iff.mp hretry
      simp only at heq
      split at heq
      · next hzero =>
        subst hzero
        exact .inr ⟨task, k₁, k₂, k₃, rfl, hroom.mp ⟨k₁, hnull⟩, hresume, halloc⟩
      · exact absurd (Prod.mk.inj heq).1 hne
    · rintro (hfull | ⟨_, _, k₂, k₃, heq, -, hresume, halloc⟩)
      · exact absurd hfull htask'
      · obtain ⟨rfl, rfl⟩ := Prod.mk.inj (Option.some.inj heq)
        refine ⟨k₃.heapFree task, ?_⟩
        rw [hresume, Option.bind_some]
        unfold Kernel.spawnRetry
        simp only [halloc, Option.map_some, if_true]
  · simp only [hstack, Option.bind_some, if_neg hne']
    constructor
    · rintro ⟨k', h⟩
      exact absurd (Prod.mk.inj (Option.some.inj h)).1 hne
    · rintro (hfull | ⟨_, _, _, _, heq, hfull, -⟩)
      · exact absurd hfull htask'
      · obtain ⟨rfl, rfl⟩ := Prod.mk.inj (Option.some.inj heq)
        obtain ⟨k', hnull⟩ := hroom.mpr hfull
        exact absurd (Prod.mk.inj (Option.some.inj (hstack.symm.trans hnull))).1 hne'

/-- When frames are the same although an address space was created, none was free. -/
theorem full_of_sameResources {k' : Kernel} (h : SameResources k k')
    (hkeeps : Keeps (vmVirtualMemoryCreateAddressSpace k.vm).2 k'.vm) : k.vm.pmm.freeCount = 0 := by
  by_contra hfree
  obtain ⟨f, hf, hnot⟩ := createAddressSpace_takes hfree
  exact hnot (hkeeps.free_of_free ((h.frames f).mpr hf))

/-- Without free frames, no frame can become free. -/
theorem frames_of_full {k' : Kernel} (hfull : k.vm.pmm.freeCount = 0) (hkeeps : Keeps k.vm k'.vm)
    (f : Nat) : k'.vm.pmm.FrameFree f ↔ k.vm.pmm.FrameFree f := by
  have hnone := freeCount_eq_zero_iff.mp hfull
  exact ⟨hkeeps.free_of_free, fun hf => absurd hf (hnone f)⟩

/-- The kernel with the new process, before it has an image. -/
theorem CreatesProcess.vm_eq
    (h : CreatesProcess k executablePath processName executableFile newProcess k₁) :
    k₁.vm = (vmVirtualMemoryCreateAddressSpace k.vm).2 ∧
      (k₁.process newProcess).processId = k.gOSSchedulerNextProcessID.toNat := by
  obtain ⟨k₀, halloc, rfl⟩ := h.exists_allocated
  have hbefore := heapOnly_allocate halloc
  have hprocess : (k₀.createProcess newProcess processName).process newProcess =
      k₀.newRecord (vmVirtualMemoryCreateAddressSpace k₀.vm).1 processName :=
    Function.update_self ..
  rw [← hbefore.vm_eq, ← hbefore.nextProcessID_eq, hprocess]
  exact ⟨rfl, rfl⟩

/-- The block of the process is one that was not in use. -/
theorem CreatesProcess.live_eq
    (h : CreatesProcess k executablePath processName executableFile newProcess k₁)
    (hheap : HeapOrdered k) :
    k₁.scheduler.live = (newProcess, sizeofProcess) :: k.scheduler.live ∧
      (∀ block ∈ k.scheduler.live, block.1 ≠ newProcess) ∧
      k₁.scheduler.task = k.scheduler.task ∧ k₁.scheduler.linked = k.scheduler.linked := by
  obtain ⟨k₀, halloc, rfl⟩ := h.exists_allocated
  have hbefore := heapOnly_allocate halloc
  rcases hheap.allocate (show sizeofProcess + 15 < 2 ^ 64 by decide) with
    heq | ⟨pointer, k', heq, -, -, hlive, hfresh⟩
  · rw [heq] at halloc
    exact absurd (Prod.mk.inj (Option.some.inj halloc)).1.symm h.newProcess_ne
  · rw [heq] at halloc
    obtain ⟨rfl, rfl⟩ := Prod.mk.inj (Option.some.inj halloc)
    exact ⟨hlive, hfresh, hbefore.task_eq, hbefore.linked_eq⟩

/-- So is the block of the image. -/
theorem ReadsImage.live_eq (h : ReadsImage k₁ executableFile imageBuffer k₂)
    (hheap : HeapOrdered k₁) (hlength : (k₁.volume.node executableFile).dataLength + 15 < 2 ^ 64) :
    (∃ size, k₂.scheduler.live = (imageBuffer, size) :: k₁.scheduler.live) ∧
      ∀ block ∈ k₁.scheduler.live, block.1 ≠ imageBuffer := by
  obtain ⟨k₀, halloc, rfl⟩ := h.exists_allocated
  rcases hheap.allocate hlength with heq | ⟨pointer, k', heq, -, -, hlive, hfresh⟩
  · rw [heq] at halloc
    exact absurd (Prod.mk.inj (Option.some.inj halloc)).1.symm h.imageBuffer_ne
  · rw [heq] at halloc
    obtain ⟨rfl, rfl⟩ := Prod.mk.inj (Option.some.inj halloc)
    exact ⟨⟨_, hlive⟩, hfresh⟩

/-- An allocation that fails changes nothing. -/
theorem HeapOrdered.allocate_zero (hheap : HeapOrdered k) {size : Nat} (hsize : size + 15 < 2 ^ 64)
    {k' : Kernel} (halloc : k.heapAllocate size = some (0, k')) : k' = k := by
  rcases hheap.allocate hsize with heq | ⟨pointer, _, heq, hne, -⟩
  · exact (Prod.mk.inj (Option.some.inj (halloc.symm.trans heq))).2
  · exact absurd (Prod.mk.inj (Option.some.inj (halloc.symm.trans heq))).1.symm hne

theorem sameResources_of_noRoom (hheap : HeapOrdered k) {k' : Kernel}
    (halloc : k.heapAllocate sizeofProcess = some (0, k')) : SameResources k k' := by
  obtain rfl := hheap.allocate_zero (show sizeofProcess + 15 < 2 ^ 64 by decide) halloc
  exact ⟨fun _ => Iff.rfl, fun _ => Iff.rfl, rfl, fun _ => rfl⟩

theorem setupUserStack_fails (hfull : k.vm.pmm.freeCount = 0) :
    (k.setupUserStack newProcess).1 = false := by
  unfold Kernel.setupUserStack
  exact setupUserStack_of_full hfull _

theorem SameResources.refl (k : Kernel) : SameResources k k :=
  ⟨fun _ => Iff.rfl, fun _ => Iff.rfl, rfl, fun _ => rfl⟩

theorem heapFree_vm (k : Kernel) (pointer : Nat) : (k.heapFree pointer).vm = k.vm := rfl

theorem heapFree_linked (k : Kernel) (pointer : Nat) :
    (k.heapFree pointer).scheduler.linked = k.scheduler.linked := rfl

theorem heapFree_task (k : Kernel) (pointer : Nat) :
    (k.heapFree pointer).scheduler.task = k.scheduler.task := rfl

theorem loadImage_scheduler (k : Kernel) (newProcess imageBuffer : Nat) :
    (k.loadImage newProcess imageBuffer).2.scheduler = k.scheduler := rfl

/-- When the block of the new process is given back, the frames decide. -/
theorem sameResources_of_freed {k' : Kernel} {size : Nat}
    (hframes : ∀ f, k'.vm.pmm.FrameFree f ↔ k.vm.pmm.FrameFree f)
    (hlive : k'.scheduler.live = (newProcess, size) :: k.scheduler.live)
    (hfresh : ∀ block ∈ k.scheduler.live, block.1 ≠ newProcess)
    (htask : k'.scheduler.task = k.scheduler.task)
    (hlinked : k'.scheduler.linked = k.scheduler.linked) :
    SameResources k (k'.heapFree newProcess) where
  frames := by
    rw [heapFree_vm]
    exact hframes
  blocks := by
    rw [heapFree_live, hlive, filter_fresh hfresh]
    exact fun _ => Iff.rfl
  linked := by rw [heapFree_linked, hlinked]
  next := by
    rw [heapFree_task, htask]
    exact fun _ => rfl

/-- The kernel with an image that could not be started. -/
theorem ReadsImage.freed_live (newProcess : Nat) (h : ReadsImage k₁ executableFile imageBuffer k₂)
    (hheap : HeapOrdered k₁) (hlength : (k₁.volume.node executableFile).dataLength + 15 < 2 ^ 64) :
    ((k₂.loadImage newProcess imageBuffer).2.heapFree imageBuffer).scheduler.live =
      k₁.scheduler.live := by
  obtain ⟨⟨size, hlive⟩, hfresh⟩ := h.live_eq hheap hlength
  rw [heapFree_live, loadImage_scheduler, hlive, filter_fresh hfresh]

/-- Without a free frame a failure leaves no trace. -/
theorem traceless_of_full (hheap : HeapOrdered k)
    (hlength : ∀ file, k.openPath executablePath = some file →
      (k.volume.node file).dataLength < 2 ^ 32)
    (hfull : k.vm.pmm.freeCount = 0) : Traceless others k executablePath processName := by
  intro r hresult hneg
  rcases osLoaderProcessSpawn_cases hresult with ⟨-, heq⟩ | ⟨_, k₀, -, -, halloc, heq⟩ |
    ⟨file, newProcess, k₁, hcreate, hspawn⟩
  · obtain rfl := Except.ok.inj heq
    exact SameResources.refl k
  · obtain rfl := Except.ok.inj heq
    exact sameResources_of_noRoom hheap halloc
  obtain ⟨hvm₁, -⟩ := hcreate.vm_eq
  obtain ⟨hlive₁, hfresh₁, htask₁, hlinked₁⟩ := hcreate.live_eq hheap
  obtain ⟨hheap₁, hvolume₁, -⟩ := hcreate.fileData_eq hheap
  rw [createAddressSpace_of_full hfull] at hvm₁
  have hsize := hlength file hcreate.openPath_eq
  rw [← hvolume₁] at hsize
  rcases spawnFile_cases hspawn with ⟨k₀, halloc, heq⟩ | ⟨imageBuffer, k₂, hread, hspawn⟩
  · -- no room for the image
    obtain rfl := Except.ok.inj heq
    obtain rfl := hheap₁.allocate_zero (by omega) halloc
    exact sameResources_of_freed (fun f => by rw [hvm₁]) hlive₁ hfresh₁ htask₁ hlinked₁
  have hloaded := hcreate.loaded hread
  have hlive₃ := hread.freed_live newProcess hheap₁ (by omega)
  have hkeeps₃ : Keeps k.vm ((k₂.loadImage newProcess imageBuffer).2.heapFree imageBuffer).vm := by
    rw [hloaded.vm_eq, createAddressSpace_of_full hfull]
    exact keeps_hotLoad k.vm _ _
  rcases spawnImage_cases hspawn with ⟨-, heq⟩ | ⟨-, hspawn⟩
  · -- no entry point
    obtain rfl := Except.ok.inj heq
    exact sameResources_of_freed (frames_of_full hfull hkeeps₃) (hlive₃.trans hlive₁) hfresh₁
      hloaded.task_eq hloaded.linked_eq
  · -- the stack is not set up
    rcases startProcess_cases hspawn with ⟨-, heq⟩ | ⟨hstack, -⟩
    · exact absurd heq (by simp)
    · rw [setupUserStack_fails (full_of_keeps hkeeps₃ hfull)] at hstack
      exact absurd hstack (by simp)

/-- A result that leaves no trace although an address space was created. -/
theorem not_sameResources {k' : Kernel} (hfree : k.vm.pmm.freeCount ≠ 0)
    (hkeeps : Keeps (vmVirtualMemoryCreateAddressSpace k.vm).2 k'.vm) : ¬ SameResources k k' :=
  fun h => hfree (full_of_sameResources h hkeeps)

/-- The number of a process is negative from `2 ^ 31` on. -/
theorem processId_neg_iff {n : Nat} (hn : n < 2 ^ 32) :
    (UInt32.ofNat n).toInt32 < 0 ↔ 2 ^ 31 ≤ n := by
  have htoNat : (UInt32.ofNat n).toBitVec.toNat = n := Nat.mod_eq_of_lt hn
  have hneg := BitVec.toInt_neg_iff (x := (UInt32.ofNat n).toBitVec)
  rw [htoNat] at hneg
  rw [Int32.lt_iff_toInt_lt]
  show (UInt32.ofNat n).toBitVec.toInt < 0 ↔ _
  rw [hneg]
  omega

/-- The loader returns 0 for an image whose header says so, and for no other. -/
theorem loadImage_null_iff (k : Kernel) (newProcess imageBuffer : Nat) :
    (k.loadImage newProcess imageBuffer).1 = 0 ↔
      (readHeader (k.bytesAt imageBuffer)).magic = hotMagic ∧
        (readHeader (k.bytesAt imageBuffer)).entryPoint = 0 := by
  unfold Kernel.loadImage hotLoad
  by_cases hmagic : (readHeader (k.bytesAt imageBuffer)).magic = hotMagic
  · simp only [hmagic, ne_eq, not_true_eq_false, if_false, true_and]
  · simp only [hmagic, ne_eq, not_false_eq_true, if_true, false_and, iff_false]
    decide

/-- Loading the image keeps what the new address space has taken. -/
theorem CreatesProcess.keeps_loaded
    (h : CreatesProcess k executablePath processName executableFile newProcess k₁)
    (hread : ReadsImage k₁ executableFile imageBuffer k₂) :
    Keeps (vmVirtualMemoryCreateAddressSpace k.vm).2
      ((k₂.loadImage newProcess imageBuffer).2.heapFree imageBuffer).vm := by
  rw [(h.loaded hread).vm_eq]
  exact keeps_hotLoad _ _ _

/-- Past the user stack, the result says whether there was room for the task. -/
theorem startProcess_of_spawn {entryPoint task : Nat} {k₄ : Kernel}
    (hstack : (k₃.setupUserStack newProcess).1 = true)
    (hspawn : (k₃.setupUserStack newProcess).2.osSchedulerSpawn others entryPoint newProcess true
      kOSUserStackTop = some (task, k₄)) :
    k₃.startProcess others newProcess entryPoint =
      some (if task = 0 then .ok ⟨-5, newProcess, 0, k₄.heapFree newProcess⟩
        else .ok ⟨(UInt32.ofNat (k₄.process newProcess).processId).toInt32, newProcess, task, k₄⟩) := by
  unfold Kernel.startProcess
  simp only
  rw [if_neg (by simp [hstack]), hspawn, Option.map_some]

section FindsFrame

variable (hheap : HeapOrdered k) (hlength : ∀ file, k.openPath executablePath = some file →
    (k.volume.node file).dataLength < 2 ^ 32)
  (hfree : k.vm.pmm.freeCount ≠ 0) (htraceless : Traceless others k executablePath processName)
  (hcreate : CreatesProcess k executablePath processName executableFile newProcess k₁)

include hfree htraceless in
/-- A failure that keeps the frame of the new address space would leave a trace. -/
theorem not_failed_of_traceless {r : SpawnResult}
    (hresult : k.osLoaderProcessSpawn others executablePath processName = some (.ok r))
    (hneg : r.status < 0) (hkeeps : Keeps (vmVirtualMemoryCreateAddressSpace k.vm).2 r.kernel.vm) :
    False :=
  not_sameResources hfree hkeeps (htraceless r hresult hneg)

include hheap hlength hfree htraceless hcreate

theorem image_of_traceless : (k₁.volume.node executableFile).dataLength ≠ 0 ∧
    HasRoom k₁ (alignSize (k₁.volume.node executableFile).dataLength) := by
  obtain ⟨hvm₁, -⟩ := hcreate.vm_eq
  obtain ⟨hheap₁, hvolume₁, -⟩ := hcreate.fileData_eq hheap
  have hsize := hlength executableFile hcreate.openPath_eq
  rw [← hvolume₁] at hsize
  by_contra hfull
  -- else the loader returns -3 and frees the process structure only
  obtain ⟨k₀, halloc⟩ := (hheap₁.allocate_null_iff
    (show (k₁.volume.node executableFile).dataLength + 15 < 2 ^ 64 by omega)).mpr
    (or_iff_not_and_not.mpr fun h => hfull ⟨h.1, not_not.mp h.2⟩)
  obtain rfl := hheap₁.allocate_zero (by omega) halloc
  have hresult : k.osLoaderProcessSpawn others executablePath processName =
      some (.ok ⟨-3, newProcess, 0, k₀.heapFree newProcess⟩) := by
    rw [hcreate.spawn_eq]
    unfold Kernel.spawnFile
    rw [halloc]
    rfl
  apply not_failed_of_traceless hfree htraceless hresult (show (-3 : Int32) < 0 by decide)
  rw [heapFree_vm, hvm₁]
  exact Keeps.refl _

omit hheap hlength in
theorem loadImage_ne_null_of_traceless (hread : ReadsImage k₁ executableFile imageBuffer k₂) :
    (k₂.loadImage newProcess imageBuffer).1 ≠ 0 := by
  intro hnull
  -- else it returns -4
  have hresult : k.osLoaderProcessSpawn others executablePath processName = some (.ok ⟨-4, newProcess, 0,
      ((k₂.loadImage newProcess imageBuffer).2.heapFree imageBuffer).heapFree newProcess⟩) := by
    rw [hcreate.spawn_eq, hread.spawn_eq]
    unfold Kernel.spawnImage
    simp only [if_pos hnull]
  apply not_failed_of_traceless hfree htraceless hresult (show (-4 : Int32) < 0 by decide)
  rw [heapFree_vm]
  exact hcreate.keeps_loaded hread

/-- There is room for the task, and its number is no error. -/
theorem task_of_traceless (hread : ReadsImage k₁ executableFile imageBuffer k₂)
    (hstack : (((k₂.loadImage newProcess imageBuffer).2.heapFree imageBuffer).setupUserStack
      newProcess).1 = true) :
    ¬ NoTaskRoom others (((k₂.loadImage newProcess imageBuffer).2.heapFree imageBuffer).setupUserStack
        newProcess).2 (k₂.loadImage newProcess imageBuffer).1 newProcess ∧
      ((k₁.process newProcess).processId < 2 ^ 31 ∨
        (((k₂.loadImage newProcess imageBuffer).2.heapFree imageBuffer).setupUserStack
          newProcess).2.osSchedulerSpawn others (k₂.loadImage newProcess imageBuffer).1 newProcess true
          kOSUserStackTop = none) := by
  obtain ⟨-, hpid⟩ := hcreate.vm_eq
  obtain ⟨hheap₁, hvolume₁, -⟩ := hcreate.fileData_eq hheap
  have hsize := hlength executableFile hcreate.openPath_eq
  rw [← hvolume₁] at hsize
  have hloaded := hcreate.loaded hread
  obtain ⟨hheap₂, hheld⟩ := hread.ordered hheap₁ (by omega)
  have hheap₃ : HeapOrdered ((k₂.loadImage newProcess imageBuffer).2.heapFree imageBuffer) :=
    HeapOrdered.free hheap₂ hheld
  have hkeeps := hcreate.keeps_loaded hread
  have hspawn_eq : k.osLoaderProcessSpawn others executablePath processName =
      ((k₂.loadImage newProcess imageBuffer).2.heapFree imageBuffer).startProcess others newProcess
        (k₂.loadImage newProcess imageBuffer).1 := by
    rw [hcreate.spawn_eq, hread.spawn_eq]
    unfold Kernel.spawnImage
    simp only [if_neg (loadImage_ne_null_of_traceless hfree htraceless hcreate hread)]
  generalize (k₂.loadImage newProcess imageBuffer).2.heapFree imageBuffer = k₃ at *
  generalize (k₂.loadImage newProcess imageBuffer).1 = entryPoint at *
  have hheap₄ : HeapOrdered (k₃.setupUserStack newProcess).2 := hheap₃
  -- whatever the other tasks do while the loader waits, the frame stays taken
  have hkeeps₄ : ∀ {task k₄}, (k₃.setupUserStack newProcess).2.osSchedulerSpawn others entryPoint
      newProcess true kOSUserStackTop = some (task, k₄) →
      Keeps (vmVirtualMemoryCreateAddressSpace k.vm).2 k₄.vm := fun hspawn =>
    (hkeeps.trans (keeps_setupUserStack _ _)).trans
      (osSchedulerSpawn_meanwhile hcreate.newProcess_ne hspawn).calls.keeps
  -- no call of the scheduler returns null
  have hroom : ∀ {task k₄}, (k₃.setupUserStack newProcess).2.osSchedulerSpawn others entryPoint
      newProcess true kOSUserStackTop = some (task, k₄) → task ≠ 0 := by
    intro task k₄ hspawn hnull
    have hresult := startProcess_of_spawn hstack hspawn
    rw [if_pos hnull, ← hspawn_eq] at hresult
    apply not_failed_of_traceless hfree htraceless hresult (show (-5 : Int32) < 0 by decide)
    rw [heapFree_vm]
    exact hkeeps₄ hspawn
  constructor
  · intro hnoRoom
    obtain ⟨k₄, hspawn⟩ :=
      (osSchedulerSpawn_null_iff hheap₄ hcreate.newProcess_ne entryPoint).mpr hnoRoom
    exact hroom hspawn rfl
  · rw [or_iff_not_imp_left, Option.eq_none_iff_forall_ne_some]
    rintro hlarge ⟨task, k₄⟩ hspawn
    have hresult := startProcess_of_spawn hstack hspawn
    rw [if_neg (hroom hspawn), ← hspawn_eq] at hresult
    -- the number of the process is taken for an error
    have hpid₄ : (k₄.process newProcess).processId = k.gOSSchedulerNextProcessID.toNat := by
      rw [(osSchedulerSpawn_meanwhile hcreate.newProcess_ne hspawn).process_eq]
      exact hloaded.processId_eq
    have hneg : (UInt32.ofNat (k₄.process newProcess).processId).toInt32 < 0 := by
      rw [processId_neg_iff (by rw [hpid₄]; exact k.gOSSchedulerNextProcessID.toNat_lt), hpid₄]
      rw [hpid] at hlarge
      exact Nat.not_lt.mp hlarge
    exact not_failed_of_traceless hfree htraceless hresult hneg (hkeeps₄ hspawn)

/-- If a spawn that finds a free frame leaves no trace when it fails, it does not fail
once there is a process. -/
theorem nothingFails_of_traceless : NothingFails others k₁ newProcess executableFile where
  image := image_of_traceless hheap hlength hfree htraceless hcreate
  entry := fun _ _ hread hmagic hzero =>
    loadImage_ne_null_of_traceless hfree htraceless hcreate hread
      ((loadImage_null_iff _ newProcess _).mpr ⟨hmagic, hzero⟩)
  task := fun _ _ hread hstack =>
    task_of_traceless hheap hlength hfree htraceless hcreate hread hstack

end FindsFrame

/-- If nothing fails once there is a process, a failure leaves no trace. -/
theorem traceless_of_nothingFails (hheap : HeapOrdered k)
    (hlength : ∀ file, k.openPath executablePath = some file →
      (k.volume.node file).dataLength < 2 ^ 32)
    (hnothing : ∀ file newProcess k₁, CreatesProcess k executablePath processName file newProcess k₁ →
      NothingFails others k₁ newProcess file) : Traceless others k executablePath processName := by
  intro r hresult hneg
  rcases osLoaderProcessSpawn_cases hresult with ⟨-, heq⟩ | ⟨_, k₀, -, -, halloc, heq⟩ |
    ⟨file, newProcess, k₁, hcreate, hspawn⟩
  · obtain rfl := Except.ok.inj heq
    exact SameResources.refl k
  · obtain rfl := Except.ok.inj heq
    exact sameResources_of_noRoom hheap halloc
  obtain ⟨-, hpid⟩ := hcreate.vm_eq
  obtain ⟨hheap₁, hvolume₁, -⟩ := hcreate.fileData_eq hheap
  have hsize := hlength file hcreate.openPath_eq
  rw [← hvolume₁] at hsize
  have hsucceeds := hnothing file newProcess k₁ hcreate
  rcases spawnFile_cases hspawn with ⟨k₀, halloc, -⟩ | ⟨imageBuffer, k₂, hread, hspawn⟩
  · -- there is room for the image
    rcases (hheap₁.allocate_null_iff (by omega)).mp ⟨k₀, halloc⟩ with hempty | hfull
    · exact absurd hempty hsucceeds.image.1
    · exact absurd hsucceeds.image.2 hfull
  have hloaded := hcreate.loaded hread
  obtain ⟨hheap₂, hheld⟩ := hread.ordered hheap₁ (by omega)
  rcases spawnImage_cases hspawn with ⟨hnull, -⟩ | ⟨-, hspawn⟩
  · obtain ⟨hmagic, hzero⟩ := (loadImage_null_iff k₂ newProcess imageBuffer).mp hnull
    exact absurd hzero (hsucceeds.entry imageBuffer k₂ hread hmagic)
  have htaskRoom := hsucceeds.task imageBuffer k₂ hread
  dsimp only at htaskRoom
  have hheap₃ : HeapOrdered ((k₂.loadImage newProcess imageBuffer).2.heapFree imageBuffer) :=
    HeapOrdered.free hheap₂ hheld
  generalize (k₂.loadImage newProcess imageBuffer).2.heapFree imageBuffer = k₃ at *
  generalize (k₂.loadImage newProcess imageBuffer).1 = entryPoint at *
  rcases startProcess_cases hspawn with ⟨-, heq⟩ | ⟨hstack, task, k₄, hspawned, hcases⟩
  · exact absurd heq (by simp)
  have hheap₄ : HeapOrdered (k₃.setupUserStack newProcess).2 := hheap₃
  obtain ⟨hroom, hnumber⟩ := htaskRoom hstack
  have hmeanwhile := osSchedulerSpawn_meanwhile hcreate.newProcess_ne hspawned
  rcases hcases with ⟨rfl, -⟩ | ⟨-, heq⟩
  · exact absurd ((osSchedulerSpawn_null_iff hheap₄ hcreate.newProcess_ne entryPoint).mp
      ⟨k₄, hspawned⟩) hroom
  · -- the number is that of a process
    have hlt := hnumber.resolve_right (by simp [hspawned])
    obtain rfl := Except.ok.inj heq
    have hpid₄ : (k₄.process newProcess).processId = (k₁.process newProcess).processId := by
      rw [hmeanwhile.process_eq, hpid]
      exact hloaded.processId_eq
    rw [hpid₄, processId_neg_iff (by omega)] at hneg
    omega

end Traces

/-! ## Section 3: Files without the magic number -/

/-- The spawn returns an error, and no task is linked in. -/
def Refused (others : OtherTasks) (k : Kernel) (executablePath processName : List UInt8) : Prop :=
  ∃ r, k.osLoaderProcessSpawn others executablePath processName = some (.ok r) ∧ r.status < 0 ∧
    r.task = 0

/-- No free block is large enough for a process structure. -/
def NoRoomForProcess (k : Kernel) : Prop := ¬ HasRoom k (alignSize sizeofProcess)

/-- Beside the process structure no free block is large enough for the image. -/
def NoRoomForImage (k : Kernel) (executablePath processName : List UInt8) (executableFile : Nat) :
    Prop :=
  ∃ newProcess k₁, CreatesProcess k executablePath processName executableFile newProcess k₁ ∧
    ¬ HasRoom k₁ (alignSize (k₁.volume.node executableFile).dataLength)

/-- With the image read and freed again and the stack set up, there is no room for a task. -/
def NoRoomForTask (others : OtherTasks) (k : Kernel) (executablePath processName : List UInt8)
    (executableFile entryPoint : Nat) : Prop :=
  ∃ newProcess k₁ imageBuffer k₂,
    CreatesProcess k executablePath processName executableFile newProcess k₁ ∧
    ReadsImage k₁ executableFile imageBuffer k₂ ∧
    NoTaskRoom others ((k₂.heapFree imageBuffer).setupUserStack newProcess).2 entryPoint newProcess

section Refusals

variable {k k₁ k₂ k₃ : Kernel} {others : OtherTasks} {executablePath processName : List UInt8}
  {executableFile newProcess imageBuffer : Nat} {data : Memory} {roots : List Nat} {role : Roles}
  {s s' : VMState} {c : Nat}

/-- `HOTLoad` says that it refuses such a file. -/
theorem hotLoad_refused (hmagic : (readHeader data).magic ≠ hotMagic) (s : VMState)
    (process : OSProcess) : hotLoad s process data = (2 ^ 64 - 1, s) := by
  unfold hotLoad
  simp only [if_pos hmagic]

/-- In a new address space the stack needs three tables and four pages. -/
theorem framesNeeded_new (h : AddsRoot roots role s c s') :
    framesNeeded s' c userStackPages = 7 := by
  have hpaths : (userStackPages.map upperPath).toFinset = {[0, 1, 383]} := by decide
  have hlength : userStackPages.length = 4 := by decide
  have hempty : childTable (s'.entry c 0) = none := by
    rw [h.entry_new, if_pos (by decide), childTable_zero]
  rw [framesNeeded, tablesNeeded, hpaths, hlength, card_absent_singleton, missing, hempty]
  rfl

/-- Without an image the stack is set up exactly with eight free frames. -/
theorem Loaded.setupUserStack_true_iff (h : Loaded k newProcess data k₃)
    (hconsistent : ∃ role, Consistent k.spaces role k.vm)
    (hmagic : (readHeader data).magic ≠ hotMagic) :
    (k₃.setupUserStack newProcess).1 = true ↔ 8 ≤ k.vm.pmm.freeCount := by
  obtain ⟨role, hconsistent⟩ := hconsistent
  have hvm := h.vm_eq
  have hprocess := h.toOSProcess_eq
  rw [hotLoad_refused hmagic] at hvm
  unfold Kernel.setupUserStack
  simp only [hvm, hprocess]
  rcases createAddressSpace_cases hconsistent.wellFormed hconsistent.isInitialized with
    ⟨hfull, heq⟩ | ⟨c, s, heq, -, hadd⟩
  · simp only [heq, setupUserStack_of_full hfull, Bool.false_eq_true, hfull, false_iff]
    decide
  · have hstack := OS.setupUserStack_true_iff ⟨_, hconsistent.addsRoot hadd⟩
      (List.mem_cons_self (l := k.spaces) (a := c))
    have hcount := hadd.freeCount_eq
    rw [framesNeeded_new hadd] at hstack
    simp only [heq, hstack]
    omega

/-- What is loaded is the file, so it is refused. -/
theorem CreatesProcess.refused
    (h : CreatesProcess k executablePath processName executableFile newProcess k₁)
    (hread : ReadsImage k₁ executableFile imageBuffer k₂) (hready : LoaderReady k)
    (hfile : ArchiveFile k executableFile)
    (hlength : hotHeaderSize ≤ (k.volume.node executableFile).dataLength)
    (hmagic : (readHeader (k.fileData executableFile)).magic ≠ hotMagic) :
    k₂.loadImage newProcess imageBuffer = (2 ^ 64 - 1, k₂) ∧
      (((k₂.heapFree imageBuffer).setupUserStack newProcess).1 = true ↔ 8 ≤ k.vm.pmm.freeCount) := by
  have hheader : readHeader (k₂.bytesAt imageBuffer) = readHeader (k.fileData executableFile) :=
    readHeader_congr fun x hx => h.bytesAt_eq hread hready.heap hfile x (by omega)
  have hloaded := h.loaded hread
  rw [← hheader] at hmagic
  have hload : k₂.loadImage newProcess imageBuffer = (2 ^ 64 - 1, k₂) := by
    unfold Kernel.loadImage
    rw [hotLoad_refused hmagic]
  rw [hload] at hloaded
  exact ⟨hload, hloaded.setupUserStack_true_iff hready.consistent hmagic⟩

end Refusals

/-- A file without the magic number is refused exactly if there is no room for it, for its
process or for its task. -/
theorem osLoaderProcessSpawn_refuses_iff (others : OtherTasks) (k : Kernel) (hready : LoaderReady k)
    (executablePath processName : List UInt8) (executableFile : Nat)
    (hopen : k.openPath executablePath = some executableFile) (hne : executableFile ≠ 0)
    (hfile : ArchiveFile k executableFile)
    (hlength : hotHeaderSize ≤ (k.volume.node executableFile).dataLength)
    (hmagic : (readHeader (k.fileData executableFile)).magic ≠ hotMagic) :
    Refused others k executablePath processName ↔
      NoRoomForProcess k ∨ NoRoomForImage k executablePath processName executableFile ∨
        (8 ≤ k.vm.pmm.freeCount ∧
          NoRoomForTask others k executablePath processName executableFile (2 ^ 64 - 1)) := by
  have hsize := hfile.dataLength_lt
  have hprocess := (hready.heap.allocate_null_iff (show sizeofProcess + 15 < 2 ^ 64 by decide)).trans
    (or_iff_right (by decide))
  -- the heap when the file is open, and when it is read
  have himage : ∀ {newProcess k₁},
      CreatesProcess k executablePath processName executableFile newProcess k₁ →
      ((∃ k', k₁.heapAllocate (k₁.volume.node executableFile).dataLength = some (0, k')) ↔
        ¬ HasRoom k₁ (alignSize (k₁.volume.node executableFile).dataLength)) := by
    intro newProcess k₁ hcreate
    obtain ⟨hheap₁, hvolume₁, -⟩ := hcreate.fileData_eq hready.heap
    rw [hvolume₁]
    simp only [hotHeaderSize] at hlength
    exact (hheap₁.allocate_null_iff (by omega)).trans (or_iff_right (by omega))
  have htaskRoom : ∀ {newProcess k₁ imageBuffer k₂},
      CreatesProcess k executablePath processName executableFile newProcess k₁ →
      ReadsImage k₁ executableFile imageBuffer k₂ → (entry : Nat) →
      ((∃ k', ((k₂.heapFree imageBuffer).setupUserStack newProcess).2.osSchedulerSpawn others entry
          newProcess true kOSUserStackTop = some (0, k')) ↔
        NoTaskRoom others ((k₂.heapFree imageBuffer).setupUserStack newProcess).2 entry
          newProcess) := by
    intro newProcess k₁ imageBuffer k₂ hcreate hread entry
    obtain ⟨hheap₁, hvolume₁, -⟩ := hcreate.fileData_eq hready.heap
    obtain ⟨hheap₂, hheld⟩ := hread.ordered hheap₁ (by rw [hvolume₁]; omega)
    have hheap₃ : HeapOrdered ((k₂.heapFree imageBuffer).setupUserStack newProcess).2 :=
      HeapOrdered.free hheap₂ hheld
    exact osSchedulerSpawn_null_iff hheap₃ hcreate.newProcess_ne entry
  constructor
  · rintro ⟨r, hresult, -, htask⟩
    rcases osLoaderProcessSpawn_cases hresult with ⟨hzero, -⟩ | ⟨_, k₀, -, -, halloc, -⟩ |
      ⟨file, newProcess, k₁, hcreate, hspawn⟩
    · exact absurd (Option.some.inj (hopen.symm.trans hzero)) hne
    · exact .inl (hprocess.mp ⟨k₀, halloc⟩)
    obtain rfl : executableFile = file := Option.some.inj (hopen.symm.trans hcreate.openPath_eq)
    rcases spawnFile_cases hspawn with ⟨k₀, halloc, -⟩ | ⟨imageBuffer, k₂, hread, hspawn⟩
    · exact .inr (.inl ⟨newProcess, k₁, hcreate, (himage hcreate).mp ⟨k₀, halloc⟩⟩)
    obtain ⟨hload, hstack⟩ := hcreate.refused hread hready hfile hlength hmagic
    rcases spawnImage_cases hspawn with ⟨hzero, -⟩ | ⟨-, hspawn⟩
    · -- -1 is not the error that the loader looks for
      rw [hload] at hzero
      exact absurd hzero (show 2 ^ 64 - 1 ≠ 0 by decide)
    rw [hload] at hspawn
    rcases startProcess_cases hspawn with ⟨-, heq⟩ | ⟨hset, task, k₄, hspawned, hcases⟩
    · exact absurd heq (by simp)
    rcases hcases with ⟨rfl, -⟩ | ⟨hstarted, heq⟩
    · exact .inr (.inr ⟨hstack.mp hset, newProcess, k₁, imageBuffer, k₂, hcreate, hread,
        (htaskRoom hcreate hread _).mp ⟨k₄, hspawned⟩⟩)
    · obtain rfl := Except.ok.inj heq
      exact absurd htask hstarted
  · rintro (hfull | ⟨newProcess, k₁, hcreate, hfull⟩ |
      ⟨hframes, newProcess, k₁, imageBuffer, k₂, hcreate, hread, hfull⟩)
    · obtain ⟨k₀, halloc⟩ := hprocess.mpr hfull
      refine ⟨⟨-2, 0, 0, k₀⟩, ?_, show (-2 : Int32) < 0 by decide, rfl⟩
      unfold Kernel.osLoaderProcessSpawn
      simp only [hopen, Option.bind_some, if_neg hne, halloc, if_true]
    · obtain ⟨k₀, halloc⟩ := (himage hcreate).mpr hfull
      refine ⟨⟨-3, newProcess, 0, k₀.heapFree newProcess⟩, ?_, show (-3 : Int32) < 0 by decide, rfl⟩
      rw [hcreate.spawn_eq]
      unfold Kernel.spawnFile
      simp only [halloc, Option.bind_some, if_true]
    · obtain ⟨hload, hstack⟩ := hcreate.refused hread hready hfile hlength hmagic
      obtain ⟨k₄, hspawned⟩ := (htaskRoom hcreate hread _).mpr hfull
      refine ⟨⟨-5, newProcess, 0, k₄.heapFree newProcess⟩, ?_, show (-5 : Int32) < 0 by decide, rfl⟩
      rw [hcreate.spawn_eq, hread.spawn_eq]
      unfold Kernel.spawnImage Kernel.startProcess
      simp only [hload, hstack.mpr hframes, hspawned, Option.map_some, if_true, Bool.true_eq_false,
        if_false, (by decide : ¬ 2 ^ 64 - 1 = 0)]

section Zeros

variable {vm : VMState} {size : Nat}

/-- A file of zeros does not have the magic number. -/
theorem programKernel_zeros_magic :
    (readHeader ((programKernel vm (fun _ => 0) size).fileData 2)).magic ≠ hotMagic := by
  have hheader : readHeader ((programKernel vm (fun _ => 0) size).fileData 2) =
      readHeader fun _ => 0 := by
    apply readHeader_congr
    intro x hx
    exact programKernel_fileData (Nat.lt_trans hx (by decide))
  rw [hheader]
  decide

/-- No block is larger than the arena. -/
theorem not_hasRoom_large {k : Kernel} (hlarge : heapArenaSize < size) : ¬ HasRoom k size := by
  rintro ⟨bs, hlayout, b, hb, -, hfits⟩
  obtain ⟨hstart, hstop⟩ := hlayout.laid.bounds adjacency_eq hb
  unfold Block.stop at hstop
  omega

end Zeros

/-- A file that is larger than the heap is refused. -/
theorem osLoaderProcessSpawn_refuses_large : ∃ heap vm, heapMachine.bootHeap = some (heap, vm) ∧
    Refused noOtherTasks (programKernel vm (fun _ => 0) (2 ^ 23)) ("init".toList.map Char.toUInt8)
      ("init".toList.map Char.toUInt8) := by
  obtain ⟨heap, vm, hboot, -⟩ := heapMachine_bootHeap
  have hisolated := kernelIsolated_of_bootHeap heapMachine_accepted hboot
  have hroom : HasRoom (programKernel vm (fun _ => 0) (2 ^ 23)) (0 + blockCost sizeofProcess) :=
    programKernel_hasRoom (by decide)
  have hopen := programKernel_openPath vm (fun _ => 0) (2 ^ 23)
  refine ⟨heap, vm, hboot, ?_⟩
  apply (osLoaderProcessSpawn_refuses_iff noOtherTasks _ ⟨hisolated.1, hroom.ordered⟩ _ _ 2 hopen
    (by decide) (programKernel_archiveFile (by decide)) (show 32 ≤ 2 ^ 23 by decide)
    programKernel_zeros_magic).mpr
  obtain ⟨newProcess, k₁, hcreate, -⟩ :=
    hroom.createsProcess ("init".toList.map Char.toUInt8) hopen (by decide)
  obtain ⟨-, hvolume, -⟩ := hcreate.fileData_eq hroom.ordered
  have hlength : (k₁.volume.node 2).dataLength = 2 ^ 23 := by
    rw [hvolume]
    rfl
  refine .inr (.inl ⟨newProcess, k₁, hcreate, ?_⟩)
  rw [hlength]
  exact not_hasRoom_large (by decide)

/-- A file of zeros is started, with the entry point -1. -/
theorem not_refused_zeros : ∃ heap vm, heapMachine.bootHeap = some (heap, vm) ∧
    ¬ Refused noOtherTasks (programKernel vm (fun _ => 0) 32) ("init".toList.map Char.toUInt8)
      ("init".toList.map Char.toUInt8) := by
  obtain ⟨heap, vm, hboot, hcount⟩ := heapMachine_bootHeap
  have hisolated := kernelIsolated_of_bootHeap heapMachine_accepted hboot
  obtain ⟨role, hconsistent⟩ := hisolated.1
  refine ⟨heap, vm, hboot, ?_⟩
  rcases createAddressSpace_cases hconsistent.wellFormed hconsistent.isInitialized with
    ⟨hfull, -⟩ | ⟨c, s, heq, -, hadd⟩
  · omega
  have hstack := setupUserStack_true_iff ⟨_, hconsistent.addsRoot hadd⟩
    (List.mem_cons_self (l := []) (a := c))
  have hfree := hadd.freeCount_eq
  rw [framesNeeded_new hadd] at hstack
  obtain ⟨r, data, hresult, hstatus, -⟩ := programKernel_spawns noOtherTasks
    ("init".toList.map Char.toUInt8) (show 0 < 32 ∧ 32 ≤ 4096 by decide) heq (fun _ => 0)
    fun data hsame => by
      have hheader : readHeader data = readHeader fun _ => 0 :=
        readHeader_congr fun x hx => hsame x hx
      have hmagic : (readHeader data).magic ≠ hotMagic := by
        rw [hheader]
        decide
      rw [hotLoad_refused hmagic]
      exact ⟨show 2 ^ 64 - 1 ≠ 0 by decide, hstack.mpr (by omega)⟩
  rintro ⟨r', hresult', hneg, -⟩
  obtain rfl := Except.ok.inj (Option.some.inj (hresult'.symm.trans hresult))
  rw [hstatus] at hneg
  exact absurd hneg (by decide)

end TermOS.OS
