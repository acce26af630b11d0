import TermOS.OS.SpawnRoom

/-!
# A spawned process is complete

The loader checks neither the new address space nor the pages of the image. It
need not: `VMVirtualMemorySetupUserStack` comes last and panics if a frame is
missing, and once a frame has been missing none is free any more.

## Main Theorems

* `osLoaderProcessSpawn_built` - a process whose number is returned has a page
  table, and all its pages have frames that were handed out during the call
-/

namespace TermOS.OS

open TermOS.Lib TermOS.Kernel TermOS.VM TermOS.FS VMState

/-! ## Section 1: The whole process -/

/-- From `k` to `k'` the frame was handed out: it was free, and it is in use. -/
def HandedOut (k k' : Kernel) (frame : Nat) : Prop :=
  k.vm.pmm.FrameFree (frame / kVMPageSize) ∧ ¬ k'.vm.pmm.FrameFree (frame / kVMPageSize)

/-- The new process has page tables of its own, and every page of its image and
of its stack is mapped to a frame that was handed out for it. -/
structure FullyBuilt (k : Kernel) (data : Memory) (newProcess : Nat) (k' : Kernel) : Prop where
  physicalPML4_ne : (k'.process newProcess).physicalPML4 ≠ 0
  physicalPML4_handedOut : HandedOut k k' (k'.process newProcess).physicalPML4
  mapped : ∀ page, page % 4096 = 0 →
    (∃ segment ∈ hotSegments data, segment.memsz ≠ 0 ∧ segment.MeetsPage (page / 4096)) ∨
      (kVMUserStackTop - kVMUserStackSize ≤ page ∧ page < kVMUserStackTop) →
    ∃ frame, k'.vm.walk (k'.process newProcess).physicalPML4 page = some (frame, pteUserData) ∧
      HandedOut k k' frame

section Build

variable {k k₁ k₂ k₃ : Kernel} {newProcess : Nat} {data : Memory}

/-- When the stack is set up, the process has page tables and all its pages. -/
theorem Loaded.granted (h : Loaded k newProcess data k₃)
    (hconsistent : ∃ role, Consistent k.spaces role k.vm)
    (hstack : (k₃.setupUserStack newProcess).1 = true) :
    (k₃.process newProcess).physicalPML4 ≠ 0 ∧
    (k₃.process newProcess).physicalPML4 ∈ k₃.spaces ∧
    k.vm.pmm.FrameFree ((k₃.process newProcess).physicalPML4 / kVMPageSize) ∧
    ∃ role role' s₁, s₁.pmm.freeCount + 1 = k.vm.pmm.freeCount ∧
      (∀ {f}, s₁.pmm.FrameFree f → k.vm.pmm.FrameFree f) ∧
      ¬ s₁.pmm.FrameFree ((k₃.process newProcess).physicalPML4 / kVMPageSize) ∧
      (∀ virt, ¬ KernelHalf virt → s₁.walk (k₃.process newProcess).physicalPML4 virt = none) ∧
      PagesGranted k₃.spaces none role s₁ (k₃.process newProcess).physicalPML4 (processPages data)
        role' (k₃.setupUserStack newProcess).2.vm := by
  obtain ⟨role, hconsistent⟩ := hconsistent
  have hpml4 : (k₃.process newProcess).physicalPML4 = (vmVirtualMemoryCreateAddressSpace k.vm).1 :=
    congrArg OSProcess.physicalPML4 h.toOSProcess_eq
  have hresult : (k₃.setupUserStack newProcess).1 =
      (vmVirtualMemorySetupUserStack k₃.vm (k₃.process newProcess).physicalPML4).1 := rfl
  have hvm : (k₃.setupUserStack newProcess).2.vm =
      (vmVirtualMemorySetupUserStack k₃.vm (k₃.process newProcess).physicalPML4).2 := rfl
  have hspaces := h.spaces_eq
  rw [hresult, hpml4, h.vm_eq] at hstack
  rw [hvm, hpml4, h.vm_eq]
  rcases createAddressSpace_cases hconsistent.wellFormed hconsistent.isInitialized with
    ⟨hfull, heq⟩ | ⟨c, s₁, heq, hne, hadd⟩
  · -- without a free frame the stack is not set up
    rw [heq] at hstack
    have hfull' := full_of_keeps (keeps_hotLoad k.vm ⟨0, kOSHeapStart⟩ data) hfull
    rw [setupUserStack_of_full hfull'] at hstack
    exact absurd hstack (by simp)
  · rw [heq] at hstack hspaces ⊢
    simp only [if_neg hne] at hstack hspaces ⊢
    have hmem : c ∈ c :: k.spaces := List.mem_cons_self
    have h₁ := hconsistent.addsRoot hadd
    obtain ⟨role', hgranted, -⟩ := processPages_granted h₁ ⟨c, kOSHeapStart⟩ hmem
      ((setupUserStack_hotLoad_true_iff h₁ hmem).mp hstack)
    rw [hspaces]
    refine ⟨hne, hmem, hadd.free, _, role', s₁, hadd.freeCount_eq.symm, hadd.free_of_free, ?_,
      fun _ => hadd.walk_new, hgranted⟩
    exact h₁.wellFormed.role_notFree (Function.update_self ..)

theorem kernelHalf_of_userStack {page : Nat} (h : page < kVMUserStackTop) : ¬ KernelHalf page := by
  apply lowHalf_of_lt
  exact Nat.lt_trans h (by decide)

/-- A process whose task was spawned is complete, whatever the other tasks did. -/
theorem Loaded.fullyBuilt (h : Loaded k newProcess data k₃)
    (hconsistent : ∃ role, Consistent k.spaces role k.vm)
    (hstack : (k₃.setupUserStack newProcess).1 = true) {size : Nat} (hprogram : UserProgram data size)
    {k₄ : Kernel} (hmeanwhile : Meanwhile newProcess (k₃.setupUserStack newProcess).2 k₄) :
    FullyBuilt k data newProcess k₄ := by
  obtain ⟨hne, hmem, hfree, role, role', s₁, -, hfree₁, htaken, -, hgranted⟩ :=
    h.granted hconsistent hstack
  have hprocess : (k₄.process newProcess).physicalPML4 = (k₃.process newProcess).physicalPML4 :=
    congrArg (fun record => record.toOSProcess.physicalPML4) hmeanwhile.process_eq
  -- The other tasks have kept the low half of the process.
  have hspares : Spares (k₃.process newProcess).physicalPML4 k₃.spaces
      (k₃.setupUserStack newProcess).2.vm k₄.spaces k₄.vm :=
    hmeanwhile.calls.spares ⟨role', hgranted.consistent⟩ hmem
  have htaken' : ∀ {frame}, ¬ (k₃.setupUserStack newProcess).2.vm.pmm.FrameFree frame →
      ¬ k₄.vm.pmm.FrameFree frame := fun hnot hf => hnot (hspares.free_of_free hf)
  exact {
    physicalPML4_ne := by
      rw [hprocess]
      exact hne
    physicalPML4_handedOut := by
      rw [hprocess]
      exact ⟨hfree, htaken' fun hf => htaken (hgranted.free_of_free hf)⟩
    mapped := by
      intro page halign hpage
      rw [hprocess]
      have hpages : page ∈ processPages data := by
        rw [processPages, List.mem_append]
        rcases hpage with ⟨segment, hsegment, -, hmeets⟩ | hstack
        · exact .inl (hprogram.mem_hotPages.mpr ⟨halign, segment, hsegment, hmeets⟩)
        · exact .inr (mem_userStackPages.mpr ⟨halign, hstack⟩)
      -- Image and stack both lie in the low half.
      have hlow : ¬ KernelHalf page := by
        rcases List.mem_append.mp hpages with himage | hstack
        · exact lowHalf_of_lt (hprogram.hotPages_lt himage)
        · exact kernelHalf_of_userStack (mem_userStackPages.mp hstack).2.2
      obtain ⟨frame, hwalk, -, hframe, hframe', -⟩ := hgranted.granted page hpages
      exact ⟨frame, by rw [hspares.walk_eq page hlow, hwalk], hfree₁ hframe, htaken' hframe'⟩ }

/-- Only a spawn that linked in a task returns a number. -/
theorem task_ne_of_status {others : OtherTasks} {executablePath processName : List UInt8}
    {r : SpawnResult}
    (hresult : k.osLoaderProcessSpawn others executablePath processName = some (.ok r))
    (hpid : 0 ≤ r.status) : r.task ≠ 0 := by
  rcases osLoaderProcessSpawn_cases hresult with ⟨-, heq⟩ | ⟨_, _, -, -, -, heq⟩ |
    ⟨file, newProcess, k₁, -, hspawn⟩
  · obtain rfl := Except.ok.inj heq
    exact absurd (show (0 : Int32) ≤ -1 from hpid) (by decide)
  · obtain rfl := Except.ok.inj heq
    exact absurd (show (0 : Int32) ≤ -2 from hpid) (by decide)
  rcases spawnFile_cases hspawn with ⟨_, -, heq⟩ | ⟨imageBuffer, k₂, -, hspawn⟩
  · obtain rfl := Except.ok.inj heq
    exact absurd (show (0 : Int32) ≤ -3 from hpid) (by decide)
  rcases spawnImage_cases hspawn with ⟨-, heq⟩ | ⟨-, hspawn⟩
  · obtain rfl := Except.ok.inj heq
    exact absurd (show (0 : Int32) ≤ -4 from hpid) (by decide)
  rcases startProcess_cases hspawn with ⟨-, heq⟩ | ⟨-, task, k₄, -, ⟨-, heq⟩ | ⟨htask, heq⟩⟩
  · exact absurd heq (by simp)
  · obtain rfl := Except.ok.inj heq
    exact absurd (show (0 : Int32) ≤ -5 from hpid) (by decide)
  · obtain rfl := Except.ok.inj heq
    exact htask

/-- Before its task was linked in, a file was read and loaded, and the stack set up. -/
theorem exists_points_of_started {others : OtherTasks} {executablePath processName : List UInt8}
    {r : SpawnResult}
    (hresult : k.osLoaderProcessSpawn others executablePath processName = some (.ok r))
    (hstarted : r.task ≠ 0) :
    ∃ executableFile k₁ imageBuffer k₂,
      CreatesProcess k executablePath processName executableFile r.newProcess k₁ ∧
      ReadsImage k₁ executableFile imageBuffer k₂ ∧
      (((k₂.loadImage r.newProcess imageBuffer).2.heapFree imageBuffer).setupUserStack
        r.newProcess).1 = true ∧
      Meanwhile r.newProcess (((k₂.loadImage r.newProcess imageBuffer).2.heapFree
        imageBuffer).setupUserStack r.newProcess).2 r.kernel := by
  rcases osLoaderProcessSpawn_cases hresult with ⟨-, heq⟩ | ⟨_, _, -, -, -, heq⟩ |
    ⟨file, newProcess, k₁, hcreate, hspawn⟩
  -- Everywhere before the end the loader returns the null task.
  · obtain rfl := Except.ok.inj heq
    exact absurd rfl hstarted
  · obtain rfl := Except.ok.inj heq
    exact absurd rfl hstarted
  rcases spawnFile_cases hspawn with ⟨_, -, heq⟩ | ⟨imageBuffer, k₂, hread, hspawn⟩
  · obtain rfl := Except.ok.inj heq
    exact absurd rfl hstarted
  rcases spawnImage_cases hspawn with ⟨-, heq⟩ | ⟨-, hspawn⟩
  · obtain rfl := Except.ok.inj heq
    exact absurd rfl hstarted
  rcases startProcess_cases hspawn with ⟨-, heq⟩ | ⟨hstack, task, k₄, htask, ⟨-, heq⟩ | ⟨-, heq⟩⟩
  · exact absurd heq (by simp)
  · obtain rfl := Except.ok.inj heq
    exact absurd rfl hstarted
  · obtain rfl := Except.ok.inj heq
    exact ⟨file, k₁, imageBuffer, k₂, hcreate, hread, hstack,
      osSchedulerSpawn_meanwhile hcreate.newProcess_ne htask⟩

/-- What was loaded is the file. -/
theorem exists_loaded_of_started {others : OtherTasks} {executablePath processName : List UInt8}
    {executableFile : Nat} {r : SpawnResult}
    (hheap : HeapOrdered k) (hopen : k.openPath executablePath = some executableFile)
    (hfile : ArchiveFile k executableFile)
    (hresult : k.osLoaderProcessSpawn others executablePath processName = some (.ok r))
    (hstarted : r.task ≠ 0) :
    ∃ k₃ data, Loaded k r.newProcess data k₃ ∧ (k₃.setupUserStack r.newProcess).1 = true ∧
      Meanwhile r.newProcess (k₃.setupUserStack r.newProcess).2 r.kernel ∧
      ∀ i, i < (k.volume.node executableFile).dataLength → k.fileData executableFile i = data i := by
  obtain ⟨file, k₁, imageBuffer, k₂, hcreate, hread, hstack, hmeanwhile⟩ :=
    exists_points_of_started hresult hstarted
  obtain rfl : executableFile = file := Option.some.inj (hopen.symm.trans hcreate.openPath_eq)
  exact ⟨_, _, hcreate.loaded hread, hstack, hmeanwhile,
    fun i hi => (hcreate.bytesAt_eq hread hheap hfile i hi).symm⟩

end Build

end TermOS.OS
