import TermOS.VM.AddressSpaceMap
import TermOS.VM.PMMInitialize

/-!
# Booting the virtual memory manager

`kmain` initialises the physical memory manager, then the page tables. The
calls that `VMVirtualMemoryInitialize` makes are calls like any later ones, so
the refinement holds after boot and from there in every run.
-/

namespace TermOS.VM

open TermOS.Lib TermOS.Kernel TermOS.Lib.TableForest VMState

/-! ## Section 1: The machine -/

/-- What `kmain` finds: the firmware memory map, the kernel image, the
framebuffer and the contents of memory. -/
structure Machine where
  memoryMap : List OSMemoryDescriptor
  image : KernelImage
  layout : BootLayout
  memory : Memory

/-- The physical address space has 52 bits, and the framebuffer is a range of
pages in it. -/
structure Machine.Accepted (m : Machine) : Prop where
  map : AcceptedMap m.memoryMap m.image
  memory_le : maxPhysicalAddress m.memoryMap ≤ 2 ^ 52
  image_end : m.image.kernelEnd < 2 ^ 64
  framebuffer_aligned : m.layout.framebufferBase % 4096 = 0
  framebuffer_end : m.layout.framebufferBase + m.layout.framebufferSize ≤ 2 ^ 52

/-- `VMPhysicalMemoryInitialize` and `VMVirtualMemoryInitialize`, as `kmain`
calls them. -/
def Machine.boot (m : Machine) : Option VMState :=
  (vmPhysicalMemoryInitialize m.memoryMap m.image).map fun pmm =>
    vmVirtualMemoryInitialize m.memory pmm m.layout m.image

/-- The state in which `VMVirtualMemoryInitialize` starts to map: an empty PML4. -/
def bootTables (mem : Memory) (pmm : VMPhysicalMemory) : VMState :=
  let (phys, s) := VMState.allocatePage ⟨mem, pmm, 0, false⟩
  { s with kernelPML4 := phys }.clearPage phys

namespace VMRun

/-- No address space besides the kernel's, and nothing mapped. -/
def start (vm : VMState) : VMRun := ⟨vm, [], fun _ _ => none, fun _ _ => false⟩

/-- The calls that `VMVirtualMemoryInitialize` makes. -/
def bootCalls (m : Machine) (pml4 totalMemorySize : Nat) : List VMCall :=
  (bootPages m.layout m.image totalMemorySize).map
      (fun page => .mapPage pml4 page.1 page.2 pteKernelData) ++
    [.unmapPage pml4 m.layout.stackGuard]

/-- The run up to the end of those calls. -/
def bootRun (m : Machine) (pmm : VMPhysicalMemory) : VMRun :=
  (bootCalls m (bootTables m.memory pmm).kernelPML4 pmm.totalMemorySize).foldl step
    (start (bootTables m.memory pmm))

/-- The run at the end of `VMVirtualMemoryInitialize`. -/
def boot (m : Machine) : Option VMRun :=
  (vmPhysicalMemoryInitialize m.memoryMap m.image).map fun pmm =>
    { bootRun m pmm with vm := vmVirtualMemoryInitialize m.memory pmm m.layout m.image }

end VMRun

/-! ## Section 2: What no call changes -/

/-- The globals of `VMM.c` and the place of the bitmap are the same, and no
frame has become free. -/
structure Keeps (s s' : VMState) : Prop where
  kernelPML4_eq : s'.kernelPML4 = s.kernelPML4
  isInitialized_eq : s'.isInitialized = s.isInitialized
  bitmapAddress_eq : s'.pmm.bitmapAddress = s.pmm.bitmapAddress
  length_eq : s'.pmm.bitmap.length = s.pmm.bitmap.length
  free_of_free : ∀ {f}, s'.pmm.FrameFree f → s.pmm.FrameFree f

theorem Keeps.refl (s : VMState) : Keeps s s := ⟨rfl, rfl, rfl, rfl, id⟩

theorem Keeps.trans {s s' s'' : VMState} (h : Keeps s s') (h' : Keeps s' s'') : Keeps s s'' :=
  ⟨h'.kernelPML4_eq.trans h.kernelPML4_eq, h'.isInitialized_eq.trans h.isInitialized_eq,
    h'.bitmapAddress_eq.trans h.bitmapAddress_eq, h'.length_eq.trans h.length_eq, fun hf => h.free_of_free (h'.free_of_free hf)⟩

theorem keeps_store (s : VMState) (pointer index value : Nat) :
    Keeps s (s.store pointer index value) := ⟨rfl, rfl, rfl, rfl, id⟩

theorem keeps_clearPage (s : VMState) (pointer : Nat) : Keeps s (s.clearPage pointer) where
  kernelPML4_eq := clearPage_kernelPML4 s pointer
  isInitialized_eq := clearPage_isInitialized s pointer
  bitmapAddress_eq := by rw [clearPage_pmm]
  length_eq := by rw [clearPage_pmm]
  free_of_free := fun hf => by rwa [clearPage_pmm] at hf

theorem keeps_allocatePage (s : VMState) : Keeps s s.allocatePage.2 := by
  rcases allocatePage_cases s.pmm with ⟨-, heq⟩ | ⟨f, -, -, -, -, haddress, hlength, hfree⟩
  · have hsame : s.allocatePage.2 = s := by rw [VMState.allocatePage, heq]
    rw [hsame]
    exact Keeps.refl s
  · exact ⟨rfl, rfl, haddress, hlength, fun hg => ((hfree _).mp hg).1⟩

theorem keeps_descendOrCreate (s : VMState) (table index flags : Nat) :
    Keeps s (descendOrCreate s table index flags).2 := by
  rw [descendOrCreate]
  split
  · simp only
    split
    · exact keeps_allocatePage s
    · exact (keeps_allocatePage s).trans ((keeps_clearPage _ _).trans (keeps_store _ _ _ _))
  · exact keeps_store s _ _ _

theorem keeps_mapPage (s : VMState) (pml4 phys virt flags : Nat) :
    Keeps s (vmVirtualMemoryMapPage s pml4 phys virt flags).2 := by
  rw [vmVirtualMemoryMapPage, sVMVirtualMemoryMapPageInternal]
  have h1 := keeps_descendOrCreate s pml4 (vmmPML4Index virt) flags
  generalize descendOrCreate s pml4 (vmmPML4Index virt) flags = level1 at h1 ⊢
  obtain ⟨_ | pdpt, s₁⟩ := level1
  · exact h1
  have h2 := h1.trans (keeps_descendOrCreate s₁ pdpt (vmmPDPTIndex virt) flags)
  simp only
  generalize descendOrCreate s₁ pdpt (vmmPDPTIndex virt) flags = level2 at h2 ⊢
  obtain ⟨_ | pd, s₂⟩ := level2
  · exact h2
  have h3 := h2.trans (keeps_descendOrCreate s₂ pd (vmmPDIndex virt) flags)
  simp only
  generalize descendOrCreate s₂ pd (vmmPDIndex virt) flags = level3 at h3 ⊢
  obtain ⟨_ | pt, s₃⟩ := level3
  · exact h3
  · exact h3.trans (keeps_store s₃ _ _ _)

theorem keeps_unmapPage (s : VMState) (pml4 virt : Nat) :
    Keeps s (vmVirtualMemoryUnmapPage s pml4 virt) := by
  rw [vmVirtualMemoryUnmapPage, sVMVirtualMemoryUnmapPageInternal]
  simp only
  split_ifs
  · exact Keeps.refl s
  · exact Keeps.refl s
  · exact Keeps.refl s
  · exact keeps_store s _ _ _

theorem keeps_copyKernelHalf (virt kernelVirt i n : Nat) (s : VMState) :
    Keeps s (copyKernelHalf s virt kernelVirt i n) := by
  induction n generalizing s i with
  | zero => exact Keeps.refl s
  | succ n ih => exact (keeps_store s _ _ _).trans (ih _ _)

theorem keeps_createAddressSpace (s : VMState) :
    Keeps s (vmVirtualMemoryCreateAddressSpace s).2 := by
  rw [vmVirtualMemoryCreateAddressSpace]
  simp only
  split
  · exact keeps_allocatePage s
  · have hclear := (keeps_allocatePage s).trans
      (keeps_clearPage s.allocatePage.2 (physToHhdm s.allocatePage.1))
    -- for any number of turns, so that the loop is not unrolled
    have hcopy : ∀ virt kernelVirt n, Keeps s (s.allocatePage.1,
        copyKernelHalf (s.allocatePage.2.clearPage (physToHhdm s.allocatePage.1)) virt kernelVirt
          256 n).2 := fun _ _ _ => hclear.trans (keeps_copyKernelHalf _ _ _ _ _)
    exact hcopy _ _ 256

theorem VMRun.keeps_step (σ : VMRun) (call : VMCall) : Keeps σ.vm (σ.step call).vm := by
  cases call with
  | createAddressSpace =>
    have h := keeps_createAddressSpace σ.vm
    rw [VMRun.step]
    generalize vmVirtualMemoryCreateAddressSpace σ.vm = result at h ⊢
    obtain ⟨pml4, vm⟩ := result
    simp only
    split <;> exact h
  | mapPage pml4 phys virt flags =>
    have h := keeps_mapPage σ.vm pml4 phys virt flags
    rw [VMRun.step]
    generalize vmVirtualMemoryMapPage σ.vm pml4 phys virt flags = result at h ⊢
    obtain ⟨_ | _, vm⟩ := result <;> exact h
  | unmapPage pml4 virt =>
    have h := keeps_unmapPage σ.vm pml4 virt
    rw [VMRun.step]
    cases σ.owner pml4 virt <;> exact h
  | allocatePage => exact keeps_allocatePage σ.vm

theorem VMRun.keeps_foldl_step (calls : List VMCall) (σ : VMRun) :
    Keeps σ.vm (calls.foldl VMRun.step σ).vm := by
  induction calls generalizing σ with
  | nil => exact Keeps.refl σ.vm
  | cons call rest ih => exact (σ.keeps_step call).trans (ih (σ.step call))

/-- Only `VMVirtualMemoryCreateAddressSpace` adds an address space. -/
theorem VMRun.spaces_step (σ : VMRun) {call : VMCall} (hcall : call ≠ .createAddressSpace) :
    (σ.step call).spaces = σ.spaces := by
  cases call with
  | createAddressSpace => exact absurd rfl hcall
  | mapPage pml4 phys virt flags =>
    rw [VMRun.step]
    rcases vmVirtualMemoryMapPage σ.vm pml4 phys virt flags with ⟨_ | _, vm⟩ <;> rfl
  | unmapPage pml4 virt =>
    rw [VMRun.step]
    cases σ.owner pml4 virt <;> rfl
  | allocatePage => rfl

theorem VMRun.spaces_foldl_step {calls : List VMCall}
    (hcalls : ∀ call ∈ calls, call ≠ .createAddressSpace) (σ : VMRun) :
    (calls.foldl VMRun.step σ).spaces = σ.spaces := by
  induction calls generalizing σ with
  | nil => rfl
  | cons call rest ih =>
    rw [List.foldl_cons, ih (fun c hc => hcalls c (List.mem_cons_of_mem _ hc)),
      σ.spaces_step (hcalls call List.mem_cons_self)]

/-! ## Section 3: The calls of `VMVirtualMemoryInitialize` -/

/-- A run of map calls does what the mapping loops do. -/
theorem foldl_mapPage_vm (pml4 : Nat) (pages : List (Nat × Nat)) (σ : VMRun) :
    ((pages.map fun page => VMCall.mapPage pml4 page.1 page.2 pteKernelData).foldl VMRun.step
      σ).vm = mapPages pml4 pteKernelData σ.vm pages := by
  induction pages generalizing σ with
  | nil => rfl
  | cons page rest ih =>
    rw [List.map_cons, List.foldl_cons, ih, mapPages, mapPages, List.foldl_cons]
    congr 1
    rw [VMRun.step]
    rcases vmVirtualMemoryMapPage σ.vm pml4 page.1 page.2 pteKernelData with ⟨_ | _, vm⟩ <;> rfl

theorem mapPages_kernelPML4 (pml4 flags : Nat) (pages : List (Nat × Nat)) (s : VMState) :
    (mapPages pml4 flags s pages).kernelPML4 = s.kernelPML4 := by
  induction pages generalizing s with
  | nil => rfl
  | cons page rest ih =>
    rw [mapPages, List.foldl_cons, ← mapPages, ih]
    exact (keeps_mapPage s pml4 page.1 page.2 flags).kernelPML4_eq

theorem bootTables_totalMemorySize (mem : Memory) (pmm : VMPhysicalMemory) :
    (bootTables mem pmm).pmm.totalMemorySize = pmm.totalMemorySize := by
  simp only [bootTables, clearPage_pmm, VMState.allocatePage]
  rcases allocatePage_cases pmm with ⟨-, heq⟩ | ⟨f, -, -, -, heq, -⟩
  · rw [heq]
  · exact heq

/-- The state after the calls: the page tables that `VMVirtualMemoryInitialize` builds. -/
theorem bootRun_vm (m : Machine) (pmm : VMPhysicalMemory) :
    (VMRun.bootRun m pmm).vm = vmVirtualMemoryUnmapPage
      (mapPages (bootTables m.memory pmm).kernelPML4 pteKernelData (bootTables m.memory pmm)
        (bootPages m.layout m.image pmm.totalMemorySize))
      (bootTables m.memory pmm).kernelPML4 m.layout.stackGuard := by
  rw [VMRun.bootRun, VMRun.bootCalls, List.foldl_append, List.foldl_cons, List.foldl_nil]
  have hvm := foldl_mapPage_vm (bootTables m.memory pmm).kernelPML4
    (bootPages m.layout m.image pmm.totalMemorySize) (VMRun.start (bootTables m.memory pmm))
  generalize List.foldl VMRun.step _ _ = σ at hvm ⊢
  rw [show (VMRun.start (bootTables m.memory pmm)).vm = bootTables m.memory pmm from rfl] at hvm
  rw [← hvm, VMRun.step]
  cases σ.owner (bootTables m.memory pmm).kernelPML4 m.layout.stackGuard <;> rfl

/-- The last lines of `VMVirtualMemoryInitialize`: from here on kernel pointers
are pointers into the direct map, the bitmap's included. -/
def VMState.activate (s : VMState) (bitmapAddress : Nat) : VMState :=
  { s with pmm := { s.pmm with bitmapAddress }, isInitialized := true }

theorem activate_mem (s : VMState) (address : Nat) : (s.activate address).mem = s.mem := rfl

theorem activate_kernelPML4 (s : VMState) (address : Nat) :
    (s.activate address).kernelPML4 = s.kernelPML4 := rfl

theorem activate_isInitialized (s : VMState) (address : Nat) :
    (s.activate address).isInitialized = true := rfl

theorem activate_bitmap (s : VMState) (address : Nat) :
    (s.activate address).pmm.bitmap = s.pmm.bitmap := rfl

theorem activate_frameFree (s : VMState) (address f : Nat) :
    (s.activate address).pmm.FrameFree f ↔ s.pmm.FrameFree f := Iff.rfl

theorem activate_freeCount (s : VMState) (address : Nat) :
    (s.activate address).pmm.freeCount = s.pmm.freeCount := rfl

theorem vmVirtualMemoryInitialize_eq (m : Machine) (pmm : VMPhysicalMemory) :
    vmVirtualMemoryInitialize m.memory pmm m.layout m.image =
      (VMRun.bootRun m pmm).vm.activate
        (physToHhdm (VMRun.bootRun m pmm).vm.pmm.bitmapAddress) := by
  have htables : vmVirtualMemoryInitialize m.memory pmm m.layout m.image =
      let s := mapPages (bootTables m.memory pmm).kernelPML4 pteKernelData (bootTables m.memory pmm)
        (bootPages m.layout m.image (bootTables m.memory pmm).pmm.totalMemorySize)
      let s := vmVirtualMemoryUnmapPage s s.kernelPML4 m.layout.stackGuard
      s.activate (physToHhdm s.pmm.bitmapAddress) := rfl
  rw [htables, bootRun_vm]
  simp only [mapPages_kernelPML4, bootTables_totalMemorySize]

/-! ## Section 4: The refinement after boot -/

/-- Every frame that is not free at boot is reserved for good. -/
def reservedRoles (pmm : VMPhysicalMemory) : Roles := fun a =>
  if a % kVMPageSize = 0 ∧ ¬ pmm.FrameFree (a / kVMPageSize) then some .reserved else none

/-- What the physical memory manager guarantees after its initialisation. -/
theorem free_frame_bounds_of {memoryMap : List OSMemoryDescriptor} {image : KernelImage}
    (hmap : AcceptedMap memoryMap image) (hmemory : maxPhysicalAddress memoryMap ≤ 2 ^ 52)
    {pmm : VMPhysicalMemory} (hpmm : vmPhysicalMemoryInitialize memoryMap image = some pmm) {f : Nat}
    (hf : pmm.FrameFree f) : f ≠ 0 ∧ f < maxPhysicalAddress memoryMap / kVMPageSize ∧
      f * kVMPageSize < 2 ^ 52 := by
  obtain ⟨-, pm, -, heq, -, -, -, hfree⟩ := physicalMemoryInitialize_eq_some hmap
  obtain rfl : pm = pmm := Option.some.inj (heq.symm.trans hpmm)
  have husable := (hfree f).mp hf
  have hlt := husable.lt hmap
  have hlow := husable.2.1
  simp only [kVMSafeSpaceStartAddress, kVMPageSize] at hlow hlt hmemory ⊢
  omega

theorem free_frame_bounds {m : Machine} (hm : m.Accepted) {pmm : VMPhysicalMemory}
    (hpmm : vmPhysicalMemoryInitialize m.memoryMap m.image = some pmm) {f : Nat}
    (hf : pmm.FrameFree f) : f ≠ 0 ∧ f < maxPhysicalAddress m.memoryMap / kVMPageSize ∧
      f * kVMPageSize < 2 ^ 52 := free_frame_bounds_of hm.map hm.memory_le hpmm hf

/-- The PML4 that `VMVirtualMemoryInitialize` starts from. -/
theorem bootTables_spec (mem : Memory) {pmm : VMPhysicalMemory}
    (hpmm : ∀ {f}, pmm.FrameFree f → f ≠ 0 ∧ f * kVMPageSize < 2 ^ 52) :
    IsFrameAddress (bootTables mem pmm).kernelPML4 ∧
      (∀ i, (bootTables mem pmm).entry (bootTables mem pmm).kernelPML4 i = 0) ∧
      (∀ f, (bootTables mem pmm).pmm.FrameFree f → pmm.FrameFree f ∧
        f ≠ (bootTables mem pmm).kernelPML4 / kVMPageSize ∧ (bootTables mem pmm).kernelPML4 ≠ 0) := by
  have hpage : ∀ {k : Nat} {s : VMState}, s.isInitialized = false → IsFrameAddress k →
      ∀ i, (s.clearPage k).entry k i = 0 := by
    intro k s hinit hk i
    have hclear : s.clearPage (sVMGetVirtualTable s k) = s.zeroPage k :=
      clearPage_eq_zeroPage rfl hk.2
    rw [sVMGetVirtualTable, hinit, if_neg (by simp)] at hclear
    rw [hclear, entry_zeroPage_same]
  simp only [bootTables, clearPage_kernelPML4, clearPage_pmm]
  rcases allocatePage_state_cases ⟨mem, pmm, 0, false⟩ with ⟨hfull, heq⟩ |
    ⟨f, s₁, hf, heq, -, -, hinit, -, -, hfree⟩
  · rw [heq]
    have hzero : IsFrameAddress 0 := by decide
    exact ⟨hzero, hpage rfl hzero, fun f hf => absurd hf (hfull f)⟩
  · rw [heq]
    have hframe : IsFrameAddress (f * kVMPageSize) :=
      ⟨by simp only [kVMPageSize]; omega, (hpmm hf).2⟩
    have hdiv : f * kVMPageSize / kVMPageSize = f := Nat.mul_div_cancel _ (by decide)
    refine ⟨hframe, hpage hinit hframe, fun g hg => ?_⟩
    simp only [hdiv]
    have hne : f * kVMPageSize ≠ 0 := Nat.mul_ne_zero (hpmm hf).1 (by decide)
    exact ⟨((hfree g).mp hg).1, ((hfree g).mp hg).2, hne⟩

/-- An empty PML4 refines empty maps; frames that are not free may be reserved. -/
theorem start_refines {vm : VMState} (hframe : IsFrameAddress vm.kernelPML4)
    (hempty : ∀ i, vm.entry vm.kernelPML4 i = 0)
    (hnot : ¬ vm.pmm.FrameFree (vm.kernelPML4 / kVMPageSize))
    (hfree : ∀ {f}, vm.pmm.FrameFree f → f ≠ 0 ∧ f * kVMPageSize < 2 ^ 52) {b : Roles}
    (hbase : ∀ a x, b a = some x → x = .reserved ∧ ¬ vm.pmm.FrameFree (a / kVMPageSize)) :
    (VMRun.start vm).Refines
      (Function.update b vm.kernelPML4 (some (.table vm.kernelPML4 []))) := by
  generalize hk : vm.kernelPML4 = k at *
  -- The PML4 is the only table.
  have htable : ∀ {a r p}, Function.update b k (some (.table k [])) a = some (.table r p) →
      a = k ∧ r = k ∧ p = [] := by
    intro a r p ha
    by_cases hak : a = k
    · subst hak
      rw [Function.update_self] at ha
      simp only [Option.some.injEq, FrameRole.table.injEq] at ha
      exact ⟨rfl, ha.1.symm, ha.2.symm⟩
    · rw [Function.update_of_ne hak] at ha
      exact absurd (hbase a _ ha).1 (by simp)
  have hroots : ∀ {r}, r ∈ (VMRun.start vm).roots → r = k := by
    intro r hr
    simpa [VMRun.start, VMRun.roots, hk] using hr
  -- It links nothing, so that every walk stops at it.
  have hnone : ∀ i, childTable (vm.entry k i) = none := by
    intro i
    rw [hempty, childTable_zero]
  have hwalk : ∀ virt, vm.walk k virt = none := by
    intro virt
    rw [VMState.walk, VMState.leafTable, upperPath, follow_cons, hnone, Option.bind_none,
      Option.bind_none]
  exact {
    wellFormed := {
      kernel_root := by simp [VMRun.start, VMRun.roots]
      root_role := by
        intro r hr
        obtain rfl := hroots hr
        exact Function.update_self ..
      root_self := by
        intro t r ht
        obtain ⟨rfl, rfl, -⟩ := htable ht
        rfl
      path_length := by
        intro t r p ht
        obtain ⟨-, -, rfl⟩ := htable ht
        simp
      child_role := by
        intro t r p i c ht _ hc
        obtain ⟨rfl, -, -⟩ := htable ht
        change childTable (vm.entry t i) = some c at hc
        rw [hnone] at hc
        exact absurd hc (by simp)
      parent_role := by
        intro c r p i hc
        obtain ⟨-, -, hp⟩ := htable hc
        exact absurd hp (by simp)
      role_inj := by
        intro t t' r p ht ht'
        exact (htable ht).1.trans (htable ht').1.symm
      table_frame := by
        intro t r p ht
        obtain ⟨rfl, -, -⟩ := htable ht
        exact hframe
      role_notFree := by
        intro a x ha
        by_cases hak : a = k
        · rw [hak]
          exact hnot
        · rw [Function.update_of_ne hak] at ha
          exact (hbase a x ha).2
      free_frame := hfree }
    kernel_notUser := by simp [VMRun.start]
    walk_eq := by
      intro r virt hr _
      obtain rfl := hroots hr
      exact hwalk virt
    user_upper := by
      intro r virt m hr _ hm
      obtain rfl := hroots hr
      change vm.walk r virt = some m at hm
      rw [hwalk] at hm
      exact absurd hm (by simp)
    kernel_noUser := by
      intro virt m _ hm
      change vm.walk vm.kernelPML4 virt = some m at hm
      rw [hk, hwalk] at hm
      exact absurd hm (by simp)
    shared := by
      intro u i hu
      exact absurd hu (by simp [VMRun.start])
    linked_some := by
      intro u i hu
      exact absurd hu (by simp [VMRun.start]) }

/-- The framebuffer, the kernel image and all of memory lie in frames. -/
theorem bootPages_frame {m : Machine} (hm : m.Accepted) {total : Nat} (htotal : total ≤ 2 ^ 52)
    {page : Nat × Nat} (hpage : page ∈ bootPages m.layout m.image total) :
    IsFrameAddress page.1 := by
  have hfb := hm.framebuffer_aligned
  have hfbend := hm.framebuffer_end
  have himage := hm.image_end
  simp only [bootPages, List.mem_append, List.mem_map, or_assoc] at hpage
  rcases hpage with ⟨i, hi, rfl⟩ | ⟨i, hi, rfl⟩ | ⟨i, hi, rfl⟩ <;>
    obtain ⟨n, rfl, hlt⟩ := mem_pageLoop.mp hi
  · simp only [IsFrameAddress, kVMPageSize] at hlt ⊢
    omega
  · simp only [IsFrameAddress, kernelVirtToPhys, wrap64, KernelImage.kernelStart, kernelVMA,
      kVMPageSize] at hlt ⊢
    omega
  · simp only [IsFrameAddress, wrap64, kVMPageSize] at hlt ⊢
    omega

/-- The mapping loops keep the refinement. -/
theorem foldl_mapPage_refines {k : Nat} {pages : List (Nat × Nat)}
    (hpages : ∀ page ∈ pages, IsFrameAddress page.1) :
    ∀ {σ : VMRun} {role : Roles}, σ.Refines role → σ.vm.kernelPML4 = k →
      ∃ role', ((pages.map fun page => VMCall.mapPage k page.1 page.2 pteKernelData).foldl
        VMRun.step σ).Refines role' ∧ Roles.Extends role role' := by
  induction pages with
  | nil => exact fun h _ => ⟨_, h, fun _ _ => id⟩
  | cons page rest ih =>
    intro σ role h hk
    have hcall : σ.Permitted (.mapPage k page.1 page.2 pteKernelData) :=
      ⟨hk ▸ List.mem_cons_self, hpages page List.mem_cons_self, by decide, by decide,
        fun _ => ⟨hk.symm, by simp [UserEntry, pteKernelData, pteUser, ptePresent, pteRW]⟩⟩
    obtain ⟨role', h', hext⟩ := h.mapPage hcall
    obtain ⟨role'', h'', hext'⟩ := ih (fun p hp => hpages p (List.mem_cons_of_mem _ hp)) h'
      ((σ.keeps_step _).kernelPML4_eq.trans hk)
    exact ⟨role'', h'', hext.trans hext'⟩

/-- The calls of `VMVirtualMemoryInitialize` keep the refinement, and no frame
that was in use before gets another use. -/
theorem bootRun_refines {m : Machine} (hm : m.Accepted) {pmm : VMPhysicalMemory}
    (hpmm : vmPhysicalMemoryInitialize m.memoryMap m.image = some pmm) :
    ∃ role, (VMRun.bootRun m pmm).Refines role ∧
      (∀ f, (VMRun.bootRun m pmm).vm.pmm.FrameFree f →
        pmm.FrameFree f ∧ (VMRun.bootRun m pmm).vm.kernelPML4 ≠ 0) ∧
      ∀ a, reservedRoles pmm a = some .reserved →
        role a = some .reserved ∨ a = (VMRun.bootRun m pmm).vm.kernelPML4 := by
  -- Every frame that the allocator starts with fits into an entry.
  have hbounds : ∀ {f}, pmm.FrameFree f → f ≠ 0 ∧ f * kVMPageSize < 2 ^ 52 := by
    intro f hf
    obtain ⟨hne, -, hlt⟩ := free_frame_bounds hm hpmm hf
    exact ⟨hne, hlt⟩
  obtain ⟨hframe, hempty, hfree⟩ := bootTables_spec m.memory hbounds
  have hbase : ∀ a x, reservedRoles pmm a = some x →
      x = .reserved ∧ ¬ (bootTables m.memory pmm).pmm.FrameFree (a / kVMPageSize) := by
    intro a x ha
    rw [reservedRoles] at ha
    split at ha
    · next hcond => exact ⟨(Option.some.inj ha).symm, fun hf => hcond.2 (hfree _ hf).1⟩
    · exact absurd ha (by simp)
  -- The empty PML4 refines empty maps; from there the calls keep the refinement.
  have hstart := start_refines hframe hempty (fun hf => (hfree _ hf).2.1 rfl)
    (fun hf => hbounds (hfree _ hf).1) hbase
  have htotal : pmm.totalMemorySize ≤ 2 ^ 52 := by
    obtain ⟨-, pm, -, heq, -, -, htotal, -⟩ := physicalMemoryInitialize_eq_some hm.map
    obtain rfl : pm = pmm := Option.some.inj (heq.symm.trans hpmm)
    rw [htotal]
    exact hm.memory_le
  have hk₀ : (VMRun.start (bootTables m.memory pmm)).vm.kernelPML4 =
      (bootTables m.memory pmm).kernelPML4 := rfl
  obtain ⟨role, hmapped, hext⟩ :=
    foldl_mapPage_refines (fun page hpage => bootPages_frame hm htotal hpage) hstart hk₀
  have hk := (VMRun.keeps_foldl_step ((bootPages m.layout m.image pmm.totalMemorySize).map
    fun page => VMCall.mapPage (bootTables m.memory pmm).kernelPML4 page.1 page.2 pteKernelData)
    (VMRun.start (bootTables m.memory pmm))).kernelPML4_eq.trans hk₀
  have hrun : (VMRun.bootRun m pmm).Refines role := by
    rw [VMRun.bootRun, VMRun.bootCalls, List.foldl_append]
    refine hmapped.unmapPage ?_
    rw [VMRun.roots, hk]
    exact List.mem_cons_self
  have hkeeps : Keeps (bootTables m.memory pmm) (VMRun.bootRun m pmm).vm :=
    VMRun.keeps_foldl_step _ (VMRun.start (bootTables m.memory pmm))
  -- What is free at the end was free at the start.
  have hsome : ∀ f, (VMRun.bootRun m pmm).vm.pmm.FrameFree f →
      pmm.FrameFree f ∧ (VMRun.bootRun m pmm).vm.kernelPML4 ≠ 0 := by
    intro f hf
    obtain ⟨hf', -, hne⟩ := hfree f (hkeeps.free_of_free hf)
    exact ⟨hf', hkeeps.kernelPML4_eq ▸ hne⟩
  refine ⟨role, hrun, hsome, fun a ha => ?_⟩
  by_cases hak : a = (bootTables m.memory pmm).kernelPML4
  · exact .inr (hak.trans hkeeps.kernelPML4_eq.symm)
  · exact .inl (hext a _ (by rwa [Function.update_of_ne hak]))

theorem bootRun_spaces (m : Machine) (pmm : VMPhysicalMemory) :
    (VMRun.bootRun m pmm).spaces = [] := by
  refine VMRun.spaces_foldl_step (fun call hcall => ?_) (VMRun.start (bootTables m.memory pmm))
  simp only [VMRun.bootCalls, List.mem_append, List.mem_map, List.mem_singleton] at hcall
  rcases hcall with ⟨page, -, rfl⟩ | rfl <;> simp

/-- What the refinement says about a state does not depend on how the kernel's
pointers are formed. -/
theorem VMRun.Refines.activate {σ : VMRun} {role : Roles} (h : σ.Refines role) (address : Nat) :
    ({ σ with vm := σ.vm.activate address } : VMRun).Refines role :=
  h.of_mem_eq (activate_mem _ address) (activate_kernelPML4 _ address)
    fun f => (activate_frameFree _ address f).mp

theorem boot_eq_some {m : Machine} {σ : VMRun} (hσ : VMRun.boot m = some σ) :
    ∃ pmm address, vmPhysicalMemoryInitialize m.memoryMap m.image = some pmm ∧
      σ = { VMRun.bootRun m pmm with vm := (VMRun.bootRun m pmm).vm.activate address } := by
  obtain ⟨pmm, hpmm, rfl⟩ := Option.map_eq_some_iff.mp hσ
  exact ⟨pmm, _, hpmm, by rw [vmVirtualMemoryInitialize_eq]⟩

/-- After `VMVirtualMemoryInitialize` the page tables refine the maps made so
far, and no frame that was in use before has got another use. -/
theorem boot_refines {m : Machine} (hm : m.Accepted) {σ : VMRun} (hσ : VMRun.boot m = some σ) :
    ∃ role, σ.Refines role ∧ σ.vm.isInitialized = true ∧ σ.spaces = [] ∧
      ∃ pmm, vmPhysicalMemoryInitialize m.memoryMap m.image = some pmm ∧
        (∀ f, σ.vm.pmm.FrameFree f → pmm.FrameFree f ∧ σ.vm.kernelPML4 ≠ 0) ∧
        ∀ a, reservedRoles pmm a = some .reserved →
          role a = some .reserved ∨ a = σ.vm.kernelPML4 := by
  obtain ⟨pmm, address, hpmm, rfl⟩ := boot_eq_some hσ
  obtain ⟨role, hrun, hfree, hroles⟩ := bootRun_refines hm hpmm
  exact ⟨role, hrun.activate address, activate_isInitialized _ address, bootRun_spaces m pmm, pmm,
    hpmm, fun f hf => hfree f ((activate_frameFree _ address f).mp hf), hroles⟩

theorem exists_boot {m : Machine} (hm : m.Accepted) : ∃ σ, VMRun.boot m = some σ := by
  obtain ⟨-, pmm, -, hpmm, -⟩ := physicalMemoryInitialize_eq_some hm.map
  exact ⟨_, by rw [VMRun.boot, hpmm, Option.map_some]⟩

end TermOS.VM
