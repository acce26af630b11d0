import TermOS.VM.WalkedPointers

/-!
# Page tables refine a map for each address space, with walked pointers

The calls run with the processor's translation, in any address space that `CR3`
may hold. As long as they map and unmap outside the direct map they do what
`VMM.lean` says, and the page tables refine the maps. A call that maps a page of
the direct map to another frame breaks this.
-/

namespace TermOS.VM

open TermOS.Lib TermOS.Kernel TermOS.Lib.TableForest VMState

variable {complete : Prop} {roots : List Nat} {role role' : Roles} {s s' : VMState} {σ σ' : VMRun}

/-! ## Section 1: Runs of walked calls -/

namespace VMRun

/-- What a call returns, `none` for the 0 or `nullptr` of a failure, and the state after it.
`VMVirtualMemoryUnmapPage` returns nothing and does not fail. -/
def directCall (σ : VMRun) : VMCall → Option Nat × VMState
  | .createAddressSpace =>
    let (pml4, vm) := vmVirtualMemoryCreateAddressSpace σ.vm
    (if pml4 = 0 then none else some pml4, vm)
  | .mapPage pml4 phys virt flags => vmVirtualMemoryMapPage σ.vm pml4 phys virt flags
  | .unmapPage pml4 virt => (some virt, vmVirtualMemoryUnmapPage σ.vm pml4 virt)
  | .allocatePage =>
    let (phys, vm) := σ.vm.allocatePage
    (if phys = 0 then none else some phys, vm)

/-- The same with the processor's translation when `CR3` holds `root`; `none` is a page fault. -/
def walkedCall (σ : VMRun) (root : Nat) : VMCall → Option (Option Nat × VMState)
  | .createAddressSpace => do
    let (pml4, vm) ← Walked.vmVirtualMemoryCreateAddressSpace σ.vm root
    some (if pml4 = 0 then none else some pml4, vm)
  | .mapPage pml4 phys virt flags => Walked.vmVirtualMemoryMapPage σ.vm root pml4 phys virt flags
  | .unmapPage pml4 virt => do
    let vm ← Walked.vmVirtualMemoryUnmapPage σ.vm root pml4 virt
    some (some virt, vm)
  | .allocatePage =>
    let (phys, vm) := σ.vm.allocatePage
    some (if phys = 0 then none else some phys, vm)

/-- What the call says about the maps, from its result and the state after it. -/
def record (σ : VMRun) : VMCall → Option Nat × VMState → VMRun
  | .createAddressSpace, (some pml4, vm) =>
    { vm
      spaces := pml4 :: σ.spaces
      mapped := Function.update σ.mapped pml4 fun _ => none
      linked := Function.update σ.linked pml4 fun i =>
        (childTable (σ.vm.entry σ.vm.kernelPML4 i)).isSome }
  | .mapPage pml4 phys virt flags, (some _, vm) =>
    { σ with vm }.setMapped pml4 (pageNumber virt) (some (phys, flags))
  | .unmapPage pml4 virt, (_, vm) =>
    match σ.owner pml4 virt with
    | none => { σ with vm }
    | some r => { σ with vm }.setMapped r (pageNumber virt) none
  | _, (_, vm) => { σ with vm }

theorem step_eq_record (σ : VMRun) (call : VMCall) :
    σ.step call = σ.record call (σ.directCall call) := by
  cases call with
  | createAddressSpace =>
    rw [step, directCall]
    rcases vmVirtualMemoryCreateAddressSpace σ.vm with ⟨pml4, vm⟩
    by_cases h : pml4 = 0
    · simp only [if_pos h]
      rfl
    · simp only [if_neg h]
      rfl
  | mapPage pml4 phys virt flags =>
    rw [step, directCall]
    rcases vmVirtualMemoryMapPage σ.vm pml4 phys virt flags with ⟨_ | _, vm⟩ <;> rfl
  | unmapPage pml4 virt => rfl
  | allocatePage =>
    rw [step, directCall]
    rcases σ.vm.allocatePage with ⟨phys, vm⟩
    rfl

theorem record_vm (σ : VMRun) (call : VMCall) (outcome : Option Nat × VMState) :
    (σ.record call outcome).vm = outcome.2 := by
  obtain ⟨_ | _, vm⟩ := outcome <;> cases call <;> try rfl
  all_goals
    rw [record]
    split <;> rfl

theorem fails_iff (σ : VMRun) (call : VMCall) : σ.Fails call ↔ (σ.directCall call).1 = none := by
  cases call with
  | createAddressSpace =>
    simp only [Fails, directCall]
    split <;> simp_all
  | mapPage pml4 phys virt flags => rfl
  | unmapPage pml4 virt => simp [Fails, directCall]
  | allocatePage =>
    simp only [Fails, directCall]
    split <;> simp_all

/-- One call of a walked run, with the PML4 that `CR3` holds: a call that satisfies `ok` and
does not fault. -/
def WalkedStep (ok : VMRun → VMCall → Prop) (σ : VMRun) (a : Nat × VMCall) (σ' : VMRun) : Prop :=
  a.1 ∈ σ.roots ∧ ok σ a.2 ∧ ∃ outcome, σ.walkedCall a.1 a.2 = some outcome ∧
    σ' = σ.record a.2 outcome

/-- A permitted call that maps and unmaps outside the direct map of `total` bytes. -/
def PermittedSparing (total : Nat) (σ : VMRun) (call : VMCall) : Prop :=
  σ.Permitted call ∧ σ.SparesDirectMap total call

end VMRun

/-! ## Section 2: What the runs keep -/

/-- The direct map of `total` bytes leads to its own frames in every address space, as far as
it is mapped, and all tables lie in it. -/
structure WalksDirectMap (complete : Prop) (total : Nat) (role : Roles) (σ : VMRun) : Prop where
  wellFormed : WellFormed σ.roots role σ.vm
  writable : LinksWritable role σ.vm
  isInitialized : σ.vm.isInitialized = true
  table_lt : ∀ {t r p}, role t = some (.table r p) → t < total
  free_lt : ∀ {f}, σ.vm.pmm.FrameFree f → f * kVMPageSize < total
  direct : ∀ frame, frame * kVMPageSize < total → ∃ m,
    (m = some (frame * kVMPageSize, pteKernelData) ∨ ¬ complete ∧ m = none) ∧
      ∀ r ∈ σ.roots, σ.vm.walk r (physToHhdm (frame * kVMPageSize)) = m

namespace WalksDirectMap

variable {total : Nat}

theorem leads (h : WalksDirectMap complete total role σ) (hlow : total ≤ 0x777F80100000)
    {root frame : Nat} (hroot : root ∈ σ.roots) (hlt : frame * kVMPageSize < total) :
    Leads complete σ.vm root (frame * kVMPageSize) (frame * kVMPageSize) := by
  obtain ⟨m, hm, hwalk⟩ := h.direct frame hlt
  refine ⟨Nat.mul_mod_left frame kVMPageSize, by omega, ?_, ?_⟩ <;> rw [hwalk root hroot]
  · intro m' hm'
    rcases hm with rfl | ⟨-, rfl⟩
    · rw [← Option.some.inj hm']
    · exact absurd hm' (by simp)
  · intro hcomplete
    rcases hm with rfl | ⟨hnot, -⟩
    · exact ⟨pteKernelData, rfl, by decide⟩
    · exact absurd hcomplete hnot

theorem reaches (h : WalksDirectMap complete total role σ) (hlow : total ≤ 0x777F80100000)
    {root : Nat} (hroot : root ∈ σ.roots) : Reaches complete σ.roots root id role σ.vm where
  wellFormed := h.wellFormed
  writable := h.writable
  isInitialized := h.isInitialized
  root_mem := hroot
  table := by
    intro t r p ht
    have hframe := (h.wellFormed.table_frame ht).frame_mul
    have hlt : t / kVMPageSize * kVMPageSize < total := by
      rw [hframe]
      exact h.table_lt ht
    have hleads := h.leads hlow hroot hlt
    rwa [hframe] at hleads
  inner := fun _ => rfl
  free := fun hf => ⟨rfl, h.leads hlow hroot (h.free_lt hf)⟩

/-- A call on existing address spaces does what it does with a fixed direct map. -/
theorem walkedCall (h : WalksDirectMap complete total role σ) (hlow : total ≤ 0x777F80100000)
    {root : Nat} (hroot : root ∈ σ.roots) {call : VMCall} (hcall : σ.OnPages call) :
    Follows complete (σ.walkedCall root call) (σ.directCall call) := by
  have hreaches := h.reaches hlow hroot
  cases call with
  | createAddressSpace =>
    exact (createAddressSpace_follows hreaches rfl).bind (Follows.some _)
  | mapPage pml4 phys virt flags =>
    exact mapPage_follows hreaches hcall.1 hcall.1 rfl phys virt flags
  | unmapPage pml4 virt =>
    exact (unmapPage_follows hreaches hcall hcall rfl virt).bind (Follows.some _)
  | allocatePage => exact Follows.some _

/-- A call outside the direct map keeps it. -/
theorem step (h : WalksDirectMap complete total role σ) (hlow : total ≤ 0x777F80100000)
    {call : VMCall} (hcall : σ.SparesDirectMap total call) :
    ∃ role', WalksDirectMap complete total role' (σ.step call) := by
  obtain ⟨honPages, hspared⟩ := hcall.onPages
  obtain ⟨role', hwf, hw, hkept, htables⟩ :=
    exists_keepsPages h.wellFormed h.writable h.isInitialized honPages
  have hkeeps := σ.keeps_step call
  refine ⟨role', ?_⟩
  exact {
    wellFormed := hwf
    writable := hw
    isInitialized := hkeeps.isInitialized_eq.trans h.isInitialized
    table_lt := by
      intro t r p ht
      rcases htables t r p ht with hold | hfree
      · exact h.table_lt hold
      · rw [← (hwf.table_frame ht).frame_mul]
        exact h.free_lt hfree
    free_lt := fun hf => h.free_lt (hkeeps.free_of_free hf)
    direct := by
      intro frame hlt
      obtain ⟨m, hm, hwalk⟩ := h.direct frame hlt
      exact ⟨m, hm, hkept _ m (kernelHalf_physToHhdm (hlt.trans_le hlow)) (hspared frame hlt) hwalk⟩ }

end WalksDirectMap

/-- A call that may be made, where boot found its frames. -/
theorem WalksDirectMap.walkedStep {total : Nat} (h : WalksDirectMap complete total role σ)
    (hlow : total ≤ 0x777F80100000) (hcomplete : complete) {root : Nat} (hroot : root ∈ σ.roots)
    {ok : VMRun → VMCall → Prop} {call : VMCall} (hok : ok σ call) (hcall : σ.OnPages call) :
    VMRun.WalkedStep ok σ (root, call) (σ.step call) :=
  ⟨hroot, hok, _, (h.walkedCall hlow hroot hcall).eq_some hcomplete, σ.step_eq_record call⟩

/-! ## Section 3: After boot -/

/-- What a mapping loop leaves, whether its calls succeed or not: walks are old ones, or
those of the loop's pages. -/
theorem mapPages_keeps {root flags : Nat} (hflags : IsFlagWord flags)
    (hpresent : flags &&& ptePresent ≠ 0) {pages : List (Nat × Nat)} :
    ∀ {role : Roles} {s : VMState}, WellFormed roots role s → LinksWritable role s → root ∈ roots →
      (∀ page ∈ pages, IsFrameAddress page.1) →
      ∃ role', WellFormed roots role' (mapPages root flags s pages) ∧
        LinksWritable role' (mapPages root flags s pages) ∧ TablesFromFree role role' s ∧
        (∀ f, (mapPages root flags s pages).pmm.FrameFree f → s.pmm.FrameFree f) ∧
        ∀ virt m, (mapPages root flags s pages).walk root virt = some m →
          s.walk root virt = some m ∨
            ∃ page ∈ pages, pageNumber page.2 = pageNumber virt ∧ m = (page.1, flags) := by
  induction pages with
  | nil =>
    exact fun h hw _ _ => ⟨_, h, hw, fun _ _ _ => .inl, fun _ => id, fun _ _ => .inl⟩
  | cons page rest ih =>
    intro role s h hw hroot hframes
    obtain ⟨role₁, hmap, -⟩ :=
      mapPage_outcome h page.2 hroot (hframes page List.mem_cons_self) hflags hpresent
    obtain ⟨role', h', hw', htables, hfree, hwalk⟩ := ih hmap.wellFormed (hmap.writable hw) hroot
      fun p hp => hframes p (List.mem_cons_of_mem _ hp)
    refine ⟨role', h', hw', ?_, fun f hf => hmap.free_of_free (hfree f hf), fun virt m hm => ?_⟩
    · intro t r p ht
      rcases htables t r p ht with hold | hf
      · exact (hmap.role_new hold).imp id And.left
      · exact .inr (hmap.free_of_free hf)
    · rcases hwalk virt m hm with hold | ⟨p, hp, hpage⟩
      · -- the page was mapped before the loop, or by its first call
        rcases hmap.walk_cases hroot with heq | ⟨hpage, -, heq⟩
        · exact .inl (heq.symm.trans hold)
        · exact .inr ⟨page, List.mem_cons_self, hpage.symm, Option.some.inj (hold.symm.trans heq)⟩
      · exact .inr ⟨p, List.mem_cons_of_mem _ hp, hpage⟩

/-- The PML4 that boot starts from lies in memory. -/
theorem bootTables_lt {m : Machine} (hm : m.Accepted) {pmm : VMPhysicalMemory}
    (hpmm : vmPhysicalMemoryInitialize m.memoryMap m.image = some pmm) :
    (bootTables m.memory pmm).kernelPML4 < maxPhysicalAddress m.memoryMap := by
  simp only [bootTables, clearPage_kernelPML4]
  rcases allocatePage_state_cases ⟨m.memory, pmm, 0, false⟩ with ⟨-, heq⟩ | ⟨f, s₁, hf, heq, -⟩ <;>
    rw [heq]
  · -- the page of the bitmap lies above frame 0
    obtain ⟨d, hd, htype, -, hsafe⟩ := hm.map.hostExists
    have hcounted : d.type.skipped = false := by
      rw [htype]
      rfl
    have hle := endAddress_le_maxPhysicalAddress hd hcounted
    rw [OSMemoryDescriptor.endAddress_eq (hm.map.nonWrapping d hd)] at hle
    simp only [kVMSafeSpaceStartAddress] at hsafe
    show 0 < _
    omega
  · obtain ⟨-, hlt, -⟩ := free_frame_bounds hm hpmm hf
    show f * kVMPageSize < _
    simp only [kVMPageSize] at hlt ⊢
    omega

/-- After boot the tables lie in memory, and no page is mapped but those of the loops. -/
theorem boot_loops {m : Machine} (hm : m.Accepted) {σ₀ : VMRun} (hboot : VMRun.boot m = some σ₀) :
    ∃ role, WellFormed σ₀.roots role σ₀.vm ∧ LinksWritable role σ₀.vm ∧
      σ₀.vm.isInitialized = true ∧ σ₀.roots = [σ₀.vm.kernelPML4] ∧
      (∀ t r p, role t = some (.table r p) → t < maxPhysicalAddress m.memoryMap) ∧
      (∀ f, σ₀.vm.pmm.FrameFree f → f * kVMPageSize < maxPhysicalAddress m.memoryMap) ∧
      ∀ virt m', pageNumber virt ≠ pageNumber m.layout.stackGuard →
        σ₀.vm.walk σ₀.vm.kernelPML4 virt = some m' →
        ∃ page ∈ bootPages m.layout m.image (maxPhysicalAddress m.memoryMap),
          pageNumber page.2 = pageNumber virt ∧ m' = (page.1, pteKernelData) := by
  obtain ⟨pmm, hpmm, hroots, hspaces, hinit, htables⟩ := boot_tables hboot
  have htotal := totalMemorySize_eq hm hpmm
  have hlow : pmm.totalMemorySize ≤ 2 ^ 52 := htotal ▸ hm.memory_le
  obtain ⟨role₀, hwf₀, hw₀, honly, hempty⟩ := bootTables_wellFormed hm hpmm
  obtain ⟨role, hwf, hw, hnew, hfree, hwalk⟩ :=
    mapPages_keeps (show IsFlagWord pteKernelData by decide) (by decide) hwf₀ hw₀
      List.mem_cons_self fun page hpage => bootPages_frame hm hlow hpage
  obtain ⟨hwf', hw', hfree', hsame⟩ := htables role _ rfl hwf hw
  -- What is free was free when boot began.
  obtain ⟨-, -, hfree₀⟩ := bootTables_keeps m.memory pmm
  have hlt : ∀ {f}, (bootTables m.memory pmm).pmm.FrameFree f →
      f * kVMPageSize < maxPhysicalAddress m.memoryMap := by
    intro f hf
    obtain ⟨-, hlt, -⟩ := free_frame_bounds hm hpmm (hfree₀ hf)
    simp only [kVMPageSize] at hlt ⊢
    omega
  refine ⟨role, hwf', hw', hinit, by rw [VMRun.roots, hspaces], ?_,
    fun f hf => hlt (hfree _ (hfree' _ hf)), ?_⟩
  · intro t r p ht
    rcases hnew t r p ht with hold | hf
    · rw [honly t r p hold]
      exact bootTables_lt hm hpmm
    · rw [← (hwf'.table_frame ht).frame_mul]
      exact hlt hf
  · intro virt m' hguard hm'
    rw [hsame virt hguard _ List.mem_cons_self] at hm'
    rcases hwalk virt m' hm' with hold | hpage
    · rw [hempty] at hold
      exact absurd hold (by simp)
    · rwa [htotal] at hpage

/-- Boot leaves a direct map that leads to its own frames as far as it is mapped, and to all
of them if every mapping call found its frames. -/
theorem boot_walksDirectMap {m : Machine} (hm : m.Accepted) (hspares : m.SparesDirectMap)
    {σ₀ : VMRun} (hboot : VMRun.boot m = some σ₀) :
    ∃ role, WalksDirectMap m.FindsFrames (maxPhysicalAddress m.memoryMap) role σ₀ := by
  obtain ⟨role, hwf, hw, hinit, hroots, htable, hfree, hwalk⟩ := boot_loops hm hboot
  refine ⟨role, hwf, hw, hinit, fun ht => htable _ _ _ ht, fun hf => hfree _ hf, ?_⟩
  intro frame hframe
  have hbound : frame * kVMPageSize < 0x777F80100000 := hframe.trans_le hspares.memory_le
  refine ⟨σ₀.vm.walk σ₀.vm.kernelPML4 (physToHhdm (frame * kVMPageSize)), ?_, ?_⟩
  · by_cases hframes : m.FindsFrames
    · obtain ⟨pmm, _, -, htotal, hkeeps⟩ := boot_keepsDirectMap hm hspares hframes hboot
      exact .inl (hkeeps.mapped _ List.mem_cons_self frame (htotal ▸ hframe))
    · cases hm' : σ₀.vm.walk σ₀.vm.kernelPML4 (physToHhdm (frame * kVMPageSize)) with
      | none => exact .inr ⟨hframes, rfl⟩
      | some m' =>
        obtain ⟨page, hpage, hnumber, rfl⟩ :=
          hwalk _ _ (pageNumber_ne_stackGuard hspares hbound) hm'
        rw [bootPages_unique hspares hm hspares.memory_le hframe hpage hnumber]
        exact .inl rfl
  · intro r hr
    rw [hroots, List.mem_singleton] at hr
    rw [hr]

/-! ## Section 4: Every run from boot -/

/-- What every walked run from boot keeps. -/
theorem walked_of_runs {m : Machine} (hm : m.Accepted) (hspares : m.SparesDirectMap)
    {σ₀ : VMRun} {calls : List (Nat × VMCall)} (hboot : VMRun.boot m = some σ₀)
    (hruns : Trace (VMRun.WalkedStep (VMRun.PermittedSparing (maxPhysicalAddress m.memoryMap)))
      σ₀ calls σ) :
    (∃ role, σ.Refines role) ∧ σ.vm.isInitialized = true ∧
      ∃ role, WalksDirectMap m.FindsFrames (maxPhysicalAddress m.memoryMap) role σ := by
  obtain ⟨role₀, hrefines, hinit, -⟩ := boot_refines hm hboot
  refine hruns.invariant (I := fun σ => (∃ role, σ.Refines role) ∧ σ.vm.isInitialized = true ∧
    ∃ role, WalksDirectMap m.FindsFrames (maxPhysicalAddress m.memoryMap) role σ) ?_
    ⟨⟨role₀, hrefines⟩, hinit, boot_walksDirectMap hm hspares hboot⟩
  rintro σ ⟨root, call⟩ σ' ⟨⟨role, h⟩, hinit, role₁, hwalks⟩ ⟨hroot, ⟨hcall, hspared⟩, outcome,
    houtcome, rfl⟩
  -- The walked call is the direct one, so both invariants are kept.
  obtain rfl := (hwalks.walkedCall hspares.memory_le hroot hspared.onPages.1).eq_of_eq_some houtcome
  rw [← VMRun.step_eq_record]
  obtain ⟨role', h', -⟩ := h.step hinit hcall
  exact ⟨⟨role', h'⟩, (σ.keeps_step call).isInitialized_eq.trans hinit,
    hwalks.step hspares.memory_le hspared⟩

/-- The 8 MiB machine finds its frames, and many are left. -/
theorem heapMachine_boot : ∃ σ₀ role, VMRun.boot heapMachine = some σ₀ ∧
    heapMachine.FindsFrames ∧ WalksDirectMap True 0x800000 role σ₀ ∧ 1000 ≤ σ₀.vm.pmm.freeCount := by
  obtain ⟨pmm, hpmm, htotal, hcount⟩ := heapMachine_freeCount
  obtain ⟨s₀, hs₀, hleft⟩ := boot_freeCount heapMachine_accepted hpmm (by
    rw [htotal]
    exact fun page hpage => heapMachine_bootPages hpage)
  have hcard : heapMachinePaths.card = 5 := by decide
  obtain ⟨σ₀, hboot⟩ := exists_boot heapMachine_accepted
  have hvm : σ₀.vm = s₀ := by
    rw [VMRun.boot, hpmm, Option.map_some] at hboot
    rw [Machine.boot, hpmm, Option.map_some] at hs₀
    obtain rfl := Option.some.inj hboot
    exact Option.some.inj hs₀
  have hfree : 1000 ≤ σ₀.vm.pmm.freeCount := by
    rw [hvm]
    omega
  have hframes : heapMachine.FindsFrames := by
    obtain ⟨f, hf⟩ : ∃ f, s₀.pmm.FrameFree f := by
      by_contra hnone
      have hzero := freeCount_eq_zero_iff.mpr (not_exists.mp hnone)
      omega
    exact Machine.findsFrames_of_free heapMachine_accepted hs₀ hf
  obtain ⟨role, hwalks⟩ :=
    boot_walksDirectMap heapMachine_accepted heapMachine_fitsDirectMap.sparesDirectMap hboot
  have hmax : maxPhysicalAddress heapMachine.memoryMap = 0x800000 := by decide
  rw [hmax, eq_true hframes] at hwalks
  exact ⟨σ₀, role, hboot, hframes, hwalks, hfree⟩

/-- The page tables refine a map for each address space, in every run of permitted calls after
boot that spares the direct map, each of them made in any address space: walks yield the last
successful map, pages are accessible from ring 3 exactly when they were mapped so, the kernel
half of a user address space is the kernel's wherever it was populated at creation, failing
calls change no walk, and calls on one address space change no user-half walk in another. If
boot found its frames no call faults. -/
theorem pageTables_refine_maps (m : Machine) (hm : m.Accepted) (hspares : m.SparesDirectMap)
    {σ₀ σ : VMRun} {calls : List (Nat × VMCall)} (hboot : VMRun.boot m = some σ₀)
    (hruns : Trace (VMRun.WalkedStep (VMRun.PermittedSparing (maxPhysicalAddress m.memoryMap)))
      σ₀ calls σ) :
    (∀ r ∈ σ.roots, ∀ virt, σ.vm.walk r virt = σ.lookup r virt ∧
      (σ.vm.UserAccessible r virt ↔ ∃ m, σ.lookup r virt = some m ∧ UserEntry m.2)) ∧
    (∀ u ∈ σ.spaces, ∀ virt, KernelHalf virt → σ.vm.walk u virt =
      if σ.linked u (pml4Slot virt) then σ.vm.walk σ.vm.kernelPML4 virt else none) ∧
    ∀ root ∈ σ.roots, ∀ call, σ.PermittedSparing (maxPhysicalAddress m.memoryMap) call →
      (m.FindsFrames → (σ.walkedCall root call).isSome) ∧
      ∀ result vm, σ.walkedCall root call = some (result, vm) →
        (result = none → ∀ r ∈ σ.roots, ∀ virt, vm.walk r virt = σ.vm.walk r virt) ∧
        ∀ r ∈ σ.roots, call.target ≠ some r → ∀ virt, ¬ KernelHalf virt →
          vm.walk r virt = σ.vm.walk r virt := by
  obtain ⟨⟨role, h⟩, hinit, role', hwalks⟩ := walked_of_runs hm hspares hboot hruns
  refine ⟨fun r hr virt => ⟨h.walk_eq_lookup hr, h.userAccessible_iff hr⟩,
    fun u hu virt hhalf => ?_, fun root hroot call ⟨hcall, hspared⟩ => ?_⟩
  · rw [VMState.walk, VMState.walk, h.leafTable_shared hu hhalf]
    split <;> rfl
  · have hfollows := hwalks.walkedCall hspares.memory_le hroot hspared.onPages.1
    refine ⟨hfollows.isSome, fun result vm houtcome => ?_⟩
    have heq := hfollows.eq_of_eq_some houtcome
    have hvm : (σ.step call).vm = vm := by
      rw [VMRun.step_eq_record, VMRun.record_vm, ← heq]
    rw [← hvm]
    refine ⟨fun hnone r hr virt => ?_, fun r hr htarget virt hlow =>
      h.walk_of_target_ne hinit hcall hr hlow htarget⟩
    apply h.walk_of_fails hinit hcall ?_ hr virt
    rw [VMRun.fails_iff, ← heq]
    exact hnone

/-- After a process was created and a kernel page mapped, the walk of the page
is the one that the calls say. -/
theorem pageTables_refine_maps_small : ∃ σ₀ σ, VMRun.boot heapMachine = some σ₀ ∧
    Trace (VMRun.WalkedStep (VMRun.PermittedSparing (maxPhysicalAddress heapMachine.memoryMap))) σ₀
      [(σ₀.vm.kernelPML4, .createAddressSpace),
        (σ₀.vm.kernelPML4, .mapPage σ₀.vm.kernelPML4 0x200000 0xFFFFFFFFD0000000 pteKernelData)] σ ∧
    σ.vm.walk σ.vm.kernelPML4 0xFFFFFFFFD0000000 =
      σ.lookup σ.vm.kernelPML4 0xFFFFFFFFD0000000 := by
  obtain ⟨σ₀, role, hboot, -, h₀, -⟩ := heapMachine_boot
  have hmax : maxPhysicalAddress heapMachine.memoryMap = 0x800000 := by decide
  obtain ⟨role₁, h₁⟩ := h₀.step (by decide) (show σ₀.SparesDirectMap _ .createAddressSpace from trivial)
  have hk := (σ₀.keeps_step .createAddressSpace).kernelPML4_eq
  have hmem : σ₀.vm.kernelPML4 ∈ (σ₀.step .createAddressSpace).roots := hk ▸ List.mem_cons_self
  -- The page lies above the direct map, and has no USER bit.
  have hcall : (σ₀.step .createAddressSpace).PermittedSparing 0x800000
      (.mapPage σ₀.vm.kernelPML4 0x200000 0xFFFFFFFFD0000000 pteKernelData) := by
    refine ⟨⟨hmem, by decide, by decide, by decide, fun _ => ⟨hk.symm, by
      simp [UserEntry, pteKernelData, pteUser, ptePresent, pteRW]⟩⟩, hmem, by decide, by decide,
      by decide, ?_⟩
    rintro ⟨frame, hlt, hpage⟩
    rw [pageNumber_physToHhdm (by omega)] at hpage
    simp only [pageNumber, kVMPageSize] at hlt hpage
    omega
  have hruns : Trace (VMRun.WalkedStep (VMRun.PermittedSparing 0x800000)) σ₀
      [(σ₀.vm.kernelPML4, .createAddressSpace),
        (σ₀.vm.kernelPML4, .mapPage σ₀.vm.kernelPML4 0x200000 0xFFFFFFFFD0000000 pteKernelData)]
      ((σ₀.step .createAddressSpace).step
        (.mapPage σ₀.vm.kernelPML4 0x200000 0xFFFFFFFFD0000000 pteKernelData)) :=
    .cons (h₀.walkedStep (by decide) trivial List.mem_cons_self ⟨trivial, trivial⟩ trivial)
      (.single (h₁.walkedStep (by decide) trivial hmem hcall hcall.2.onPages.1))
  rw [← hmax] at hruns
  refine ⟨σ₀, _, hboot, hruns, ?_⟩
  exact ((pageTables_refine_maps heapMachine heapMachine_accepted
    heapMachine_fitsDirectMap.sparesDirectMap hboot hruns).1 _ List.mem_cons_self
    0xFFFFFFFFD0000000).1

/-! ## Section 5: A remapped page of the direct map -/

/-- When the page of the PML4 `k` is mapped to `c`, the direct map leads from `k` to `c`, and
from all other tables to themselves. -/
theorem WalksDirectMap.reaches_remapped {total k c root flags : Nat} {vm : VMState}
    (h : WalksDirectMap complete total role σ) (hlow : total ≤ 0x777F80100000)
    (hroot : root ∈ σ.roots) (hk : k ∈ σ.roots) (hRW : flags &&& pteRW ≠ 0)
    (hmap : MapOutcome σ.roots role σ.vm k (physToHhdm k) (c, flags) role' vm)
    (hwalk : vm.walk root (physToHhdm k) = some (c, flags)) :
    Reaches complete σ.roots root (Function.update id k c) role' vm := by
  have hreaches := h.reaches hlow hroot
  have hkrole := h.wellFormed.root_role hk
  have hkleads : Leads complete σ.vm root k k := hreaches.table hkrole
  have hkrole' : role' k = some (.table k []) := hmap.role_keep _ _ hkrole
  -- The pages of other frames were left alone.
  have hother : ∀ {t}, t ≠ k → Leads complete σ.vm root t t → Leads complete vm root t t := by
    intro t hne hleads
    apply hleads.of_walk_eq
    rcases hmap.walk_cases hroot with heq | ⟨hpage, -⟩
    · exact heq
    · have halign := hleads.aligned
      have halign' := hkleads.aligned
      rw [pageNumber_physToHhdm hleads.lt, pageNumber_physToHhdm hkleads.lt] at hpage
      exact absurd (show t = k by omega) hne
  exact {
    wellFormed := hmap.wellFormed
    writable := hmap.writable h.writable
    isInitialized := hmap.isInitialized_eq.trans h.isInitialized
    root_mem := hroot
    table := by
      intro t r p ht
      by_cases htk : t = k
      · rw [htk, Function.update_self]
        refine ⟨hkleads.aligned, hkleads.lt, ?_, fun _ => ⟨flags, hwalk, hRW⟩⟩
        intro m hm
        rw [← Option.some.inj (hwalk.symm.trans hm)]
      · rw [Function.update_of_ne htk]
        apply hother htk
        rcases hmap.role_new ht with hold | ⟨hf, -⟩
        · exact hreaches.table hold
        · have hleads := (hreaches.free hf).2
          rwa [(hmap.wellFormed.table_frame ht).frame_mul] at hleads
    inner := by
      intro t r p i ht
      rw [Function.update_of_ne, id]
      rintro rfl
      obtain ⟨-, hpath⟩ := table_role_inj ht hkrole'
      exact absurd hpath (by simp)
    free := by
      intro f hf
      have hne : f * kVMPageSize ≠ k := by
        rintro rfl
        have hnot := hmap.wellFormed.role_notFree hkrole'
        rw [Nat.mul_div_cancel _ (by decide)] at hnot
        exact hnot hf
      rw [Function.update_of_ne hne]
      exact ⟨rfl, hother hne (hreaches.free (hmap.free_of_free hf)).2⟩ }

/-- With three free frames a map call maps the page, and keeps the walks of the others. -/
theorem mapPage_maps (h : WellFormed roots role s) {pml4 phys flags : Nat} (virt : Nat)
    (hroot : pml4 ∈ roots) (hphys : IsFrameAddress phys) (hflags : IsFlagWord flags)
    (hpresent : flags &&& ptePresent ≠ 0) (hfree : 3 ≤ s.pmm.freeCount) :
    ∃ role' vm, vmVirtualMemoryMapPage s pml4 phys virt flags = (some virt, vm) ∧
      MapOutcome roots role s pml4 virt (phys, flags) role' vm ∧
      s.pmm.freeCount ≤ vm.pmm.freeCount + 3 ∧ vm.walk pml4 virt = some (phys, flags) := by
  have hmissing : missing childTable s.entry pml4 (upperPath virt) ≤ 3 :=
    missing_le_length s.entry pml4 (upperPath virt)
  obtain ⟨vm, heq⟩ : ∃ vm, vmVirtualMemoryMapPage s pml4 phys virt flags = (some virt, vm) := by
    rcases mapPage_cases h hroot phys virt flags with ⟨hlt, -⟩ | ⟨pt, role', s', heq, -⟩
    · omega
    · exact ⟨_, heq⟩
  obtain ⟨role', hmap, hcases⟩ := mapPage_outcome h virt hroot hphys hflags hpresent
  rw [heq] at hmap hcases
  rcases hcases with ⟨hlt, -⟩ | ⟨hcount, hwalk⟩
  · omega
  · refine ⟨role', vm, heq, hmap, ?_, hwalk⟩
    rw [hcount]
    exact Nat.add_le_add_left hmissing _

/-- After the page of the kernel's PML4 has been mapped to the PML4 `c` of a process, a page
that is mapped in the kernel's address space appears in the process's instead, although the
call returns its address. -/
theorem WalksDirectMap.remap {total c : Nat} (h : WalksDirectMap True total role σ)
    (phys virt : Nat) (hlow : total ≤ 0x777F80100000) (hc : c ∈ σ.spaces) (hne : c ≠ σ.vm.kernelPML4)
    (hfree : 6 ≤ σ.vm.pmm.freeCount) (hphys : IsFrameAddress phys) (hvirt : ¬ KernelHalf virt) :
    ∃ σ', Trace (VMRun.WalkedStep VMRun.Permitted) σ
        [(σ.vm.kernelPML4,
            .mapPage σ.vm.kernelPML4 c (physToHhdm σ.vm.kernelPML4) pteKernelData),
          (σ.vm.kernelPML4, .mapPage σ.vm.kernelPML4 phys virt pteKernelData)] σ' ∧
      σ'.vm.kernelPML4 = σ.vm.kernelPML4 ∧
      σ'.lookup σ.vm.kernelPML4 virt = some (phys, pteKernelData) ∧
      σ'.vm.walk σ.vm.kernelPML4 virt = σ.vm.walk σ.vm.kernelPML4 virt ∧
      σ'.lookup c virt = σ.lookup c virt ∧ σ'.vm.walk c virt = some (phys, pteKernelData) := by
  obtain ⟨k, hk⟩ : ∃ k, σ.vm.kernelPML4 = k := ⟨_, rfl⟩
  rw [hk] at hne ⊢
  have hflags : IsFlagWord pteKernelData := by decide
  have hpresent : pteKernelData &&& ptePresent ≠ 0 := by decide
  have hnotUser : ¬ UserEntry pteKernelData := by
    simp [UserEntry, pteKernelData, pteUser, ptePresent, pteRW]
  have hkroot : k ∈ σ.roots := hk ▸ List.mem_cons_self
  have hcroot : c ∈ σ.roots := List.mem_cons_of_mem _ hc
  have hframe := h.wellFormed.table_frame (h.wellFormed.root_role hcroot)
  have hkleads : Leads True σ.vm k k k :=
    (h.reaches hlow hkroot).table (h.wellFormed.root_role hkroot)
  have hhalf : KernelHalf (physToHhdm k) := kernelHalf_physToHhdm hkleads.lt
  -- The page of the kernel's PML4 is mapped to `c`.
  obtain ⟨role₁, vm₁, heq₁, hmap₁, hcount₁, hwalk₁⟩ := mapPage_maps h.wellFormed
    (physToHhdm k) hkroot hframe hflags hpresent (by omega)
  have hkernel₁ : vm₁.kernelPML4 = k := hmap₁.kernelPML4_eq.trans hk
  have hstep₁ : VMRun.WalkedStep VMRun.Permitted σ
      (k, .mapPage k c (physToHhdm k) pteKernelData)
      (({ σ with vm := vm₁ } : VMRun).setMapped k (pageNumber (physToHhdm k))
        (some (c, pteKernelData))) := by
    have hcall : σ.OnPages (.mapPage k c (physToHhdm k) pteKernelData) :=
      ⟨hkroot, hframe, hflags, hpresent⟩
    refine ⟨hkroot, ⟨hkroot, hframe, hflags, hpresent, fun _ => ⟨hk.symm, hnotUser⟩⟩, _,
      (h.walkedCall hlow hkroot hcall).eq_some trivial, ?_⟩
    simp only [VMRun.directCall, heq₁]
    rfl
  -- From now on accesses to the kernel's PML4 go to `c`.
  have hreaches := h.reaches_remapped hlow hkroot hkroot (by decide) hmap₁ hwalk₁
  have hfollows := mapPage_follows hreaches hkroot hcroot (Function.update_self ..) phys virt
    pteKernelData
  obtain ⟨role₂, vm₂, heq₂, hmap₂, -, hwalk₂⟩ := mapPage_maps hmap₁.wellFormed
    virt hcroot hphys hflags hpresent (by omega)
  rw [heq₂] at hfollows
  have hroots₁ : (({ σ with vm := vm₁ } : VMRun).setMapped k (pageNumber (physToHhdm k))
      (some (c, pteKernelData))).roots = σ.roots := by
    simp only [VMRun.roots, VMRun.setMapped, hkernel₁, hk]
  have hstep₂ : VMRun.WalkedStep VMRun.Permitted
      (({ σ with vm := vm₁ } : VMRun).setMapped k (pageNumber (physToHhdm k))
        (some (c, pteKernelData)))
      (k, .mapPage k phys virt pteKernelData)
      ((({ σ with vm := vm₂ } : VMRun).setMapped k (pageNumber (physToHhdm k))
        (some (c, pteKernelData))).setMapped k (pageNumber virt) (some (phys, pteKernelData))) := by
    refine ⟨hroots₁ ▸ hkroot, ⟨hroots₁ ▸ hkroot, hphys, hflags, hpresent,
      fun hk => absurd hk hvirt⟩, _, hfollows.eq_some trivial, rfl⟩
  have hkernel₂ : vm₂.kernelPML4 = k := hmap₂.kernelPML4_eq.trans hkernel₁
  refine ⟨_, .cons hstep₁ (.single hstep₂), hkernel₂, ?_, ?_, ?_, hwalk₂⟩
  · -- the call on the kernel's address space was recorded
    simp only [VMRun.lookup, VMRun.owner, VMRun.setMapped, hkernel₂, true_or, if_true,
      Option.bind_some, Function.update_self]
  · -- but neither call touched the kernel's tables of this page
    have hpage : pageNumber virt ≠ pageNumber (physToHhdm k) :=
      fun hpage => hvirt ((kernelHalf_congr hpage).mpr hhalf)
    have hsame₁ : vm₁.walk k virt = σ.vm.walk k virt := by
      rcases hmap₁.walk_cases hkroot with heq | ⟨hsame, -⟩
      · exact heq
      · exact absurd hsame hpage
    have hsame₂ : vm₂.walk k virt = vm₁.walk k virt := by
      rcases hmap₂.walk_cases hkroot with heq | ⟨-, hkc | hhalf', -⟩
      · exact heq
      · exact absurd hkc.symm hne
      · exact absurd hhalf' hvirt
    exact hsame₂.trans hsame₁
  · simp only [VMRun.lookup, VMRun.owner, VMRun.setMapped, hvirt, not_false_eq_true, or_true,
      if_true, Option.bind_some, Function.update_of_ne hne]

/-- Boot maps nothing at 4 MiB. -/
theorem heapMachine_walk_none {σ₀ : VMRun} (hboot : VMRun.boot heapMachine = some σ₀) :
    σ₀.vm.walk σ₀.vm.kernelPML4 0x400000 = none := by
  obtain ⟨role, -, -, -, -, -, -, hwalk⟩ := boot_loops heapMachine_accepted hboot
  have hmax : maxPhysicalAddress heapMachine.memoryMap = 0x800000 := by decide
  rw [Option.eq_none_iff_forall_ne_some]
  intro m hm
  obtain ⟨page, hpage, hnumber, -⟩ := hwalk _ m (by decide) hm
  rw [hmax] at hpage
  have hpath := heapMachine_bootPages hpage
  rw [(pageNumber_eq_iff.mp hnumber).1] at hpath
  exact absurd hpath (by decide)

/-- Without sparing the direct map the refinement fails. -/
theorem pageTables_not_refined : ∃ σ₀ σ c, VMRun.boot heapMachine = some σ₀ ∧
    Trace (VMRun.WalkedStep VMRun.Permitted) σ₀
      [(σ₀.vm.kernelPML4, .createAddressSpace),
        (σ₀.vm.kernelPML4,
          .mapPage σ₀.vm.kernelPML4 c (physToHhdm σ₀.vm.kernelPML4) pteKernelData),
        (σ₀.vm.kernelPML4, .mapPage σ₀.vm.kernelPML4 0x200000 0x400000 pteKernelData)] σ ∧
    σ.vm.kernelPML4 = σ₀.vm.kernelPML4 ∧
    σ.lookup σ₀.vm.kernelPML4 0x400000 = some (0x200000, pteKernelData) ∧
    σ.vm.walk σ₀.vm.kernelPML4 0x400000 = none ∧
    σ.lookup c 0x400000 = none ∧ σ.vm.walk c 0x400000 = some (0x200000, pteKernelData) := by
  obtain ⟨σ₀, role₀, hboot, -, h₀, hfree₀⟩ := heapMachine_boot
  have hlow : (0x800000 : Nat) ≤ 0x777F80100000 := by decide
  obtain ⟨role₁, h₁⟩ := h₀.step hlow (show σ₀.SparesDirectMap _ .createAddressSpace from trivial)
  have hstep : VMRun.WalkedStep VMRun.Permitted σ₀ (σ₀.vm.kernelPML4, .createAddressSpace)
      (σ₀.step .createAddressSpace) :=
    h₀.walkedStep hlow trivial List.mem_cons_self trivial trivial
  -- A process gets the PML4 `c`.
  rcases createAddressSpace_cases h₀.wellFormed h₀.isInitialized with ⟨hfull, -⟩ |
    ⟨c, s₁, heq, hc0, hadd⟩
  · omega
  have hσ₁ : σ₀.step .createAddressSpace =
      { vm := s₁
        spaces := c :: σ₀.spaces
        mapped := Function.update σ₀.mapped c fun _ => none
        linked := Function.update σ₀.linked c fun i =>
          (childTable (σ₀.vm.entry σ₀.vm.kernelPML4 i)).isSome } := by
    simp only [VMRun.step, heq, if_neg hc0]
  rw [hσ₁] at h₁ hstep
  have hne : c ≠ s₁.kernelPML4 := by
    rw [hadd.kernelPML4_eq]
    rintro rfl
    have hrole := h₀.wellFormed.root_role List.mem_cons_self
    rw [hadd.fresh] at hrole
    exact absurd hrole (by simp)
  have hcount := hadd.freeCount_eq
  have hkernel : s₁.kernelPML4 = σ₀.vm.kernelPML4 := hadd.kernelPML4_eq
  obtain ⟨σ, htrace, hσ, hlookup, hwalk, hlookup', hwalk'⟩ :=
    h₁.remap 0x200000 0x400000 hlow List.mem_cons_self hne
      (show 6 ≤ s₁.pmm.freeCount by omega) (by decide) (by decide)
  simp only [hkernel] at htrace hσ hlookup hwalk
  refine ⟨σ₀, σ, c, hboot, .cons hstep htrace, hσ, hlookup, ?_, ?_, hwalk'⟩
  · rw [hwalk, hadd.walk_old h₀.wellFormed List.mem_cons_self]
    exact heapMachine_walk_none hboot
  · have hlow' : ¬ KernelHalf 0x400000 := by decide
    rw [hlookup']
    simp only [VMRun.lookup, VMRun.owner, hlow', not_false_eq_true, or_true, if_true,
      Option.bind_some, Function.update_self]

end TermOS.VM
