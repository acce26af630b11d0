import TermOS.VM.DirectMap

/-!
# Memory that boot keeps

The physical memory manager hands out only frames that are free when it is initialised. The other
memory holds the kernel image, what the firmware keeps for itself and what the boot loader put
there. The memory managers write no byte of it while the kernel starts, and the direct map shows it.

## Main Definitions

* `KeepsFrames` - the bytes of some frames stay

## Main Theorems

* `bootHeap_keepsFrames` - the memory that was in use is as the boot loader left it
-/

namespace TermOS.VM

open TermOS.Lib TermOS.Kernel TermOS.Lib.TableForest VMState

variable {fixed : Nat → Prop} {roots : List Nat} {role role' : Roles} {s s₁ s' : VMState}
  {root virt total : Nat}

/-! ## Section 1: Frames that are kept -/

/-- No byte of the frames `fixed` changes, but for those of the kernel's PML4. -/
structure KeepsFrames (fixed : Nat → Prop) (s s' : VMState) : Prop where
  kernelPML4_eq : s'.kernelPML4 = s.kernelPML4
  mem_eq : ∀ x, fixed (x / 4096 * 4096) → x / 4096 * 4096 ≠ s.kernelPML4 → s'.mem x = s.mem x

theorem KeepsFrames.refl (fixed : Nat → Prop) (s : VMState) : KeepsFrames fixed s s := ⟨rfl, fun _ _ _ => rfl⟩

theorem KeepsFrames.trans (h : KeepsFrames fixed s s₁) (h' : KeepsFrames fixed s₁ s') : KeepsFrames fixed s s' where
  kernelPML4_eq := h'.kernelPML4_eq.trans h.kernelPML4_eq
  mem_eq := by
    intro x hfixed hne
    rw [h'.mem_eq x hfixed (by rwa [h.kernelPML4_eq]), h.mem_eq x hfixed hne]

/-- Each of the frames `fixed` is reserved, or the kernel's PML4. -/
def Reserves (fixed : Nat → Prop) (role : Roles) (s : VMState) : Prop :=
  ∀ a, fixed a → role a = some .reserved ∨ a = s.kernelPML4

theorem Reserves.of_extends (h : Reserves fixed role s) (hext : Roles.Extends role role')
    (hkernel : s'.kernelPML4 = s.kernelPML4) : Reserves fixed role' s' := by
  intro a ha
  rw [hkernel]
  exact (h a ha).imp_left (hext a _)

/-- Mapping a page writes only tables. -/
theorem MapOutcome.keepsFrames {m : Nat × Nat} (h : MapOutcome roots role s root virt m role' s')
    (hreserves : Reserves fixed role s) : KeepsFrames fixed s s' where
  kernelPML4_eq := h.kernelPML4_eq
  mem_eq := by
    intro x hfixed hne
    have hrole := h.role_keep _ _ ((hreserves _ hfixed).resolve_right hne)
    exact h.mem_eq (by simp [hrole])

/-- So does unmapping a page. -/
theorem keepsFrames_unmapPage (h : WellFormed roots role s) (hroot : root ∈ roots) (virt : Nat)
    (hreserves : Reserves fixed role s) : KeepsFrames fixed s (vmVirtualMemoryUnmapPage s root virt) := by
  rw [unmapPage_eq h hroot]
  cases hpt : s.leafTable root virt with
  | none => exact KeepsFrames.refl fixed s
  | some pt =>
    obtain ⟨r, hrole, -⟩ := h.leafTable_role hroot hpt
    refine ⟨rfl, fun x hfixed hne => mem_setEntry_outside s _ 0 (h.table_frame hrole).1 ?_⟩
    -- a reserved frame is no table
    rintro heq
    have hres := (hreserves _ hfixed).resolve_right hne
    rw [heq, hrole] at hres
    simp at hres

/-- The mapping loops. -/
theorem keepsFrames_mapPages {flags : Nat} (hflags : IsFlagWord flags) (hpresent : flags &&& ptePresent ≠ 0)
    {pages : List (Nat × Nat)} (hpages : ∀ page ∈ pages, IsFrameAddress page.1) :
    ∀ {role : Roles} {s : VMState}, WellFormed roots role s → root ∈ roots → Reserves fixed role s →
      KeepsFrames fixed s (mapPages root flags s pages) ∧
      ∃ role', WellFormed roots role' (mapPages root flags s pages) ∧
        Reserves fixed role' (mapPages root flags s pages) := by
  induction pages with
  | nil => exact fun h _ hreserves => ⟨KeepsFrames.refl _ _, _, h, hreserves⟩
  | cons page rest ih =>
    intro role s h hroot hreserves
    obtain ⟨role₁, hmap, -⟩ :=
      mapPage_outcome h page.2 hroot (hpages page List.mem_cons_self) hflags hpresent
    have hkeeps := hmap.keepsFrames hreserves
    obtain ⟨hrest, hlast⟩ := ih (fun p hp => hpages p (List.mem_cons_of_mem _ hp)) hmap.wellFormed hroot
      (hreserves.of_extends hmap.role_keep hmap.kernelPML4_eq)
    exact ⟨hkeeps.trans hrest, hlast⟩

/-! ## Section 2: The start of the kernel -/

/-- The page that the kernel's PML4 is put into is the only one that is written before the loops. -/
theorem bootTables_mem (mem : Memory) {pmm : VMPhysicalMemory}
    (hframe : IsFrameAddress (bootTables mem pmm).kernelPML4) {x : Nat}
    (hx : x / 4096 * 4096 ≠ (bootTables mem pmm).kernelPML4) : (bootTables mem pmm).mem x = mem x := by
  let s : VMState := ⟨mem, (VMState.allocatePage ⟨mem, pmm, 0, false⟩).2.pmm,
    (bootTables mem pmm).kernelPML4, false⟩
  have hclear : s.clearPage (sVMGetVirtualTable s (bootTables mem pmm).kernelPML4) =
      s.zeroPage (bootTables mem pmm).kernelPML4 := clearPage_eq_zeroPage rfl hframe.2
  show (s.clearPage (sVMGetVirtualTable s (bootTables mem pmm).kernelPML4)).mem x = mem x
  rw [hclear, mem_zeroPage_outside s hframe.1 hx]

/-- The kernel's PML4 gets a frame that was free, unless none was. -/
theorem bootTables_kernelPML4_free {mem : Memory} {pmm : VMPhysicalMemory}
    (hne : (bootTables mem pmm).kernelPML4 ≠ 0) :
    pmm.FrameFree ((bootTables mem pmm).kernelPML4 / kVMPageSize) := by
  rcases allocatePage_state_cases ⟨mem, pmm, 0, false⟩ with ⟨-, heq⟩ | ⟨f, s₁, hf, heq, -⟩
  · refine absurd ?_ hne
    simp [bootTables, heq]
  · have haddress : (bootTables mem pmm).kernelPML4 = f * kVMPageSize := by
      simp [bootTables, heq]
    rw [haddress, Nat.mul_div_cancel f (by decide)]
    exact hf

/-- The frames that are not free when the physical memory manager is ready. -/
def InUse (pmm : VMPhysicalMemory) (a : Nat) : Prop := reservedRoles pmm a = some .reserved

theorem inUse_floor {pmm : VMPhysicalMemory} {x : Nat} :
    InUse pmm (x / 4096 * 4096) ↔ ¬ pmm.FrameFree (x / kVMPageSize) := by
  simp [InUse, reservedRoles, kVMPageSize]

/-- The state after `VMVirtualMemoryInitialize` is the one of a run of calls. -/
theorem exists_bootRun {m : Machine} (hboot : m.boot = some s) :
    ∃ σ, VMRun.boot m = some σ ∧ σ.vm = s := by
  obtain ⟨pmm, hpmm, rfl⟩ := Option.map_eq_some_iff.mp hboot
  exact ⟨_, by rw [VMRun.boot, hpmm, Option.map_some], rfl⟩

/-- `VMVirtualMemoryInitialize` writes its tables, and no byte of a frame that was in use. -/
theorem boot_keepsFrames {m : Machine} (hm : m.Accepted) (hboot : m.boot = some s) {f : Nat}
    (hf : s.pmm.FrameFree f) {pmm : VMPhysicalMemory}
    (hpmm : vmPhysicalMemoryInitialize m.memoryMap m.image = some pmm) :
    pmm.FrameFree (s.kernelPML4 / kVMPageSize) ∧
    ∀ x, InUse pmm (x / 4096 * 4096) → x / 4096 * 4096 ≠ s.kernelPML4 → s.mem x = m.memory x := by
  have hbounds : ∀ {f}, pmm.FrameFree f → f ≠ 0 ∧ f * kVMPageSize < 2 ^ 52 := by
    intro f hf
    obtain ⟨hne, -, hlt⟩ := free_frame_bounds hm hpmm hf
    exact ⟨hne, hlt⟩
  obtain ⟨hframe, hempty, hfree⟩ := bootTables_spec m.memory hbounds
  have hbase : ∀ a x, reservedRoles pmm a = some x →
      x = .reserved ∧ ¬ (bootTables m.memory pmm).pmm.FrameFree (a / kVMPageSize) := by
    intro a x ha
    rw [reservedRoles] at ha
    split at ha
    · next hcond => exact ⟨(Option.some.inj ha).symm, fun hf => hcond.2 (hfree _ hf).1⟩
    · exact absurd ha (by simp)
  have hstart : WellFormed [(bootTables m.memory pmm).kernelPML4] (Function.update (reservedRoles pmm)
      (bootTables m.memory pmm).kernelPML4 (some (.table (bootTables m.memory pmm).kernelPML4 [])))
      (bootTables m.memory pmm) :=
    (start_refines hframe hempty (fun hf => (hfree _ hf).2.1 rfl) (fun hf => hbounds (hfree _ hf).1)
      hbase).wellFormed
  have hreserves : Reserves (InUse pmm) (Function.update (reservedRoles pmm)
      (bootTables m.memory pmm).kernelPML4 (some (.table (bootTables m.memory pmm).kernelPML4 [])))
      (bootTables m.memory pmm) := by
    intro a ha
    by_cases hak : a = (bootTables m.memory pmm).kernelPML4
    · exact .inr hak
    · exact .inl (by rwa [Function.update_of_ne hak])
  have htotal : pmm.totalMemorySize ≤ 2 ^ 52 := by
    rw [totalMemorySize_eq hm hpmm]
    exact hm.memory_le
  obtain ⟨hmapped, role, hwf, hkept⟩ := keepsFrames_mapPages (show IsFlagWord pteKernelData by decide)
    (by decide) (fun page hpage => bootPages_frame hm htotal hpage) hstart List.mem_cons_self hreserves
  have hkeeps := hmapped.trans (keepsFrames_unmapPage hwf List.mem_cons_self m.layout.stackGuard hkept)
  -- what `activate` changes is no byte
  have heq : s = (vmVirtualMemoryUnmapPage
      (mapPages (bootTables m.memory pmm).kernelPML4 pteKernelData (bootTables m.memory pmm)
        (bootPages m.layout m.image pmm.totalMemorySize))
      (bootTables m.memory pmm).kernelPML4 m.layout.stackGuard).activate
        (physToHhdm pmm.bitmapAddress) := by
    obtain ⟨σ, hσ, rfl⟩ := exists_bootRun hboot
    obtain ⟨pmm', hpmm', -, hvm, -⟩ := boot_vm hσ
    obtain rfl : pmm' = pmm := Option.some.inj (hpmm'.symm.trans hpmm)
    exact hvm
  have hkernel : s.kernelPML4 = (bootTables m.memory pmm).kernelPML4 := by
    rw [heq, activate_kernelPML4, hkeeps.kernelPML4_eq]
  constructor
  · rw [hkernel]
    apply bootTables_kernelPML4_free
    obtain ⟨role, hready, -⟩ := boot_ready hm hboot hf
    intro hzero
    apply hready.consistent.zero_notTable s.kernelPML4 []
    rw [← hzero, ← hkernel]
    exact hready.consistent.wellFormed.root_role List.mem_cons_self
  · intro x hx hne
    rw [hkernel] at hne
    have hstep : s.mem x = (bootTables m.memory pmm).mem x := by
      rw [heq, activate_mem, hkeeps.mem_eq x hx hne]
    rw [hstep, bootTables_mem m.memory hframe hne]

/-! ## Section 3: The kernel heap -/

/-- The pages of the direct map are none of the heap's. -/
theorem pageNumber_direct_ne_heap {phys i : Nat} (hphys : phys < 0x777F80100000) (hi : i < kVMHeapSizePages) :
    pageNumber (physToHhdm phys) ≠ pageNumber (kVMKernelHeapStart + i * kVMPageSize) := by
  rw [pageNumber_physToHhdm hphys]
  simp only [pageNumber, kVMKernelHeapStart, kVMPageSize, kVMHeapSizePages] at hi ⊢
  omega

/-- The direct map of all memory in the kernel's own address space. -/
abbrev KernelDirectMapped (total : Nat) (s : VMState) : Prop := DirectMapped total [s.kernelPML4] s

/-- One turn of the loop of `VMHeapInitialize`. -/
theorem KernelReady.turn_keepsFrames {heap : List Nat} {physical i : Nat} (h : KernelReady role heap s)
    (hreserves : Reserves fixed role s) (htotal : total ≤ 0x777F80100000) (hdirect : KernelDirectMapped total s)
    (hi : i < kVMHeapSizePages) (halloc : s.allocatePage = (physical, s₁)) (hne : physical ≠ 0)
    (hmapped : (vmVirtualMemoryMapPage s₁ s₁.kernelPML4 physical
      (kVMKernelHeapStart + i * kVMPageSize) pteKernelData).2 = s') :
    KeepsFrames fixed s s' ∧ KernelDirectMapped total s' := by
  rcases h.consistent.allocatePage (x := .reserved) (by simp) with
    ⟨-, heq⟩ | ⟨a, s₂, heq, -, hframe, hnone, -, hsame, hmem, hconsistent⟩
  · rw [heq] at halloc
    exact absurd (congrArg Prod.fst halloc).symm hne
  · obtain ⟨rfl, rfl⟩ : a = physical ∧ s₂ = s₁ := by
      rw [heq] at halloc
      exact ⟨congrArg Prod.fst halloc, congrArg Prod.snd halloc⟩
    obtain ⟨role', -, hmap, -⟩ := hconsistent.mapPage (kVMKernelHeapStart + i * kVMPageSize)
      List.mem_cons_self hframe (show IsFlagWord pteKernelData by decide) (by decide)
    rw [hmapped] at hmap
    have hallocated : KeepsFrames fixed s s₂ := ⟨hsame.kernelPML4_eq, fun x _ _ => by rw [hmem]⟩
    have hreserves' := hreserves.of_extends (Roles.Extends.update_of_none hnone .reserved)
      hsame.kernelPML4_eq
    refine ⟨hallocated.trans (hmap.keepsFrames hreserves'), ?_⟩
    intro r hr frame hlt
    obtain rfl := List.mem_singleton.mp hr
    rw [hmap.kernelPML4_eq]
    have hother : s'.walk s₂.kernelPML4 (physToHhdm (frame * kVMPageSize)) =
        s₂.walk s₂.kernelPML4 (physToHhdm (frame * kVMPageSize)) := by
      apply (hmap.walk_cases List.mem_cons_self).resolve_right
      exact fun hnew => pageNumber_direct_ne_heap (hlt.trans_le htotal) hi hnew.1
    rw [hother, VMState.walk_of_mem_eq hmem, hsame.kernelPML4_eq]
    exact hdirect _ (List.mem_singleton_self _) frame hlt

/-- The whole loop. -/
theorem mapHeapPages_keepsFrames (htotal : total ≤ 0x777F80100000) {count : Nat} :
    ∀ {role : Roles} {heap frames : List Nat} {s s' : VMState} {i : Nat},
      KernelReady role heap s → Reserves fixed role s → KernelDirectMapped total s →
      i + count ≤ kVMHeapSizePages → mapHeapPages s i count = some (frames, s') →
      KeepsFrames fixed s s' ∧ KernelDirectMapped total s' := by
  induction count with
  | zero =>
    intro role heap frames s s' i _ _ hdirect _ hrun
    obtain ⟨-, rfl⟩ := Prod.mk.inj (Option.some.inj hrun)
    exact ⟨KeepsFrames.refl fixed s, hdirect⟩
  | succ count ih =>
    intro role heap frames s s' i h hreserves hdirect hi hrun
    rw [mapHeapPages] at hrun
    rcases halloc : s.allocatePage with ⟨physical, s₁⟩
    rw [halloc] at hrun
    simp only at hrun
    split at hrun
    · exact absurd hrun (by simp)
    · next hne =>
      obtain ⟨⟨frames', s''⟩, hrest, heq⟩ := Option.map_eq_some_iff.mp hrun
      obtain ⟨-, rfl⟩ := Prod.mk.inj heq
      obtain ⟨role₁, h₁, hext₁, hkeeps₁⟩ := h.turn halloc hne
      have hlt : i < kVMHeapSizePages := Nat.lt_of_lt_of_le (Nat.lt_add_of_pos_right (Nat.succ_pos _)) hi
      have hnext : i + 1 + count ≤ kVMHeapSizePages := by rwa [Nat.add_assoc, Nat.add_comm 1]
      obtain ⟨hkeeps, hdirect₁⟩ := h.turn_keepsFrames hreserves htotal hdirect hlt halloc hne rfl
      obtain ⟨hkeeps', hlast⟩ := ih h₁ (hreserves.of_extends hext₁ hkeeps₁.kernelPML4_eq) hdirect₁
        hnext hrest
      exact ⟨hkeeps.trans hkeeps', hlast⟩

/-- When the kernel's heap is ready, all memory that was in use is as the boot loader left it, and the
direct map shows it. -/
theorem bootHeap_keepsFrames {m : Machine} (hm : m.Accepted) (hfit : m.FitsDirectMap) {heap : List Nat}
    (hboot : m.bootHeap = some (heap, s)) {pmm : VMPhysicalMemory}
    (hpmm : vmPhysicalMemoryInitialize m.memoryMap m.image = some pmm) :
    pmm.FrameFree (s.kernelPML4 / kVMPageSize) ∧
    KernelDirectMapped (maxPhysicalAddress m.memoryMap) s ∧
    ∀ x, ¬ pmm.FrameFree (x / kVMPageSize) → s.mem x = m.memory x := by
  obtain ⟨s₀, f, hs₀, hf, hheap⟩ := bootHeap_eq_some hboot
  obtain ⟨role, hready, pmm', hpmm', -, hroles⟩ := boot_ready hm hs₀ hf
  obtain rfl : pmm' = pmm := Option.some.inj (hpmm'.symm.trans hpmm)
  obtain ⟨hfree, hmem⟩ := boot_keepsFrames hm hs₀ hf hpmm
  have hdirect : KernelDirectMapped (maxPhysicalAddress m.memoryMap) s₀ := by
    obtain ⟨σ, hσ, rfl⟩ := exists_bootRun hs₀
    obtain ⟨pmm'', role', -, htotal, hkeeps⟩ :=
      boot_keepsDirectMap hm hfit.sparesDirectMap (Machine.findsFrames_of_free hm hs₀ hf) hσ
    intro r hr frame hlt
    obtain rfl := List.mem_singleton.mp hr
    exact hkeeps.mapped _ List.mem_cons_self frame (by rwa [htotal])
  have hreserves : Reserves (InUse pmm') role s₀ := hroles
  obtain ⟨hkeeps, hlast⟩ := mapHeapPages_keepsFrames hfit.sparesDirectMap.memory_le hready hreserves hdirect
    (Nat.le_of_eq (Nat.zero_add _)) hheap
  rw [hkeeps.kernelPML4_eq]
  refine ⟨hfree, hlast, fun x hx => ?_⟩
  have hinUse := inUse_floor.mpr hx
  -- the kernel's PML4 lies in a frame that was free
  have hne : x / 4096 * 4096 ≠ s₀.kernelPML4 := by
    intro heq
    rw [← heq] at hfree
    have hdiv : x / 4096 * 4096 / kVMPageSize = x / kVMPageSize := by
      simp only [kVMPageSize]
      omega
    exact hx (hdiv ▸ hfree)
  rw [hkeeps.mem_eq x hinUse hne, hmem x hinUse hne]

end TermOS.VM
