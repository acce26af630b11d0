import TermOS.Lib.Run
import TermOS.VM.FrameCount

/-!
# The higher-half direct map

`VMVirtualMemoryInitialize` maps every frame of physical memory at
`PHYS_TO_HHDM`. All later code reaches frames through these pages, so they have
to stay mapped, and to the same frames, in every address space.
-/

namespace TermOS.VM

open TermOS.Lib TermOS.Kernel TermOS.Lib.TableForest VMState

variable {roots : List Nat} {role role' : Roles} {s s' : VMState}

/-! ## Section 1: Writable pages -/

/-- `virt` is mapped, with the RW bit at all four levels. -/
def VMState.Writable (s : VMState) (root virt : Nat) : Prop :=
  AllAlong childTable WritableEntry s.entry root (upperPath virt) ∧
    ∃ frame flags, s.walk root virt = some (frame, flags) ∧ flags &&& pteRW ≠ 0

instance : DecidablePred WritableEntry := fun entry => inferInstanceAs (Decidable (entry &&& pteRW ≠ 0))

instance (s : VMState) (root virt : Nat) : Decidable (s.Writable root virt) :=
  match h : s.walk root virt with
  | none => isFalse (by simp [VMState.Writable, h])
  | some (frame, flags) =>
    decidable_of_iff (AllAlong childTable WritableEntry s.entry root (upperPath virt) ∧
      flags &&& pteRW ≠ 0) (by simp [VMState.Writable, h])

theorem LinksWritable.writable (hw : LinksWritable role s) (h : WellFormed roots role s)
    {root virt frame flags : Nat} (hroot : root ∈ roots)
    (hwalk : s.walk root virt = some (frame, flags)) (hflags : flags &&& pteRW ≠ 0) :
    s.Writable root virt := by
  refine ⟨?_, frame, flags, hwalk, hflags⟩
  obtain ⟨pt, hpt, -⟩ := walk_eq_some.mp hwalk
  apply allAlong_of_links h.stratified ?_ (h.root_at hroot) (by simp [upperPath_length]) hpt
  rintro n t i c ⟨r, p, ht, hp⟩ hc
  exact hw t r p i c ht (by omega) hc

theorem LinksWritable.of_mem_eq (hw : LinksWritable role s) (hmem : s'.mem = s.mem) :
    LinksWritable role s' := by
  intro t r p i c ht hp hc
  rw [entry_congr hmem] at hc ⊢
  exact hw t r p i c ht hp hc

/-- The links of a new address space are the kernel's. -/
theorem LinksWritable.addsRoot {c : Nat} (hw : LinksWritable role s) (h : WellFormed roots role s)
    (hadd : AddsRoot roots role s c s') :
    LinksWritable (Function.update role c (some (.table c []))) s' := by
  intro t r p i x ht hp hx
  by_cases htc : t = c
  · subst htc
    rw [hadd.entry_new] at hx ⊢
    split at hx
    · exact absurd hx (by simp)
    · next hhalf =>
      rw [if_neg hhalf]
      exact hw _ _ _ i x (h.root_role h.kernel_root) (by simp) hx
  · rw [Function.update_of_ne htc] at ht
    rw [hadd.entry_of_role h ht] at hx ⊢
    exact hw t r p i x ht hp hx

/-! ## Section 2: Unmapping in a forest -/

/-- Unmapping a page leaves the walks of all other pages alone. -/
theorem unmapPage_outcome (h : WellFormed roots role s) (hw : LinksWritable role s) {root : Nat}
    (hroot : root ∈ roots) (virt : Nat) :
    WellFormed roots role (vmVirtualMemoryUnmapPage s root virt) ∧
    LinksWritable role (vmVirtualMemoryUnmapPage s root virt) ∧
    ∀ r ∈ roots, ∀ virt', pageNumber virt' ≠ pageNumber virt →
      (vmVirtualMemoryUnmapPage s root virt).walk r virt' = s.walk r virt' := by
  rw [unmapPage_eq h hroot]
  cases hpt : s.leafTable root virt with
  | none => exact ⟨h, hw, fun _ _ _ _ => rfl⟩
  | some pt =>
    obtain ⟨r₀, hrole, -⟩ := h.leafTable_role hroot hpt
    refine ⟨h.setLeaf hrole (by decide), ?_, fun r hr virt' hpage => ?_⟩
    · intro t r p i c ht hp hc
      rw [entry_setLeaf h hrole (by decide) ht hp] at hc ⊢
      exact hw t r p i c ht hp hc
    · rw [walk_setLeaf h hrole (by decide) hr, if_neg]
      rintro ⟨hleaf, hslot⟩
      -- the same leaf table and slot would be the same page
      obtain ⟨r₁, hrole₁, -⟩ := h.leafTable_role hr hleaf
      obtain ⟨-, hpath⟩ := table_role_inj hrole₁ hrole
      exact hpage (pageNumber_eq_iff.mpr ⟨hpath, hslot⟩)

/-! ## Section 3: The mapping loops -/

/-- Every call of the loop succeeds. -/
def MapsAll (pml4 flags : Nat) : VMState → List (Nat × Nat) → Prop
  | _, [] => True
  | s, page :: rest => (vmVirtualMemoryMapPage s pml4 page.1 page.2 flags).1.isSome ∧
    MapsAll pml4 flags (vmVirtualMemoryMapPage s pml4 page.1 page.2 flags).2 rest

/-- `VMVirtualMemoryInitialize` finds a frame for each table that it needs. -/
def Machine.FindsFrames (m : Machine) : Prop :=
  ∀ pmm, vmPhysicalMemoryInitialize m.memoryMap m.image = some pmm →
    MapsAll (bootTables m.memory pmm).kernelPML4 pteKernelData (bootTables m.memory pmm)
      (bootPages m.layout m.image pmm.totalMemorySize)

section Loop

variable {root flags : Nat}

/-- A call that returns a pointer has mapped the page. -/
theorem mapPage_walk_of_isSome (h : WellFormed roots role s) {phys virt : Nat}
    (hroot : root ∈ roots) (hphys : IsFrameAddress phys) (hflags : IsFlagWord flags)
    (hpresent : flags &&& ptePresent ≠ 0)
    (hsome : (vmVirtualMemoryMapPage s root phys virt flags).1.isSome) :
    (vmVirtualMemoryMapPage s root phys virt flags).2.walk root virt = some (phys, flags) := by
  obtain ⟨-, -, hcases⟩ := mapPage_outcome h virt hroot hphys hflags hpresent
  rcases hcases with ⟨hlt, -⟩ | ⟨-, hwalk⟩
  · rcases mapPage_cases h hroot phys virt flags with ⟨-, role', s', heq, -⟩ |
      ⟨pt, role', s', -, hcount, -⟩
    · rw [heq] at hsome
      exact absurd hsome (by simp)
    · omega
  · exact hwalk

/-- After a loop whose calls all succeed each page is mapped to its frame,
provided that no page occurs with two frames. -/
theorem mapPages_walk (hflags : IsFlagWord flags) (hpresent : flags &&& ptePresent ≠ 0)
    {pages : List (Nat × Nat)} :
    ∀ {role : Roles} {s : VMState}, WellFormed roots role s → LinksWritable role s → root ∈ roots →
      (∀ page ∈ pages, IsFrameAddress page.1) → MapsAll root flags s pages →
      ∃ role', WellFormed roots role' (mapPages root flags s pages) ∧
        LinksWritable role' (mapPages root flags s pages) ∧
        ∀ phys virt, (∀ page ∈ pages, pageNumber page.2 = pageNumber virt → page.1 = phys) →
          s.walk root virt = some (phys, flags) ∨
            (∃ page ∈ pages, pageNumber page.2 = pageNumber virt) →
          (mapPages root flags s pages).walk root virt = some (phys, flags) := by
  -- Induction on the pages; a later page is never put in the place of an earlier one.
  induction pages with
  | nil =>
    intro role s h hw _ _ _
    exact ⟨role, h, hw, fun phys virt _ hcovered => hcovered.resolve_right (by simp)⟩
  | cons page rest ih =>
    rintro role s h hw hroot hframes ⟨hfirst, hothers⟩
    have hframe := hframes page List.mem_cons_self
    obtain ⟨role₁, hmap, -⟩ := mapPage_outcome h page.2 hroot hframe hflags hpresent
    have hmapped := mapPage_walk_of_isSome h hroot hframe hflags hpresent hfirst
    obtain ⟨role', h', hw', hwalk⟩ := ih hmap.wellFormed (hmap.writable hw) hroot
      (fun p hp => hframes p (List.mem_cons_of_mem _ hp)) hothers
    refine ⟨role', h', hw', fun phys virt hunique hcovered => ?_⟩
    apply hwalk phys virt fun p hp => hunique p (List.mem_cons_of_mem _ hp)
    -- The page that was just mapped, or one that was covered before.
    by_cases hpage : pageNumber page.2 = pageNumber virt
    · left
      rw [← walk_congr _ root hpage, hmapped, hunique page List.mem_cons_self hpage]
    · rcases hcovered with hold | ⟨p, hp, hpv⟩
      · left
        rcases hmap.walk_cases hroot with heq | ⟨hsame, -⟩
        · rw [heq, hold]
        · exact absurd hsame.symm hpage
      · rcases List.mem_cons.mp hp with rfl | hp
        · exact absurd hpv hpage
        · exact .inr ⟨p, hp, hpv⟩

/-- A loop after which a frame is left has not failed. -/
theorem mapsAll_of_free (hflags : IsFlagWord flags) (hpresent : flags &&& ptePresent ≠ 0)
    {pages : List (Nat × Nat)} :
    ∀ {role : Roles} {s : VMState}, WellFormed roots role s → root ∈ roots →
      (∀ page ∈ pages, IsFrameAddress page.1) →
      (mapPages root flags s pages).pmm.freeCount ≠ 0 → MapsAll root flags s pages := by
  induction pages with
  | nil => exact fun _ _ _ _ => trivial
  | cons page rest ih =>
    intro role s h hroot hframes hfree
    have hframe := hframes page List.mem_cons_self
    obtain ⟨role₁, hmap, -⟩ := mapPage_outcome h page.2 hroot hframe hflags hpresent
    refine ⟨?_, ih hmap.wellFormed hroot (fun p hp => hframes p (List.mem_cons_of_mem _ hp)) hfree⟩
    rcases mapPage_cases h hroot page.1 page.2 flags with ⟨-, role', s', heq, hfull, -⟩ |
      ⟨pt, role', s', heq, -⟩
    · -- a failing call leaves no frame, and none becomes free later
      have hkeeps : ∀ (ps : List (Nat × Nat)) (σ : VMState), Keeps σ (mapPages root flags σ ps) := by
        intro ps
        induction ps with
        | nil => exact Keeps.refl
        | cons p ps ih => exact fun σ => (keeps_mapPage σ root p.1 p.2 flags).trans (ih _)
      have hle := freeCount_le_of_free fun _ =>
        (hkeeps rest (vmVirtualMemoryMapPage s root page.1 page.2 flags).2).free_of_free
      rw [heq] at hle
      simp only [hfull, Nat.le_zero] at hle
      refine absurd ?_ hfree
      rw [mapPages, List.foldl_cons, heq]
      exact hle
    · rw [heq]
      rfl

end Loop

/-! ## Section 4: The direct map -/

/-- The frames of physical memory below `total` are mapped at `PHYS_TO_HHDM`. -/
def DirectMapped (total : Nat) (roots : List Nat) (s : VMState) : Prop :=
  ∀ r ∈ roots, ∀ frame, frame * kVMPageSize < total →
    s.walk r (physToHhdm (frame * kVMPageSize)) = some (frame * kVMPageSize, pteKernelData)

/-- The page of `virt` is one of the direct map's. -/
def TargetsDirectMap (total virt : Nat) : Prop :=
  ∃ frame, frame * kVMPageSize < total ∧
    pageNumber (physToHhdm (frame * kVMPageSize)) = pageNumber virt

/-- The mapping loops for the kernel image and the framebuffer spare the direct
map: memory ends where the image is mapped (`_kernel_start - HHDM_OFFSET`), the
pages of the framebuffer, which go on from address 0 after the last 64 MiB, end
below the direct map, and the stack guard is a page of the image. -/
structure Machine.SparesDirectMap (m : Machine) : Prop where
  memory_le : maxPhysicalAddress m.memoryMap ≤ 0x777F80100000
  framebuffer_le : m.layout.framebufferSize ≤ 0x888004000000
  stackGuard_le : m.image.kernelStart ≤ m.layout.stackGuard
  stackGuard_lt : m.layout.stackGuard < 2 ^ 64

/-- The direct map has its own part of the kernel half: memory ends below
`2 ^ 46`, the framebuffer is no larger than that, and the stack guard is a page
of the kernel image. -/
structure Machine.FitsDirectMap (m : Machine) : Prop where
  memory_le : maxPhysicalAddress m.memoryMap ≤ 2 ^ 46
  framebuffer_le : m.layout.framebufferSize ≤ 2 ^ 46
  stackGuard_le : m.image.kernelStart ≤ m.layout.stackGuard
  stackGuard_lt : m.layout.stackGuard < 2 ^ 64

theorem Machine.FitsDirectMap.sparesDirectMap {m : Machine} (h : m.FitsDirectMap) :
    m.SparesDirectMap where
  memory_le := h.memory_le.trans (by decide)
  framebuffer_le := h.framebuffer_le.trans (by decide)
  stackGuard_le := h.stackGuard_le
  stackGuard_lt := h.stackGuard_lt

theorem physToHhdm_of_lt {phys : Nat} (h : phys < 0x777F80100000) :
    physToHhdm phys = phys + hhdmOffset := by
  apply wrap64_of_lt
  simp only [hhdmOffset]
  omega

theorem pageNumber_physToHhdm {phys : Nat} (h : phys < 0x777F80100000) :
    pageNumber (physToHhdm phys) = phys / 4096 + 0x888000000 := by
  rw [physToHhdm_of_lt h, pageNumber]
  simp only [hhdmOffset]
  omega

theorem kernelHalf_physToHhdm {phys : Nat} (h : phys < 0x777F80100000) : KernelHalf (physToHhdm phys) := by
  rw [physToHhdm_of_lt h]
  simp only [KernelHalf, pml4Slot, vmmPML4Index_eq, hhdmOffset]
  omega

/-- The stack guard is not a page of the direct map. -/
theorem pageNumber_ne_stackGuard {m : Machine} (hfit : m.SparesDirectMap) {phys : Nat}
    (h : phys < 0x777F80100000) :
    pageNumber (physToHhdm phys) ≠ pageNumber m.layout.stackGuard := by
  have hle := hfit.stackGuard_le
  have hlt := hfit.stackGuard_lt
  rw [pageNumber_physToHhdm h]
  simp only [pageNumber, KernelImage.kernelStart, kernelVMA] at hle ⊢
  omega

/-- No other page that boot maps is a page of the direct map. -/
theorem bootPages_unique {m : Machine} (hfit : m.SparesDirectMap) (hm : m.Accepted)
    {total frame : Nat} (htotal : total ≤ 0x777F80100000) (hframe : frame * kVMPageSize < total)
    {page : Nat × Nat} (hpage : page ∈ bootPages m.layout m.image total)
    (hnumber : pageNumber page.2 = pageNumber (physToHhdm (frame * kVMPageSize))) :
    page.1 = frame * kVMPageSize := by
  have hfb := hfit.framebuffer_le
  have himage := hm.image_end
  rw [pageNumber_physToHhdm (by omega)] at hnumber
  simp only [kVMPageSize] at hnumber hframe
  simp only [bootPages, List.mem_append, List.mem_map, or_assoc] at hpage
  rcases hpage with ⟨i, hi, rfl⟩ | ⟨i, hi, rfl⟩ | ⟨i, hi, rfl⟩
  · obtain ⟨n, rfl, hlt⟩ := mem_pageLoop.mp hi
    rw [pageNumber_physToHhdm (by omega)] at hnumber
    simp only [kVMPageSize] at hnumber ⊢
    omega
  · obtain ⟨n, rfl, hlt⟩ := mem_pageLoop.mp hi
    simp only [pageNumber, KernelImage.kernelStart, kernelVMA, kVMPageSize] at hnumber hlt
    omega
  · obtain ⟨n, rfl, hlt⟩ := mem_pageLoop.mp hi
    -- the framebuffer's pages lie above the direct map or wrap to the user half
    simp only [pageNumber, wrap64, fbVirtBase, kVMPageSize] at hnumber hlt
    omega

theorem mem_bootPages_direct {m : Machine} {total frame : Nat} (hframe : frame * kVMPageSize < total) :
    (frame * kVMPageSize, physToHhdm (frame * kVMPageSize)) ∈ bootPages m.layout m.image total := by
  rw [bootPages, List.mem_append, List.mem_append]
  refine .inl (.inl (List.mem_map.mpr ⟨frame * kVMPageSize, mem_pageLoop.mpr ?_, rfl⟩))
  exact ⟨frame, by rw [Nat.zero_add], hframe⟩

/-! ## Section 5: After boot -/

/-- What the later runs keep: the direct map in every address space. -/
structure KeepsDirectMap (pmm : VMPhysicalMemory) (role : Roles) (σ : VMRun) : Prop where
  wellFormed : WellFormed σ.roots role σ.vm
  isInitialized : σ.vm.isInitialized = true
  writable : LinksWritable role σ.vm
  mapped : DirectMapped pmm.totalMemorySize σ.roots σ.vm
  bitmapAddress_eq : σ.vm.pmm.bitmapAddress = physToHhdm pmm.bitmapAddress
  length_eq : σ.vm.pmm.bitmap.length = pmm.bitmap.length
  free_of_free : ∀ {f}, σ.vm.pmm.FrameFree f → pmm.FrameFree f

theorem bootTables_keeps (mem : Memory) (pmm : VMPhysicalMemory) :
    (bootTables mem pmm).pmm.bitmapAddress = pmm.bitmapAddress ∧
    (bootTables mem pmm).pmm.bitmap.length = pmm.bitmap.length ∧
    ∀ {f}, (bootTables mem pmm).pmm.FrameFree f → pmm.FrameFree f := by
  have hkeeps := keeps_allocatePage ⟨mem, pmm, 0, false⟩
  simp only [bootTables, clearPage_pmm]
  exact ⟨hkeeps.bitmapAddress_eq, hkeeps.length_eq, hkeeps.free_of_free⟩

/-- The state at the end of boot, from the one that the mapping calls leave. -/
theorem boot_vm {m : Machine} {σ₀ : VMRun} (hboot : VMRun.boot m = some σ₀) :
    ∃ pmm, vmPhysicalMemoryInitialize m.memoryMap m.image = some pmm ∧ σ₀.spaces = [] ∧
      σ₀.vm = (vmVirtualMemoryUnmapPage
        (mapPages (bootTables m.memory pmm).kernelPML4 pteKernelData (bootTables m.memory pmm)
          (bootPages m.layout m.image pmm.totalMemorySize))
        (bootTables m.memory pmm).kernelPML4 m.layout.stackGuard).activate
          (physToHhdm pmm.bitmapAddress) ∧
      Keeps (bootTables m.memory pmm) (VMRun.bootRun m pmm).vm ∧
      σ₀.vm.pmm.bitmap = (VMRun.bootRun m pmm).vm.pmm.bitmap := by
  obtain ⟨pmm, hpmm, rfl⟩ := Option.map_eq_some_iff.mp hboot
  have hkeeps : Keeps (bootTables m.memory pmm) (VMRun.bootRun m pmm).vm :=
    VMRun.keeps_foldl_step _ (VMRun.start (bootTables m.memory pmm))
  obtain ⟨haddress, -, -⟩ := bootTables_keeps m.memory pmm
  refine ⟨pmm, hpmm, bootRun_spaces m pmm, ?_, hkeeps, ?_⟩
  · rw [vmVirtualMemoryInitialize_eq, hkeeps.bitmapAddress_eq, haddress, bootRun_vm]
  · rw [vmVirtualMemoryInitialize_eq, activate_bitmap]

/-- The PML4 that boot starts from, as a forest of one table that maps nothing. -/
theorem bootTables_wellFormed {m : Machine} (hm : m.Accepted) {pmm : VMPhysicalMemory}
    (hpmm : vmPhysicalMemoryInitialize m.memoryMap m.image = some pmm) :
    ∃ role, WellFormed [(bootTables m.memory pmm).kernelPML4] role (bootTables m.memory pmm) ∧
      LinksWritable role (bootTables m.memory pmm) ∧
      (∀ t r p, role t = some (.table r p) → t = (bootTables m.memory pmm).kernelPML4) ∧
      ∀ virt, (bootTables m.memory pmm).walk (bootTables m.memory pmm).kernelPML4 virt = none := by
  have hbounds : ∀ {f}, pmm.FrameFree f → f ≠ 0 ∧ f * kVMPageSize < 2 ^ 52 := by
    intro f hf
    obtain ⟨hne, -, hlt⟩ := free_frame_bounds hm hpmm hf
    exact ⟨hne, hlt⟩
  obtain ⟨hframe, hempty, hfree⟩ := bootTables_spec m.memory hbounds
  have hstart := start_refines (b := fun _ => none) hframe hempty
    (fun hf => (hfree _ hf).2.1 rfl) (fun hf => hbounds (hfree _ hf).1) (fun _ _ ha => by simp at ha)
  -- the only table is the empty PML4
  have honly : ∀ t r p, Function.update (fun _ => none : Roles) (bootTables m.memory pmm).kernelPML4
      (some (FrameRole.table (bootTables m.memory pmm).kernelPML4 [])) t = some (.table r p) →
      t = (bootTables m.memory pmm).kernelPML4 := by
    intro t r p ht
    by_contra hroot
    rw [Function.update_of_ne hroot] at ht
    exact absurd ht (by simp)
  refine ⟨_, hstart.wellFormed, ?_, honly, fun _ => hstart.walk_eq List.mem_cons_self (.inl rfl)⟩
  intro t r p i c ht _ hc
  rw [honly t r p ht, hempty] at hc
  exact absurd hc (by simp)

theorem totalMemorySize_eq {m : Machine} (hm : m.Accepted) {pmm : VMPhysicalMemory}
    (hpmm : vmPhysicalMemoryInitialize m.memoryMap m.image = some pmm) :
    pmm.totalMemorySize = maxPhysicalAddress m.memoryMap := by
  obtain ⟨-, pm, -, heq, -, -, htotal, -⟩ := physicalMemoryInitialize_eq_some hm.map
  obtain rfl : pm = pmm := Option.some.inj (heq.symm.trans hpmm)
  exact htotal

/-- A machine with a free frame after boot has found all the frames it needed. -/
theorem Machine.findsFrames_of_free {m : Machine} (hm : m.Accepted) {s : VMState}
    (hboot : m.boot = some s) {f : Nat} (hf : s.pmm.FrameFree f) : m.FindsFrames := by
  intro pmm hpmm
  obtain ⟨role, hwf, -⟩ := bootTables_wellFormed hm hpmm
  have hlow : pmm.totalMemorySize ≤ 2 ^ 52 := totalMemorySize_eq hm hpmm ▸ hm.memory_le
  apply mapsAll_of_free (by decide) (by decide) hwf List.mem_cons_self
    fun page hpage => bootPages_frame hm hlow hpage
  intro hzero
  rw [Machine.boot, hpmm, Option.map_some] at hboot
  obtain rfl := Option.some.inj hboot
  rw [vmVirtualMemoryInitialize_eq, activate_frameFree, bootRun_vm, unmapPage_pmm] at hf
  exact freeCount_eq_zero_iff.mp hzero f hf

/-- From the end of the mapping loops to the end of boot: the tables stay a forest, and only
the stack guard is unmapped. -/
theorem boot_tables {m : Machine} {σ₀ : VMRun} (hboot : VMRun.boot m = some σ₀) :
    ∃ pmm, vmPhysicalMemoryInitialize m.memoryMap m.image = some pmm ∧
      σ₀.roots = [(bootTables m.memory pmm).kernelPML4] ∧ σ₀.spaces = [] ∧
      σ₀.vm.isInitialized = true ∧
      ∀ role, ∀ s, s = mapPages (bootTables m.memory pmm).kernelPML4 pteKernelData
          (bootTables m.memory pmm) (bootPages m.layout m.image pmm.totalMemorySize) →
        WellFormed [(bootTables m.memory pmm).kernelPML4] role s → LinksWritable role s →
        WellFormed σ₀.roots role σ₀.vm ∧ LinksWritable role σ₀.vm ∧
          (∀ f, σ₀.vm.pmm.FrameFree f → s.pmm.FrameFree f) ∧
          ∀ virt, pageNumber virt ≠ pageNumber m.layout.stackGuard → ∀ r ∈ σ₀.roots,
            σ₀.vm.walk r virt = s.walk (bootTables m.memory pmm).kernelPML4 virt := by
  obtain ⟨pmm, hpmm, hspaces, hvm, -, -⟩ := boot_vm hboot
  have hmem := congrArg VMState.mem hvm
  have hkernel := congrArg VMState.kernelPML4 hvm
  rw [activate_mem] at hmem
  rw [activate_kernelPML4, (keeps_unmapPage _ _ _).kernelPML4_eq, mapPages_kernelPML4] at hkernel
  -- Activation changes neither the tables nor the roots.
  have hroots : σ₀.roots = [(bootTables m.memory pmm).kernelPML4] := by
    rw [VMRun.roots, hspaces, hkernel]
  refine ⟨pmm, hpmm, hroots, hspaces, ?_, ?_⟩
  · rw [hvm, activate_isInitialized]
  · rintro role s rfl hwf hw
    obtain ⟨hwf', hw', hwalk'⟩ := unmapPage_outcome hwf hw List.mem_cons_self m.layout.stackGuard
    refine ⟨?_, hw'.of_mem_eq hmem, ?_, ?_⟩
    · rw [hroots]
      apply hwf'.of_allocated hmem
      · rw [hkernel, (keeps_unmapPage _ _ _).kernelPML4_eq, mapPages_kernelPML4]
      · intro f hf
        rw [hvm] at hf
        exact (activate_frameFree _ _ f).mp hf
    · intro f hf
      rw [hvm] at hf
      exact (keeps_unmapPage _ _ _).free_of_free ((activate_frameFree _ _ f).mp hf)
    · intro virt hguard r hr
      rw [hroots, List.mem_singleton] at hr
      rw [hr, VMState.walk_of_mem_eq hmem, hwalk' _ List.mem_cons_self _ hguard]

/-- After boot every page that the loops map is mapped, in a forest, provided that no page
occurs with two frames; the stack guard excepted. -/
theorem boot_pages {m : Machine} (hm : m.Accepted) (hframes : m.FindsFrames) {σ₀ : VMRun}
    (hboot : VMRun.boot m = some σ₀) :
    ∃ role, WellFormed σ₀.roots role σ₀.vm ∧ LinksWritable role σ₀.vm ∧
      σ₀.vm.isInitialized = true ∧ σ₀.spaces = [] ∧
      ∀ phys virt, pageNumber virt ≠ pageNumber m.layout.stackGuard →
        (∀ page ∈ bootPages m.layout m.image (maxPhysicalAddress m.memoryMap),
          pageNumber page.2 = pageNumber virt → page.1 = phys) →
        (∃ page ∈ bootPages m.layout m.image (maxPhysicalAddress m.memoryMap),
          pageNumber page.2 = pageNumber virt) →
        ∀ r ∈ σ₀.roots, σ₀.vm.walk r virt = some (phys, pteKernelData) := by
  -- The loops map the pages into the empty tables, and the guard is unmapped last.
  obtain ⟨pmm, hpmm, hroots, hspaces, hinit, htables⟩ := boot_tables hboot
  have htotal := totalMemorySize_eq hm hpmm
  have hlow : pmm.totalMemorySize ≤ 2 ^ 52 := htotal ▸ hm.memory_le
  obtain ⟨role₀, hwf₀, hw₀, -⟩ := bootTables_wellFormed hm hpmm
  obtain ⟨role, hwf, hw, hwalk⟩ := mapPages_walk (show IsFlagWord pteKernelData by decide)
    (by decide) hwf₀ hw₀ List.mem_cons_self
    (fun page hpage => bootPages_frame hm hlow hpage) (hframes pmm hpmm)
  obtain ⟨hwf', hw', -, hsame⟩ := htables role _ rfl hwf hw
  refine ⟨role, hwf', hw', hinit, hspaces, ?_⟩
  intro phys virt hguard hunique hcovered r hr
  rw [← htotal] at hunique hcovered
  rw [hsame virt hguard r hr]
  exact hwalk phys virt hunique (.inr hcovered)

/-- Boot maps all of physical memory. -/
theorem boot_keepsDirectMap {m : Machine} (hm : m.Accepted) (hfit : m.SparesDirectMap)
    (hframes : m.FindsFrames) {σ₀ : VMRun} (hboot : VMRun.boot m = some σ₀) :
    ∃ pmm role, vmPhysicalMemoryInitialize m.memoryMap m.image = some pmm ∧
      pmm.totalMemorySize = maxPhysicalAddress m.memoryMap ∧ KeepsDirectMap pmm role σ₀ := by
  obtain ⟨pmm, hpmm, -, hvm, hkeeps, hbitmap⟩ := boot_vm hboot
  have htotal := totalMemorySize_eq hm hpmm
  have hlow : pmm.totalMemorySize ≤ 0x777F80100000 := htotal ▸ hfit.memory_le
  obtain ⟨-, hlength, hfree⟩ := bootTables_keeps m.memory pmm
  obtain ⟨role, hwf, hw, hinit, -, hpages⟩ := boot_pages hm hframes hboot
  refine ⟨pmm, role, hpmm, htotal, ?_⟩
  exact {
    wellFormed := hwf
    isInitialized := hinit
    writable := hw
    mapped := by
      intro r hr frame hlt
      have hbound : frame * kVMPageSize < 0x777F80100000 := by omega
      refine hpages _ _ (pageNumber_ne_stackGuard hfit hbound) ?_ ?_ r hr
      · intro page hpage hnumber
        exact bootPages_unique hfit hm hfit.memory_le (htotal ▸ hlt) hpage hnumber
      · exact ⟨_, mem_bootPages_direct (htotal ▸ hlt), rfl⟩
    bitmapAddress_eq := by
      rw [hvm]
      rfl
    length_eq := by rw [hbitmap, hkeeps.length_eq, hlength]
    free_of_free := by
      intro f hf
      rw [VMPhysicalMemory.FrameFree, hbitmap] at hf
      exact hfree (hkeeps.free_of_free hf) }

/-! ## Section 6: Later runs -/

/-- Later calls: maps of frames in existing address spaces, with any flags, and
unmaps, of pages outside the direct map; and new address spaces. -/
def VMRun.SparesDirectMap (total : Nat) (σ : VMRun) : VMCall → Prop
  | .createAddressSpace => True
  | .mapPage pml4 phys virt flags =>
    pml4 ∈ σ.roots ∧ IsFrameAddress phys ∧ IsFlagWord flags ∧ flags &&& ptePresent ≠ 0 ∧
      ¬ TargetsDirectMap total virt
  | .unmapPage pml4 virt => pml4 ∈ σ.roots ∧ ¬ TargetsDirectMap total virt
  | .allocatePage => True

section Calls

variable {pmm : VMPhysicalMemory} {σ : VMRun}

/-- Calls on address spaces that exist, with frame addresses and flag words. -/
def VMRun.OnPages (σ : VMRun) : VMCall → Prop
  | .mapPage pml4 phys _ flags =>
    pml4 ∈ σ.roots ∧ IsFrameAddress phys ∧ IsFlagWord flags ∧ flags &&& ptePresent ≠ 0
  | .unmapPage pml4 _ => pml4 ∈ σ.roots
  | .createAddressSpace | .allocatePage => True

/-- The call maps or unmaps the page of `virt`. -/
def VMCall.TouchesPage (virt : Nat) : VMCall → Prop
  | .mapPage _ _ virt' _ | .unmapPage _ virt' => pageNumber virt' = pageNumber virt
  | .createAddressSpace | .allocatePage => False

/-- Frames that became tables were free. -/
def TablesFromFree (role role' : Roles) (s : VMState) : Prop :=
  ∀ t r p, role' t = some (.table r p) →
    role t = some (.table r p) ∨ s.pmm.FrameFree (t / kVMPageSize)

/-- What a call leaves of a page of the kernel half that all address spaces map alike. -/
def KeepsPages (σ : VMRun) (role role' : Roles) (call : VMCall) : Prop :=
  WellFormed (σ.step call).roots role' (σ.step call).vm ∧ LinksWritable role' (σ.step call).vm ∧
    (∀ virt m, KernelHalf virt → ¬ call.TouchesPage virt → (∀ r ∈ σ.roots, σ.vm.walk r virt = m) →
      ∀ r ∈ (σ.step call).roots, (σ.step call).vm.walk r virt = m) ∧
    TablesFromFree role role' σ.vm

theorem keepsPages_mapPage (h : WellFormed σ.roots role σ.vm) (hw : LinksWritable role σ.vm)
    {pml4 phys virt flags : Nat} (hcall : σ.OnPages (.mapPage pml4 phys virt flags)) :
    ∃ role', KeepsPages σ role role' (.mapPage pml4 phys virt flags) := by
  obtain ⟨hroot, hphys, hflags, hpresent⟩ := hcall
  obtain ⟨role', hmap, -⟩ := mapPage_outcome h virt hroot hphys hflags hpresent
  have hvm : (σ.step (.mapPage pml4 phys virt flags)).vm =
      (vmVirtualMemoryMapPage σ.vm pml4 phys virt flags).2 := by
    rw [VMRun.step]
    rcases vmVirtualMemoryMapPage σ.vm pml4 phys virt flags with ⟨_ | _, vm⟩ <;> rfl
  have hroots : (σ.step (.mapPage pml4 phys virt flags)).roots = σ.roots := by
    rw [VMRun.roots, VMRun.roots, σ.spaces_step (by simp), hvm, hmap.kernelPML4_eq]
  refine ⟨role', ?_⟩
  unfold KeepsPages
  rw [hroots, hvm]
  refine ⟨hmap.wellFormed, hmap.writable hw, ?_, fun t r p ht =>
    (hmap.role_new ht).imp id And.left⟩
  intro virt' m _ hpage hwalk r hr
  have hkept : (vmVirtualMemoryMapPage σ.vm pml4 phys virt flags).2.walk r virt' =
      σ.vm.walk r virt' := by
    rcases hmap.walk_cases hr with heq | ⟨hsame, -⟩
    · exact heq
    · exact absurd hsame.symm hpage
  rw [hkept, hwalk r hr]

theorem keepsPages_unmapPage (h : WellFormed σ.roots role σ.vm) (hw : LinksWritable role σ.vm)
    {pml4 virt : Nat} (hcall : σ.OnPages (.unmapPage pml4 virt)) :
    KeepsPages σ role role (.unmapPage pml4 virt) := by
  obtain ⟨hwf, hw', hwalk⟩ := unmapPage_outcome h hw hcall virt
  have hvm : (σ.step (.unmapPage pml4 virt)).vm = vmVirtualMemoryUnmapPage σ.vm pml4 virt := by
    rw [VMRun.step]
    cases σ.owner pml4 virt <;> rfl
  have hroots : (σ.step (.unmapPage pml4 virt)).roots = σ.roots := by
    rw [VMRun.roots, VMRun.roots, σ.spaces_step (by simp), hvm,
      (keeps_unmapPage _ _ _).kernelPML4_eq]
  unfold KeepsPages
  rw [hroots, hvm]
  refine ⟨hwf, hw', ?_, fun _ _ _ => .inl⟩
  intro virt' m _ hpage hmapped r hr
  rw [hwalk r hr virt' fun hsame => hpage hsame.symm]
  exact hmapped r hr

theorem keepsPages_allocatePage (h : WellFormed σ.roots role σ.vm) (hw : LinksWritable role σ.vm) :
    KeepsPages σ role role .allocatePage := by
  have hkeeps := keeps_allocatePage σ.vm
  refine ⟨?_, hw.of_mem_eq (allocatePage_mem σ.vm), ?_, fun _ _ _ => .inl⟩
  · exact h.of_allocated (allocatePage_mem σ.vm) hkeeps.kernelPML4_eq
      fun _ => hkeeps.free_of_free
  · intro virt m _ _ hmapped r hr
    rw [show (σ.step .allocatePage).vm = σ.vm.allocatePage.2 from rfl,
      VMState.walk_of_mem_eq (allocatePage_mem σ.vm)]
    exact hmapped r hr

/-- A new address space takes the pages of the kernel half over from the kernel. -/
theorem keepsPages_createAddressSpace (h : WellFormed σ.roots role σ.vm)
    (hw : LinksWritable role σ.vm) (hinit : σ.vm.isInitialized = true) :
    ∃ role', KeepsPages σ role role' .createAddressSpace := by
  rcases createAddressSpace_cases h hinit with ⟨-, heq⟩ | ⟨c, s', heq, hne, hadd⟩
  · have hsame : σ.step .createAddressSpace = σ := by
      rw [VMRun.step, heq]
      rfl
    refine ⟨role, ?_⟩
    unfold KeepsPages
    rw [hsame]
    exact ⟨h, hw, fun _ _ _ _ hmapped => hmapped, fun _ _ _ => .inl⟩
  · have hvm : (σ.step .createAddressSpace).vm = s' := by
      simp only [VMRun.step, heq, if_neg hne]
    have hspaces : (σ.step .createAddressSpace).spaces = c :: σ.spaces := by
      simp only [VMRun.step, heq, if_neg hne]
    have hroots : (σ.step .createAddressSpace).roots = σ.vm.kernelPML4 :: c :: σ.spaces := by
      rw [VMRun.roots, hspaces, hvm, hadd.kernelPML4_eq]
    refine ⟨Function.update role c (some (.table c [])), ?_⟩
    unfold KeepsPages
    rw [hroots, hvm]
    refine ⟨hadd.wellFormed.of_perm (List.Perm.swap _ _ _), hw.addsRoot h hadd, ?_, ?_⟩
    · intro virt m hhalf _ hmapped r hr
      by_cases hrc : r = c
      · rw [hrc, hadd.walk_new_kernelHalf h hhalf]
        exact hmapped _ List.mem_cons_self
      · have hr' : r ∈ σ.roots := by
          simp only [VMRun.roots, List.mem_cons] at hr ⊢
          tauto
        rw [hadd.walk_old h hr']
        exact hmapped r hr'
    · intro t r p ht
      by_cases htc : t = c
      · exact .inr (htc ▸ hadd.free)
      · rw [Function.update_of_ne htc] at ht
        exact .inl ht

/-- What any call leaves of the pages of the kernel half. -/
theorem exists_keepsPages (h : WellFormed σ.roots role σ.vm) (hw : LinksWritable role σ.vm)
    (hinit : σ.vm.isInitialized = true) {call : VMCall} (hcall : σ.OnPages call) :
    ∃ role', KeepsPages σ role role' call := by
  cases call with
  | createAddressSpace => exact keepsPages_createAddressSpace h hw hinit
  | mapPage pml4 phys virt flags => exact keepsPages_mapPage h hw hcall
  | unmapPage pml4 virt => exact ⟨role, keepsPages_unmapPage h hw hcall⟩
  | allocatePage => exact ⟨role, keepsPages_allocatePage h hw⟩

/-- A call that spares the direct map is one on other pages. -/
theorem VMRun.SparesDirectMap.onPages {total : Nat} {call : VMCall}
    (hcall : σ.SparesDirectMap total call) : σ.OnPages call ∧
      ∀ frame, frame * kVMPageSize < total → ¬ call.TouchesPage (physToHhdm (frame * kVMPageSize)) := by
  cases call with
  | createAddressSpace => exact ⟨trivial, fun _ _ => id⟩
  | allocatePage => exact ⟨trivial, fun _ _ => id⟩
  | mapPage pml4 phys virt flags =>
    obtain ⟨hroot, hphys, hflags, hpresent, hvirt⟩ := hcall
    exact ⟨⟨hroot, hphys, hflags, hpresent⟩, fun frame hlt hpage => hvirt ⟨frame, hlt, hpage.symm⟩⟩
  | unmapPage pml4 virt =>
    exact ⟨hcall.1, fun frame hlt hpage => hcall.2 ⟨frame, hlt, hpage.symm⟩⟩

theorem KeepsDirectMap.step (h : KeepsDirectMap pmm role σ) (hlow : pmm.totalMemorySize ≤ 0x777F80100000)
    {call : VMCall} (hcall : σ.SparesDirectMap pmm.totalMemorySize call) :
    ∃ role', KeepsDirectMap pmm role' (σ.step call) := by
  obtain ⟨honPages, hspared⟩ := hcall.onPages
  obtain ⟨role', hwf, hw, hkept, -⟩ :=
    exists_keepsPages h.wellFormed h.writable h.isInitialized honPages
  have hkeeps := σ.keeps_step call
  refine ⟨role', ?_⟩
  exact {
    wellFormed := hwf
    isInitialized := hkeeps.isInitialized_eq.trans h.isInitialized
    writable := hw
    mapped := by
      intro r hr frame hframe
      apply hkept _ _ (kernelHalf_physToHhdm (by omega)) (hspared frame hframe) _ r hr
      exact fun r hr => h.mapped r hr frame hframe
    bitmapAddress_eq := hkeeps.bitmapAddress_eq.trans h.bitmapAddress_eq
    length_eq := hkeeps.length_eq.trans h.length_eq
    free_of_free := fun hf => h.free_of_free (hkeeps.free_of_free hf) }

/-- The direct map's page of a frame of physical memory, in any address space. -/
theorem KeepsDirectMap.page (h : KeepsDirectMap pmm role σ) {r : Nat} (hr : r ∈ σ.roots)
    {frame virt : Nat} (hframe : frame * kVMPageSize < pmm.totalMemorySize)
    (hvirt : pageNumber virt = pageNumber (physToHhdm (frame * kVMPageSize))) :
    σ.vm.walk r virt = some (frame * kVMPageSize, pteKernelData) ∧
    σ.vm.Writable r virt ∧ ¬ σ.vm.UserAccessible r virt := by
  have hwalk := (walk_congr σ.vm r hvirt).trans (h.mapped r hr frame hframe)
  refine ⟨hwalk, h.writable.writable h.wellFormed hr hwalk (by decide), ?_⟩
  rintro ⟨-, f, flags, hwalk', huser⟩
  obtain ⟨-, rfl⟩ := Prod.mk.inj (Option.some.inj (hwalk.symm.trans hwalk'))
  exact huser (by decide)

end Calls

/-! ## Section 7: Every frame is reachable -/

/-- The bitmap lies in memory that is counted. -/
theorem bitmap_lt {memoryMap : List OSMemoryDescriptor} {image : KernelImage}
    (hmap : AcceptedMap memoryMap image) {pmm : VMPhysicalMemory}
    (hpmm : vmPhysicalMemoryInitialize memoryMap image = some pmm) {k : Nat}
    (hk : k < pmm.bitmap.length) : pmm.bitmapAddress + k < maxPhysicalAddress memoryMap := by
  obtain ⟨host, pm, hhost, heq, haddress, hlength, -⟩ := physicalMemoryInitialize_eq_some hmap
  obtain rfl : pm = pmm := Option.some.inj (heq.symm.trans hpmm)
  obtain ⟨hmem, htype, hsize, -⟩ := bitmapSize_bounds hmap hhost
  have hcounted : host.type.skipped = false := by
    rw [htype]
    rfl
  have hmax := endAddress_le_maxPhysicalAddress hmem hcounted
  rw [OSMemoryDescriptor.endAddress_eq (hmap.nonWrapping host hmem)] at hmax
  omega

/-- In every run after boot that maps and unmaps only outside the direct map:
each frame that the allocator can ever return is mapped at `PHYS_TO_HHDM`,
present, writable and not accessible from ring 3, to that very frame, in the
kernel's and every other address space, and so is each byte of the bitmap at
its new address. The kernel's globals are fields of the state here, so runs
that map or unmap the pages of its image, where they lie, are not meant. -/
theorem directMap_reaches_frames (m : Machine) (hm : m.Accepted) (hfit : m.FitsDirectMap)
    (hframes : m.FindsFrames) {σ₀ σ : VMRun} {calls : List VMCall} (hboot : VMRun.boot m = some σ₀)
    (hruns : Run (VMRun.SparesDirectMap (maxPhysicalAddress m.memoryMap)) VMRun.step σ₀ calls σ) :
    ∃ pmm, vmPhysicalMemoryInitialize m.memoryMap m.image = some pmm ∧
      (∀ frame, pmm.FrameFree frame → ∀ r ∈ σ.roots,
        σ.vm.walk r (physToHhdm (frame * kVMPageSize)) =
          some (frame * kVMPageSize, pteKernelData) ∧
        σ.vm.Writable r (physToHhdm (frame * kVMPageSize)) ∧
        ¬ σ.vm.UserAccessible r (physToHhdm (frame * kVMPageSize))) ∧
      (σ.vm.allocatePage.1 ≠ 0 →
        ∃ frame, pmm.FrameFree frame ∧ σ.vm.allocatePage.1 = frame * kVMPageSize) ∧
      σ.vm.pmm.bitmapAddress = physToHhdm pmm.bitmapAddress ∧
      ∀ k, k < σ.vm.pmm.bitmap.length → ∀ r ∈ σ.roots,
        σ.vm.walk r (σ.vm.pmm.bitmapAddress + k) =
          some ((pmm.bitmapAddress + k) / kVMPageSize * kVMPageSize, pteKernelData) ∧
        σ.vm.Writable r (σ.vm.pmm.bitmapAddress + k) ∧
        ¬ σ.vm.UserAccessible r (σ.vm.pmm.bitmapAddress + k) := by
  obtain ⟨pmm, role₀, hpmm, htotal, h₀⟩ := boot_keepsDirectMap hm hfit.sparesDirectMap hframes hboot
  rw [← htotal] at hruns
  have hlow : pmm.totalMemorySize ≤ 0x777F80100000 := htotal ▸ hfit.sparesDirectMap.memory_le
  -- The direct map is kept by every step, and so by the run.
  obtain ⟨role, h⟩ : ∃ role, KeepsDirectMap pmm role σ :=
    hruns.invariant (I := fun σ => ∃ role, KeepsDirectMap pmm role σ)
      (fun σ call hσ hcall => hσ.elim fun _ h => h.step hlow hcall) ⟨role₀, h₀⟩
  -- A frame that is ever free lies below the end of the memory.
  have hfree : ∀ frame, pmm.FrameFree frame → frame * kVMPageSize < pmm.totalMemorySize := by
    intro frame hframe
    obtain ⟨-, hlt, -⟩ := free_frame_bounds hm hpmm hframe
    rw [htotal]
    simp only [kVMPageSize] at hlt ⊢
    omega
  refine ⟨pmm, hpmm, fun frame hframe r hr => h.page hr (hfree frame hframe) rfl, fun hne => ?_,
    h.bitmapAddress_eq, fun k hk r hr => ?_⟩
  · rcases allocatePage_state_cases σ.vm with ⟨-, heq⟩ | ⟨f, s₁, hf, heq, -⟩
    · rw [heq] at hne
      exact absurd rfl hne
    · exact ⟨f, h.free_of_free hf, by rw [heq]⟩
  · rw [h.length_eq] at hk
    have hlt : pmm.bitmapAddress + k < pmm.totalMemorySize := htotal ▸ bitmap_lt hm.map hpmm hk
    apply h.page hr
    · simp only [kVMPageSize]
      omega
    · have hdiv := pageNumber_physToHhdm
        (show (pmm.bitmapAddress + k) / 4096 * 4096 < 0x777F80100000 by omega)
      rw [h.bitmapAddress_eq, physToHhdm_of_lt (by omega), pageNumber, kVMPageSize, hdiv]
      simp only [hhdmOffset]
      omega

theorem heapMachine_fitsDirectMap : heapMachine.FitsDirectMap where
  memory_le := by decide
  framebuffer_le := by decide
  stackGuard_le := by decide
  stackGuard_lt := by decide

/-- On the 8 MiB machine a first process reaches every frame. -/
theorem directMap_reaches_frames_heapMachine : ∃ σ₀ pmm, VMRun.boot heapMachine = some σ₀ ∧
    vmPhysicalMemoryInitialize heapMachine.memoryMap heapMachine.image = some pmm ∧
    ∀ frame, pmm.FrameFree frame → ∀ r ∈ (σ₀.step .createAddressSpace).roots,
      (σ₀.step .createAddressSpace).vm.walk r (physToHhdm (frame * kVMPageSize)) =
        some (frame * kVMPageSize, pteKernelData) := by
  obtain ⟨heap, s, hheap, -⟩ := heapMachine_bootHeap
  obtain ⟨s₀, f, hs₀, hf, -⟩ := bootHeap_eq_some hheap
  have hframes := Machine.findsFrames_of_free heapMachine_accepted hs₀ hf
  obtain ⟨σ₀, hboot⟩ := exists_boot heapMachine_accepted
  have hruns : Run (VMRun.SparesDirectMap (maxPhysicalAddress heapMachine.memoryMap)) VMRun.step σ₀
      [.createAddressSpace] (σ₀.step .createAddressSpace) := .cons trivial (.nil _)
  obtain ⟨pmm, hpmm, hpages, -⟩ := directMap_reaches_frames heapMachine heapMachine_accepted
    heapMachine_fitsDirectMap hframes hboot hruns
  exact ⟨σ₀, pmm, hboot, hpmm, fun frame hframe r hr => (hpages frame hframe r hr).1⟩

end TermOS.VM
