import TermOS.Lib.AbsentTables
import TermOS.VM.HeapArena

/-!
# How many frames mapping takes

Mapping a list of pages takes one frame for each table that their walks lack,
however many pages share it, and one for each page if the pages get frames of
their own. With that many free frames the loops that allocate and map pages
run to their end.
-/

namespace TermOS.VM

open TermOS.Lib TermOS.Kernel TermOS.Lib.TableForest VMState

/-! ## Section 1: Frames needed -/

/-- The number of page tables that the walks of `pages` from `root` lack. -/
def tablesNeeded (s : VMState) (root : Nat) (pages : List Nat) : Nat :=
  (absent childTable s.entry root (pages.map upperPath).toFinset).card

/-- The frames for `pages`, and for the tables that their walks lack. -/
def framesNeeded (s : VMState) (root : Nat) (pages : List Nat) : Nat :=
  pages.length + tablesNeeded s root pages

section Count

variable {roots : List Nat} {role role' : Roles} {s s' : VMState} {root virt : Nat} {m : Nat × Nat}

theorem upperPath_prefix_length {pages : List Nat} {q : List (Fin 512)}
    (h : ∃ p ∈ (pages.map upperPath).toFinset, q <+: p) : q.length ≤ 3 := by
  obtain ⟨p, hp, hpre⟩ := h
  obtain ⟨v, -, rfl⟩ := List.mem_map.mp (List.mem_toFinset.mp hp)
  exact hpre.length_le

/-- Pages below few page tables need few tables. -/
theorem tablesNeeded_le (s : VMState) (root : Nat) {pages : List Nat} {paths : Finset (List (Fin 512))}
    (h : ∀ v ∈ pages, upperPath v ∈ paths) : tablesNeeded s root pages ≤ paths.card * 3 := by
  have hsub : (pages.map upperPath).toFinset ⊆ paths := by
    intro p hp
    obtain ⟨v, hv, rfl⟩ := List.mem_map.mp (List.mem_toFinset.mp hp)
    exact h v hv
  calc tablesNeeded s root pages ≤ (pages.map upperPath).toFinset.card * 3 := by
        apply card_absent_le
        exact fun p hp => upperPath_prefix_length ⟨p, hp, List.prefix_refl p⟩
    _ ≤ paths.card * 3 := Nat.mul_le_mul_right _ (Finset.card_le_card hsub)

@[simp] theorem tablesNeeded_nil (s : VMState) (root : Nat) : tablesNeeded s root [] = 0 := by
  have hle : tablesNeeded s root [] ≤ (∅ : Finset (List (Fin 512))).card * 3 :=
    tablesNeeded_le s root (by simp)
  simpa using hle

theorem missing_eq_tablesNeeded :
    missing childTable s.entry root (upperPath virt) = tablesNeeded s root [virt] := by
  rw [← card_absent_singleton, tablesNeeded, List.map_singleton, List.toFinset_cons,
    List.toFinset_nil, insert_empty_eq]

theorem missing_le_tablesNeeded (s : VMState) (root virt : Nat) (rest : List Nat) :
    missing childTable s.entry root (upperPath virt) ≤ tablesNeeded s root (virt :: rest) := by
  rw [← card_absent_singleton, tablesNeeded, List.map_cons, List.toFinset_cons]
  apply Finset.card_le_card
  apply absent_mono
  rw [Finset.singleton_subset_iff]
  exact Finset.mem_insert_self _ _

theorem missing_lt_of_framesNeeded_le {pages : List Nat} {count : Nat}
    (h : framesNeeded s root (virt :: pages) ≤ count) :
    missing childTable s.entry root (upperPath virt) < count := by
  have hle := missing_le_tablesNeeded s root virt pages
  rw [framesNeeded, List.length_cons] at h
  omega

/-- More pages need more frames. -/
theorem framesNeeded_append_le (s : VMState) (root : Nat) (pages pages' : List Nat) :
    framesNeeded s root pages ≤ framesNeeded s root (pages ++ pages') := by
  have htables : tablesNeeded s root pages ≤ tablesNeeded s root (pages ++ pages') := by
    apply Finset.card_le_card
    apply absent_mono
    intro p hp
    simp only [List.mem_toFinset, List.map_append, List.mem_append] at hp ⊢
    exact .inl hp
  simp only [framesNeeded, List.length_append]
  omega

/-- Writes outside the tables do not change the count. -/
theorem SameTables.tablesNeeded_eq (hsame : SameTables role s s') (h : WellFormed roots role s)
    (hroot : root ∈ roots) (pages : List Nat) :
    tablesNeeded s' root pages = tablesNeeded s root pages := by
  rw [tablesNeeded, tablesNeeded]
  congr 1
  apply Finset.filter_congr
  intro q hq
  obtain ⟨p, hp, hpre⟩ := Finset.mem_biUnion.mp hq
  have hlen := upperPath_prefix_length ⟨p, hp, (mem_prefixes.mp hpre).2⟩
  rw [hsame.follow_eq h hroot hlen]

/-- What mapping a page does to the tables, whatever it is mapped to. -/
structure TablesGrow (roots : List Nat) (role : Roles) (s : VMState) (root virt : Nat)
    (role' : Roles) (s' : VMState) : Prop where
  wellFormed : WellFormed roots role' s'
  role_new : ∀ {a x}, role' a = some x →
    role a = some x ∨ (s.pmm.FrameFree (a / kVMPageSize) ∧ ∃ r p, x = .table r p)
  free_of_free : ∀ {f}, s'.pmm.FrameFree f → s.pmm.FrameFree f
  follow_keep : ∀ {r is c}, r ∈ roots → is.length ≤ 3 →
    follow childTable s.entry r is = some c → follow childTable s'.entry r is = some c
  follow_new : ∀ {r is}, r ∈ roots → is.length ≤ 3 →
    (follow childTable s'.entry r is).isSome →
    (follow childTable s.entry r is).isSome ∨ is <+: upperPath virt

/-- The tables that the walk lacks are created, or all free frames are used up. -/
theorem mapPage_tables (h : WellFormed roots role s) (hroot : root ∈ roots) (virt : Nat)
    {phys flags : Nat} (hv : phys ||| flags < 2 ^ 64) :
    ∃ role', TablesGrow roots role s root virt role' (vmVirtualMemoryMapPage s root phys virt flags).2 ∧
      ((s.pmm.freeCount < missing childTable s.entry root (upperPath virt) ∧
          (vmVirtualMemoryMapPage s root phys virt flags).2.pmm.freeCount = 0) ∨
        (s.pmm.freeCount = (vmVirtualMemoryMapPage s root phys virt flags).2.pmm.freeCount +
            missing childTable s.entry root (upperPath virt) ∧
          (follow childTable (vmVirtualMemoryMapPage s root phys virt flags).2.entry root
            (upperPath virt)).isSome)) := by
  -- Both outcomes of the call; the leaf entry that it writes is no link.
  rcases mapPage_cases h hroot phys virt flags with
    ⟨hlt, role', s', heq, hfull, -, hg⟩ | ⟨pt, role', s', heq, hcount, hg, hpt, -⟩
  · rw [heq]
    refine ⟨role', ?_, .inl ⟨hlt, hfull⟩⟩
    exact ⟨hg.wellFormed, hg.role_new, hg.free_of_free, hg.follow_keep,
      fun hr his => hg.follow_new h hr his⟩
  · obtain ⟨r₀, hrole, -⟩ := hg.wellFormed.leafTable_role hroot hpt
    have hfollow : ∀ {r : Nat} {is : List (Fin 512)}, r ∈ roots → is.length ≤ 3 →
        follow childTable (s'.setEntry pt (ptSlot virt) (phys ||| flags)).entry r is =
          follow childTable s'.entry r is :=
      fun hr his => follow_setLeaf hg.wellFormed hrole hv hr his
    rw [heq]
    refine ⟨role', ?_, .inr ⟨hcount, ?_⟩⟩
    · exact {
        wellFormed := hg.wellFormed.setLeaf hrole hv
        role_new := hg.role_new
        free_of_free := hg.free_of_free
        follow_keep := fun hr his hc => (hfollow hr his).trans (hg.follow_keep hr his hc)
        follow_new := fun hr his hsome => by
          rw [hfollow hr his] at hsome
          exact hg.follow_new h hr his hsome }
    · rw [hfollow hroot (Nat.le_of_eq (upperPath_length virt))]
      exact Option.isSome_iff_exists.mpr ⟨pt, hpt⟩

/-- Creating the tables of a page takes them out of the count for the others. -/
theorem tablesNeeded_add_missing_of
    (hkeep : ∀ {is}, is.length ≤ 3 → (follow childTable s.entry root is).isSome →
      (follow childTable s'.entry root is).isSome)
    (hnew : ∀ {is}, is.length ≤ 3 → (follow childTable s'.entry root is).isSome →
      (follow childTable s.entry root is).isSome ∨ is <+: upperPath virt)
    (hleaf : (follow childTable s'.entry root (upperPath virt)).isSome) (rest : List Nat) :
    tablesNeeded s' root rest + missing childTable s.entry root (upperPath virt) =
      tablesNeeded s root (virt :: rest) := by
  rw [tablesNeeded, tablesNeeded, List.map_cons, List.toFinset_cons]
  apply card_absent_add_missing
  · exact fun q hq => hkeep (upperPath_prefix_length hq)
  · exact hleaf
  · exact fun q hq => hnew (upperPath_prefix_length hq)

/-- Mapping a page takes the tables that it lacks out of the count. -/
theorem MapOutcome.tablesNeeded_add_missing (hmap : MapOutcome roots role s root virt m role' s')
    (hroot : root ∈ roots) (hwalk : (s'.walk root virt).isSome) (rest : List Nat) :
    tablesNeeded s' root rest + missing childTable s.entry root (upperPath virt) =
      tablesNeeded s root (virt :: rest) := by
  apply tablesNeeded_add_missing_of (hmap.follow_keep hroot) (hmap.follow_new hroot)
  obtain ⟨m', hm'⟩ := Option.isSome_iff_exists.mp hwalk
  obtain ⟨pt, hpt, -⟩ := walk_eq_some.mp hm'
  exact Option.isSome_iff_exists.mpr ⟨pt, hpt⟩

theorem TablesGrow.follow_isSome (hgrow : TablesGrow roots role s root virt role' s')
    (hroot : root ∈ roots) {is : List (Fin 512)} (his : is.length ≤ 3)
    (h : (follow childTable s.entry root is).isSome) : (follow childTable s'.entry root is).isSome := by
  obtain ⟨c, hc⟩ := Option.isSome_iff_exists.mp h
  rw [hgrow.follow_keep hroot his hc, Option.isSome_some]

/-- The mapping loops take one frame for each table that their pages lack, as long as there
are free frames. -/
theorem mapPages_freeCount {flags : Nat} (pages : List (Nat × Nat)) :
    ∀ {role : Roles} {s : VMState}, WellFormed roots role s → root ∈ roots →
      (∀ page ∈ pages, page.1 ||| flags < 2 ^ 64) →
      (mapPages root flags s pages).pmm.freeCount =
        s.pmm.freeCount - tablesNeeded s root (pages.map Prod.snd) := by
  induction pages with
  | nil =>
    intro role s h hroot _
    rw [List.map_nil, tablesNeeded_nil, Nat.sub_zero]
    rfl
  | cons page rest ih =>
    intro role s h hroot hphys
    obtain ⟨role', hgrow, hcases⟩ := mapPage_tables h hroot page.2 (hphys page List.mem_cons_self)
    have hrest := ih hgrow.wellFormed hroot fun p hp => hphys p (List.mem_cons_of_mem _ hp)
    rw [mapPages, List.foldl_cons, ← mapPages, List.map_cons, hrest]
    rcases hcases with ⟨hlt, hfull⟩ | ⟨hcount, hleaf⟩
    · -- no frame is left for the rest
      have hle := missing_le_tablesNeeded s root page.2 (rest.map Prod.snd)
      omega
    · have hsplit := tablesNeeded_add_missing_of (hgrow.follow_isSome hroot)
        (hgrow.follow_new hroot) hleaf (rest.map Prod.snd)
      omega

end Count

/-! ## Section 2: Allocating and mapping -/

/-- A page gets a frame and is mapped to it, and the frames that are left are
enough for the other pages. -/
theorem Consistent.allocateAndMap {spaces : List Nat} {role : Roles} {s : VMState}
    (h : Consistent spaces role s) {root virt flags : Nat} (hroot : root ∈ s.kernelPML4 :: spaces)
    {x : FrameRole} (hx : ∀ r p, x ≠ .table r p) (hflags : IsFlagWord flags)
    (hpresent : flags &&& ptePresent ≠ 0) {rest : List Nat}
    (henough : framesNeeded s root (virt :: rest) ≤ s.pmm.freeCount) :
    ∃ a s₁ role', s.allocatePage = (a, s₁) ∧ a ≠ 0 ∧ IsFrameAddress a ∧ role a = none ∧
      SameTables role s s₁ ∧ s₁.mem = s.mem ∧
      Consistent spaces role' (vmVirtualMemoryMapPage s₁ root a virt flags).2 ∧
      MapOutcome (s₁.kernelPML4 :: spaces) (Function.update role a (some x)) s₁ root virt (a, flags)
        role' (vmVirtualMemoryMapPage s₁ root a virt flags).2 ∧
      (vmVirtualMemoryMapPage s₁ root a virt flags).2.walk root virt = some (a, flags) ∧
      s.pmm.freeCount + framesNeeded (vmVirtualMemoryMapPage s₁ root a virt flags).2 root rest =
        (vmVirtualMemoryMapPage s₁ root a virt flags).2.pmm.freeCount +
          framesNeeded s root (virt :: rest) := by
  rw [framesNeeded, List.length_cons] at henough
  rcases h.allocatePage hx with ⟨hfull, -⟩ |
    ⟨a, s₁, heq, hne, hframe, hnone, hcount, hsame, hmem, h₁⟩
  · omega
  · have hroot₁ : root ∈ s₁.kernelPML4 :: spaces := by rwa [hsame.kernelPML4_eq]
    have htables := hsame.tablesNeeded_eq h.wellFormed hroot (virt :: rest)
    have hmissing := missing_le_tablesNeeded s₁ root virt rest
    obtain ⟨role', h₂, hmap, hcases⟩ := h₁.mapPage virt hroot₁ hframe hflags hpresent
    rcases hcases with ⟨hlt, -⟩ | ⟨hcount₂, hwalk⟩
    · omega
    · have hsplit := hmap.tablesNeeded_add_missing hroot₁ (by rw [hwalk]; rfl) rest
      refine ⟨a, s₁, role', heq, hne, hframe, hnone, hsame, hmem, h₂, hmap, hwalk, ?_⟩
      rw [framesNeeded, framesNeeded, List.length_cons]
      omega

/-- The pages of the kernel heap's arena, `count` of them from page `i` on. -/
def heapPages (i count : Nat) : List Nat :=
  (List.range' i count).map fun i => kVMKernelHeapStart + i * kVMPageSize

/-- With enough free frames the loop of `VMHeapInitialize` runs to its end. -/
theorem Consistent.mapHeapPages {count : Nat} :
    ∀ {role : Roles} {s : VMState} {i : Nat}, Consistent [] role s →
      framesNeeded s s.kernelPML4 (heapPages i count) ≤ s.pmm.freeCount →
      ∃ frames s', mapHeapPages s i count = some (frames, s') ∧
        s.pmm.freeCount ≤ s'.pmm.freeCount + framesNeeded s s.kernelPML4 (heapPages i count) := by
  induction count with
  | zero => exact fun _ _ => ⟨[], _, rfl, Nat.le_add_right _ _⟩
  | succ count ih =>
    intro role s i h henough
    rw [heapPages, List.range'_succ, List.map_cons, ← heapPages] at henough ⊢
    obtain ⟨a, s₁, role', heq, hne, -, -, hsame, -, h₂, hmap, -, hframes⟩ :=
      h.allocateAndMap (x := .reserved) List.mem_cons_self (by simp)
        (show IsFlagWord pteKernelData by decide) (by decide) henough
    have hk : (vmVirtualMemoryMapPage s₁ s.kernelPML4 a (kVMKernelHeapStart + i * kVMPageSize)
        pteKernelData).2.kernelPML4 = s.kernelPML4 :=
      hmap.kernelPML4_eq.trans hsame.kernelPML4_eq
    obtain ⟨frames, s', hrest, hcount⟩ := ih (i := i + 1) h₂ (by rw [hk]; omega)
    refine ⟨a :: frames, s', ?_, by rw [hk] at hcount; omega⟩
    rw [TermOS.VM.mapHeapPages, heq]
    simp only [if_neg hne]
    rw [hsame.kernelPML4_eq, hrest, Option.map_some]

/-! ## Section 3: Free frames after boot -/

theorem unmapPage_pmm (s : VMState) (pml4 virt : Nat) :
    (vmVirtualMemoryUnmapPage s pml4 virt).pmm = s.pmm := by
  rw [vmVirtualMemoryUnmapPage, sVMVirtualMemoryUnmapPageInternal]
  simp only
  split_ifs <;> rfl

/-- The entries that the mapping loops write are 64-bit words. -/
theorem bootPages_word {layout : BootLayout} {image : KernelImage} {total : Nat}
    (htotal : total ≤ 2 ^ 64) {page : Nat × Nat} (hpage : page ∈ bootPages layout image total) :
    page.1 ||| pteKernelData < 2 ^ 64 := by
  refine or_lt_word ?_ (by decide)
  simp only [bootPages, List.mem_append, List.mem_map, or_assoc] at hpage
  rcases hpage with ⟨i, hi, rfl⟩ | ⟨i, -, rfl⟩ | ⟨i, -, rfl⟩
  · obtain ⟨n, rfl, hlt⟩ := mem_pageLoop.mp hi
    exact Nat.lt_of_lt_of_le hlt htotal
  · exact Nat.mod_lt _ (by decide)
  · exact Nat.mod_lt _ (by decide)

/-- The state in which `VMVirtualMemoryInitialize` starts to map has one table, the PML4. -/
theorem bootTables_refines (mem : Memory) {pmm : VMPhysicalMemory}
    (hbounds : ∀ {f}, pmm.FrameFree f → f ≠ 0 ∧ f * kVMPageSize < 2 ^ 52) :
    (VMRun.start (bootTables mem pmm)).Refines
      (Function.update (fun _ => none) (bootTables mem pmm).kernelPML4
        (some (.table (bootTables mem pmm).kernelPML4 []))) := by
  obtain ⟨hframe, hempty, hfree⟩ := bootTables_spec mem hbounds
  exact start_refines hframe hempty (fun hf => (hfree _ hf).2.1 rfl)
    (fun hf => hbounds (hfree _ hf).1) (fun _ _ ha => by simp at ha)

/-- The PML4 takes one frame, if there is one. -/
theorem bootTables_freeCount (mem : Memory) (pmm : VMPhysicalMemory) :
    (bootTables mem pmm).pmm.freeCount = pmm.freeCount - 1 := by
  simp only [bootTables, clearPage_pmm]
  rcases allocatePage_state_cases ⟨mem, pmm, 0, false⟩ with ⟨hfull, heq⟩ |
    ⟨f, s₁, hf, heq, -, -, -, -, -, hfree⟩
  · rw [heq, freeCount_eq_zero_iff.mpr hfull]
  · rw [heq]
    have hcount := freeCount_of_erase hf hfree
    simp only at hcount ⊢
    omega

/-- The state of `VMVirtualMemoryInitialize` after the mapping loops. -/
def Machine.mappedState (m : Machine) (pmm : VMPhysicalMemory) : VMState :=
  mapPages (bootTables m.memory pmm).kernelPML4 pteKernelData (bootTables m.memory pmm)
    (bootPages m.layout m.image pmm.totalMemorySize)

/-- The loops take a frame for each table of the boot pages. -/
theorem mappedState_freeCount (m : Machine) {pmm : VMPhysicalMemory}
    (hbounds : ∀ {f}, pmm.FrameFree f → f ≠ 0 ∧ f * kVMPageSize < 2 ^ 52)
    (htotal : pmm.totalMemorySize ≤ 2 ^ 64) :
    (m.mappedState pmm).pmm.freeCount =
      pmm.freeCount - 1 - tablesNeeded (bootTables m.memory pmm) (bootTables m.memory pmm).kernelPML4
        ((bootPages m.layout m.image pmm.totalMemorySize).map Prod.snd) := by
  have hstart := bootTables_refines m.memory hbounds
  rw [← bootTables_freeCount m.memory pmm]
  exact mapPages_freeCount (bootPages m.layout m.image pmm.totalMemorySize) hstart.wellFormed
    List.mem_cons_self fun page hpage => bootPages_word htotal hpage

theorem vmVirtualMemoryInitialize_freeCount (m : Machine) (pmm : VMPhysicalMemory) :
    (vmVirtualMemoryInitialize m.memory pmm m.layout m.image).pmm.freeCount =
      (m.mappedState pmm).pmm.freeCount := by
  rw [vmVirtualMemoryInitialize_eq, activate_freeCount, bootRun_vm, unmapPage_pmm]
  rfl

/-- Boot takes a frame for the PML4 and frames for the tables of the boot pages. -/
theorem boot_freeCount {m : Machine} (hm : m.Accepted) {pmm : VMPhysicalMemory}
    (hpmm : vmPhysicalMemoryInitialize m.memoryMap m.image = some pmm)
    {paths : Finset (List (Fin 512))}
    (hpaths : ∀ page ∈ bootPages m.layout m.image pmm.totalMemorySize, upperPath page.2 ∈ paths) :
    ∃ s, m.boot = some s ∧ pmm.freeCount ≤ s.pmm.freeCount + 1 + paths.card * 3 := by
  refine ⟨vmVirtualMemoryInitialize m.memory pmm m.layout m.image, ?_, ?_⟩
  · rw [Machine.boot, hpmm, Option.map_some]
  have hbounds : ∀ {f}, pmm.FrameFree f → f ≠ 0 ∧ f * kVMPageSize < 2 ^ 52 := by
    intro f hf
    obtain ⟨hne, -, hlt⟩ := free_frame_bounds hm hpmm hf
    exact ⟨hne, hlt⟩
  have htotal : pmm.totalMemorySize ≤ 2 ^ 64 := by
    obtain ⟨-, pm, -, heq, -, -, htotal, -⟩ := physicalMemoryInitialize_eq_some hm.map
    obtain rfl : pm = pmm := Option.some.inj (heq.symm.trans hpmm)
    rw [htotal]
    exact Nat.le_trans hm.memory_le (by decide)
  have hcount := mappedState_freeCount m hbounds htotal
  rw [vmVirtualMemoryInitialize_freeCount]
  have htables : tablesNeeded (bootTables m.memory pmm) (bootTables m.memory pmm).kernelPML4
      ((bootPages m.layout m.image pmm.totalMemorySize).map Prod.snd) ≤ paths.card * 3 := by
    apply tablesNeeded_le
    intro v hv
    obtain ⟨page, hpage, rfl⟩ := List.mem_map.mp hv
    exact hpaths page hpage
  omega

/-! ## Section 4: A machine with 8 MiB -/

theorem upperPath_eq {virt : Nat} {a b c : Fin 512} (ha : virt / 2 ^ 39 % 512 = a.val)
    (hb : virt / 2 ^ 30 % 512 = b.val) (hc : virt / 2 ^ 21 % 512 = c.val) :
    upperPath virt = [a, b, c] := by
  simp only [upperPath, List.cons.injEq, and_true, pml4Slot, pdptSlot, pdSlot, Fin.ext_iff,
    vmmPML4Index_eq, vmmPDPTIndex_eq, vmmPDIndex_eq]
  exact ⟨ha, hb, hc⟩

/-- Memory enough for the kernel heap, with the image at 1 MiB. -/
def heapMachine : Machine where
  memoryMap := [⟨.bootServicesData, 0, 256⟩, ⟨.loaderCode, 0x100000, 64⟩,
    ⟨.conventional, 0x140000, 1728⟩, ⟨.mappedIo, 0xFEC00000, 1⟩]
  image := smallKernelImage
  layout := ⟨0, 0, 0xFFFFFFFF80110000⟩
  memory := fun _ => 0

theorem heapMachine_accepted : heapMachine.Accepted where
  map := {
    aligned := by decide
    nonWrapping := by decide
    imageInLoaderMemory := by
      intro address hlow hhigh
      have hstart : kernelVirtToPhys smallKernelImage.kernelStart = 0x100000 := by decide
      have hend : kernelVirtToPhys smallKernelImage.kernelEnd = 0x140000 := by decide
      simp only [heapMachine, hstart, hend] at hlow hhigh
      refine ⟨⟨.loaderCode, 0x100000, 64⟩, by decide, by decide, by decide, ?_⟩
      simp only [OSMemoryDescriptor.Contains, kVMPageSize]
      omega
    hostExists := ⟨⟨.conventional, 0x140000, 1728⟩, by decide, by decide, by decide, by decide⟩ }
  memory_le := by decide
  image_end := by decide
  framebuffer_aligned := by decide
  framebuffer_end := by decide

/-- The page tables of its boot pages: four for the direct map, one for the image. -/
def heapMachinePaths : Finset (List (Fin 512)) :=
  {[273, 0, 0], [273, 0, 1], [273, 0, 2], [273, 0, 3], [511, 510, 0]}

theorem heapMachine_bootPages {page : Nat × Nat}
    (h : page ∈ bootPages heapMachine.layout heapMachine.image 0x800000) :
    upperPath page.2 ∈ heapMachinePaths := by
  simp only [bootPages, List.mem_append, List.mem_map] at h
  rcases h with (⟨a, ha, rfl⟩ | ⟨a, ha, rfl⟩) | ⟨a, ha, -⟩
  -- The direct map of 8 MiB takes four entries of one page directory.
  · obtain ⟨n, rfl, hlt⟩ := mem_pageLoop.mp ha
    have hpd : 0 + n * kVMPageSize < 0x200000 ∨
        0x200000 ≤ 0 + n * kVMPageSize ∧ 0 + n * kVMPageSize < 0x400000 ∨
        0x400000 ≤ 0 + n * kVMPageSize ∧ 0 + n * kVMPageSize < 0x600000 ∨
        0x600000 ≤ 0 + n * kVMPageSize := by omega
    have hpath : ∀ {c : Fin 512}, (0 + n * kVMPageSize) / 2 ^ 21 = c.val →
        upperPath (physToHhdm (0 + n * kVMPageSize)) = [273, 0, c] := by
      intro c hc
      have hvirt : physToHhdm (0 + n * kVMPageSize) = 0 + n * kVMPageSize + hhdmOffset := by
        rw [physToHhdm, wrap64_of_lt]
        simp only [hhdmOffset]
        omega
      rw [hvirt]
      simp only [hhdmOffset]
      apply upperPath_eq
      · show _ = 273
        omega
      · show _ = 0
        omega
      · rw [← hc]
        omega
    simp only [heapMachinePaths, Finset.mem_insert, Finset.mem_singleton]
    rcases hpd with h | h | h | h
    · exact .inl (hpath (c := 0) (by show _ = 0; omega))
    · exact .inr (.inl (hpath (c := 1) (by show _ = 1; omega)))
    · exact .inr (.inr (.inl (hpath (c := 2) (by show _ = 2; omega))))
    · exact .inr (.inr (.inr (.inl (hpath (c := 3) (by show _ = 3; omega)))))
  -- The image lies within 2 MiB, and so in one page table.
  · obtain ⟨n, rfl, hlt⟩ := mem_pageLoop.mp ha
    have hstart : heapMachine.image.kernelStart = 0xFFFFFFFF80100000 := by decide
    have hend : heapMachine.image.kernelEnd = 0xFFFFFFFF80140000 := by decide
    rw [hend] at hlt
    rw [hstart] at hlt ⊢
    simp only [heapMachinePaths, Finset.mem_insert, Finset.mem_singleton]
    refine .inr (.inr (.inr (.inr (upperPath_eq ?_ ?_ ?_))))
    · show _ = 511
      omega
    · show _ = 510
      omega
    · show _ = 0
      omega
  -- There is no framebuffer to map.
  · obtain ⟨n, -, hlt⟩ := mem_pageLoop.mp ha
    exact absurd hlt (by simp [heapMachine])

/-- All of the free memory but the page of the bitmap is left. -/
theorem heapMachine_freeCount :
    ∃ pmm, vmPhysicalMemoryInitialize heapMachine.memoryMap heapMachine.image = some pmm ∧
      pmm.totalMemorySize = 0x800000 ∧ 1727 ≤ pmm.freeCount := by
  have hmax : maxPhysicalAddress heapMachine.memoryMap = 0x800000 := by decide
  obtain ⟨host, pmm, hhost, hpmm, haddress, -, htotal, hfree⟩ :=
    physicalMemoryInitialize_eq_some heapMachine_accepted.map
  have hhost' : host = ⟨.conventional, 0x140000, 1728⟩ := by
    have : bitmapHostDescriptor heapMachine.memoryMap = some ⟨.conventional, 0x140000, 1728⟩ := by
      decide
    rw [hhost] at this
    exact Option.some.inj this
  refine ⟨pmm, hpmm, htotal.trans hmax, ?_⟩
  apply le_freeCount_of_range
  intro f (hle : 321 ≤ f) hlt
  have hstart : kernelVirtToPhys heapMachine.image.kernelStart = 0x100000 := by decide
  have hend : kernelVirtToPhys heapMachine.image.kernelEnd = 0x140000 := by decide
  have hsize : bitmapSize heapMachine.memoryMap = 256 := by decide
  refine (hfree f).mpr ⟨⟨⟨.conventional, 0x140000, 1728⟩, by decide, rfl, ?_⟩, ?_, ?_, ?_⟩
  · simp only [OSMemoryDescriptor.Contains, kVMPageSize]
    omega
  · simp only [kVMSafeSpaceStartAddress, kVMPageSize]
    omega
  · simp only [kVMPageSize, hend]
    omega
  · simp only [kVMPageSize, haddress, hhost', hsize]
    omega

/-- A machine of the same layout boots whatever its memory holds, and frames are left for processes. -/
theorem bootHeap_of_heapMachine {m : Machine} (hm : m.Accepted)
    (hmap : m.memoryMap = heapMachine.memoryMap) (himage : m.image = heapMachine.image)
    (hframebuffer : m.layout.framebufferSize = 0) :
    ∃ heap s, m.bootHeap = some (heap, s) ∧ 600 ≤ s.pmm.freeCount := by
  obtain ⟨pmm, hpmm, htotal, hpmmCount⟩ := heapMachine_freeCount
  -- without a framebuffer there are no other pages
  have hpages : ∀ total, bootPages m.layout m.image total =
      bootPages heapMachine.layout heapMachine.image total := by
    intro total
    simp only [bootPages, hframebuffer, himage]
    rfl
  rw [← hmap, ← himage] at hpmm
  obtain ⟨s₀, hboot, hcount⟩ := boot_freeCount hm hpmm (by
    rw [htotal, hpages]
    exact fun page hpage => heapMachine_bootPages hpage)
  have hpaths : heapMachinePaths.card = 5 := by decide
  obtain ⟨f, hf⟩ : ∃ f, s₀.pmm.FrameFree f := by
    by_contra hnone
    have hzero := freeCount_eq_zero_iff.mpr (not_exists.mp hnone)
    omega
  obtain ⟨role, hready, -⟩ := boot_ready hm hboot hf
  -- the arena of 4 MiB lies below two page tables
  have hneeded : framesNeeded s₀ s₀.kernelPML4 (heapPages 0 kVMHeapSizePages) ≤ 1024 + 2 * 3 := by
    have hcard : ({[511, 511, 0], [511, 511, 1]} : Finset (List (Fin 512))).card = 2 := by decide
    have hpaths : ∀ v ∈ heapPages 0 kVMHeapSizePages,
        upperPath v ∈ ({[511, 511, 0], [511, 511, 1]} : Finset (List (Fin 512))) := by
      intro v hv
      simp only [heapPages, List.mem_map, List.mem_range', kVMHeapSizePages] at hv
      obtain ⟨i, ⟨j, hj, rfl⟩, rfl⟩ := hv
      simp only [kVMKernelHeapStart, kVMPageSize, Finset.mem_insert, Finset.mem_singleton]
      by_cases hlow : j < 512
      · refine .inl (upperPath_eq ?_ ?_ ?_)
        · show _ = 511
          omega
        · show _ = 511
          omega
        · show _ = 0
          omega
      · refine .inr (upperPath_eq ?_ ?_ ?_)
        · show _ = 511
          omega
        · show _ = 511
          omega
        · show _ = 1
          omega
    have htables := tablesNeeded_le s₀ s₀.kernelPML4 hpaths
    have hlength : (heapPages 0 kVMHeapSizePages).length = 1024 := by
      rw [heapPages, List.length_map, List.length_range', kVMHeapSizePages]
    rw [framesNeeded, hlength]
    rw [hcard] at htables
    omega
  obtain ⟨heap, s, hheap, hleft⟩ := hready.consistent.mapHeapPages
    (i := 0) (hneeded.trans (by omega))
  refine ⟨heap, s, ?_, by omega⟩
  rw [Machine.bootHeap, hboot, Option.bind_some, vmHeapInitializeFrames, hheap]

theorem heapMachine_bootHeap :
    ∃ heap s, heapMachine.bootHeap = some (heap, s) ∧ 600 ≤ s.pmm.freeCount :=
  bootHeap_of_heapMachine heapMachine_accepted rfl rfl rfl

end TermOS.VM
