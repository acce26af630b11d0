import TermOS.VM.Boot

/-!
# Ownership of frames

Pages of user address spaces get fresh frames. A frame that is allocated for a
page carries the page as its role for good, so that no other page and no other
use of memory can get it. This module says what allocating, mapping and
writing such frames does to the roles and the walks.
-/

namespace TermOS.VM

open TermOS.Lib TermOS.Kernel TermOS.Lib.TableForest VMState

variable {roots : List Nat} {role role' : Roles} {s s' : VMState}

/-! ## Section 1: Writes outside the tables -/

/-- `s'` has the page tables of `s`. -/
structure SameTables (role : Roles) (s s' : VMState) : Prop where
  kernelPML4_eq : s'.kernelPML4 = s.kernelPML4
  isInitialized_eq : s'.isInitialized = s.isInitialized
  free_of_free : ∀ {f}, s'.pmm.FrameFree f → s.pmm.FrameFree f
  entry_eq : ∀ {t r p i}, role t = some (.table r p) → s'.entry t i = s.entry t i

/-- Bytes outside the tables do not matter to the tables. -/
theorem SameTables.of_mem (h : WellFormed roots role s) {mem : Memory}
    (hmem : ∀ x r p, role (x / 4096 * 4096) = some (.table r p) → mem x = s.mem x) :
    SameTables role s { s with mem } where
  kernelPML4_eq := rfl
  isInitialized_eq := rfl
  free_of_free := id
  entry_eq := by
    intro t r p i ht
    have halign := (h.table_frame ht).1
    have hi := i.isLt
    rw [VMState.entry, VMState.entry]
    apply Memory.readLE_congr
    intro x hx₁ hx₂
    have hpage : x / 4096 * 4096 = t := by omega
    exact hmem x r p (by rw [hpage, ht])

namespace SameTables

theorem wellFormed (hsame : SameTables role s s') (h : WellFormed roots role s) :
    WellFormed roots role s' :=
  h.of_links hsame.kernelPML4_eq hsame.free_of_free fun ht _ => by rw [hsame.entry_eq ht]

theorem follow_eq (hsame : SameTables role s s') (h : WellFormed roots role s) {r : Nat}
    (hr : r ∈ roots) {is : List (Fin 512)} (his : is.length ≤ 3) :
    follow childTable s'.entry r is = follow childTable s.entry r is := by
  apply follow_congr h.stratified ?_ (h.root_at hr) his
  rintro n t i ⟨r', p, ht, -⟩
  rw [hsame.entry_eq ht]

theorem walk_eq (hsame : SameTables role s s') (h : WellFormed roots role s) {r : Nat}
    (hr : r ∈ roots) (virt : Nat) : s'.walk r virt = s.walk r virt := by
  have hleaf : s'.leafTable r virt = s.leafTable r virt :=
    hsame.follow_eq h hr (by simp [upperPath_length])
  rw [VMState.walk, VMState.walk, hleaf]
  cases hpt : s.leafTable r virt with
  | none => rw [Option.bind_none, Option.bind_none]
  | some pt =>
    obtain ⟨r', hrole, -⟩ := h.leafTable_role hr hpt
    rw [Option.bind_some, Option.bind_some, hsame.entry_eq hrole]

end SameTables

/-! ## Section 2: Allocating a frame for a page -/

/-- A frame is free, or it is allocated and can be given any role that is not
a table's. -/
theorem allocatePage_role_cases (h : WellFormed roots role s) {x : FrameRole}
    (hx : ∀ r p, x ≠ .table r p) :
    (s.pmm.freeCount = 0 ∧ s.allocatePage = (0, s)) ∨
    ∃ a s₁, s.allocatePage = (a, s₁) ∧ a ≠ 0 ∧ IsFrameAddress a ∧ role a = none ∧
      s.pmm.FrameFree (a / kVMPageSize) ∧
      s.pmm.freeCount = s₁.pmm.freeCount + 1 ∧ s₁.mem = s.mem ∧
      s₁.kernelPML4 = s.kernelPML4 ∧ s₁.isInitialized = s.isInitialized ∧
      (∀ f, s₁.pmm.FrameFree f → s.pmm.FrameFree f) ∧
      WellFormed roots (Function.update role a (some x)) s₁ := by
  rcases allocatePage_state_cases s with ⟨hfull, heq⟩ |
    ⟨f, s₁, hf, heq, hmem, hkernel, hinit, -, -, hfree⟩
  · exact .inl ⟨freeCount_eq_zero_iff.mpr hfull, heq⟩
  · obtain ⟨hnone, hframe, hne⟩ := h.free_address hf
    have hdiv : f * kVMPageSize / kVMPageSize = f := Nat.mul_div_cancel _ (by decide)
    have hallocated : WellFormed roots role s₁ :=
      h.of_allocated hmem hkernel fun g hg => ((hfree g).mp hg).1
    refine .inr ⟨f * kVMPageSize, s₁, heq, hne, hframe, hnone, ?_, freeCount_of_erase hf hfree,
      hmem, hkernel, hinit, fun g hg => ((hfree g).mp hg).1, ?_⟩
    · rwa [hdiv]
    · apply hallocated.assign hnone hx
      rw [hdiv, hfree]
      exact fun hfr => hfr.2 rfl

/-! ## Section 3: Mapping a page -/

/-- What mapping the page of `virt` in the address space `root` to `m` may have
changed: page tables in frames that were free, and the walk of that page. -/
structure MapOutcome (roots : List Nat) (role : Roles) (s : VMState) (root virt : Nat)
    (m : Nat × Nat) (role' : Roles) (s' : VMState) : Prop where
  wellFormed : WellFormed roots role' s'
  role_keep : Roles.Extends role role'
  role_new : ∀ {a x}, role' a = some x →
    role a = some x ∨ (s.pmm.FrameFree (a / kVMPageSize) ∧ ∃ r p, x = .table r p)
  kernelPML4_eq : s'.kernelPML4 = s.kernelPML4
  isInitialized_eq : s'.isInitialized = s.isInitialized
  free_of_free : ∀ {f}, s'.pmm.FrameFree f → s.pmm.FrameFree f
  mem_eq : ∀ {x}, (∀ r p, role' (x / 4096 * 4096) ≠ some (.table r p)) → s'.mem x = s.mem x
  walk_cases : ∀ {r virt'}, r ∈ roots → s'.walk r virt' = s.walk r virt' ∨
    (pageNumber virt' = pageNumber virt ∧ (r = root ∨ KernelHalf virt) ∧ s'.walk r virt' = some m)
  writable : LinksWritable role s → LinksWritable role' s'
  follow_keep : ∀ {r is}, r ∈ roots → is.length ≤ 3 →
    (follow childTable s.entry r is).isSome → (follow childTable s'.entry r is).isSome
  follow_new : ∀ {r is}, r ∈ roots → is.length ≤ 3 →
    (follow childTable s'.entry r is).isSome →
    (follow childTable s.entry r is).isSome ∨ is <+: upperPath virt

/-- `VMVirtualMemoryMapPage` fails exactly when the tables that the walk lacks
outnumber the free frames. Otherwise it takes these frames and maps the page. -/
theorem mapPage_outcome (h : WellFormed roots role s) {root phys flags : Nat} (virt : Nat)
    (hroot : root ∈ roots) (hphys : IsFrameAddress phys) (hflags : IsFlagWord flags)
    (hpresent : flags &&& ptePresent ≠ 0) :
    ∃ role', MapOutcome roots role s root virt (phys, flags) role'
        (vmVirtualMemoryMapPage s root phys virt flags).2 ∧
      ((s.pmm.freeCount < missing childTable s.entry root (upperPath virt) ∧
          (vmVirtualMemoryMapPage s root phys virt flags).2.pmm.freeCount = 0 ∧
          (vmVirtualMemoryMapPage s root phys virt flags).2.leafTable root virt = none ∧
          (∀ r ∈ roots, ∀ virt', (vmVirtualMemoryMapPage s root phys virt flags).2.walk r virt' =
            s.walk r virt')) ∨
        (s.pmm.freeCount = (vmVirtualMemoryMapPage s root phys virt flags).2.pmm.freeCount +
            missing childTable s.entry root (upperPath virt) ∧
          (vmVirtualMemoryMapPage s root phys virt flags).2.walk root virt = some (phys, flags))) := by
  rcases mapPage_cases h hroot phys virt flags with
    ⟨hlt, role', s', heq, hfull, hleaf, hg⟩ | ⟨pt, role', s', heq, hcount, hg, hpt, -⟩
  · rw [heq]
    refine ⟨role', ?_, .inl ⟨hlt, hfull, hleaf, fun r hr => hg.walk_eq hr⟩⟩
    exact {
      wellFormed := hg.wellFormed
      role_keep := fun _ _ => hg.role_keep
      role_new := hg.role_new
      kernelPML4_eq := hg.kernelPML4_eq
      isInitialized_eq := hg.isInitialized_eq
      free_of_free := hg.free_of_free
      mem_eq := hg.mem_eq
      walk_cases := fun hr => .inl (hg.walk_eq hr _)
      writable := hg.writable
      follow_keep := hg.follow_isSome
      follow_new := fun hr his => hg.follow_new h hr his }
  · have hwf := hg.wellFormed
    obtain ⟨r₀, hrole, hvia⟩ := hwf.leafTable_role hroot hpt
    have hv : phys ||| flags < 2 ^ 64 := or_lt_word (lt_trans hphys.2 (by decide)) hflags.1
    have hdecode := decode_or hphys hflags hpresent
    have hfollow : ∀ {r : Nat} {is : List (Fin 512)}, r ∈ roots → is.length ≤ 3 →
        follow childTable (s'.setEntry pt (ptSlot virt) (phys ||| flags)).entry r is =
          follow childTable s'.entry r is := fun hr his => follow_setLeaf hwf hrole hv hr his
    rw [heq]
    refine ⟨role', ?_, .inr ⟨hcount, ?_⟩⟩
    · exact {
        wellFormed := hwf.setLeaf hrole hv
        role_keep := fun _ _ => hg.role_keep
        role_new := hg.role_new
        kernelPML4_eq := hg.kernelPML4_eq
        isInitialized_eq := hg.isInitialized_eq
        free_of_free := hg.free_of_free
        mem_eq := by
          intro x hx
          have hxpt : x / 4096 * 4096 ≠ pt := by
            intro hpage
            rw [hpage] at hx
            exact hx _ _ hrole
          rw [mem_setEntry_outside s' _ _ (hwf.table_frame hrole).1 hxpt, hg.mem_eq hx]
        walk_cases := by
          intro r virt' hr
          rw [walk_setLeaf hwf hrole hv hr, hdecode, hg.walk_eq hr]
          split
          · next hslot =>
            -- the walk of `virt'` ends in the written slot, so it is the walk of the same page
            obtain ⟨r₁, hrole₁, hvia₁⟩ := hwf.leafTable_role hr hslot.1
            obtain ⟨rfl, hpath⟩ := table_role_inj hrole₁ hrole
            have hpage := pageNumber_eq_iff.mpr ⟨hpath, hslot.2⟩
            refine .inr ⟨hpage, ?_, rfl⟩
            rcases hvia with rfl | ⟨-, hhalf⟩
            · exact hvia₁.imp Eq.symm fun hk => (kernelHalf_congr hpage).mp hk.2
            · exact .inr hhalf
          · exact .inl rfl
        writable := by
          intro hw t r p i c ht hp hc
          rw [entry_setLeaf hwf hrole hv ht hp] at hc ⊢
          exact hg.writable hw t r p i c ht hp hc
        follow_keep := fun hr his hsome => by
          rw [hfollow hr his]
          exact hg.follow_isSome hr his hsome
        follow_new := fun hr his hsome => by
          rw [hfollow hr his] at hsome
          exact hg.follow_new h hr his hsome }
    · rw [walk_setLeaf hwf hrole hv hroot, if_pos ⟨hpt, rfl⟩, hdecode]

/-! ## Section 4: Pages own their frames -/

/-- Every user-half page of `spaces` is mapped to a frame that has the page as
its role. -/
def PagesOwned (spaces : List Nat) (role : Roles) (s : VMState) : Prop :=
  ∀ {u virt m}, u ∈ spaces → ¬ KernelHalf virt → s.walk u virt = some m →
    role m.1 = some (.page u (pagePath virt))

/-- Two user pages with the same frame are the same page. -/
theorem PagesOwned.page_inj {spaces : List Nat} (h : PagesOwned spaces role s)
    {u u' virt virt' frame flags flags' : Nat} (hu : u ∈ spaces) (hu' : u' ∈ spaces)
    (hv : ¬ KernelHalf virt) (hv' : ¬ KernelHalf virt')
    (hwalk : s.walk u virt = some (frame, flags))
    (hwalk' : s.walk u' virt' = some (frame, flags')) :
    u = u' ∧ pageNumber virt = pageNumber virt' := by
  have hrole := h hu hv hwalk
  rw [h hu' hv' hwalk'] at hrole
  simp only [Option.some.injEq, FrameRole.page.injEq] at hrole
  exact ⟨hrole.1.symm, pageNumber_eq_iff.mpr (pagePath_eq_iff.mp hrole.2.symm)⟩

/-- A page whose frame has the page as its role may be mapped. -/
theorem PagesOwned.mapPage {spaces : List Nat} (h : PagesOwned spaces role s)
    (hspaces : ∀ u ∈ spaces, u ∈ roots) {root virt : Nat} {m : Nat × Nat}
    (hrole : role m.1 = some (.page root (pagePath virt)))
    (hmap : MapOutcome roots role s root virt m role' s') : PagesOwned spaces role' s' := by
  intro u virt' m' hu hlow hwalk
  rcases hmap.walk_cases (hspaces u hu) with heq | ⟨hpage, hvia, heq⟩
  · exact hmap.role_keep _ _ (h hu hlow (heq.symm.trans hwalk))
  · obtain rfl : u = root :=
      hvia.resolve_right fun hk => hlow ((kernelHalf_congr hpage).mpr hk)
    have hmm : m = m' := Option.some.inj (heq.symm.trans hwalk)
    have hpath : pagePath virt' = pagePath virt := pagePath_eq_iff.mpr (pageNumber_eq_iff.mp hpage)
    rw [← hmm, hpath]
    exact hmap.role_keep _ _ hrole

/-! ## Section 5: The address spaces together -/

/-- The kernel and the address spaces in `spaces` share one forest of tables,
kernel pointers go through the direct map, and page 0 is not a table. -/
structure Consistent (spaces : List Nat) (role : Roles) (s : VMState) : Prop where
  wellFormed : WellFormed (s.kernelPML4 :: spaces) role s
  isInitialized : s.isInitialized = true
  zero_notTable : ∀ r p, role 0 ≠ some (.table r p)

/-- No page of the kernel half is accessible from ring 3. -/
def KernelPrivate (spaces : List Nat) (s : VMState) : Prop :=
  ∀ r ∈ s.kernelPML4 :: spaces, ∀ virt m, KernelHalf virt → s.walk r virt = some m →
    ¬ UserEntry m.2

section Consistent

variable {spaces : List Nat} {c : Nat}

theorem SameTables.consistent (hsame : SameTables role s s') (h : Consistent spaces role s) :
    Consistent spaces role s' where
  wellFormed := by
    rw [hsame.kernelPML4_eq]
    exact hsame.wellFormed h.wellFormed
  isInitialized := hsame.isInitialized_eq.trans h.isInitialized
  zero_notTable := h.zero_notTable

theorem KernelPrivate.of_walk_eq (h : KernelPrivate spaces s)
    (hkernel : s'.kernelPML4 = s.kernelPML4)
    (hwalk : ∀ r ∈ s.kernelPML4 :: spaces, ∀ virt, KernelHalf virt →
      s'.walk r virt = s.walk r virt) : KernelPrivate spaces s' := by
  intro r hr virt m hhalf hm
  rw [hkernel] at hr
  rw [hwalk r hr virt hhalf] at hm
  exact h r hr virt m hhalf hm

theorem Consistent.clearPage_eq (h : Consistent spaces role s) {phys : Nat}
    (hphys : phys < 2 ^ 52) : s.clearPage (physToHhdm phys) = s.zeroPage phys := by
  have hpointer : sVMGetVirtualTable s phys = physToHhdm phys := by
    rw [sVMGetVirtualTable, h.isInitialized, if_pos rfl]
  rw [← hpointer]
  exact clearPage_eq_zeroPage rfl hphys

/-- Clearing a page that is not a table. -/
theorem Consistent.clearPage (h : Consistent spaces role s) {phys : Nat}
    (hframe : IsFrameAddress phys) (hrole : ∀ r p, role phys ≠ some (.table r p)) :
    SameTables role s (s.clearPage (physToHhdm phys)) := by
  rw [h.clearPage_eq hframe.2]
  apply SameTables.of_mem h.wellFormed
  intro x r p hx
  apply mem_zeroPage_outside s hframe.1
  rintro hpage
  rw [hpage] at hx
  exact hrole r p hx

/-- Allocating a frame and giving it a role that is not a table's. -/
theorem Consistent.allocatePage (h : Consistent spaces role s) {x : FrameRole}
    (hx : ∀ r p, x ≠ .table r p) :
    (s.pmm.freeCount = 0 ∧ s.allocatePage = (0, s)) ∨
    ∃ a s₁, s.allocatePage = (a, s₁) ∧ a ≠ 0 ∧ IsFrameAddress a ∧ role a = none ∧
      s.pmm.freeCount = s₁.pmm.freeCount + 1 ∧ SameTables role s s₁ ∧ s₁.mem = s.mem ∧
      Consistent spaces (Function.update role a (some x)) s₁ := by
  rcases allocatePage_role_cases h.wellFormed hx with hfull |
    ⟨a, s₁, heq, hne, hframe, hnone, -, hcount, hmem, hkernel, hinit, hfree, hwf⟩
  · exact .inl hfull
  · refine .inr ⟨a, s₁, heq, hne, hframe, hnone, hcount, ?_, hmem, ?_⟩
    · exact ⟨hkernel, hinit, fun hf => hfree _ hf, fun _ => entry_congr hmem _ _⟩
    · exact {
        wellFormed := by rwa [hkernel]
        isInitialized := hinit.trans h.isInitialized
        zero_notTable := by
          intro r p
          rw [Function.update_of_ne hne.symm]
          exact h.zero_notTable r p }

/-- Mapping a page in one of the address spaces. -/
theorem Consistent.mapPage (h : Consistent spaces role s) {root phys flags : Nat} (virt : Nat)
    (hroot : root ∈ s.kernelPML4 :: spaces) (hphys : IsFrameAddress phys)
    (hflags : IsFlagWord flags) (hpresent : flags &&& ptePresent ≠ 0) :
    ∃ role', Consistent spaces role' (vmVirtualMemoryMapPage s root phys virt flags).2 ∧
      MapOutcome (s.kernelPML4 :: spaces) role s root virt (phys, flags) role'
        (vmVirtualMemoryMapPage s root phys virt flags).2 ∧
      ((s.pmm.freeCount < missing childTable s.entry root (upperPath virt) ∧
          (vmVirtualMemoryMapPage s root phys virt flags).2.pmm.freeCount = 0 ∧
          (vmVirtualMemoryMapPage s root phys virt flags).2.leafTable root virt = none ∧
          (∀ r ∈ s.kernelPML4 :: spaces, ∀ virt',
            (vmVirtualMemoryMapPage s root phys virt flags).2.walk r virt' = s.walk r virt')) ∨
        (s.pmm.freeCount = (vmVirtualMemoryMapPage s root phys virt flags).2.pmm.freeCount +
            missing childTable s.entry root (upperPath virt) ∧
          (vmVirtualMemoryMapPage s root phys virt flags).2.walk root virt = some (phys, flags))) := by
  obtain ⟨role', hmap, hcases⟩ := mapPage_outcome h.wellFormed virt hroot hphys hflags
    hpresent
  refine ⟨role', ?_, hmap, hcases⟩
  exact {
    wellFormed := by
      rw [hmap.kernelPML4_eq]
      exact hmap.wellFormed
    isInitialized := hmap.isInitialized_eq.trans h.isInitialized
    zero_notTable := by
      intro r p hzero
      rcases hmap.role_new hzero with hold | ⟨hfree, -⟩
      · exact h.zero_notTable r p hold
      · -- new tables get free frames, and frame 0 is never free
        exact (h.wellFormed.free_frame hfree).1 rfl }

/-- A new address space. -/
theorem Consistent.addsRoot (h : Consistent spaces role s)
    (hadd : AddsRoot (s.kernelPML4 :: spaces) role s c s') :
    Consistent (c :: spaces) (Function.update role c (some (.table c []))) s' where
  wellFormed := by
    rw [hadd.kernelPML4_eq]
    exact hadd.wellFormed.of_perm (List.Perm.swap _ _ _)
  isInitialized := hadd.isInitialized_eq.trans h.isInitialized
  zero_notTable := by
    intro r p
    have hc : c ≠ 0 := by
      rintro rfl
      exact (h.wellFormed.free_frame hadd.free).1 rfl
    rw [Function.update_of_ne hc.symm]
    exact h.zero_notTable r p

/-- Pages below the kernel half may be mapped with any flags, the kernel's own
without the USER bit. -/
theorem KernelPrivate.mapPage (h : KernelPrivate spaces s) {root virt : Nat} {m : Nat × Nat}
    (hmap : MapOutcome (s.kernelPML4 :: spaces) role s root virt m role' s')
    (hvirt : KernelHalf virt → ¬ UserEntry m.2) : KernelPrivate spaces s' := by
  intro r hr virt' m' hhalf hm
  rw [hmap.kernelPML4_eq] at hr
  rcases hmap.walk_cases hr with heq | ⟨hpage, -, heq⟩
  · exact h r hr virt' m' hhalf (heq.symm.trans hm)
  · obtain rfl := Option.some.inj (heq.symm.trans hm)
    exact hvirt ((kernelHalf_congr hpage).mp hhalf)

/-- The kernel half of a new address space is the kernel's. -/
theorem KernelPrivate.addsRoot (h : KernelPrivate spaces s)
    (hwf : WellFormed (s.kernelPML4 :: spaces) role s)
    (hadd : AddsRoot (s.kernelPML4 :: spaces) role s c s') : KernelPrivate (c :: spaces) s' := by
  intro r hr virt m hhalf hm
  rw [hadd.kernelPML4_eq] at hr
  by_cases hrc : r = c
  · subst hrc
    rw [hadd.walk_new_kernelHalf hwf hhalf] at hm
    exact h _ List.mem_cons_self virt m hhalf hm
  · have hr' : r ∈ s.kernelPML4 :: spaces := by
      simp only [List.mem_cons] at hr ⊢
      tauto
    rw [hadd.walk_old hwf hr'] at hm
    exact h r hr' virt m hhalf hm

end Consistent

end TermOS.VM
