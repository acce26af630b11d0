import TermOS.VM.DirectMap
import TermOS.VM.HeapArena

/-!
# The entries above a user page

Ring 3 can use a page only if the flags for it are set at all four levels of the
walk. `VMVirtualMemoryMapPage` links every table with the RW bit and adds the USER
bit along the walk of a user page, and no call takes either away, so that a process
may store to all the pages that it has.
-/

namespace TermOS.VM

open TermOS.Lib TermOS.Kernel TermOS.Lib.TableForest VMState

variable {roots spaces : List Nat} {role : Roles} {s s' : VMState}

/-! ## Section 1: Writable links -/

/-- Every link that a walk from one of the `roots` can come to carries the RW bit. -/
def RootsWritable (roots : List Nat) (s : VMState) : Prop :=
  ∀ r ∈ roots, ∀ (is : List (Fin 512)) (i : Fin 512) (t c : Nat), is.length < 3 →
    follow childTable s.entry r is = some t → childTable (s.entry t i) = some c →
    WritableEntry (s.entry t i)

theorem LinksWritable.rootsWritable (hw : LinksWritable role s) (h : WellFormed roots role s) :
    RootsWritable roots s := by
  intro r hr is i t c his ht hc
  obtain ⟨r', hrole, -⟩ := h.follow_role (h.root_role hr) (by simp; omega) ht
  exact hw t r' _ i c hrole (by simpa using his) hc

/-- The roles without the tables of other roots. -/
def Roles.ofRoots (roots : List Nat) (role : Roles) : Roles := fun a =>
  match role a with
  | some (.table r p) => if r ∈ roots then some (.table r p) else none
  | x => x

theorem Roles.ofRoots_eq_some {a : Nat} {x : FrameRole} :
    role.ofRoots roots a = some x ↔ role a = some x ∧ ∀ r p, x = .table r p → r ∈ roots := by
  rw [Roles.ofRoots]
  split
  · next r p ha =>
    rw [ha]
    by_cases hr : r ∈ roots
    · rw [if_pos hr]
      constructor
      · rintro ⟨⟩
        refine ⟨rfl, ?_⟩
        rintro r' p' ⟨⟩
        exact hr
      · exact fun h => h.1
    · rw [if_neg hr]
      constructor
      · exact fun h => nomatch h
      · rintro ⟨⟨⟩, h⟩
        exact absurd (h r p rfl) hr
  · next hnot =>
    constructor
    · intro ha
      refine ⟨ha, ?_⟩
      rintro r p rfl
      exact absurd ha (hnot r p)
    · exact fun h => h.1

theorem Roles.ofRoots_table {a r : Nat} {p : List (Fin 512)} :
    role.ofRoots roots a = some (.table r p) ↔ role a = some (.table r p) ∧ r ∈ roots := by
  rw [Roles.ofRoots_eq_some]
  constructor
  · exact fun h => ⟨h.1, h.2 r p rfl⟩
  · rintro ⟨ha, hr⟩
    refine ⟨ha, ?_⟩
    rintro r' p' ⟨⟩
    exact hr

/-- The tables of the roots are a forest by themselves. -/
theorem WellFormed.ofRoots (h : WellFormed roots role s) : WellFormed roots (role.ofRoots roots) s where
  kernel_root := h.kernel_root
  root_role := fun hr => Roles.ofRoots_table.mpr ⟨h.root_role hr, hr⟩
  root_self := fun ht => h.root_self (Roles.ofRoots_table.mp ht).1
  path_length := fun ht => h.path_length (Roles.ofRoots_table.mp ht).1
  child_role := by
    intro t r p i c ht hp hc
    obtain ⟨ht, hr⟩ := Roles.ofRoots_table.mp ht
    obtain ⟨r', hrole, hvia⟩ := h.child_role ht hp hc
    refine ⟨r', Roles.ofRoots_table.mpr ⟨hrole, ?_⟩, hvia⟩
    rcases hvia with rfl | ⟨-, -, rfl⟩
    · exact hr
    · exact h.kernel_root
  parent_role := by
    intro c r p i hc
    obtain ⟨hc, hr⟩ := Roles.ofRoots_table.mp hc
    obtain ⟨t, ht, hchild⟩ := h.parent_role hc
    exact ⟨t, Roles.ofRoots_table.mpr ⟨ht, hr⟩, hchild⟩
  role_inj := fun ht ht' => h.role_inj (Roles.ofRoots_table.mp ht).1 (Roles.ofRoots_table.mp ht').1
  table_frame := fun ht => h.table_frame (Roles.ofRoots_table.mp ht).1
  role_notFree := fun ht => h.role_notFree (Roles.ofRoots_eq_some.mp ht).1
  free_frame := h.free_frame

/-- A table is where the walk along its path ends. -/
theorem WellFormed.follow_of_role (h : WellFormed roots role s) {r : Nat} {p : List (Fin 512)} :
    ∀ {t}, role t = some (.table r p) → follow childTable s.entry r p = some t := by
  induction p using List.reverseRecOn with
  | nil =>
    intro t ht
    rw [h.root_self ht, follow_nil]
  | append_singleton p i ih =>
    intro t ht
    obtain ⟨t', ht', hchild⟩ := h.parent_role ht
    exact follow_concat_eq_some.mpr ⟨t', ih ht', hchild⟩

/-- Whatever the roles, the tables of the roots can be given roles for which every link is
writable. -/
theorem RootsWritable.links (hw : RootsWritable roots s) (h : WellFormed roots role s) :
    LinksWritable (role.ofRoots roots) s := by
  intro t r p i c ht hp hc
  obtain ⟨ht, hr⟩ := Roles.ofRoots_table.mp ht
  exact hw r hr p i t c hp (h.follow_of_role ht) hc

/-- All the links on the way to a table are writable. -/
theorem RootsWritable.along (hw : RootsWritable roots s) (h : WellFormed roots role s) {r : Nat}
    (hr : r ∈ roots) {is : List (Fin 512)} (his : is.length ≤ 3) {t : Nat}
    (ht : follow childTable s.entry r is = some t) :
    AllAlong childTable WritableEntry s.entry r is := by
  have hforest := h.ofRoots
  apply allAlong_of_links hforest.stratified ?_ (hforest.root_at hr) his ht
  rintro n t' i c ⟨r', p, hrole, hp⟩ hc
  exact hw.links h t' r' p i c hrole (by omega) hc

/-- Mapping a page leaves every link writable. -/
theorem RootsWritable.mapPage (hw : RootsWritable roots s) (h : WellFormed roots role s)
    {root phys flags : Nat} (hroot : root ∈ roots) (hphys : IsFrameAddress phys)
    (hflags : IsFlagWord flags) (hpresent : flags &&& ptePresent ≠ 0) (virt : Nat) :
    RootsWritable roots (vmVirtualMemoryMapPage s root phys virt flags).2 := by
  obtain ⟨role', hmap, -⟩ := mapPage_outcome h.ofRoots virt hroot hphys hflags hpresent
  exact LinksWritable.rootsWritable (hmap.writable (hw.links h)) hmap.wellFormed

/-- The links are bytes of memory. -/
theorem RootsWritable.of_mem_eq (hw : RootsWritable roots s) (hmem : s'.mem = s.mem) :
    RootsWritable roots s' := by
  have hentry : s'.entry = s.entry := by
    funext t i
    exact entry_congr hmem t i
  rw [RootsWritable, hentry]
  exact hw

/-! ## Section 2: User pages -/

/-- Every page that an address space of `spaces` has in the user half is mapped for ring 3, as far
as its own entry and the entries above it go. -/
structure UserPages (spaces : List Nat) (s : VMState) : Prop where
  links : RootsWritable (s.kernelPML4 :: spaces) s
  pages : ∀ u ∈ spaces, ∀ virt frame flags, ¬ KernelHalf virt → s.walk u virt = some (frame, flags) →
    flags = pteUserData ∧ s.UpperUser u virt

section Keep

variable {u pml4 virt phys : Nat}

/-- The page can be written from ring 3. -/
theorem UserPages.writable (hpages : UserPages spaces s) (h : Consistent spaces role s)
    (hu : u ∈ spaces) (hlow : ¬ KernelHalf virt) {m : Nat × Nat} (hwalk : s.walk u virt = some m) :
    s.UserAccessible u virt ∧ s.Writable u virt := by
  obtain ⟨frame, flags⟩ := m
  obtain ⟨rfl, hupper⟩ := hpages.pages u hu virt frame flags hlow hwalk
  refine ⟨⟨hupper, frame, pteUserData, hwalk, by decide⟩, ?_, frame, pteUserData, hwalk, by decide⟩
  obtain ⟨pt, hpt, -⟩ := walk_eq_some.mp hwalk
  exact hpages.links.along h.wellFormed (List.mem_cons_of_mem _ hu) (by simp [upperPath_length]) hpt

/-- Bytes outside the tables do not matter. -/
theorem UserPages.of_sameTables (hpages : UserPages spaces s) (h : Consistent spaces role s)
    (hsame : SameTables role s s') : UserPages spaces s' where
  links := by
    have hlinks := hpages.links.links h.wellFormed
    have hforest := (hsame.consistent h).wellFormed
    refine LinksWritable.rootsWritable ?_ hforest.ofRoots
    intro t r p i c ht hp hc
    have hkernel : (s.kernelPML4 :: spaces) = s'.kernelPML4 :: spaces := by rw [hsame.kernelPML4_eq]
    rw [hsame.entry_eq (Roles.ofRoots_table.mp ht).1] at hc ⊢
    exact hlinks t r p i c (hkernel ▸ ht) hp hc
  pages := by
    intro u hu virt frame flags hlow hwalk
    have hroot : u ∈ s.kernelPML4 :: spaces := List.mem_cons_of_mem _ hu
    rw [hsame.walk_eq h.wellFormed hroot] at hwalk
    obtain ⟨hflags, hupper⟩ := hpages.pages u hu virt frame flags hlow hwalk
    refine ⟨hflags, ?_⟩
    apply (allAlong_congr h.wellFormed.stratified ?_ (h.wellFormed.root_at hroot)
      (by simp [upperPath_length])).mpr hupper
    rintro n t i ⟨r, p, ht, -⟩
    exact hsame.entry_eq ht

/-- Mapping a page of a user space. -/
theorem UserPages.mapPage (hpages : UserPages spaces s) (h : Consistent spaces role s)
    (hpml4 : pml4 ∈ spaces) (hframe : IsFrameAddress phys) (virt : Nat) :
    UserPages spaces (vmVirtualMemoryMapPage s pml4 phys virt pteUserData).2 := by
  have hroot : pml4 ∈ s.kernelPML4 :: spaces := List.mem_cons_of_mem _ hpml4
  have hkernel : (vmVirtualMemoryMapPage s pml4 phys virt pteUserData).2.kernelPML4 = s.kernelPML4 :=
    (keeps_mapPage s pml4 phys virt pteUserData).kernelPML4_eq
  -- what was accessible stays accessible, and so becomes the new page
  have hupper : (∀ r ∈ s.kernelPML4 :: spaces, ∀ virt', (s.leafTable r virt').isSome →
        s.UpperUser r virt' →
        (vmVirtualMemoryMapPage s pml4 phys virt pteUserData).2.UpperUser r virt') ∧
      ∀ frame, (vmVirtualMemoryMapPage s pml4 phys virt pteUserData).2.walk pml4 virt = some frame →
        (vmVirtualMemoryMapPage s pml4 phys virt pteUserData).2.UpperUser pml4 virt := by
    have hkept : ∀ {role' : Roles} {s₁ : VMState},
        Grows (s.kernelPML4 :: spaces) (LinksAlong pml4 (upperPath virt)) role s role' s₁ →
        ∀ r ∈ s.kernelPML4 :: spaces, ∀ virt', (s.leafTable r virt').isSome →
          s.UpperUser r virt' → s₁.UpperUser r virt' := by
      intro role' s₁ hg r hr virt' hsome hupper
      obtain ⟨pt, hpt⟩ := Option.isSome_iff_exists.mp hsome
      exact hg.along_keep hr (by simp [upperPath_length]) hpt hupper
    rcases mapPage_cases h.wellFormed hroot phys virt pteUserData with
      ⟨-, role', s₁, heq, -, hleaf, hg⟩ | ⟨pt, role', s₁, heq, -, hg, hpt, huser⟩
    · rw [heq]
      refine ⟨hkept hg, fun frame hwalk => ?_⟩
      rw [VMState.walk, hleaf] at hwalk
      cases hwalk
    · obtain ⟨r₀, hrole, -⟩ := hg.wellFormed.leafTable_role hroot hpt
      have hv : phys ||| pteUserData < 2 ^ 64 :=
        or_lt_word (lt_trans hframe.2 (by decide)) (by decide)
      rw [heq]
      refine ⟨fun r hr virt' hsome hold => ?_, fun _ _ => ?_⟩
      · exact (upperUser_setLeaf hg.wellFormed hrole hv hr virt').mpr (hkept hg r hr virt' hsome hold)
      · exact (upperUser_setLeaf hg.wellFormed hrole hv hroot virt).mpr (huser (by simp [UserEntry, pteUserData, pteUser, ptePresent, pteRW]))
  obtain ⟨role', hmap, -⟩ := mapPage_outcome h.wellFormed virt hroot hframe
    (show IsFlagWord pteUserData by decide) (by decide)
  constructor
  · rw [hkernel]
    exact hpages.links.mapPage h.wellFormed hroot hframe (by decide) (by decide) virt
  · intro u hu virt' frame flags hlow hwalk
    have huroot : u ∈ s.kernelPML4 :: spaces := List.mem_cons_of_mem _ hu
    rcases hmap.walk_cases huroot with heq | ⟨hpage, hvia, heq⟩
    · -- a page that was there before
      rw [heq] at hwalk
      obtain ⟨hflags, hold⟩ := hpages.pages u hu virt' frame flags hlow hwalk
      obtain ⟨pt, hpt, -⟩ := walk_eq_some.mp hwalk
      exact ⟨hflags, hupper.1 u huroot virt' (by rw [hpt]; rfl) hold⟩
    · obtain rfl : u = pml4 := hvia.resolve_right fun hk => hlow ((kernelHalf_congr hpage).mpr hk)
      have hm : (phys, pteUserData) = (frame, flags) := Option.some.inj (heq.symm.trans hwalk)
      refine ⟨(Prod.mk.inj hm).2.symm, ?_⟩
      rw [walk_congr _ _ hpage] at heq
      have hnew := hupper.2 _ heq
      rw [UpperUser, (pageNumber_eq_iff.mp hpage).1]
      exact hnew

/-- A new address space has no pages, and shares the links of the kernel. -/
theorem UserPages.createAddressSpace (hpages : UserPages spaces s) (h : Consistent spaces role s)
    {c : Nat} (hcreate : vmVirtualMemoryCreateAddressSpace s = (c, s')) (hne : c ≠ 0) :
    UserPages (c :: spaces) s' := by
  rcases createAddressSpace_cases h.wellFormed.ofRoots h.isInitialized with
    ⟨-, heq⟩ | ⟨c', s₁, heq, -, hadd⟩
  · rw [heq] at hcreate
    exact absurd (congrArg Prod.fst hcreate).symm hne
  obtain ⟨rfl, rfl⟩ := Prod.mk.inj (heq.symm.trans hcreate)
  have hwf := h.wellFormed.ofRoots
  constructor
  · have hroots := LinksWritable.rootsWritable
      ((hpages.links.links h.wellFormed).addsRoot hwf hadd) hadd.wellFormed
    rw [hadd.kernelPML4_eq]
    intro r hr
    apply hroots r
    simp only [List.mem_cons] at hr ⊢
    tauto
  · intro u hu virt frame flags hlow hwalk
    rcases List.mem_cons.mp hu with rfl | hu
    · rw [hadd.walk_new hlow] at hwalk
      cases hwalk
    · have hroot : u ∈ s.kernelPML4 :: spaces := List.mem_cons_of_mem _ hu
      rw [hadd.walk_old hwf hroot] at hwalk
      obtain ⟨hflags, hupper⟩ := hpages.pages u hu virt frame flags hlow hwalk
      refine ⟨hflags, ?_⟩
      apply (allAlong_congr hwf.stratified ?_ (hwf.root_at hroot) (by simp [upperPath_length])).mpr hupper
      rintro n t i ⟨r, p, ht, -⟩
      apply hadd.entry_eq (hwf.table_frame ht).1
      rintro rfl
      rw [hadd.fresh] at ht
      exact nomatch ht

end Keep

/-! ## Section 3: After boot -/

/-- The pages of the kernel heap. -/
theorem rootsWritable_mapHeapPages {count : Nat} :
    ∀ {heap frames : List Nat} {s s' : VMState} {i : Nat}, (∃ role, KernelReady role heap s) →
      RootsWritable [s.kernelPML4] s → mapHeapPages s i count = some (frames, s') →
      RootsWritable [s'.kernelPML4] s' := by
  induction count with
  | zero =>
    intro heap frames s s' i _ hw hrun
    obtain ⟨-, rfl⟩ := Prod.mk.inj (Option.some.inj hrun)
    exact hw
  | succ count ih =>
    rintro heap frames s s' i ⟨role, hready⟩ hw hrun
    rw [mapHeapPages] at hrun
    rcases hready.consistent.allocatePage (x := .reserved) (by simp) with
      ⟨-, heq⟩ | ⟨a, s₁, heq, hne, hframe, -, -, -, hmem, hconsistent⟩
    · rw [heq] at hrun
      cases hrun
    · obtain ⟨role', hnext, -⟩ : ∃ role', KernelReady role' (a :: heap)
          (vmVirtualMemoryMapPage s₁ s₁.kernelPML4 a (kVMKernelHeapStart + i * kVMPageSize)
            pteKernelData).2 ∧ _ := hready.turn heq hne
      rw [heq] at hrun
      simp only [if_neg hne] at hrun
      obtain ⟨⟨frames', s''⟩, hrest, hpair⟩ := Option.map_eq_some_iff.mp hrun
      obtain ⟨-, rfl⟩ := Prod.mk.inj hpair
      apply ih ⟨role', hnext⟩ ?_ hrest
      have hallocated : s₁.kernelPML4 = s.kernelPML4 := by
        have hkeeps := keeps_allocatePage s
        rw [heq] at hkeeps
        exact hkeeps.kernelPML4_eq
      rw [(keeps_mapPage s₁ _ _ _ _).kernelPML4_eq]
      apply RootsWritable.mapPage ?_ hconsistent.wellFormed List.mem_cons_self hframe (by decide)
        (by decide)
      rw [hallocated]
      exact hw.of_mem_eq hmem

/-- There is no process yet, and the links of the kernel are writable. -/
theorem userPages_bootHeap {m : Machine} (hm : m.Accepted) {heap : List Nat}
    (hboot : m.bootHeap = some (heap, s)) : UserPages [] s := by
  obtain ⟨s₀, f, hs₀, hf, hheap⟩ := bootHeap_eq_some hboot
  obtain ⟨role, hready, -⟩ := boot_ready hm hs₀ hf
  obtain ⟨σ, hσ, rfl⟩ : ∃ σ, VMRun.boot m = some σ ∧ σ.vm = s₀ := by
    obtain ⟨pmm, hpmm, rfl⟩ := Option.map_eq_some_iff.mp hs₀
    exact ⟨_, by rw [VMRun.boot, hpmm, Option.map_some], rfl⟩
  obtain ⟨role', hwf, hw, -, hspaces, -⟩ :=
    boot_pages hm (Machine.findsFrames_of_free hm hs₀ hf) hσ
  rw [VMRun.roots, hspaces] at hwf
  exact {
    links := rootsWritable_mapHeapPages ⟨role, hready⟩ (hw.rootsWritable hwf) hheap
    pages := fun u hu => absurd hu (by simp) }

end TermOS.VM
