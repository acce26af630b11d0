import TermOS.VM.AddressSpace

/-!
# Page tables refine a map for each address space

A `VMRun` is the state together with what the calls made so far say about it:
for each address space the last successful map of each page, and the PML4 slots
that it took over from the kernel. The refinement says that the hardware walk
computes exactly this map.
-/

namespace TermOS.VM

open TermOS.Lib TermOS.Kernel TermOS.Lib.TableForest VMState

/-! ## Section 1: Virtual pages -/

/-- The number of the virtual page of `virt`, its address bits 12 to 47. -/
def pageNumber (virt : Nat) : Nat := virt / 2 ^ 12 % 2 ^ 36

theorem pageNumber_eq_iff {virt virt' : Nat} :
    pageNumber virt = pageNumber virt' ↔
      upperPath virt = upperPath virt' ∧ ptSlot virt = ptSlot virt' := by
  simp only [upperPath, List.cons.injEq, and_true, pml4Slot, pdptSlot, pdSlot, ptSlot, Fin.mk.injEq,
    vmmPML4Index_eq, vmmPDPTIndex_eq, vmmPDIndex_eq, vmmPTIndex_eq, pageNumber]
  omega

theorem kernelHalf_congr {virt virt' : Nat} (h : pageNumber virt = pageNumber virt') :
    KernelHalf virt ↔ KernelHalf virt' := by
  have hpath := (pageNumber_eq_iff.mp h).1
  simp only [upperPath, List.cons.injEq] at hpath
  rw [KernelHalf, KernelHalf, hpath.1]

/-- A walk sees the page of an address only. -/
theorem walk_congr (s : VMState) (root : Nat) {virt virt' : Nat}
    (h : pageNumber virt = pageNumber virt') : s.walk root virt = s.walk root virt' := by
  obtain ⟨hupper, hslot⟩ := pageNumber_eq_iff.mp h
  simp only [VMState.walk, VMState.leafTable, hupper, hslot]

/-! ## Section 2: Runs of calls -/

/-- A call into `VMM.c` or `PMM.c`. -/
inductive VMCall where
  | createAddressSpace
  | mapPage (pml4 phys virt flags : Nat)
  | unmapPage (pml4 virt : Nat)
  | allocatePage
  deriving DecidableEq, Repr

/-- The state, the address spaces created so far, and for each address space
(by the address of its PML4) its pages and the slots it shares with the kernel. -/
structure VMRun where
  vm : VMState
  spaces : List Nat
  mapped : Nat → Nat → Option (Nat × Nat)
  linked : Nat → Fin 512 → Bool

namespace VMRun

/-- The PML4s in use. -/
def roots (σ : VMRun) : List Nat := σ.vm.kernelPML4 :: σ.spaces

/-- The map of one page of one address space is replaced. -/
def setMapped (σ : VMRun) (pml4 page : Nat) (m : Option (Nat × Nat)) : VMRun :=
  { σ with mapped := Function.update σ.mapped pml4 (Function.update (σ.mapped pml4) page m) }

/-- The address space whose tables hold the page: a kernel-half page that
`pml4` shares with the kernel is one of the kernel's. -/
def owner (σ : VMRun) (pml4 virt : Nat) : Option Nat :=
  if pml4 = σ.vm.kernelPML4 ∨ ¬ KernelHalf virt then some pml4
  else if σ.linked pml4 (pml4Slot virt) then some σ.vm.kernelPML4
  else none

/-- What the calls so far say that the walk of `virt` from `pml4` yields. -/
def lookup (σ : VMRun) (pml4 virt : Nat) : Option (Nat × Nat) :=
  (σ.owner pml4 virt).bind fun r => σ.mapped r (pageNumber virt)

/-- One call: the code runs on the state, and the map records its outcome. -/
def step (σ : VMRun) : VMCall → VMRun
  | .createAddressSpace =>
    let (pml4, vm) := vmVirtualMemoryCreateAddressSpace σ.vm
    if pml4 = 0 then { σ with vm }
    else
      { vm
        spaces := pml4 :: σ.spaces
        mapped := Function.update σ.mapped pml4 fun _ => none
        linked := Function.update σ.linked pml4 fun i =>
          (childTable (σ.vm.entry σ.vm.kernelPML4 i)).isSome }
  | .mapPage pml4 phys virt flags =>
    match vmVirtualMemoryMapPage σ.vm pml4 phys virt flags with
    | (none, vm) => { σ with vm }
    | (some _, vm) => { σ with vm }.setMapped pml4 (pageNumber virt) (some (phys, flags))
  | .unmapPage pml4 virt =>
    let σ' := { σ with vm := vmVirtualMemoryUnmapPage σ.vm pml4 virt }
    match σ.owner pml4 virt with
    | none => σ'
    | some r => σ'.setMapped r (pageNumber virt) none
  | .allocatePage => { σ with vm := σ.vm.allocatePage.2 }

/-- The calls that the kernel makes: frame addresses and flag words, address
spaces that exist, user spaces mapped below slot 256 only, and no USER page in
the kernel half. -/
def Permitted (σ : VMRun) : VMCall → Prop
  | .createAddressSpace => True
  | .mapPage pml4 phys virt flags =>
    pml4 ∈ σ.roots ∧ IsFrameAddress phys ∧ IsFlagWord flags ∧ flags &&& ptePresent ≠ 0 ∧
      (KernelHalf virt → pml4 = σ.vm.kernelPML4 ∧ ¬ UserEntry flags)
  | .unmapPage pml4 _ => pml4 ∈ σ.roots
  | .allocatePage => True

end VMRun

/-! ## Section 3: The refinement invariant -/

/-- The walks that do not go through links shared with the kernel. -/
def OwnWalk (s : VMState) (root virt : Nat) : Prop := root = s.kernelPML4 ∨ ¬ KernelHalf virt

/-- The page tables represent the maps of the run. -/
structure VMRun.Refines (σ : VMRun) (role : Roles) : Prop where
  wellFormed : WellFormed σ.roots role σ.vm
  kernel_notUser : σ.vm.kernelPML4 ∉ σ.spaces
  walk_eq : ∀ {r virt}, r ∈ σ.roots → OwnWalk σ.vm r virt →
    σ.vm.walk r virt = σ.mapped r (pageNumber virt)
  user_upper : ∀ {r virt m}, r ∈ σ.roots → OwnWalk σ.vm r virt → σ.vm.walk r virt = some m →
    UserEntry m.2 → σ.vm.UpperUser r virt
  kernel_noUser : ∀ {virt m}, KernelHalf virt → σ.vm.walk σ.vm.kernelPML4 virt = some m →
    ¬ UserEntry m.2
  shared : ∀ {u i}, u ∈ σ.spaces → 256 ≤ i.val → childTable (σ.vm.entry u i) =
    if σ.linked u i then childTable (σ.vm.entry σ.vm.kernelPML4 i) else none
  linked_some : ∀ {u i}, u ∈ σ.spaces → σ.linked u i = true →
    (childTable (σ.vm.entry σ.vm.kernelPML4 i)).isSome

variable {σ : VMRun} {roots : List Nat} {role role' : Roles} {s s' : VMState}

/-- An own walk ends in a table of its own address space. -/
theorem leafTable_own (h : WellFormed roots role s) {r virt pt : Nat} (hr : r ∈ roots)
    (hown : OwnWalk s r virt) (hpt : s.leafTable r virt = some pt) :
    role pt = some (.table r (upperPath virt)) := by
  obtain ⟨r', hrole, hvia⟩ := h.leafTable_role hr hpt
  rcases hvia with rfl | ⟨rfl, hhalf⟩
  · exact hrole
  · rcases hown with rfl | hlow
    · exact hrole
    · exact absurd hhalf hlow

/-- Two own walks end in the same slot only for the same page of the same
address space. -/
theorem ownWalk_slot_iff (h : WellFormed roots role s) {r r' virt virt' pt : Nat} (hr : r ∈ roots)
    (hown : OwnWalk s r virt) (hr' : r' ∈ roots) (hown' : OwnWalk s r' virt')
    (hpt : s.leafTable r virt = some pt) :
    (s.leafTable r' virt' = some pt ∧ ptSlot virt' = ptSlot virt) ↔
      r' = r ∧ pageNumber virt' = pageNumber virt := by
  have hrole := leafTable_own h hr hown hpt
  constructor
  · rintro ⟨hpt', hslot⟩
    obtain ⟨rfl, hpath⟩ := table_role_inj (leafTable_own h hr' hown' hpt') hrole
    exact ⟨rfl, pageNumber_eq_iff.mpr ⟨hpath, hslot⟩⟩
  · rintro ⟨rfl, hpage⟩
    obtain ⟨hpath, hslot⟩ := pageNumber_eq_iff.mp hpage
    exact ⟨by rwa [VMState.leafTable, hpath], hslot⟩

namespace VMRun.Refines

theorem roots_eq {vm : VMState} (hkernel : vm.kernelPML4 = σ.vm.kernelPML4) :
    ({ σ with vm } : VMRun).roots = σ.roots := by
  simp only [VMRun.roots, hkernel]

theorem ownWalk_iff {vm : VMState} (hkernel : vm.kernelPML4 = σ.vm.kernelPML4) {r virt : Nat} :
    OwnWalk vm r virt ↔ OwnWalk σ.vm r virt := by
  rw [OwnWalk, OwnWalk, hkernel]

/-- Growth of the forest keeps the refinement, with the same maps. The links
shared with the kernel are not touched: a walk from a user PML4 adds links in
the lower half only. -/
theorem grows (h : σ.Refines role) {root virt : Nat} {vm : VMState}
    (hhalf : KernelHalf virt → root = σ.vm.kernelPML4)
    (hg : Grows σ.roots (LinksAlong root (upperPath virt)) role σ.vm role' vm) :
    ({ σ with vm } : VMRun).Refines role' := by
  have hkernel := hg.kernelPML4_eq
  have hkroot : σ.vm.kernelPML4 ∈ σ.roots := List.mem_cons_self
  have hslot : ∀ {r i c}, r ∈ σ.roots → childTable (σ.vm.entry r i) = some c →
      childTable (vm.entry r i) = some c := by
    intro r i c hr hc
    have hpath : follow childTable σ.vm.entry r [i] = some c :=
      follow_cons_eq_some.mpr ⟨c, hc, rfl⟩
    obtain ⟨c', hc', hcc⟩ := follow_cons_eq_some.mp (hg.follow_keep hr (by simp) hpath)
    rwa [← Option.some.inj hcc]
  refine {
    wellFormed := by
      rw [roots_eq hkernel]
      exact hg.wellFormed
    kernel_notUser := by
      show vm.kernelPML4 ∉ σ.spaces
      rw [hkernel]
      exact h.kernel_notUser
    walk_eq := ?_
    user_upper := ?_
    kernel_noUser := ?_
    shared := ?_
    linked_some := ?_ }
  · intro r virt' hr hown
    rw [roots_eq hkernel] at hr
    exact (hg.walk_eq hr virt').trans (h.walk_eq hr ((ownWalk_iff hkernel).mp hown))
  · intro r virt' m hr hown hm huser
    rw [roots_eq hkernel] at hr
    have hm' : σ.vm.walk r virt' = some m := (hg.walk_eq hr virt').symm.trans hm
    obtain ⟨pt, hpt, -⟩ := walk_eq_some.mp hm'
    exact hg.along_keep hr (by simp [upperPath_length]) hpt
      (h.user_upper hr ((ownWalk_iff hkernel).mp hown) hm' huser)
  · intro virt' m hhalf' hm
    simp only [hkernel, hg.walk_eq hkroot] at hm
    exact h.kernel_noUser hhalf' hm
  · intro u i hu hi
    have huroot : u ∈ σ.roots := List.mem_cons_of_mem _ hu
    simp only [hkernel]
    have hshared := h.shared hu hi
    split at hshared
    · next hlinked =>
      obtain ⟨c, hc⟩ := Option.isSome_iff_exists.mp (h.linked_some hu hlinked)
      rw [if_pos hlinked, hslot hkroot hc, hslot huroot (hshared.trans hc)]
    · next hlinked =>
      rw [if_neg hlinked, Option.eq_none_iff_forall_ne_some]
      intro c hc
      have hrole := hg.wellFormed.root_role huroot
      rcases hg.link_old hrole (by simp) hc with ⟨-, hold⟩ | ⟨⟨hpre, hroot⟩, -⟩
      · rw [hshared] at hold
        exact absurd hold (by simp)
      · -- the new link hangs off the PML4 of the walk, below slot 256
        obtain rfl := hroot rfl
        have hi' : i = pml4Slot virt := by
          simpa [upperPath, List.prefix_cons_iff] using hpre
        have hku := hhalf (by rw [KernelHalf, ← hi']; exact hi)
        exact h.kernel_notUser (hku ▸ hu)
  · intro u i hu hlinked
    obtain ⟨c, hc⟩ := Option.isSome_iff_exists.mp (h.linked_some hu hlinked)
    simp only [hkernel, hslot hkroot hc, Option.isSome_some]

/-- A write into the leaf entry of an own walk changes one page of one map. -/
theorem setLeaf (h : σ.Refines role) {r virt pt v : Nat} (hr : r ∈ σ.roots)
    (hown : OwnWalk σ.vm r virt) (hpt : σ.vm.leafTable r virt = some pt) (hv : v < 2 ^ 64)
    (huser : ∀ m, decode v = some m → UserEntry m.2 →
      σ.vm.UpperUser r virt ∧ ¬ KernelHalf virt) :
    (({ σ with vm := σ.vm.setEntry pt (ptSlot virt) v } : VMRun).setMapped r (pageNumber virt)
      (decode v)).Refines role := by
  have hwf := h.wellFormed
  have hrole := leafTable_own hwf hr hown hpt
  have hkroot : σ.vm.kernelPML4 ∈ σ.roots := List.mem_cons_self
  -- An own walk reads the entry only if it is the walk of `r` to this page.
  have hwalk : ∀ {r' virt'}, r' ∈ σ.roots → OwnWalk σ.vm r' virt' →
      (σ.vm.setEntry pt (ptSlot virt) v).walk r' virt' =
        if r' = r ∧ pageNumber virt' = pageNumber virt then decode v else σ.vm.walk r' virt' := by
    intro r' virt' hr' hown'
    rw [walk_setLeaf hwf hrole hv hr']
    exact if_congr (ownWalk_slot_iff hwf hr hown hr' hown' hpt) rfl rfl
  -- No PML4 is written, so what is linked stays linked.
  have hentry : ∀ {r' i}, r' ∈ σ.roots →
      (σ.vm.setEntry pt (ptSlot virt) v).entry r' i = σ.vm.entry r' i := fun hr' =>
    entry_setLeaf hwf hrole hv (hwf.root_role hr') (by simp) _
  refine {
    wellFormed := hwf.setLeaf hrole hv
    kernel_notUser := h.kernel_notUser
    walk_eq := ?_
    user_upper := ?_
    kernel_noUser := ?_
    shared := ?_
    linked_some := ?_ }
  · intro r' virt' hr' hown'
    show (σ.vm.setEntry pt (ptSlot virt) v).walk r' virt' = _
    rw [hwalk hr' hown']
    show _ = Function.update σ.mapped r _ r' (pageNumber virt')
    by_cases hrr : r' = r
    · subst hrr
      rw [Function.update_self]
      by_cases hpage : pageNumber virt' = pageNumber virt
      · rw [if_pos ⟨rfl, hpage⟩, hpage, Function.update_self]
      · rw [if_neg (fun e => hpage e.2), Function.update_of_ne hpage, h.walk_eq hr' hown']
    · rw [if_neg (fun e => hrr e.1), Function.update_of_ne hrr, h.walk_eq hr' hown']
  · intro r' virt' m hr' hown' hm hflags
    refine (upperUser_setLeaf hwf hrole hv hr' virt').mpr ?_
    change (σ.vm.setEntry pt (ptSlot virt) v).walk r' virt' = some m at hm
    rw [hwalk hr' hown'] at hm
    split at hm
    -- The page of the write: what user access needs above it is given.
    · next heq =>
      obtain ⟨rfl, hpage⟩ := heq
      rw [VMState.UpperUser, (pageNumber_eq_iff.mp hpage).1]
      exact (huser m hm hflags).1
    · exact h.user_upper hr' hown' hm hflags
  · intro virt' m hhalf hm hflags
    change (σ.vm.setEntry pt (ptSlot virt) v).walk σ.vm.kernelPML4 virt' = some m at hm
    rw [hwalk hkroot (.inl rfl)] at hm
    split at hm
    · next heq => exact (huser m hm hflags).2 ((kernelHalf_congr heq.2).mp hhalf)
    · exact h.kernel_noUser hhalf hm hflags
  · intro u i hu hi
    change childTable ((σ.vm.setEntry pt (ptSlot virt) v).entry u i) =
      if σ.linked u i = true then childTable ((σ.vm.setEntry pt (ptSlot virt) v).entry
        σ.vm.kernelPML4 i) else none
    rw [hentry (List.mem_cons_of_mem _ hu), hentry hkroot]
    exact h.shared hu hi
  · intro u i hu hlinked
    change (childTable ((σ.vm.setEntry pt (ptSlot virt) v).entry σ.vm.kernelPML4 i)).isSome
    rw [hentry hkroot]
    exact h.linked_some hu hlinked

/-- `VMVirtualMemoryMapPage`, with the outcome that it reports. -/
theorem mapPage (h : σ.Refines role) {pml4 phys virt flags : Nat}
    (hcall : σ.Permitted (.mapPage pml4 phys virt flags)) :
    ∃ role', (σ.step (.mapPage pml4 phys virt flags)).Refines role' ∧ Roles.Extends role role' := by
  obtain ⟨hroot, hphys, hflags, hpresent, hhalf⟩ := hcall
  rcases mapPage_cases h.wellFormed hroot phys virt flags with
    ⟨-, role', vm, heq, -, -, hg⟩ | ⟨pt, role', vm, heq, -, hg, hpt, huser⟩
  · refine ⟨role', ?_, fun _ _ => hg.role_keep⟩
    rw [VMRun.step, heq]
    exact h.grows (fun hk => (hhalf hk).1) hg
  · refine ⟨role', ?_, fun _ _ => hg.role_keep⟩
    have h' := h.grows (fun hk => (hhalf hk).1) hg
    have hown : OwnWalk vm pml4 virt := by
      by_cases hk : KernelHalf virt
      · exact .inl ((hhalf hk).1.trans hg.kernelPML4_eq.symm)
      · exact .inr hk
    have hv : phys ||| flags < 2 ^ 64 := or_lt_word (lt_trans hphys.2 (by decide)) hflags.1
    have hdecode := decode_or hphys hflags hpresent
    have hset := h'.setLeaf (r := pml4) (v := phys ||| flags) (by rwa [roots_eq hg.kernelPML4_eq])
      hown hpt hv (by
        intro m hm hflag
        rw [hdecode] at hm
        obtain rfl := Option.some.inj hm
        exact ⟨huser hflag, fun hk => (hhalf hk).2 hflag⟩)
    rw [hdecode] at hset
    rw [VMRun.step, heq]
    exact hset

/-- What a walk from a user PML4 sees in the kernel half. -/
theorem leafTable_shared (h : σ.Refines role) {u virt : Nat} (hu : u ∈ σ.spaces)
    (hhalf : KernelHalf virt) :
    σ.vm.leafTable u virt =
      if σ.linked u (pml4Slot virt) then σ.vm.leafTable σ.vm.kernelPML4 virt else none := by
  rw [VMState.leafTable, VMState.leafTable, upperPath, follow_cons, follow_cons,
    h.shared hu hhalf]
  split <;> rfl

/-- Every walk ends where the walk from the owner of the page does. -/
theorem leafTable_owner (h : σ.Refines role) {r virt : Nat} (hr : r ∈ σ.roots) :
    σ.vm.leafTable r virt = (σ.owner r virt).bind fun r' => σ.vm.leafTable r' virt := by
  by_cases hown : r = σ.vm.kernelPML4 ∨ ¬ KernelHalf virt
  · rw [VMRun.owner, if_pos hown, Option.bind_some]
  · obtain ⟨hne, hhalf⟩ := not_or.mp hown
    have hu : r ∈ σ.spaces := (List.mem_cons.mp hr).resolve_left hne
    rw [VMRun.owner, if_neg hown, h.leafTable_shared hu (not_not.mp hhalf)]
    split <;> rfl

theorem owner_mem {r r' virt : Nat} (hr : r ∈ σ.roots) (howner : σ.owner r virt = some r') :
    r' ∈ σ.roots ∧ OwnWalk σ.vm r' virt := by
  rw [VMRun.owner] at howner
  split at howner
  · next hown =>
    obtain rfl := Option.some.inj howner
    exact ⟨hr, hown⟩
  · split at howner
    · obtain rfl := Option.some.inj howner
      exact ⟨List.mem_cons_self, .inl rfl⟩
    · exact absurd howner (by simp)

/-- Recording that an unmapped page is unmapped changes nothing. -/
theorem setMapped_none (h : σ.Refines role) {r virt : Nat} (hr : r ∈ σ.roots)
    (hown : OwnWalk σ.vm r virt) (hnone : σ.vm.walk r virt = none) :
    (σ.setMapped r (pageNumber virt) none).Refines role := by
  have hsame : σ.mapped r (pageNumber virt) = none := (h.walk_eq hr hown).symm.trans hnone
  have hid : σ.setMapped r (pageNumber virt) none = σ := by
    rw [VMRun.setMapped, ← hsame, Function.update_eq_self, Function.update_eq_self]
  rwa [hid]

/-- `VMVirtualMemoryUnmapPage`. -/
theorem unmapPage (h : σ.Refines role) {pml4 virt : Nat}
    (hroot : pml4 ∈ σ.roots) : (σ.step (.unmapPage pml4 virt)).Refines role := by
  rw [VMRun.step, unmapPage_eq h.wellFormed hroot]
  rw [h.leafTable_owner hroot]
  cases howner : σ.owner pml4 virt with
  | none => exact h
  | some r =>
    obtain ⟨hr, hown⟩ := owner_mem hroot howner
    rw [Option.bind_some]
    cases hpt : σ.vm.leafTable r virt with
    | none =>
      refine h.setMapped_none hr hown ?_
      rw [VMState.walk, hpt, Option.bind_none]
    | some pt =>
      exact h.setLeaf (v := 0) hr hown hpt (by decide) (by simp)

/-- The page tables are all that matters: allocations and globals that no walk
reads keep the refinement. -/
theorem of_mem_eq (h : σ.Refines role) {vm : VMState} (hmem : vm.mem = σ.vm.mem)
    (hkernel : vm.kernelPML4 = σ.vm.kernelPML4)
    (hfree : ∀ f, vm.pmm.FrameFree f → σ.vm.pmm.FrameFree f) :
    ({ σ with vm } : VMRun).Refines role := by
  -- All four notions read tables only.
  have hentry : vm.entry = σ.vm.entry := by
    funext t i
    exact entry_congr hmem t i
  have hleaf : vm.leafTable = σ.vm.leafTable := by
    funext r virt
    rw [VMState.leafTable, VMState.leafTable, hentry]
  have hwalk : vm.walk = σ.vm.walk := by
    funext r virt
    rw [VMState.walk, VMState.walk, hleaf, hentry]
  have hupper : vm.UpperUser = σ.vm.UpperUser := by
    funext r virt
    rw [VMState.UpperUser, VMState.UpperUser, hentry]
  exact {
    wellFormed := by
      rw [roots_eq hkernel]
      exact h.wellFormed.of_allocated hmem hkernel hfree
    kernel_notUser := by
      show vm.kernelPML4 ∉ σ.spaces
      rw [hkernel]
      exact h.kernel_notUser
    walk_eq := by
      intro r virt hr hown
      rw [roots_eq hkernel] at hr
      rw [hwalk]
      exact h.walk_eq hr ((ownWalk_iff hkernel).mp hown)
    user_upper := by
      intro r virt m hr hown hm
      rw [roots_eq hkernel] at hr
      rw [hupper]
      rw [hwalk] at hm
      exact h.user_upper hr ((ownWalk_iff hkernel).mp hown) hm
    kernel_noUser := by
      intro virt m hhalf hm
      rw [hwalk, hkernel] at hm
      exact h.kernel_noUser hhalf hm
    shared := by
      intro u i hu hi
      simp only [hentry, hkernel]
      exact h.shared hu hi
    linked_some := by
      intro u i hu hlinked
      simp only [hentry, hkernel]
      exact h.linked_some hu hlinked }

/-- `VMPhysicalMemoryAllocatePage` by somebody else. -/
theorem allocatePage (h : σ.Refines role) : (σ.step .allocatePage).Refines role := by
  rcases allocatePage_state_cases σ.vm with ⟨-, heq⟩ |
    ⟨f, vm, -, heq, hmem, hkernel, -, -, -, hfree⟩
  · rw [VMRun.step, heq]
    exact h
  · rw [VMRun.step, heq]
    exact h.of_mem_eq hmem hkernel fun g hg => ((hfree g).mp hg).1

/-- `VMVirtualMemoryCreateAddressSpace`, with the address that it returns. -/
theorem createAddressSpace (h : σ.Refines role) (hinit : σ.vm.isInitialized = true) :
    ∃ role', (σ.step .createAddressSpace).Refines role' ∧ Roles.Extends role role' := by
  have hwf := h.wellFormed
  -- Without a free frame nothing happens.
  rcases createAddressSpace_cases hwf hinit with ⟨-, heq⟩ | ⟨c, vm, heq, hc0, hadd⟩
  · refine ⟨role, ?_, fun _ _ => id⟩
    rw [VMRun.step, heq]
    exact h
  refine ⟨Function.update role c (some (.table c [])), ?_, .update_of_none hadd.fresh _⟩
  rw [VMRun.step, heq]
  simp only [if_neg hc0]
  have hkernel := hadd.kernelPML4_eq
  have hkroot : σ.vm.kernelPML4 ∈ σ.roots := List.mem_cons_self
  have hcnot : c ∉ σ.roots := hadd.not_mem hwf
  -- A root is the new PML4 or one of the old ones.
  have hroots : ∀ {r}, r ∈ vm.kernelPML4 :: c :: σ.spaces → r = c ∨ (r ≠ c ∧ r ∈ σ.roots) := by
    intro r hr
    rw [hkernel] at hr
    by_cases hrc : r = c
    · exact .inl hrc
    · refine .inr ⟨hrc, ?_⟩
      simp only [List.mem_cons, hrc, false_or] at hr
      exact List.mem_cons.mpr hr
  have hold : ∀ {r i}, r ∈ σ.roots → vm.entry r i = σ.vm.entry r i := fun hr =>
    hadd.entry_of_role hwf (hwf.root_role hr) _
  have hspace : ∀ {u}, u ∈ σ.spaces → u ≠ c ∧ u ∈ σ.roots := by
    intro u hu
    have huroot : u ∈ σ.roots := List.mem_cons_of_mem _ hu
    exact ⟨fun e => hcnot (e ▸ huroot), huroot⟩
  -- The new space owns its low half only; the upper one is the kernel's.
  have hlow : ∀ {virt}, OwnWalk vm c virt → ¬ KernelHalf virt := by
    rintro virt (hck | hv)
    · rw [hkernel] at hck
      exact absurd hkroot (hck ▸ hcnot)
    · exact hv
  exact {
    wellFormed := by
      refine hadd.wellFormed.of_perm ?_
      show (c :: σ.roots).Perm (vm.kernelPML4 :: c :: σ.spaces)
      rw [hkernel]
      exact List.Perm.swap _ _ _
    kernel_notUser := by
      show vm.kernelPML4 ∉ c :: σ.spaces
      rw [hkernel, List.mem_cons, not_or]
      exact ⟨fun e => hcnot (e ▸ hkroot), h.kernel_notUser⟩
    walk_eq := by
      intro r virt hr hown
      show vm.walk r virt = Function.update σ.mapped c _ r (pageNumber virt)
      rcases hroots hr with rfl | ⟨hrc, hr'⟩
      · rw [Function.update_self, hadd.walk_new (hlow hown)]
      · rw [Function.update_of_ne hrc, hadd.walk_old hwf hr']
        exact h.walk_eq hr' ((ownWalk_iff hkernel).mp hown)
    user_upper := by
      intro r virt m hr hown hm huser
      change vm.walk r virt = some m at hm
      rcases hroots hr with rfl | ⟨hrc, hr'⟩
      · rw [hadd.walk_new (hlow hown)] at hm
        exact absurd hm (by simp)
      · rw [hadd.walk_old hwf hr'] at hm
        exact (hadd.upperUser_old hwf hr' virt).mpr
          (h.user_upper hr' ((ownWalk_iff hkernel).mp hown) hm huser)
    kernel_noUser := by
      intro virt m hhalf hm
      change vm.walk vm.kernelPML4 virt = some m at hm
      rw [hkernel, hadd.walk_old hwf hkroot] at hm
      exact h.kernel_noUser hhalf hm
    shared := by
      intro u i hu hi
      show childTable (vm.entry u i) = if Function.update σ.linked c _ u i = true then
        childTable (vm.entry vm.kernelPML4 i) else none
      rw [hkernel, hold hkroot]
      -- The new PML4 has copied the kernel's links; the others keep what they have.
      rcases List.mem_cons.mp hu with rfl | hu'
      · rw [hadd.childTable_new, if_neg (by omega), Function.update_self]
        cases childTable (σ.vm.entry σ.vm.kernelPML4 i) <;> rfl
      · obtain ⟨huc, huroot⟩ := hspace hu'
        rw [Function.update_of_ne huc, hold huroot]
        exact h.shared hu' hi
    linked_some := by
      intro u i hu hlinked
      show (childTable (vm.entry vm.kernelPML4 i)).isSome = true
      change Function.update σ.linked c _ u i = true at hlinked
      rw [hkernel, hold hkroot]
      rcases List.mem_cons.mp hu with rfl | hu'
      · rwa [Function.update_self] at hlinked
      · rw [Function.update_of_ne (hspace hu').1] at hlinked
        exact h.linked_some hu' hlinked }

/-- One permitted call keeps the refinement. -/
theorem step (h : σ.Refines role) (hinit : σ.vm.isInitialized = true) {call : VMCall}
    (hcall : σ.Permitted call) :
    ∃ role', (σ.step call).Refines role' ∧ Roles.Extends role role' := by
  cases call with
  | createAddressSpace => exact h.createAddressSpace hinit
  | mapPage pml4 phys virt flags => exact h.mapPage hcall
  | unmapPage pml4 virt => exact ⟨role, h.unmapPage hcall, fun _ _ => id⟩
  | allocatePage => exact ⟨role, h.allocatePage, fun _ _ => id⟩

/-- The walk yields what the calls so far say. -/
theorem walk_eq_lookup (h : σ.Refines role) {r virt : Nat} (hr : r ∈ σ.roots) :
    σ.vm.walk r virt = σ.lookup r virt := by
  rw [VMRun.lookup, VMState.walk, h.leafTable_owner hr]
  cases howner : σ.owner r virt with
  | none => rfl
  | some r' =>
    obtain ⟨hr', hown⟩ := owner_mem hr howner
    rw [Option.bind_some, Option.bind_some, ← h.walk_eq hr' hown, VMState.walk]

/-- A page is accessible from ring 3 exactly when it was mapped so. -/
theorem userAccessible_iff (h : σ.Refines role) {r virt : Nat} (hr : r ∈ σ.roots) :
    σ.vm.UserAccessible r virt ↔ ∃ m, σ.lookup r virt = some m ∧ UserEntry m.2 := by
  constructor
  · rintro ⟨-, frame, flags, hwalk, huser⟩
    exact ⟨(frame, flags), (h.walk_eq_lookup hr).symm.trans hwalk, huser⟩
  · rintro ⟨⟨frame, flags⟩, hlookup, huser⟩
    have hwalk : σ.vm.walk r virt = some (frame, flags) := (h.walk_eq_lookup hr).trans hlookup
    refine ⟨?_, frame, flags, hwalk, huser⟩
    by_cases hown : r = σ.vm.kernelPML4 ∨ ¬ KernelHalf virt
    · exact h.user_upper hr hown hwalk huser
    · -- a shared page is one of the kernel's, which are not accessible
      obtain ⟨hne, hhalf⟩ := not_or.mp hown
      rw [VMRun.lookup, VMRun.owner, if_neg hown] at hlookup
      split at hlookup
      · rw [Option.bind_some, ← h.walk_eq List.mem_cons_self (.inl rfl)] at hlookup
        exact absurd huser (h.kernel_noUser (not_not.mp hhalf) hlookup)
      · exact absurd hlookup (by simp)

end VMRun.Refines

/-! ## Section 4: What a single call leaves alone -/

namespace VMCall

/-- The address space that the call works on. -/
def target : VMCall → Option Nat
  | .mapPage pml4 _ _ _ => some pml4
  | .unmapPage pml4 _ => some pml4
  | _ => none

end VMCall

/-- The call reports that it found no frame. -/
def VMRun.Fails (σ : VMRun) : VMCall → Prop
  | .createAddressSpace => (vmVirtualMemoryCreateAddressSpace σ.vm).1 = 0
  | .mapPage pml4 phys virt flags => (vmVirtualMemoryMapPage σ.vm pml4 phys virt flags).1 = none
  | .unmapPage _ _ => False
  | .allocatePage => σ.vm.allocatePage.1 = 0

theorem VMState.walk_of_mem_eq {s s' : VMState} (hmem : s'.mem = s.mem) (root virt : Nat) :
    s'.walk root virt = s.walk root virt := by
  have hentry : s'.entry = s.entry := by
    funext t i
    exact entry_congr hmem t i
  rw [VMState.walk, VMState.walk, VMState.leafTable, VMState.leafTable, hentry]

namespace VMRun.Refines

/-- A call that fails changes no walk of any address space. -/
theorem walk_of_fails (h : σ.Refines role) (hinit : σ.vm.isInitialized = true) {call : VMCall}
    (hcall : σ.Permitted call) (hfails : σ.Fails call) {r : Nat} (hr : r ∈ σ.roots) (virt : Nat) :
    (σ.step call).vm.walk r virt = σ.vm.walk r virt := by
  cases call with
  | createAddressSpace =>
    rcases createAddressSpace_cases h.wellFormed hinit with ⟨-, heq⟩ | ⟨c, vm, heq, hc0, -⟩
    · rw [VMRun.step, heq]
      rfl
    · rw [VMRun.Fails, heq] at hfails
      exact absurd hfails hc0
  | mapPage pml4 phys virt' flags =>
    rcases mapPage_cases h.wellFormed hcall.1 phys virt' flags with
      ⟨-, role', vm, heq, -, -, hg⟩ | ⟨pt, role', vm, heq, -⟩
    · rw [VMRun.step, heq]
      exact hg.walk_eq hr virt
    · rw [VMRun.Fails, heq] at hfails
      exact absurd hfails (by simp)
  | unmapPage pml4 virt' => exact hfails.elim
  | allocatePage =>
    show (σ.vm.allocatePage.2).walk r virt = _
    exact VMState.walk_of_mem_eq (allocatePage_mem σ.vm) r virt

/-- A call on one address space changes no user-half walk in another. -/
theorem walk_of_target_ne (h : σ.Refines role) (hinit : σ.vm.isInitialized = true) {call : VMCall}
    (hcall : σ.Permitted call) {r virt : Nat} (hr : r ∈ σ.roots) (hlow : ¬ KernelHalf virt)
    (htarget : call.target ≠ some r) : (σ.step call).vm.walk r virt = σ.vm.walk r virt := by
  cases call with
  | createAddressSpace =>
    rcases createAddressSpace_cases h.wellFormed hinit with ⟨-, heq⟩ | ⟨c, vm, heq, hc0, hadd⟩
    · rw [VMRun.step, heq]
      rfl
    · rw [VMRun.step, heq]
      simp only [if_neg hc0]
      exact hadd.walk_old h.wellFormed hr virt
  | mapPage pml4 phys virt' flags =>
    rcases mapPage_cases h.wellFormed hcall.1 phys virt' flags with
      ⟨-, role', vm, heq, -, -, hg⟩ | ⟨pt, role', vm, heq, -, hg, hpt, -⟩
    · rw [VMRun.step, heq]
      exact hg.walk_eq hr virt
    · have hown : OwnWalk vm pml4 virt' := by
        by_cases hk : KernelHalf virt'
        · exact .inl ((hcall.2.2.2.2 hk).1.trans hg.kernelPML4_eq.symm)
        · exact .inr hk
      have hv : phys ||| flags < 2 ^ 64 :=
        or_lt_word (lt_trans hcall.2.1.2 (by decide)) hcall.2.2.1.1
      have hrole := leafTable_own hg.wellFormed hcall.1 hown hpt
      rw [VMRun.step, heq]
      show (vm.setEntry pt (ptSlot virt') (phys ||| flags)).walk r virt = _
      rw [walk_setLeaf hg.wellFormed hrole hv hr, if_neg, hg.walk_eq hr]
      rw [ownWalk_slot_iff hg.wellFormed hcall.1 hown hr (.inr hlow) hpt]
      rintro ⟨rfl, -⟩
      exact htarget rfl
  | unmapPage pml4 virt' =>
    have hvm : (σ.step (.unmapPage pml4 virt')).vm = vmVirtualMemoryUnmapPage σ.vm pml4 virt' := by
      rw [VMRun.step]
      cases σ.owner pml4 virt' <;> rfl
    rw [hvm, unmapPage_eq h.wellFormed hcall, h.leafTable_owner hcall]
    cases howner : σ.owner pml4 virt' with
    | none => rfl
    | some r' =>
      obtain ⟨hr', hown⟩ := owner_mem hcall howner
      rw [Option.bind_some]
      cases hpt : σ.vm.leafTable r' virt' with
      | none => rfl
      | some pt =>
        have hrole := leafTable_own h.wellFormed hr' hown hpt
        simp only
        rw [walk_setLeaf h.wellFormed hrole (by decide) hr, if_neg]
        rw [ownWalk_slot_iff h.wellFormed hr' hown hr (.inr hlow) hpt]
        rintro ⟨rfl, hpage⟩
        -- the owner is the target itself, or the page lies in the kernel half
        rw [VMRun.owner] at howner
        split at howner
        · exact htarget howner
        · next hshared =>
          exact hlow ((kernelHalf_congr hpage).mpr (not_not.mp (not_or.mp hshared).2))
  | allocatePage =>
    show (σ.vm.allocatePage.2).walk r virt = _
    exact VMState.walk_of_mem_eq (allocatePage_mem σ.vm) r virt

end VMRun.Refines

end TermOS.VM
