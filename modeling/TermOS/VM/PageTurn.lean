import TermOS.VM.FrameCount

/-!
# Turns that give a page its frame

The program loader, the user stack and the memory service fill the user half of
an address space in the same way. Each turn of their loops allocates a frame,
maps a page to it and writes the frame, before or after it is mapped. What
becomes of the page depends only on the number of free frames and on the page
tables that its walk lacks.
-/

namespace TermOS.VM

open TermOS.Lib TermOS.Kernel TermOS.Lib.TableForest VMState

/-! ## Section 1: Writing a frame -/

/-- A write to the frame that it is given, and to nothing else. -/
def WritesFrame (spaces : List Nat) (write : VMState → Nat → VMState) : Prop :=
  ∀ role s phys, Consistent spaces role s → IsFrameAddress phys →
    ∃ mem, write s phys = { s with mem } ∧ ∀ x, x / 4096 * 4096 ≠ phys → mem x = s.mem x

/-- Afterwards the bytes of the frame are `bytes`. -/
def FillsFrame (spaces : List Nat) (write : VMState → Nat → VMState) (bytes : Nat → UInt8) : Prop :=
  ∀ role s phys, Consistent spaces role s → IsFrameAddress phys →
    ∀ i, i < 4096 → (write s phys).mem (phys + i) = bytes i

section Write

variable {spaces : List Nat} {role : Roles} {s : VMState} {phys : Nat}
  {write : VMState → Nat → VMState}

/-- Not to write at all. -/
theorem writesFrame_id : WritesFrame spaces fun s _ => s :=
  fun _ s _ _ _ => ⟨s.mem, rfl, fun _ _ => rfl⟩

theorem writesFrame_clearPage : WritesFrame spaces fun s phys => s.clearPage (physToHhdm phys) := by
  intro role s phys h hframe
  refine ⟨(s.zeroPage phys).mem, h.clearPage_eq hframe.2, ?_⟩
  exact fun x hx => mem_zeroPage_outside s hframe.1 hx

theorem fillsFrame_clearPage :
    FillsFrame spaces (fun s phys => s.clearPage (physToHhdm phys)) fun _ => 0 := by
  intro role s phys h hframe i hi
  show (s.clearPage (physToHhdm phys)).mem (phys + i) = 0
  rw [h.clearPage_eq hframe.2]
  exact Memory.fill_inside _ _ (by omega) (by simp only [kVMPageSize]; omega)

theorem WritesFrame.pmm_eq (hwrite : WritesFrame spaces write) (h : Consistent spaces role s)
    (hframe : IsFrameAddress phys) : (write s phys).pmm = s.pmm := by
  obtain ⟨mem, heq, -⟩ := hwrite role s phys h hframe
  rw [heq]

theorem WritesFrame.mem_eq (hwrite : WritesFrame spaces write) (h : Consistent spaces role s)
    (hframe : IsFrameAddress phys) {x : Nat} (hx : x / 4096 * 4096 ≠ phys) :
    (write s phys).mem x = s.mem x := by
  obtain ⟨mem, heq, hmem⟩ := hwrite role s phys h hframe
  rw [heq]
  exact hmem x hx

/-- A frame that is not a table may be written. -/
theorem WritesFrame.sameTables (hwrite : WritesFrame spaces write) (h : Consistent spaces role s)
    (hframe : IsFrameAddress phys) (hrole : ∀ r p, role phys ≠ some (.table r p)) :
    SameTables role s (write s phys) := by
  obtain ⟨mem, heq, hmem⟩ := hwrite role s phys h hframe
  rw [heq]
  apply SameTables.of_mem h.wellFormed
  intro x r p hx
  apply hmem
  rintro rfl
  exact hrole r p hx

end Write

/-! ## Section 2: One turn -/

/-- The turn for the page at `virt`: `prepare` and `fill` write its frame before
and after the page is mapped. -/
def pageTurn (prepare fill : VMState → Nat → VMState) (s : VMState) (pml4 virt : Nat) : VMState :=
  let (phys, s) := s.allocatePage
  fill (vmVirtualMemoryMapPage (prepare s phys) pml4 phys virt pteUserData).2 phys

/-- What a turn for the page at `address` in the address space `pml4` does. It
maps the page if it gets frames for the tables that are missing; a page whose
table is there is mapped even when no frame is left. -/
structure TurnOutcome (spaces : List Nat) (s : VMState) (pml4 address : Nat) (s' : VMState) :
    Prop where
  consistent : ∃ role, Consistent spaces role s'
  kernelPML4_eq : s'.kernelPML4 = s.kernelPML4
  walk_cases : ∀ r ∈ s.kernelPML4 :: spaces, ∀ virt, s'.walk r virt = s.walk r virt ∨
    (pageNumber virt = pageNumber address ∧ ∃ frame, s'.walk r virt = some (frame, pteUserData))
  walk_space : ∀ r ∈ s.kernelPML4 :: spaces, r ≠ pml4 → ∀ virt, ¬ KernelHalf virt →
    s'.walk r virt = s.walk r virt
  free_of_free : ∀ {f}, s'.pmm.FrameFree f → s.pmm.FrameFree f
  leaf_keep : ∀ virt, (s.leafTable pml4 virt).isSome → (s'.leafTable pml4 virt).isSome
  leaf_new : ∀ virt, (s'.leafTable pml4 virt).isSome →
    (s.leafTable pml4 virt).isSome ∨ upperPath virt = upperPath address
  cases :
    (missing childTable s.entry pml4 (upperPath address) < s.pmm.freeCount ∧
      s.pmm.freeCount =
        s'.pmm.freeCount + 1 + missing childTable s.entry pml4 (upperPath address) ∧
      (∃ frame, s'.walk pml4 address = some (frame, pteUserData)) ∧
      ∀ rest, tablesNeeded s' pml4 rest + missing childTable s.entry pml4 (upperPath address) =
        tablesNeeded s pml4 (address :: rest)) ∨
    (s.pmm.freeCount ≤ missing childTable s.entry pml4 (upperPath address) ∧
      s'.pmm.freeCount = 0 ∧
      ((missing childTable s.entry pml4 (upperPath address) = 0 ∧
          ∃ frame, s'.walk pml4 address = some (frame, pteUserData)) ∨
        (s'.leafTable pml4 address = none ∧
          ∀ r ∈ s.kernelPML4 :: spaces, ∀ virt, s'.walk r virt = s.walk r virt)))

section Turn

variable {spaces : List Nat} {role : Roles} {s s' : VMState} {pml4 address : Nat}
  {prepare fill : VMState → Nat → VMState}

/-- The frame that a page gets: a fresh one, or frame 0 when none is free. -/
theorem allocatePage_orZero (h : Consistent spaces role s) :
    ∃ phys s₁ role₁, s.allocatePage = (phys, s₁) ∧ IsFrameAddress phys ∧
      (phys = 0 ∨ role₁ phys = some .reserved) ∧ Roles.Extends role role₁ ∧
      Consistent spaces role₁ s₁ ∧ SameTables role s s₁ ∧
      ((s.pmm.freeCount = 0 ∧ s₁.pmm.freeCount = 0) ∨ s.pmm.freeCount = s₁.pmm.freeCount + 1) := by
  rcases h.allocatePage (x := .reserved) (by simp) with ⟨hfull, heq⟩ |
    ⟨a, s₁, heq, -, hframe, hnone, hcount, hsame, -, h₁⟩
  · refine ⟨0, s, role, heq, by decide, .inl rfl, fun _ _ => id, h, ?_, .inl ⟨hfull, hfull⟩⟩
    exact ⟨rfl, rfl, id, fun _ => rfl⟩
  · exact ⟨a, s₁, _, heq, hframe, .inr (Function.update_self ..),
      Roles.Extends.update_of_none hnone _, h₁, hsame, .inr hcount⟩

/-- The tables of two steps are the same if those of each step are. -/
theorem SameTables.trans {role₁ : Roles} {s₁ s₂ : VMState} (hsame : SameTables role s s₁)
    (hext : Roles.Extends role role₁) (hsame' : SameTables role₁ s₁ s₂) : SameTables role s s₂ where
  kernelPML4_eq := hsame'.kernelPML4_eq.trans hsame.kernelPML4_eq
  isInitialized_eq := hsame'.isInitialized_eq.trans hsame.isInitialized_eq
  free_of_free := fun hf => hsame.free_of_free (hsame'.free_of_free hf)
  entry_eq := fun ht => (hsame'.entry_eq (hext _ _ ht)).trans (hsame.entry_eq ht)

theorem pageTurn_outcome (hprepare : WritesFrame spaces prepare) (hfill : WritesFrame spaces fill)
    (h : Consistent spaces role s) (hpml4 : pml4 ∈ spaces) (address : Nat) :
    TurnOutcome spaces s pml4 address (pageTurn prepare fill s pml4 address) := by
  obtain ⟨phys, s₀, role₁, heq, hframe, hrole₁, hext, h₀, hsame₀, hcount₀⟩ := allocatePage_orZero h
  have hroot : pml4 ∈ s.kernelPML4 :: spaces := List.mem_cons_of_mem _ hpml4
  -- the frame is not a table, so writing it changes no walk
  have hnot₁ : ∀ r p, role₁ phys ≠ some (.table r p) := by
    intro r p ht
    rcases hrole₁ with rfl | hres
    · exact h₀.zero_notTable r p ht
    · simp [hres] at ht
  have hprepared := hprepare.sameTables h₀ hframe hnot₁
  have hpmm₁ := hprepare.pmm_eq h₀ hframe
  have hturn : pageTurn prepare fill s pml4 address =
      fill (vmVirtualMemoryMapPage (prepare s₀ phys) pml4 phys address pteUserData).2 phys := by
    rw [pageTurn, heq]
  rw [hturn]
  have h₁ := hprepared.consistent h₀
  have hsame₁ := hsame₀.trans hext hprepared
  rw [← hpmm₁] at hcount₀
  generalize prepare s₀ phys = s₁ at h₁ hsame₁ hcount₀
  have hroot₁ : pml4 ∈ s₁.kernelPML4 :: spaces := List.mem_cons_of_mem _ hpml4
  obtain ⟨role₂, h₂, hmap, hcases⟩ := h₁.mapPage address hroot₁ hframe
    (show IsFlagWord pteUserData by decide) (by decide)
  generalize (vmVirtualMemoryMapPage s₁ pml4 phys address pteUserData).2 = s₂ at h₂ hmap hcases
  have hnot : ∀ r p, role₂ phys ≠ some (.table r p) := by
    rcases hrole₁ with rfl | hres
    · exact h₂.zero_notTable
    · intro r p ht
      rw [hmap.role_keep _ _ hres] at ht
      simp at ht
  have hsame₃ := hfill.sameTables h₂ hframe hnot
  have hpmm := hfill.pmm_eq h₂ hframe
  generalize fill s₂ phys = s₃ at hsame₃ hpmm
  have hk₂ : s₂.kernelPML4 = s.kernelPML4 := hmap.kernelPML4_eq.trans hsame₁.kernelPML4_eq
  have hwalk₃ : ∀ r ∈ s.kernelPML4 :: spaces, ∀ virt, s₃.walk r virt = s₂.walk r virt := by
    intro r hr virt
    exact hsame₃.walk_eq h₂.wellFormed (by rwa [hk₂]) virt
  have hwalk₁ : ∀ r ∈ s.kernelPML4 :: spaces, ∀ virt, s₁.walk r virt = s.walk r virt :=
    fun r hr virt => hsame₁.walk_eq h.wellFormed hr virt
  have hleaf₃ : ∀ virt, s₃.leafTable pml4 virt = s₂.leafTable pml4 virt := fun virt =>
    hsame₃.follow_eq h₂.wellFormed (List.mem_cons_of_mem _ hpml4) (by simp [upperPath_length])
  have hleaf₁ : ∀ virt, s₁.leafTable pml4 virt = s.leafTable pml4 virt := fun virt =>
    hsame₁.follow_eq h.wellFormed hroot (by simp [upperPath_length])
  have hmissing : missing childTable s₁.entry pml4 (upperPath address) =
      missing childTable s.entry pml4 (upperPath address) := by
    rw [missing_eq_tablesNeeded, missing_eq_tablesNeeded, hsame₁.tablesNeeded_eq h.wellFormed hroot]
  rw [hmissing] at hcases
  exact {
    consistent := ⟨role₂, hsame₃.consistent h₂⟩
    kernelPML4_eq := hsame₃.kernelPML4_eq.trans hk₂
    walk_cases := by
      intro r hr virt
      rw [hwalk₃ r hr, ← hwalk₁ r hr]
      rcases hmap.walk_cases (r := r) (by rwa [hsame₁.kernelPML4_eq]) with
        hkept | ⟨hpage, -, hnew⟩
      · exact .inl hkept
      · exact .inr ⟨hpage, phys, hnew⟩
    walk_space := by
      intro r hr hne virt hlow
      rw [hwalk₃ r hr, ← hwalk₁ r hr]
      apply (hmap.walk_cases (by rwa [hsame₁.kernelPML4_eq])).resolve_right
      rintro ⟨hpage, hroot | hhalf, -⟩
      · exact hne hroot
      · exact hlow ((kernelHalf_congr hpage).mpr hhalf)
    free_of_free := fun hf =>
      hsame₁.free_of_free (hmap.free_of_free (hsame₃.free_of_free hf))
    leaf_keep := by
      intro virt hsome
      rw [hleaf₃]
      rw [← hleaf₁] at hsome
      exact hmap.follow_keep hroot₁ (by simp [upperPath_length]) hsome
    leaf_new := by
      intro virt hsome
      rw [hleaf₃] at hsome
      rw [← hleaf₁]
      rcases hmap.follow_new hroot₁ (by simp [upperPath_length]) hsome with hold | hpre
      · exact .inl hold
      · exact .inr (hpre.eq_of_length (by simp [upperPath_length]))
    cases := by
      rw [hwalk₃ pml4 hroot, hpmm, hleaf₃]
      rcases hcases with ⟨hlt, hzero, hnone, hsamewalk⟩ | ⟨hcount, hmapped⟩
      · refine .inr ⟨by omega, hzero, .inr ⟨hnone, fun r hr virt => ?_⟩⟩
        rw [hwalk₃ r hr, ← hwalk₁ r hr]
        exact hsamewalk r (by rwa [hsame₁.kernelPML4_eq]) virt
      · rcases hcount₀ with ⟨hfull, hfull₁⟩ | htaken
        · exact .inr ⟨by omega, by omega, .inl ⟨by omega, phys, hmapped⟩⟩
        · refine .inl ⟨by omega, by omega, ⟨phys, hmapped⟩, fun rest => ?_⟩
          rw [hsame₃.tablesNeeded_eq h₂.wellFormed (List.mem_cons_of_mem _ hpml4),
            ← hsame₁.tablesNeeded_eq h.wellFormed hroot, ← hmissing]
          exact hmap.tablesNeeded_add_missing hroot₁ (by rw [hmapped]; rfl) rest }

/-- A page without a page table is not mapped when the frames do not suffice. -/
theorem TurnOutcome.fails (hout : TurnOutcome spaces s pml4 address s')
    (hleaf : s.leafTable pml4 address = none)
    (hshort : s.pmm.freeCount ≤ missing childTable s.entry pml4 (upperPath address)) :
    s'.pmm.freeCount = 0 ∧ s'.leafTable pml4 address = none ∧
      ∀ r ∈ s.kernelPML4 :: spaces, ∀ virt, s'.walk r virt = s.walk r virt := by
  have hpos : missing childTable s.entry pml4 (upperPath address) ≠ 0 := by
    intro hzero
    have hsome := missing_eq_zero_iff.mp hzero
    rw [show follow childTable s.entry pml4 (upperPath address) = none from hleaf] at hsome
    exact absurd hsome (by simp)
  rcases hout.cases with ⟨hlt, -⟩ | ⟨-, hzero, ⟨hnone, -⟩ | ⟨hnone, hsame⟩⟩
  · omega
  · exact absurd hnone hpos
  · exact ⟨hzero, hnone, hsame⟩

end Turn

/-! ## Section 3: Turns with enough frames -/

/-- A turn that gave the page at `virt` the frame `a`: the frame was free, it is
the page's now, and nothing that is not a table has changed outside of it. -/
structure Granted (spaces : List Nat) (role : Roles) (s : VMState) (pml4 virt a : Nat)
    (role' : Roles) (s' : VMState) : Prop where
  consistent : Consistent spaces role' s'
  extends_role : Roles.Extends role role'
  fresh : role a = none
  role_eq : role' a = some (.page pml4 (pagePath virt))
  free : s.pmm.FrameFree (a / kVMPageSize)
  taken : ¬ s'.pmm.FrameFree (a / kVMPageSize)
  kernelPML4_eq : s'.kernelPML4 = s.kernelPML4
  free_of_free : ∀ {f}, s'.pmm.FrameFree f → s.pmm.FrameFree f
  walk_eq : s'.walk pml4 virt = some (a, pteUserData)
  walk_other : ∀ {virt'}, pageNumber virt' ≠ pageNumber virt →
    s'.walk pml4 virt' = s.walk pml4 virt'
  mem_eq : ∀ {x r p}, role (x / 4096 * 4096) = some (.page r p) → s'.mem x = s.mem x

section Grant

variable {spaces : List Nat} {role : Roles} {s s' : VMState} {pml4 virt a : Nat}
  {prepare fill : VMState → Nat → VMState}

/-- The frame that is handed out was free, and it is not free any more. -/
theorem allocatePage_taken (h : s.allocatePage = (a, s')) (hne : a ≠ 0) :
    s.pmm.FrameFree (a / kVMPageSize) ∧ ¬ s'.pmm.FrameFree (a / kVMPageSize) := by
  rcases allocatePage_state_cases s with ⟨-, heq⟩ | ⟨f, s₁, hf, heq, -, -, -, -, -, hfree⟩
  · exact absurd (congrArg Prod.fst (heq.symm.trans h)).symm hne
  · obtain ⟨rfl, rfl⟩ : f * kVMPageSize = a ∧ s₁ = s' := by simpa using heq.symm.trans h
    rw [Nat.mul_div_cancel f (by decide)]
    exact ⟨hf, fun hf' => ((hfree f).mp hf').2 rfl⟩

/-- With frames enough for a page and its tables, its turn grants it a frame; the
other pages need as many frames as before. -/
theorem pageTurn_granted (hprepare : WritesFrame spaces prepare) (hfill : WritesFrame spaces fill)
    (h : Consistent spaces role s) (hpml4 : pml4 ∈ spaces)
    (henough : missing childTable s.entry pml4 (upperPath virt) < s.pmm.freeCount) :
    ∃ a role', Granted spaces role s pml4 virt a role' (pageTurn prepare fill s pml4 virt) ∧
      (∀ {bytes}, FillsFrame spaces fill bytes → ∀ i, i < 4096 →
        (pageTurn prepare fill s pml4 virt).mem (a + i) = bytes i) ∧
      ∀ rest, s.pmm.freeCount + framesNeeded (pageTurn prepare fill s pml4 virt) pml4 rest =
        (pageTurn prepare fill s pml4 virt).pmm.freeCount + framesNeeded s pml4 (virt :: rest) := by
  have hroot : pml4 ∈ s.kernelPML4 :: spaces := List.mem_cons_of_mem _ hpml4
  rcases h.allocatePage (x := .page pml4 (pagePath virt)) (by simp) with ⟨hfull, -⟩ |
    ⟨a, s₀, heq, hne, hframe, hnone, hcount, hsame₀, hmem₀, h₀⟩
  · omega
  have hext := Roles.Extends.update_of_none hnone (.page pml4 (pagePath virt))
  have hrole₀ : Function.update role a (some (.page pml4 (pagePath virt))) a =
      some (.page pml4 (pagePath virt)) := Function.update_self ..
  generalize Function.update role a (some (.page pml4 (pagePath virt))) = role₀ at h₀ hext hrole₀
  obtain ⟨hfree, htaken⟩ := allocatePage_taken heq hne
  have hturn : pageTurn prepare fill s pml4 virt =
      fill (vmVirtualMemoryMapPage (prepare s₀ a) pml4 a virt pteUserData).2 a := by
    rw [pageTurn, heq]
  rw [hturn]
  -- the frame is prepared
  have hprepared := hprepare.sameTables h₀ hframe (by simp [hrole₀])
  have h₁ := hprepared.consistent h₀
  have hsame₁ := hsame₀.trans hext hprepared
  have hpmm₁ := hprepare.pmm_eq h₀ hframe
  have hmem₁ : ∀ x, x / 4096 * 4096 ≠ a → (prepare s₀ a).mem x = s.mem x := by
    intro x hx
    rw [hprepare.mem_eq h₀ hframe hx, hmem₀]
  rw [← hpmm₁] at hcount htaken
  generalize prepare s₀ a = s₁ at h₁ hsame₁ hcount htaken hmem₁
  -- the page is mapped to it
  have hroot₁ : pml4 ∈ s₁.kernelPML4 :: spaces := List.mem_cons_of_mem _ hpml4
  have hmissing : missing childTable s₁.entry pml4 (upperPath virt) =
      missing childTable s.entry pml4 (upperPath virt) := by
    rw [missing_eq_tablesNeeded, missing_eq_tablesNeeded, hsame₁.tablesNeeded_eq h.wellFormed hroot]
  obtain ⟨role₂, h₂, hmap, hcases⟩ := h₁.mapPage virt hroot₁ hframe
    (show IsFlagWord pteUserData by decide) (by decide)
  generalize (vmVirtualMemoryMapPage s₁ pml4 a virt pteUserData).2 = s₂ at h₂ hmap hcases
  rcases hcases with ⟨hlt, -⟩ | ⟨hcount₂, hwalk⟩
  · omega
  have hrole₂ := hmap.role_keep _ _ hrole₀
  -- and filled
  have hsame₃ := hfill.sameTables h₂ hframe (by simp [hrole₂])
  have hpmm₃ := hfill.pmm_eq h₂ hframe
  have hroot₂ : pml4 ∈ s₂.kernelPML4 :: spaces := List.mem_cons_of_mem _ hpml4
  have hwalk₃ : ∀ virt', (fill s₂ a).walk pml4 virt' = s₂.walk pml4 virt' :=
    hsame₃.walk_eq h₂.wellFormed hroot₂
  refine ⟨a, role₂, ?_, fun hbytes i hi => hbytes role₂ s₂ a h₂ hframe i hi, ?_⟩
  · exact {
      consistent := hsame₃.consistent h₂
      extends_role := fun x y hx => hmap.role_keep _ _ (hext _ _ hx)
      fresh := hnone
      role_eq := hrole₂
      free := hfree
      taken := fun hf => htaken (hmap.free_of_free (hsame₃.free_of_free hf))
      kernelPML4_eq :=
        hsame₃.kernelPML4_eq.trans (hmap.kernelPML4_eq.trans hsame₁.kernelPML4_eq)
      free_of_free := fun hf =>
        hsame₁.free_of_free (hmap.free_of_free (hsame₃.free_of_free hf))
      walk_eq := by rw [hwalk₃, hwalk]
      walk_other := by
        intro virt' hpage
        rw [hwalk₃, ← hsame₁.walk_eq h.wellFormed hroot]
        apply (hmap.walk_cases hroot₁).resolve_right
        exact fun hnew => hpage hnew.1
      mem_eq := by
        intro x r p hx
        have hxa : x / 4096 * 4096 ≠ a := by
          rintro hxa
          rw [hxa, hnone] at hx
          simp at hx
        have hx₂ := hmap.role_keep _ _ (hext _ _ hx)
        rw [hfill.mem_eq h₂ hframe hxa, hmap.mem_eq (by simp [hx₂]), hmem₁ x hxa] }
  · intro rest
    have htables := hsame₁.tablesNeeded_eq h.wellFormed hroot (virt :: rest)
    have hsplit := hmap.tablesNeeded_add_missing hroot₁ (by rw [hwalk]; rfl) rest
    simp only [framesNeeded, List.length_cons]
    rw [hpmm₃, hsame₃.tablesNeeded_eq h₂.wellFormed hroot₂]
    omega

end Grant

/-! ## Section 4: Loops over pages -/

/-- Every page of `pages` has a frame of its own that was free before, with the
contents `bytes` if these are given. -/
structure PagesGranted (spaces : List Nat) (bytes : Option (Nat → UInt8)) (role : Roles)
    (s : VMState) (pml4 : Nat) (pages : List Nat) (role' : Roles) (s' : VMState) : Prop where
  consistent : Consistent spaces role' s'
  extends_role : Roles.Extends role role'
  kernelPML4_eq : s'.kernelPML4 = s.kernelPML4
  free_of_free : ∀ {f}, s'.pmm.FrameFree f → s.pmm.FrameFree f
  granted : ∀ virt ∈ pages, ∃ a, s'.walk pml4 virt = some (a, pteUserData) ∧
    role' a = some (.page pml4 (pagePath virt)) ∧ s.pmm.FrameFree (a / kVMPageSize) ∧
    ¬ s'.pmm.FrameFree (a / kVMPageSize) ∧ ∀ b ∈ bytes, ∀ i, i < 4096 → s'.mem (a + i) = b i
  walk_other : ∀ {virt'}, (∀ virt ∈ pages, pageNumber virt' ≠ pageNumber virt) →
    s'.walk pml4 virt' = s.walk pml4 virt'
  mem_eq : ∀ {x r p}, role (x / 4096 * 4096) = some (.page r p) → s'.mem x = s.mem x

/-- Turns over `pages` that stop when no frame is free; `false` says that they did. -/
def guardedTurns (turn : VMState → Nat → VMState) : VMState → List Nat → Bool × VMState
  | s, [] => (true, s)
  | s, virt :: rest =>
    if s.pmm.freeCount = 0 then (false, s) else guardedTurns turn (turn s virt) rest

section Loop

variable {spaces : List Nat} {bytes : Option (Nat → UInt8)} {role role₁ role' : Roles}
  {s s₁ s' : VMState} {pml4 virt a : Nat} {pages pages' : List Nat}
  {prepare fill : VMState → Nat → VMState}

theorem PagesGranted.nil (h : Consistent spaces role s) :
    PagesGranted spaces bytes role s pml4 [] role s where
  consistent := h
  extends_role := fun _ _ => id
  kernelPML4_eq := rfl
  free_of_free := id
  granted := fun _ hv => absurd hv (by simp)
  walk_other := fun _ => rfl
  mem_eq := fun _ => rfl

theorem Granted.single (h : Granted spaces role s pml4 virt a role' s')
    (hbytes : ∀ b ∈ bytes, ∀ i, i < 4096 → s'.mem (a + i) = b i) :
    PagesGranted spaces bytes role s pml4 [virt] role' s' where
  consistent := h.consistent
  extends_role := h.extends_role
  kernelPML4_eq := h.kernelPML4_eq
  free_of_free := h.free_of_free
  granted := by
    intro v hv
    rw [List.mem_singleton.mp hv]
    exact ⟨a, h.walk_eq, h.role_eq, h.free, h.taken, hbytes⟩
  walk_other := fun hpage => h.walk_other (hpage virt List.mem_cons_self)
  mem_eq := h.mem_eq

/-- One loop after another: a page that the second one does not visit keeps the
frame that it got from the first one, and its contents. -/
theorem PagesGranted.append (h : PagesGranted spaces bytes role s pml4 pages role₁ s₁)
    (h' : PagesGranted spaces bytes role₁ s₁ pml4 pages' role' s') :
    PagesGranted spaces bytes role s pml4 (pages ++ pages') role' s' where
  consistent := h'.consistent
  extends_role := fun x y hx => h'.extends_role _ _ (h.extends_role _ _ hx)
  kernelPML4_eq := h'.kernelPML4_eq.trans h.kernelPML4_eq
  free_of_free := fun hf => h.free_of_free (h'.free_of_free hf)
  granted := by
    intro virt hvirt
    by_cases hlater : ∃ v ∈ pages', pageNumber virt = pageNumber v
    · obtain ⟨v, hv, hpage⟩ := hlater
      obtain ⟨a, hwalk, hrole, hfree, htaken, hbytes⟩ := h'.granted v hv
      refine ⟨a, ?_, ?_, h.free_of_free hfree, htaken, hbytes⟩
      · rw [walk_congr s' pml4 hpage, hwalk]
      · rw [hrole, pagePath_eq_iff.mpr (pageNumber_eq_iff.mp hpage)]
    · push Not at hlater
      have hfirst : virt ∈ pages := by
        rcases List.mem_append.mp hvirt with hmem | hmem
        · exact hmem
        · exact absurd rfl (hlater virt hmem)
      obtain ⟨a, hwalk, hrole, hfree, htaken, hbytes⟩ := h.granted virt hfirst
      refine ⟨a, by rw [h'.walk_other hlater, hwalk], h'.extends_role _ _ hrole, hfree,
        fun hf => htaken (h'.free_of_free hf), fun b hb i hi => ?_⟩
      -- the frame is a page's, so later turns do not write it
      have halign : a % kVMPageSize = 0 := by
        obtain ⟨pt, -, hdecode⟩ := walk_eq_some.mp hwalk
        exact decode_frame_mod hdecode
      have hfloor : (a + i) / 4096 * 4096 = a := by
        simp only [kVMPageSize] at halign
        omega
      rw [h'.mem_eq (by rw [hfloor, hrole]), hbytes b hb i hi]
  walk_other := by
    intro virt' hpage
    rw [h'.walk_other fun v hv => hpage v (List.mem_append_right _ hv),
      h.walk_other fun v hv => hpage v (List.mem_append_left _ hv)]
  mem_eq := fun hx => (h'.mem_eq (h.extends_role _ _ hx)).trans (h.mem_eq hx)

/-- Different pages have different frames. -/
theorem PagesGranted.frame_inj (h : PagesGranted spaces bytes role s pml4 pages role' s')
    {virt virt' : Nat} (hvirt : virt ∈ pages) (hvirt' : virt' ∈ pages) {f f' : Nat × Nat}
    (hwalk : s'.walk pml4 virt = some f) (hwalk' : s'.walk pml4 virt' = some f')
    (heq : f.1 = f'.1) : pageNumber virt = pageNumber virt' := by
  obtain ⟨a, hwalk₁, hrole, -⟩ := h.granted virt hvirt
  obtain ⟨a', hwalk₂, hrole', -⟩ := h.granted virt' hvirt'
  obtain rfl := Option.some.inj (hwalk.symm.trans hwalk₁)
  obtain rfl := Option.some.inj (hwalk'.symm.trans hwalk₂)
  obtain rfl : a = a' := heq
  have hpath := Option.some.inj (hrole.symm.trans hrole')
  simp only [FrameRole.page.injEq, true_and] at hpath
  exact pageNumber_eq_iff.mpr (pagePath_eq_iff.mp hpath)

/-- With frames enough for all pages, the turns for `turns` grant each of their
pages a frame; further pages need as many frames as before. -/
theorem foldl_pageTurn_granted {τ : Type} (address : τ → Nat) (write : τ → VMState → Nat → VMState)
    (hprepare : WritesFrame spaces prepare) (hpml4 : pml4 ∈ spaces) (turns : List τ)
    (hwrite : ∀ t ∈ turns, WritesFrame spaces (write t))
    (hbytes : ∀ t ∈ turns, ∀ b ∈ bytes, FillsFrame spaces (write t) b) :
    ∀ {role : Roles} {s : VMState}, Consistent spaces role s →
      framesNeeded s pml4 (turns.map address) ≤ s.pmm.freeCount →
      ∃ role', PagesGranted spaces bytes role s pml4 (turns.map address) role'
          (turns.foldl (fun s t => pageTurn prepare (write t) s pml4 (address t)) s) ∧
        ∀ rest, s.pmm.freeCount + framesNeeded
            (turns.foldl (fun s t => pageTurn prepare (write t) s pml4 (address t)) s) pml4 rest =
          (turns.foldl (fun s t => pageTurn prepare (write t) s pml4 (address t)) s).pmm.freeCount +
            framesNeeded s pml4 (turns.map address ++ rest) := by
  induction turns with
  | nil =>
    intro role s h _
    exact ⟨role, PagesGranted.nil h, fun _ => rfl⟩
  | cons t rest ih =>
    intro role s h henough
    rw [List.map_cons] at henough ⊢
    obtain ⟨a, role₁, hgranted, hfills, hcount⟩ := pageTurn_granted hprepare
      (hwrite t List.mem_cons_self) h hpml4 (missing_lt_of_framesNeeded_le henough)
    have hnext := hcount (rest.map address)
    have hone := hgranted.single fun b hb => hfills (hbytes t List.mem_cons_self b hb)
    obtain ⟨role', hrest, hcount'⟩ := ih (fun u hu => hwrite u (List.mem_cons_of_mem _ hu))
      (fun u hu => hbytes u (List.mem_cons_of_mem _ hu)) hgranted.consistent (by omega)
    refine ⟨role', ?_, ?_⟩
    · rw [List.foldl_cons]
      exact hone.append hrest
    · intro others
      have hothers := hcount (rest.map address ++ others)
      have hothers' := hcount' others
      rw [List.foldl_cons, List.cons_append]
      omega

/-- With frames enough for all pages, no turn is refused. -/
theorem guardedTurns_eq_foldl (hprepare : WritesFrame spaces prepare)
    (hfill : WritesFrame spaces fill) (hpml4 : pml4 ∈ spaces) {pages : List Nat} :
    ∀ {role : Roles} {s : VMState}, Consistent spaces role s →
      framesNeeded s pml4 pages ≤ s.pmm.freeCount →
      guardedTurns (pageTurn prepare fill · pml4 ·) s pages =
        (true, pages.foldl (pageTurn prepare fill · pml4 ·) s) := by
  induction pages with
  | nil => exact fun _ _ => rfl
  | cons virt rest ih =>
    intro role s h henough
    obtain ⟨a, role₁, hgranted, -, hcount⟩ := pageTurn_granted hprepare hfill h hpml4
      (missing_lt_of_framesNeeded_le henough)
    have hnext := hcount rest
    have hpos : s.pmm.freeCount ≠ 0 := by
      rw [framesNeeded, List.length_cons] at henough
      omega
    rw [guardedTurns, if_neg hpos, List.foldl_cons]
    exact ih hgranted.consistent (by omega)

/-- A refused turn says that no frame is left. -/
theorem freeCount_of_guardedTurns_false {turn : VMState → Nat → VMState} (pages : List Nat) :
    ∀ {s : VMState}, (guardedTurns turn s pages).1 = false →
      (guardedTurns turn s pages).2.pmm.freeCount = 0 := by
  induction pages with
  | nil => exact fun h => absurd h (by simp [guardedTurns])
  | cons virt rest ih =>
    intro s h
    unfold guardedTurns at h ⊢
    split at h
    · next hfull => simp [hfull]
    · next hpos =>
      rw [if_neg hpos]
      exact ih h

/-- The turns reach their end exactly when the frames suffice for all pages but
the last one, and one is left over: what the last page's tables lack goes unnoticed. -/
theorem guardedTurns_true_iff (hprepare : WritesFrame spaces prepare)
    (hfill : WritesFrame spaces fill) (hpml4 : pml4 ∈ spaces) {pages : List Nat} :
    ∀ {role : Roles} {s : VMState}, Consistent spaces role s → pages ≠ [] →
      ((guardedTurns (pageTurn prepare fill · pml4 ·) s pages).1 = true ↔
        framesNeeded s pml4 pages.dropLast < s.pmm.freeCount) := by
  induction pages with
  | nil => exact fun _ hne => absurd rfl hne
  | cons virt rest ih =>
    intro role s h _
    have hout := pageTurn_outcome hprepare hfill h hpml4 virt
    unfold guardedTurns
    by_cases hfull : s.pmm.freeCount = 0
    · simp [hfull]
    rw [if_neg hfull]
    cases rest with
    | nil =>
      simp only [guardedTurns, List.dropLast_singleton, framesNeeded, List.length_nil,
        tablesNeeded_nil, true_iff]
      omega
    | cons next rest =>
      obtain ⟨role₁, h₁⟩ := hout.consistent
      rw [ih h₁ (by simp), List.dropLast_cons_cons]
      have hmissing := missing_le_tablesNeeded s pml4 virt (next :: rest).dropLast
      simp only [framesNeeded, List.length_cons]
      rcases hout.cases with ⟨-, hcount, -, hneeded⟩ | ⟨hshort, hzero, -⟩
      · have hsplit := hneeded (next :: rest).dropLast
        omega
      · omega

/-- When the frames suffice for all pages but the last one, and not for the
tables of the last one, the turns reach their end with the last page unmapped. -/
theorem guardedTurns_last_unmapped (hprepare : WritesFrame spaces prepare)
    (hfill : WritesFrame spaces fill) (hpml4 : pml4 ∈ spaces) {before : List Nat} {last : Nat} :
    ∀ {role : Roles} {s : VMState}, Consistent spaces role s →
      framesNeeded s pml4 before < s.pmm.freeCount →
      s.pmm.freeCount < framesNeeded s pml4 (before ++ [last]) →
      (guardedTurns (pageTurn prepare fill · pml4 ·) s (before ++ [last])).2.walk pml4 last =
        none := by
  induction before with
  | nil =>
    intro role s h henough hshort
    have hout := pageTurn_outcome hprepare hfill h hpml4 last
    simp only [List.nil_append, framesNeeded, List.length_singleton, List.length_nil,
      ← missing_eq_tablesNeeded] at henough hshort
    rw [List.nil_append, guardedTurns, if_neg (by omega), guardedTurns]
    rcases hout.cases with ⟨hlt, -⟩ | ⟨-, -, ⟨hnone, -⟩ | ⟨hleaf, -⟩⟩
    · omega
    · omega
    · rw [VMState.walk, hleaf, Option.bind_none]
  | cons virt before ih =>
    intro role s h henough hshort
    have hout := pageTurn_outcome hprepare hfill h hpml4 virt
    have hmissing := missing_le_tablesNeeded s pml4 virt before
    rw [List.cons_append] at hshort ⊢
    simp only [framesNeeded, List.length_cons] at henough hshort
    rw [guardedTurns, if_neg (by omega)]
    obtain ⟨role₁, h₁⟩ := hout.consistent
    rcases hout.cases with ⟨-, hcount, -, hneeded⟩ | ⟨hle, -⟩
    · have hsplit := hneeded before
      have hsplit' := hneeded (before ++ [last])
      apply ih h₁ <;> rw [framesNeeded] <;> omega
    · omega

/-- Whatever the turns do, a page keeps its mapping or gets a frame that was free. -/
theorem guardedTurns_walk_cases (hprepare : WritesFrame spaces prepare)
    (hfill : WritesFrame spaces fill) (hpml4 : pml4 ∈ spaces) (pages : List Nat) :
    ∀ {role : Roles} {s : VMState}, Consistent spaces role s →
      (guardedTurns (pageTurn prepare fill · pml4 ·) s pages).2.walk pml4 virt = s.walk pml4 virt ∨
      ∃ a, (guardedTurns (pageTurn prepare fill · pml4 ·) s pages).2.walk pml4 virt =
        some (a, pteUserData) ∧ s.pmm.FrameFree (a / kVMPageSize) := by
  induction pages with
  | nil => exact fun _ => .inl rfl
  | cons page rest ih =>
    intro role s h
    unfold guardedTurns
    split
    · exact .inl rfl
    next hpos =>
    have hout := pageTurn_outcome hprepare hfill h hpml4 page
    obtain ⟨role₁, h₁⟩ := hout.consistent
    rcases ih h₁ with hkept | ⟨a, hnew, hfree⟩
    · -- only this turn can have changed the page
      rw [hkept]
      rcases hout.cases with ⟨hlt, -⟩ | ⟨hle, -, ⟨hzero, -⟩ | ⟨-, hsame⟩⟩
      · obtain ⟨a, role', hgranted, -⟩ := pageTurn_granted hprepare hfill h hpml4 hlt
        by_cases hpage : pageNumber virt = pageNumber page
        · exact .inr ⟨a, by rw [walk_congr _ _ hpage, hgranted.walk_eq], hgranted.free⟩
        · exact .inl (hgranted.walk_other hpage)
      · exact absurd (by omega) hpos
      · exact .inl (hsame _ (List.mem_cons_of_mem _ hpml4) virt)
    · exact .inr ⟨a, hnew, hout.free_of_free hfree⟩

/-- A page whose turn comes while there are frames for it gets a frame that was free. -/
theorem guardedTurns_maps (hprepare : WritesFrame spaces prepare)
    (hfill : WritesFrame spaces fill) (hpml4 : pml4 ∈ spaces) {before : List Nat} (after : List Nat) :
    ∀ {role : Roles} {s : VMState}, Consistent spaces role s →
      framesNeeded s pml4 (before ++ [virt]) ≤ s.pmm.freeCount →
      ∃ a, (guardedTurns (pageTurn prepare fill · pml4 ·) s (before ++ virt :: after)).2.walk pml4
        virt = some (a, pteUserData) ∧ s.pmm.FrameFree (a / kVMPageSize) := by
  induction before with
  | nil =>
    intro role s h henough
    rw [List.nil_append] at henough ⊢
    have hlt := missing_lt_of_framesNeeded_le henough
    obtain ⟨a, role', hgranted, -⟩ := pageTurn_granted hprepare hfill h hpml4 hlt
    rw [guardedTurns, if_neg (by omega)]
    rcases guardedTurns_walk_cases hprepare hfill hpml4 after hgranted.consistent with
      hkept | ⟨a', hnew, hfree⟩
    · exact ⟨a, by rw [hkept, hgranted.walk_eq], hgranted.free⟩
    · exact ⟨a', hnew, hgranted.free_of_free hfree⟩
  | cons page before ih =>
    intro role s h henough
    rw [List.cons_append] at henough ⊢
    have hlt := missing_lt_of_framesNeeded_le henough
    obtain ⟨a, role', hgranted, -, hcount⟩ := pageTurn_granted hprepare hfill h hpml4 hlt
    have hrest := hcount (before ++ [virt])
    rw [guardedTurns, if_neg (by omega)]
    obtain ⟨a', hnew, hfree⟩ := ih hgranted.consistent (by omega)
    exact ⟨a', hnew, hgranted.free_of_free hfree⟩

end Loop

end TermOS.VM
