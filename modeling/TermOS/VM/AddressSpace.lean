import TermOS.VM.MapPage

/-!
# Creating address spaces

`VMVirtualMemoryCreateAddressSpace` adds one root to the forest. Its lower half
is empty and its upper half holds the kernel's links of that moment.
-/

namespace TermOS.VM

open TermOS.Lib TermOS.Kernel TermOS.Lib.TableForest VMState

variable {roots : List Nat} {role role' : Roles} {s s' : VMState}

/-! ## Section 1: Copying the kernel half -/

@[simp] theorem copyKernelHalf_pmm (virt kernelVirt i n : Nat) (s : VMState) :
    (copyKernelHalf s virt kernelVirt i n).pmm = s.pmm := by
  induction n generalizing s i with
  | zero => rfl
  | succ n ih => rw [copyKernelHalf, ih]; rfl

@[simp] theorem copyKernelHalf_kernelPML4 (virt kernelVirt i n : Nat) (s : VMState) :
    (copyKernelHalf s virt kernelVirt i n).kernelPML4 = s.kernelPML4 := by
  induction n generalizing s i with
  | zero => rfl
  | succ n ih => rw [copyKernelHalf, ih]; rfl

@[simp] theorem copyKernelHalf_isInitialized (virt kernelVirt i n : Nat) (s : VMState) :
    (copyKernelHalf s virt kernelVirt i n).isInitialized = s.isInitialized := by
  induction n generalizing s i with
  | zero => rfl
  | succ n ih => rw [copyKernelHalf, ih]; rfl

/-- The loop copies slots `i` up to `i + n` of table `k` to table `c`. -/
theorem copyKernelHalf_spec (s₀ : VMState) {c k : Nat} (n : Nat) (hc : IsFrameAddress c)
    (hk : IsFrameAddress k) (hck : c ≠ k) :
    ∀ {i : Nat} {s : VMState}, s.isInitialized = s₀.isInitialized → i + n ≤ 512 →
      (∀ t j, t % 4096 = 0 → (copyKernelHalf s (sVMGetVirtualTable s₀ c)
          (sVMGetVirtualTable s₀ k) i n).entry t j =
        if t = c ∧ i ≤ j.val ∧ j.val < i + n then s.entry k j else s.entry t j) ∧
      ∀ x, x / 4096 * 4096 ≠ c → (copyKernelHalf s (sVMGetVirtualTable s₀ c)
          (sVMGetVirtualTable s₀ k) i n).mem x = s.mem x := by
  -- Induction on the slots left; the loop has copied all slots before `i`.
  induction n with
  | zero =>
    intro i s _ _
    refine ⟨fun t j _ => ?_, fun _ _ => rfl⟩
    rw [if_neg (by omega)]
    rfl
  | succ n ih =>
    intro i s hinit hle
    obtain ⟨slot, hslot⟩ : ∃ slot : Fin 512, slot.val = i := ⟨⟨i, by omega⟩, rfl⟩
    -- One turn is one entry, read from one table and written to the other.
    have hstep : s.store (sVMGetVirtualTable s₀ c) i (s.load (sVMGetVirtualTable s₀ k) i) =
        s.setEntry c slot (s.entry k slot) := by
      rw [← hslot, load_eq_entry hinit hk.2, store_eq_setEntry hinit hc.2]
    have hv := entry_lt s k slot
    rw [copyKernelHalf, hstep]
    obtain ⟨hentry, hmem⟩ := ih (i := i + 1) (s := s.setEntry c slot (s.entry k slot)) hinit
      (by omega)
    refine ⟨fun t j ht => ?_, fun x hx => ?_⟩
    · have hkj : (s.setEntry c slot (s.entry k slot)).entry k j = s.entry k j := by
        rw [entry_setEntry s hv hc.1 hk.1, if_neg (fun e => hck e.1.symm)]
      rw [hentry t j ht, hkj, entry_setEntry s hv hc.1 ht]
      -- The slot of this turn is before those of the rest.
      by_cases hj : t = c ∧ j = slot
      · obtain ⟨rfl, rfl⟩ := hj
        rw [if_neg (by omega), if_pos ⟨rfl, rfl⟩, if_pos ⟨rfl, by omega, by omega⟩]
      · rw [if_neg hj]
        have hne : t = c → j.val ≠ i := fun e e' => hj ⟨e, Fin.ext (e'.trans hslot.symm)⟩
        refine if_congr ⟨?_, ?_⟩ rfl rfl
        · rintro ⟨rfl, h₁, h₂⟩
          exact ⟨rfl, by omega, by omega⟩
        · rintro ⟨rfl, h₁, h₂⟩
          have := hne rfl
          exact ⟨rfl, by omega, by omega⟩
    · rw [hmem x hx, mem_setEntry_outside s _ _ hc.1 hx]

/-! ## Section 2: The new root -/

/-- `s'` is `s` with the additional root `c`. -/
structure AddsRoot (roots : List Nat) (role : Roles) (s : VMState) (c : Nat) (s' : VMState) :
    Prop where
  wellFormed : WellFormed (c :: roots) (Function.update role c (some (.table c []))) s'
  fresh : role c = none
  free : s.pmm.FrameFree (c / kVMPageSize)
  kernelPML4_eq : s'.kernelPML4 = s.kernelPML4
  isInitialized_eq : s'.isInitialized = s.isInitialized
  freeCount_eq : s.pmm.freeCount = s'.pmm.freeCount + 1
  free_of_free : ∀ {f}, s'.pmm.FrameFree f → s.pmm.FrameFree f
  entry_eq : ∀ {t i}, t % 4096 = 0 → t ≠ c → s'.entry t i = s.entry t i
  entry_new : ∀ i, s'.entry c i = if i.val < 256 then 0 else s.entry s.kernelPML4 i
  mem_eq : ∀ {x}, x / 4096 * 4096 ≠ c → s'.mem x = s.mem x

/-- A frame without a role becomes the root of a forest whose new links are
the kernel's. -/
theorem WellFormed.addRoot (h : WellFormed roots role s) {c : Nat} (hfresh : role c = none)
    (hframe : IsFrameAddress c) (hck : c ≠ s.kernelPML4) (hkernel : s'.kernelPML4 = s.kernelPML4)
    (hold : ∀ {t i}, t % 4096 = 0 → t ≠ c → s'.entry t i = s.entry t i)
    (hnew : ∀ i, s'.entry c i = if i.val < 256 then 0 else s.entry s.kernelPML4 i)
    (hfree : ∀ {f}, s'.pmm.FrameFree f → s.pmm.FrameFree f)
    (hnot : ¬ s'.pmm.FrameFree (c / kVMPageSize)) :
    WellFormed (c :: roots) (Function.update role c (some (.table c []))) s' := by
  have hlift : ∀ {a x}, role a = some x →
      Function.update role c (some (.table c [])) a = some x ∧ a ≠ c := by
    intro a x ha
    have hac : a ≠ c := by
      rintro rfl
      rw [hfresh] at ha
      exact absurd ha (by simp)
    exact ⟨by rwa [Function.update_of_ne hac], hac⟩
  have hsplit : ∀ {a x}, Function.update role c (some (.table c [])) a = some x →
      (a = c ∧ x = .table c []) ∨ (a ≠ c ∧ role a = some x) := by
    intro a x ha
    by_cases hac : a = c
    · subst hac
      rw [Function.update_self] at ha
      exact .inl ⟨rfl, (Option.some.inj ha).symm⟩
    · rw [Function.update_of_ne hac] at ha
      exact .inr ⟨hac, ha⟩
  have hentry : ∀ {t r p i}, role t = some (.table r p) → s'.entry t i = s.entry t i :=
    fun ht => hold (h.table_frame ht).1 (hlift ht).2
  -- the empty path belongs to the new root, every other one to an old table
  have hroot : ∀ {t}, role t ≠ some (.table c []) := by
    intro t ht
    obtain rfl := h.root_self ht
    rw [hfresh] at ht
    exact absurd ht (by simp)
  exact {
    kernel_root := by
      rw [hkernel]
      exact List.mem_cons_of_mem _ h.kernel_root
    root_role := by
      intro r hr
      rcases List.mem_cons.mp hr with rfl | hr
      · exact Function.update_self ..
      · exact (hlift (h.root_role hr)).1
    root_self := by
      intro t r ht
      rcases hsplit ht with ⟨rfl, hx⟩ | ⟨-, ht'⟩
      · simpa using hx.symm
      · exact h.root_self ht'
    path_length := by
      intro t r p ht
      rcases hsplit ht with ⟨-, hx⟩ | ⟨-, ht'⟩
      · simp only [FrameRole.table.injEq] at hx
        simp [hx.2]
      · exact h.path_length ht'
    child_role := by
      intro t r p i x ht hp hx
      rw [hkernel]
      rcases hsplit ht with ⟨rfl, hrole⟩ | ⟨-, ht'⟩
      · simp only [FrameRole.table.injEq] at hrole
        obtain ⟨rfl, rfl⟩ := hrole
        rw [hnew i] at hx
        by_cases hi : i.val < 256
        · rw [if_pos hi, childTable_zero] at hx
          exact absurd hx (by simp)
        · rw [if_neg hi] at hx
          obtain ⟨r', hr', hvia⟩ := h.child_role (h.root_role h.kernel_root) (by simp) hx
          refine ⟨r', (hlift hr').1, .inr ⟨rfl, by omega, ?_⟩⟩
          rcases hvia with rfl | ⟨-, -, rfl⟩ <;> rfl
      · rw [hentry ht'] at hx
        obtain ⟨r', hr', hvia⟩ := h.child_role ht' hp hx
        exact ⟨r', (hlift hr').1, hvia⟩
    parent_role := by
      intro x r p i hx
      rcases hsplit hx with ⟨-, hrole⟩ | ⟨-, hx'⟩
      · simp at hrole
      · obtain ⟨t, ht, hchild⟩ := h.parent_role hx'
        exact ⟨t, (hlift ht).1, by rwa [hentry ht]⟩
    role_inj := by
      intro a b r p ha hb
      rcases hsplit ha with ⟨rfl, hxa⟩ | ⟨-, ha'⟩ <;> rcases hsplit hb with ⟨rfl, hxb⟩ | ⟨-, hb'⟩
      · rfl
      · rw [hxa] at hb'
        exact absurd hb' hroot
      · rw [hxb] at ha'
        exact absurd ha' hroot
      · exact h.role_inj ha' hb'
    table_frame := by
      intro t r p ht
      rcases hsplit ht with ⟨rfl, -⟩ | ⟨-, ht'⟩
      · exact hframe
      · exact h.table_frame ht'
    role_notFree := by
      intro t x ht
      rcases hsplit ht with ⟨rfl, -⟩ | ⟨-, ht'⟩
      · exact hnot
      · exact fun hg => h.role_notFree ht' (hfree hg)
    free_frame := fun hg => h.free_frame (hfree hg) }

/-- What `VMVirtualMemoryCreateAddressSpace` does: it fails without a free
frame, and otherwise adds a root. -/
theorem createAddressSpace_cases (h : WellFormed roots role s) (hinit : s.isInitialized = true) :
    (s.pmm.freeCount = 0 ∧ vmVirtualMemoryCreateAddressSpace s = (0, s)) ∨
    ∃ c s', vmVirtualMemoryCreateAddressSpace s = (c, s') ∧ c ≠ 0 ∧ AddsRoot roots role s c s' := by
  have hkframe := h.table_frame (h.root_role h.kernel_root)
  rcases allocatePage_state_cases s with ⟨hfull, heq⟩ |
    ⟨f, s₁, hf, heq, hmem, hkernel, hinit₁, -, -, hfree⟩
  · refine .inl ⟨freeCount_eq_zero_iff.mpr hfull, ?_⟩
    rw [vmVirtualMemoryCreateAddressSpace, heq]
    rfl
  -- The frame is nobody's table, so the kernel's table is another one.
  obtain ⟨hcnone, hcframe, hc0⟩ := h.free_address hf
  have hcf : f * kVMPageSize / kVMPageSize = f := Nat.mul_div_cancel _ (by decide)
  generalize f * kVMPageSize = c at *
  have hvirt : physToHhdm c = sVMGetVirtualTable (s₁.zeroPage c) c := by
    rw [sVMGetVirtualTable, zeroPage_isInitialized, hinit₁, hinit, if_pos rfl]
  have hclear : s₁.clearPage (physToHhdm c) = s₁.zeroPage c := by
    rw [hvirt]
    exact clearPage_eq_zeroPage (by simp) hcframe.2
  have hck : c ≠ s.kernelPML4 := by
    rintro rfl
    rw [h.root_role h.kernel_root] at hcnone
    exact absurd hcnone (by simp)
  obtain ⟨hentry, hmem'⟩ := copyKernelHalf_spec (s₁.zeroPage c) 256 hcframe hkframe hck
    (i := 256) (s := s₁.zeroPage c) rfl (by omega)
  refine .inr ⟨c, copyKernelHalf (s₁.zeroPage c) (sVMGetVirtualTable (s₁.zeroPage c) c)
    (sVMGetVirtualTable (s₁.zeroPage c) s.kernelPML4) 256 256, ?_, hc0, ?_⟩
  · rw [vmVirtualMemoryCreateAddressSpace, heq]
    simp only [if_neg hc0, hclear]
    rw [zeroPage_kernelPML4, hkernel, hvirt]
  -- Clearing and copying touch memory only.
  have hs'free : (copyKernelHalf (s₁.zeroPage c) (sVMGetVirtualTable (s₁.zeroPage c) c)
      (sVMGetVirtualTable (s₁.zeroPage c) s.kernelPML4) 256 256).pmm = s₁.pmm := by simp
  have hs'kernel : (copyKernelHalf (s₁.zeroPage c) (sVMGetVirtualTable (s₁.zeroPage c) c)
      (sVMGetVirtualTable (s₁.zeroPage c) s.kernelPML4) 256 256).kernelPML4 = s.kernelPML4 := by
    simp [hkernel]
  have hs'init : (copyKernelHalf (s₁.zeroPage c) (sVMGetVirtualTable (s₁.zeroPage c) c)
      (sVMGetVirtualTable (s₁.zeroPage c) s.kernelPML4) 256 256).isInitialized =
      s.isInitialized := by simp [hinit₁]
  generalize copyKernelHalf (s₁.zeroPage c) (sVMGetVirtualTable (s₁.zeroPage c) c)
    (sVMGetVirtualTable (s₁.zeroPage c) s.kernelPML4) 256 256 = s' at *
  -- No other table is written.
  have hold : ∀ {t i}, t % 4096 = 0 → t ≠ c → s'.entry t i = s.entry t i := by
    intro t i ht htc
    rw [hentry t i ht, if_neg (fun e => htc e.1), entry_zeroPage_ne s₁ i hcframe.1 ht htc,
      entry_congr hmem]
  -- The new table is empty below and a copy of the kernel's above.
  have hnew : ∀ i, s'.entry c i = if i.val < 256 then 0 else s.entry s.kernelPML4 i := by
    intro i
    rw [hentry c i hcframe.1]
    by_cases hi : i.val < 256
    · rw [if_neg (by omega), if_pos hi, entry_zeroPage_same]
    · rw [if_pos ⟨rfl, by omega, by omega⟩, if_neg hi,
        entry_zeroPage_ne s₁ i hcframe.1 hkframe.1 (Ne.symm hck), entry_congr hmem]
  have hfree' : ∀ g, s'.pmm.FrameFree g ↔ s.pmm.FrameFree g ∧ g ≠ f := by
    intro g
    rw [hs'free, hfree g]
  exact {
    wellFormed := h.addRoot hcnone hcframe hck hs'kernel hold hnew
      (fun hg => ((hfree' _).mp hg).1) (fun hg => ((hfree' _).mp hg).2 hcf)
    fresh := hcnone
    free := (congrArg s.pmm.FrameFree hcf).mpr hf
    kernelPML4_eq := hs'kernel
    isInitialized_eq := hs'init
    freeCount_eq := freeCount_of_erase hf hfree'
    free_of_free := fun hg => ((hfree' _).mp hg).1
    entry_eq := hold
    entry_new := hnew
    mem_eq := fun {x} hx => by
      rw [hmem' x hx, mem_zeroPage_outside s₁ hcframe.1 hx, hmem] }

/-! ## Section 3: Walks after a root was added -/

namespace AddsRoot

variable {c : Nat}

theorem entry_of_role (h : AddsRoot roots role s c s') (hwf : WellFormed roots role s) {t r : Nat}
    {p : List (Fin 512)} (ht : role t = some (.table r p)) (i : Fin 512) :
    s'.entry t i = s.entry t i := by
  refine h.entry_eq (hwf.table_frame ht).1 ?_
  rintro rfl
  rw [h.fresh] at ht
  exact absurd ht (by simp)

theorem entry_at (h : AddsRoot roots role s c s') (hwf : WellFormed roots role s) (n t : Nat)
    (i : Fin 512) (ht : TableAt role n t) : s'.entry t i = s.entry t i := by
  obtain ⟨r, p, hrole, -⟩ := ht
  exact h.entry_of_role hwf hrole i

theorem follow_old (h : AddsRoot roots role s c s') (hwf : WellFormed roots role s) {r : Nat}
    (hr : r ∈ roots) {is : List (Fin 512)} (his : is.length ≤ 3) :
    follow childTable s'.entry r is = follow childTable s.entry r is :=
  follow_congr hwf.stratified (fun _ t i ht => by rw [h.entry_at hwf _ t i ht]) (hwf.root_at hr) his

theorem upperUser_old (h : AddsRoot roots role s c s') (hwf : WellFormed roots role s) {r : Nat}
    (hr : r ∈ roots) (virt : Nat) : s'.UpperUser r virt ↔ s.UpperUser r virt :=
  allAlong_congr hwf.stratified (fun _ t i ht => h.entry_at hwf _ t i ht) (hwf.root_at hr)
    (by simp [upperPath_length])

theorem walk_old (h : AddsRoot roots role s c s') (hwf : WellFormed roots role s) {r : Nat}
    (hr : r ∈ roots) (virt : Nat) : s'.walk r virt = s.walk r virt := by
  have hleaf : s'.leafTable r virt = s.leafTable r virt :=
    h.follow_old hwf hr (by simp [upperPath_length])
  rw [VMState.walk, VMState.walk, hleaf]
  cases hpt : s.leafTable r virt with
  | none => rw [Option.bind_none, Option.bind_none]
  | some pt =>
    obtain ⟨r', hrole, -⟩ := hwf.leafTable_role hr hpt
    rw [Option.bind_some, Option.bind_some, h.entry_of_role hwf hrole]

/-- The lower half of the new address space maps nothing. -/
theorem childTable_new (h : AddsRoot roots role s c s') (i : Fin 512) :
    childTable (s'.entry c i) =
      if i.val < 256 then none else childTable (s.entry s.kernelPML4 i) := by
  rw [h.entry_new i]
  split <;> rfl

theorem leafTable_new (h : AddsRoot roots role s c s') {virt : Nat} (hv : ¬ KernelHalf virt) :
    s'.leafTable c virt = none := by
  rw [VMState.leafTable, upperPath, follow_cons, h.childTable_new, if_pos, Option.bind_none]
  exact Nat.lt_of_not_le hv

theorem walk_new (h : AddsRoot roots role s c s') {virt : Nat} (hv : ¬ KernelHalf virt) :
    s'.walk c virt = none := by
  rw [VMState.walk, h.leafTable_new hv, Option.bind_none]

/-- The upper half of the new address space is the kernel's of that moment. -/
theorem walk_new_kernelHalf (h : AddsRoot roots role s c s') (hwf : WellFormed roots role s)
    {virt : Nat} (hv : KernelHalf virt) : s'.walk c virt = s.walk s.kernelPML4 virt := by
  have hslot : childTable (s'.entry c (pml4Slot virt)) =
      childTable (s'.entry s.kernelPML4 (pml4Slot virt)) := by
    rw [h.childTable_new, if_neg (Nat.not_lt.mpr hv),
      h.entry_of_role hwf (hwf.root_role hwf.kernel_root)]
  have hleaf : s'.leafTable c virt = s'.leafTable s.kernelPML4 virt := by
    rw [VMState.leafTable, VMState.leafTable, upperPath, follow_cons, follow_cons, hslot]
  rw [← h.walk_old hwf hwf.kernel_root, VMState.walk, VMState.walk, hleaf]

theorem not_mem (h : AddsRoot roots role s c s') (hwf : WellFormed roots role s) : c ∉ roots := by
  intro hc
  have hrole := hwf.root_role hc
  rw [h.fresh] at hrole
  exact absurd hrole (by simp)

end AddsRoot

end TermOS.VM
