import TermOS.VM.PageTable

/-!
# What the table operations do to the forest

`descendOrCreate` either keeps a link, links a fresh empty table or changes
nothing. In every case the forest grows: it stays well formed, no walk of any
address space changes, and no frame becomes free. Mapping a page is three such
steps and one write into a leaf table.
-/

namespace TermOS.VM

open TermOS.Lib TermOS.Kernel TermOS.Lib.TableForest VMState

/-- Which links may be new: slot `i` of the table of address space `root` at
the end of `path`. -/
abbrev Links := Nat → List (Fin 512) → Fin 512 → Prop

variable {roots : List Nat} {New : Links} {role role' : Roles} {s s' : VMState}

/-! ## Section 1: Growth -/

/-- From `s` to `s'` tables were added and USER bits set, and nothing that a
walk of one of the `roots` can see has changed. Every link of `s'` is a link
of `s`, or one of `New` that leads to a fresh table. -/
structure Grows (roots : List Nat) (New : Links) (role : Roles) (s : VMState) (role' : Roles)
    (s' : VMState) : Prop where
  wellFormed : WellFormed roots role' s'
  kernelPML4_eq : s'.kernelPML4 = s.kernelPML4
  isInitialized_eq : s'.isInitialized = s.isInitialized
  role_keep : ∀ {a x}, role a = some x → role' a = some x
  role_new : ∀ {a x}, role' a = some x → role a = some x ∨
    (s.pmm.FrameFree (a / kVMPageSize) ∧ ∃ r p, x = .table r p)
  link_old : ∀ {t r p i c}, role' t = some (.table r p) → p.length < 3 →
    childTable (s'.entry t i) = some c →
    (role t = some (.table r p) ∧ childTable (s.entry t i) = some c) ∨
      (New r p i ∧ role c = none)
  follow_keep : ∀ {r is c}, r ∈ roots → is.length ≤ 3 →
    follow childTable s.entry r is = some c → follow childTable s'.entry r is = some c
  along_keep : ∀ {r is c}, r ∈ roots → is.length ≤ 3 →
    follow childTable s.entry r is = some c →
    AllAlong childTable UserEntry s.entry r is →
    AllAlong childTable UserEntry s'.entry r is
  walk_eq : ∀ {r}, r ∈ roots → ∀ virt, s'.walk r virt = s.walk r virt
  writable : LinksWritable role s → LinksWritable role' s'
  free_of_free : ∀ {f}, s'.pmm.FrameFree f → s.pmm.FrameFree f
  mem_eq : ∀ {x}, (∀ r p, role' (x / 4096 * 4096) ≠ some (.table r p)) → s'.mem x = s.mem x

theorem Grows.refl (h : WellFormed roots role s) : Grows roots New role s role s where
  wellFormed := h
  kernelPML4_eq := rfl
  isInitialized_eq := rfl
  role_keep := id
  role_new := .inl
  link_old := fun ht _ hc => .inl ⟨ht, hc⟩
  follow_keep := fun _ _ => id
  along_keep := fun _ _ _ => id
  walk_eq := fun _ _ => rfl
  writable := id
  free_of_free := id
  mem_eq := fun _ => rfl

theorem Grows.trans {role'' : Roles} {s'' : VMState} (h₁ : Grows roots New role s role' s')
    (h₂ : Grows roots New role' s' role'' s'') : Grows roots New role s role'' s'' where
  wellFormed := h₂.wellFormed
  kernelPML4_eq := h₂.kernelPML4_eq.trans h₁.kernelPML4_eq
  isInitialized_eq := h₂.isInitialized_eq.trans h₁.isInitialized_eq
  role_keep := fun h => h₂.role_keep (h₁.role_keep h)
  role_new := fun h => by
    rcases h₂.role_new h with h' | ⟨hfree, hx⟩
    · exact h₁.role_new h'
    · exact .inr ⟨h₁.free_of_free hfree, hx⟩
  link_old := fun ht hp hc => by
    rcases h₂.link_old ht hp hc with ⟨ht', hc'⟩ | ⟨hnew, hfresh⟩
    · exact h₁.link_old ht' hp hc'
    · refine .inr ⟨hnew, Option.eq_none_iff_forall_ne_some.mpr fun x hx => ?_⟩
      rw [h₁.role_keep hx] at hfresh
      exact absurd hfresh (by simp)
  follow_keep := fun hr his h => h₂.follow_keep hr his (h₁.follow_keep hr his h)
  along_keep := fun hr his hc h =>
    h₂.along_keep hr his (h₁.follow_keep hr his hc) (h₁.along_keep hr his hc h)
  walk_eq := fun hr virt => (h₂.walk_eq hr virt).trans (h₁.walk_eq hr virt)
  writable := fun h => h₂.writable (h₁.writable h)
  free_of_free := fun h => h₁.free_of_free (h₂.free_of_free h)
  mem_eq := fun {x} hx => by
    refine (h₂.mem_eq hx).trans (h₁.mem_eq fun r p hrole => ?_)
    exact hx r p (h₂.role_keep hrole)

theorem Grows.mono {New' : Links} (h : Grows roots New role s role' s')
    (hsub : ∀ r p i, New r p i → New' r p i) : Grows roots New' role s role' s' :=
  { h with
    link_old := fun ht hp hc => (h.link_old ht hp hc).imp_right (And.imp_left (hsub _ _ _)) }

/-! ## Section 2: Allocation -/

/-- What allocating a page does to the whole state. -/
theorem allocatePage_state_cases (s : VMState) :
    ((∀ f, ¬ s.pmm.FrameFree f) ∧ s.allocatePage = (0, s)) ∨
    ∃ f s₁, s.pmm.FrameFree f ∧ s.allocatePage = (f * kVMPageSize, s₁) ∧
      s₁.mem = s.mem ∧ s₁.kernelPML4 = s.kernelPML4 ∧ s₁.isInitialized = s.isInitialized ∧
      s₁.pmm.totalMemorySize = s.pmm.totalMemorySize ∧
      s₁.pmm.bitmap.length = s.pmm.bitmap.length ∧
      ∀ g, s₁.pmm.FrameFree g ↔ s.pmm.FrameFree g ∧ g ≠ f := by
  rcases allocatePage_cases s.pmm with ⟨hnone, heq⟩ | ⟨f, hf, -, haddr, htotal, -, hlen, hfree⟩
  · exact .inl ⟨hnone, by simp [VMState.allocatePage, heq]⟩
  · exact .inr ⟨f, _, hf, Prod.ext haddr rfl, rfl, rfl, rfl, htotal, hlen, hfree⟩

/-- A state with the same tables and fewer free frames is as well formed. -/
theorem WellFormed.of_allocated (h : WellFormed roots role s) (hmem : s'.mem = s.mem)
    (hkernel : s'.kernelPML4 = s.kernelPML4)
    (hfree : ∀ f, s'.pmm.FrameFree f → s.pmm.FrameFree f) : WellFormed roots role s' :=
  h.of_links hkernel (hfree _) fun _ _ => by rw [entry_congr hmem]

theorem WellFormed.of_perm {roots' : List Nat} (h : WellFormed roots role s)
    (hperm : roots.Perm roots') : WellFormed roots' role s :=
  { h with
    kernel_root := hperm.mem_iff.mp h.kernel_root
    root_role := fun hr => h.root_role (hperm.mem_iff.mpr hr) }

/-- An allocated frame without a role can be given one, as long as it is not a
table. -/
theorem WellFormed.assign (h : WellFormed roots role s) {a : Nat} {x : FrameRole}
    (hnone : role a = none) (hx : ∀ r p, x ≠ .table r p)
    (hfree : ¬ s.pmm.FrameFree (a / kVMPageSize)) :
    WellFormed roots (Function.update role a (some x)) s := by
  have hkeep : ∀ {b r p}, Function.update role a (some x) b = some (.table r p) →
      role b = some (.table r p) := by
    intro b r p hb
    by_cases hba : b = a
    · subst hba
      rw [Function.update_self] at hb
      exact absurd (Option.some.inj hb) (hx r p)
    · rwa [Function.update_of_ne hba] at hb
  have hlift : ∀ {b r p}, role b = some (.table r p) →
      Function.update role a (some x) b = some (.table r p) := by
    intro b r p hb
    have hba : b ≠ a := by
      rintro rfl
      rw [hnone] at hb
      exact absurd hb (by simp)
    rwa [Function.update_of_ne hba]
  exact {
    kernel_root := h.kernel_root
    root_role := fun hr => hlift (h.root_role hr)
    root_self := fun ht => h.root_self (hkeep ht)
    path_length := fun ht => h.path_length (hkeep ht)
    child_role := fun ht hp hc => by
      obtain ⟨r', hr', hvia⟩ := h.child_role (hkeep ht) hp hc
      exact ⟨r', hlift hr', hvia⟩
    parent_role := fun hc => by
      obtain ⟨t, ht, hchild⟩ := h.parent_role (hkeep hc)
      exact ⟨t, hlift ht, hchild⟩
    role_inj := fun ht ht' => h.role_inj (hkeep ht) (hkeep ht')
    table_frame := fun ht => h.table_frame (hkeep ht)
    role_notFree := by
      intro t y ht
      by_cases hta : t = a
      · exact hta ▸ hfree
      · rw [Function.update_of_ne hta] at ht
        exact h.role_notFree ht
    free_frame := h.free_frame }

/-- Address of a free frame: it has no role, and it can hold a table. -/
theorem WellFormed.free_address (h : WellFormed roots role s) {f : Nat} (hf : s.pmm.FrameFree f) :
    role (f * kVMPageSize) = none ∧ IsFrameAddress (f * kVMPageSize) ∧ f * kVMPageSize ≠ 0 := by
  obtain ⟨hne, hlt⟩ := h.free_frame hf
  refine ⟨?_, ⟨by simp only [kVMPageSize]; omega, hlt⟩, by simp only [kVMPageSize]; omega⟩
  cases hrole : role (f * kVMPageSize) with
  | none => rfl
  | some x =>
    have hnot := h.role_notFree hrole
    rw [Nat.mul_div_cancel _ (by decide)] at hnot
    exact absurd hf hnot

/-- A table has one role. -/
theorem table_role_inj {t r r' : Nat} {p p' : List (Fin 512)} (h : role t = some (.table r p))
    (h' : role t = some (.table r' p')) : r = r' ∧ p = p' := by
  rw [h] at h'
  simpa using h'

/-- A leaf table is at depth 3, so it is not one of the upper tables. -/
theorem WellFormed.leafTable_ne (h : WellFormed roots role s) {r₀ virt pt t r : Nat}
    {p : List (Fin 512)} (hr₀ : r₀ ∈ roots) (hpt : s.leafTable r₀ virt = some pt)
    (ht : role t = some (.table r p)) (hp : p.length < 3) : pt ≠ t := by
  rintro rfl
  obtain ⟨r₁, hrole, -⟩ := h.leafTable_role hr₀ hpt
  obtain ⟨-, rfl⟩ := table_role_inj ht hrole
  exact absurd hp (by simp [upperPath_length])

/-! ## Section 3: Entry writes that keep every child -/

/-- Entries change only in the USER bit of present upper entries. -/
theorem Grows.of_orUser (h : WellFormed roots role s) {t r : Nat} {p : List (Fin 512)}
    {i : Fin 512} (ht : role t = some (.table r p)) (hp : p.length < 3) (flags : Nat) :
    Grows roots New role s role (s.setEntry t i (s.entry t i ||| (flags &&& pteUser))) := by
  set s' := s.setEntry t i (s.entry t i ||| (flags &&& pteUser)) with hs'
  have hframe := h.table_frame ht
  have hv : s.entry t i ||| (flags &&& pteUser) < 2 ^ 64 :=
    or_lt_word (entry_lt s t i) (isFlagWord_user flags).1
  have hentry : ∀ {t' i'}, (∃ r' p', role t' = some (.table r' p')) →
      s'.entry t' i' = if t' = t ∧ i' = i then s.entry t i ||| (flags &&& pteUser)
        else s.entry t' i' := by
    rintro t' i' ⟨r', p', ht'⟩
    exact entry_setEntry s hv hframe.1 (h.table_frame ht').1
  have hchild : ∀ {t' i'}, (∃ r' p', role t' = some (.table r' p')) →
      childTable (s'.entry t' i') = childTable (s.entry t' i') := by
    intro t' i' ht'
    rw [hentry ht']
    split
    · next heq => rw [heq.1, heq.2, childTable_or_user]
    · rfl
  have hchildAt : ∀ n t' i', TableAt role (n + 1) t' →
      childTable (s'.entry t' i') = childTable (s.entry t' i') := by
    rintro n t' i' ⟨r', p', ht', -⟩
    exact hchild ⟨r', p', ht'⟩
  have hfollow : ∀ {r' is}, r' ∈ roots → is.length ≤ 3 →
      follow childTable s'.entry r' is = follow childTable s.entry r' is :=
    fun hr' his => follow_congr h.stratified hchildAt (h.root_at hr') his
  have hkeep : ∀ n t' i' c', TableAt role (n + 1) t' → childTable (s.entry t' i') = some c' →
      childTable (s'.entry t' i') = some c' :=
    fun n t' i' c' ht' hc' => (hchildAt n t' i' ht').trans hc'
  have huser : ∀ n t' i' c', TableAt role (n + 1) t' → childTable (s.entry t' i') = some c' →
      UserEntry (s.entry t' i') → UserEntry (s'.entry t' i') := by
    rintro n t' i' c' ⟨r', p', ht', -⟩ - hbit
    rw [hentry ⟨r', p', ht'⟩]
    split
    · next heq =>
      rw [heq.1, heq.2] at hbit
      exact (or_user_and_user _ _).mpr (.inl hbit)
    · exact hbit
  refine {
    wellFormed := ?_
    kernelPML4_eq := rfl
    isInitialized_eq := rfl
    role_keep := id
    role_new := .inl
    link_old := fun ht' _ hc' => .inl ⟨ht', (hchild ⟨_, _, ht'⟩).symm.trans hc'⟩
    follow_keep := fun hr his hx => (hfollow hr his).trans hx
    along_keep := fun hr his hx hall =>
      allAlong_keep h.stratified hkeep huser (h.root_at hr) his hx hall
    walk_eq := ?_
    writable := ?_
    free_of_free := id
    mem_eq := ?_ }
  · exact h.of_links rfl id fun ht' _ => hchild ⟨_, _, ht'⟩
  · intro r' hr' virt
    -- the leaf table is at depth 3, so it is not the table that was written
    have hleaf : s'.leafTable r' virt = s.leafTable r' virt := hfollow hr' (by simp [upperPath_length])
    rw [VMState.walk, VMState.walk, hleaf]
    cases hpt : s.leafTable r' virt with
    | none => rw [Option.bind_none, Option.bind_none]
    | some pt =>
      obtain ⟨r₁, hrole, -⟩ := h.leafTable_role hr' hpt
      have hne : pt ≠ t := h.leafTable_ne hr' hpt ht hp
      rw [Option.bind_some, Option.bind_some, hentry ⟨_, _, hrole⟩,
        if_neg (fun heq => hne heq.1)]
  · intro hw t' r' p' i' c' ht' hp' hc'
    have hbit := hw t' r' p' i' c' ht' hp' ((hchild ⟨_, _, ht'⟩).symm.trans hc')
    rw [hentry ⟨_, _, ht'⟩]
    split
    · next heq =>
      rw [heq.1, heq.2] at hbit
      rwa [WritableEntry, or_user_and_rw]
    · exact hbit
  · intro x hx
    have hxt : x / 4096 * 4096 ≠ t := by
      intro heq
      rw [heq] at hx
      exact hx r p ht
    rw [hs', mem_setEntry_outside _ _ _ hframe.1 hxt]

/-! ## Section 4: Linking a fresh table -/

/-- `s'` is `s` with the fresh, empty table `c` in the vacant slot `i` of `t`,
the table of address space `r` at the end of `p`. -/
structure LinksTable (role : Roles) (s : VMState) (t r : Nat) (p : List (Fin 512)) (i : Fin 512)
    (c : Nat) (s' : VMState) : Prop where
  table : role t = some (.table r p)
  upper : p.length < 3
  vacant : childTable (s.entry t i) = none
  free : s.pmm.FrameFree (c / kVMPageSize)
  fresh : role c = none
  frame : IsFrameAddress c
  entry_slot : ∃ flags, s'.entry t i = c ||| tableFlags flags
  entry_old : ∀ {t' r' p' i'}, role t' = some (.table r' p') → ¬ (t' = t ∧ i' = i) →
    s'.entry t' i' = s.entry t' i'
  entry_new : ∀ i', s'.entry c i' = 0
  kernelPML4_eq : s'.kernelPML4 = s.kernelPML4
  isInitialized_eq : s'.isInitialized = s.isInitialized
  free_iff : ∀ g, s'.pmm.FrameFree g ↔ s.pmm.FrameFree g ∧ g ≠ c / kVMPageSize
  mem_eq : ∀ {x}, x / 4096 * 4096 ≠ c → x / 4096 * 4096 ≠ t → s'.mem x = s.mem x

/-- The roles after the fresh table `c` has been linked. -/
abbrev Roles.link (role : Roles) (r : Nat) (p : List (Fin 512)) (i : Fin 512) (c : Nat) : Roles :=
  Function.update role c (some (.table r (p ++ [i])))

namespace LinksTable

variable {t r a c x : Nat} {p : List (Fin 512)} {i : Fin 512}

/-- The fresh page is cleared before it is linked. -/
theorem of_setEntry (h : WellFormed roots role s) (ht : role t = some (.table r p))
    (hp : p.length < 3) (hnone : childTable (s.entry t i) = none) {f : Nat}
    (hf : s.pmm.FrameFree f) {s₁ : VMState} (hmem : s₁.mem = s.mem)
    (hkernel : s₁.kernelPML4 = s.kernelPML4) (hinit : s₁.isInitialized = s.isInitialized)
    (hfree : ∀ g, s₁.pmm.FrameFree g ↔ s.pmm.FrameFree g ∧ g ≠ f) (flags : Nat) :
    LinksTable role s t r p i (f * kVMPageSize)
      ((s₁.zeroPage (f * kVMPageSize)).setEntry t i (f * kVMPageSize ||| tableFlags flags)) := by
  obtain ⟨hfresh, hcframe, -⟩ := h.free_address hf
  have hcf : f * kVMPageSize / kVMPageSize = f := Nat.mul_div_cancel _ (by decide)
  generalize f * kVMPageSize = c at *
  have hframe := h.table_frame ht
  have hne : ∀ {t' r' p'}, role t' = some (.table r' p') → t' ≠ c := by
    rintro t' r' p' ht' rfl
    rw [hfresh] at ht'
    cases ht'
  have hv : c ||| tableFlags flags < 2 ^ 64 :=
    or_lt_word (lt_trans hcframe.2 (by decide)) (isFlagWord_tableFlags flags).1
  -- of the old tables only the slot has changed: clearing wrote to a frame that is none
  have hentry : ∀ {t' r' p' i'}, role t' = some (.table r' p') →
      ((s₁.zeroPage c).setEntry t i (c ||| tableFlags flags)).entry t' i' =
        if t' = t ∧ i' = i then c ||| tableFlags flags else s.entry t' i' := by
    intro t' r' p' i' ht'
    rw [entry_setEntry _ hv hframe.1 (h.table_frame ht').1,
      entry_zeroPage_ne _ _ hcframe.1 (h.table_frame ht').1 (hne ht'), entry_congr hmem]
  exact {
    table := ht
    upper := hp
    vacant := hnone
    free := hcf.symm ▸ hf
    fresh := hfresh
    frame := hcframe
    entry_slot := ⟨flags, by rw [hentry ht, if_pos ⟨rfl, rfl⟩]⟩
    entry_old := fun ht' hother => by rw [hentry ht', if_neg hother]
    entry_new := by
      intro i'
      rw [entry_setEntry _ hv hframe.1 hcframe.1, if_neg (fun heq => hne ht heq.1.symm),
        entry_zeroPage_same]
    kernelPML4_eq := hkernel
    isInitialized_eq := hinit
    free_iff := by
      rw [hcf]
      exact hfree
    mem_eq := by
      intro x hxc hxt
      rw [mem_setEntry_outside _ _ _ hframe.1 hxt, mem_zeroPage_outside _ hcframe.1 hxc, hmem] }

theorem role_fresh : role.link r p i c c = some (.table r (p ++ [i])) := by
  rw [Roles.link, Function.update_self]

section Forest

variable (h : LinksTable role s t r p i c s')
include h

theorem role_old {x : FrameRole} (ha : role a = some x) : role.link r p i c a = some x := by
  have hac : a ≠ c := by
    rintro rfl
    rw [h.fresh] at ha
    cases ha
  rwa [Roles.link, Function.update_of_ne hac]

/-- The new table is the only change of the forest. -/
theorem role_cases {x : FrameRole} (ha : role.link r p i c a = some x) :
    (a = c ∧ x = .table r (p ++ [i])) ∨ role a = some x := by
  by_cases hac : a = c
  · subst hac
    rw [role_fresh] at ha
    exact .inl ⟨rfl, (Option.some.inj ha).symm⟩
  · rw [Roles.link, Function.update_of_ne hac] at ha
    exact .inr ha

theorem child_slot : childTable (s'.entry t i) = some c := by
  obtain ⟨flags, hslot⟩ := h.entry_slot
  rw [hslot, childTable_link h.frame]

theorem child_new (i' : Fin 512) : childTable (s'.entry c i') = none := by
  rw [h.entry_new]
  rfl

/-- A slot that had a child is not the one that was written. -/
theorem entry_keep {t' r' : Nat} {p' : List (Fin 512)} {i' : Fin 512}
    (ht' : role t' = some (.table r' p')) (hx : childTable (s.entry t' i') = some x) :
    s'.entry t' i' = s.entry t' i' := by
  apply h.entry_old ht'
  rintro ⟨rfl, rfl⟩
  rw [h.vacant] at hx
  cases hx

theorem child_keep {t' r' : Nat} {p' : List (Fin 512)} {i' : Fin 512}
    (ht' : role t' = some (.table r' p')) (hx : childTable (s.entry t' i') = some x) :
    childTable (s'.entry t' i') = some x := by
  rw [h.entry_keep ht' hx]
  exact hx

/-- A child is the fresh table in its slot, or it was one before. -/
theorem child_cases {t' r' : Nat} {p' : List (Fin 512)} {i' : Fin 512}
    (ht' : role t' = some (.table r' p')) (hx : childTable (s'.entry t' i') = some x) :
    (t' = t ∧ i' = i ∧ r' = r ∧ p' = p ∧ x = c) ∨ childTable (s.entry t' i') = some x := by
  by_cases heq : t' = t ∧ i' = i
  · obtain ⟨rfl, rfl⟩ := heq
    obtain ⟨rfl, rfl⟩ := table_role_inj ht' h.table
    rw [h.child_slot] at hx
    exact .inl ⟨rfl, rfl, rfl, rfl, (Option.some.inj hx).symm⟩
  · rw [h.entry_old ht' heq] at hx
    exact .inr hx

/-- What a walk that goes on past a table of the old forest relies on. -/
theorem keepAt (n t' : Nat) (i' : Fin 512) (x : Nat) (hat : TableAt role (n + 1) t')
    (hx : childTable (s.entry t' i') = some x) : childTable (s'.entry t' i') = some x := by
  obtain ⟨r', p', ht', -⟩ := hat
  exact h.child_keep ht' hx

theorem newAt (n t' : Nat) (i' : Fin 512) (y : Nat) (hat : TableAt role (n + 1) t')
    (hnone : childTable (s.entry t' i') = none) (hy : childTable (s'.entry t' i') = some y) :
    y = c := by
  obtain ⟨r', p', ht', -⟩ := hat
  rcases h.child_cases ht' hy with ⟨-, -, -, -, hyc⟩ | hold
  · exact hyc
  · rw [hnone] at hold
    cases hold

theorem userAt (n t' : Nat) (i' : Fin 512) (x : Nat) (hat : TableAt role (n + 1) t')
    (hx : childTable (s.entry t' i') = some x) (hbit : UserEntry (s.entry t' i')) :
    UserEntry (s'.entry t' i') := by
  obtain ⟨r', p', ht', -⟩ := hat
  rwa [h.entry_keep ht' hx]

/-- A table at the end of the new path would already be linked in the slot. -/
theorem path_unused (hforest : WellFormed roots role s) : role a ≠ some (.table r (p ++ [i])) := by
  intro ha
  obtain ⟨t', ht', hchild⟩ := hforest.parent_role ha
  obtain rfl := hforest.role_inj ht' h.table
  rw [h.vacant] at hchild
  cases hchild

theorem wellFormed (hforest : WellFormed roots role s) :
    WellFormed roots (role.link r p i c) s' where
  kernel_root := by
    rw [h.kernelPML4_eq]
    exact hforest.kernel_root
  root_role := fun hr => h.role_old (hforest.root_role hr)
  root_self := by
    intro a r' ha
    rcases h.role_cases ha with ⟨-, hrole⟩ | ha'
    · simp at hrole
    · exact hforest.root_self ha'
  path_length := by
    intro a r' p' ha
    rcases h.role_cases ha with ⟨-, hrole⟩ | ha'
    · obtain ⟨rfl, rfl⟩ := FrameRole.table.inj hrole
      have hupper := h.upper
      simp only [List.length_append, List.length_singleton]
      omega
    · exact hforest.path_length ha'
  child_role := by
    intro t' r' p' i' x ht' hp' hx
    rw [h.kernelPML4_eq]
    -- the fresh table has no children
    rcases h.role_cases ht' with ⟨rfl, -⟩ | ht''
    · rw [h.child_new] at hx
      cases hx
    · rcases h.child_cases ht'' hx with ⟨rfl, rfl, rfl, rfl, rfl⟩ | hold
      · exact ⟨_, role_fresh, .inl rfl⟩
      · obtain ⟨r'', hr'', hvia⟩ := hforest.child_role ht'' hp' hold
        exact ⟨r'', h.role_old hr'', hvia⟩
  parent_role := by
    intro x r' p' i' hx
    rcases h.role_cases hx with ⟨rfl, hrole⟩ | hx'
    · obtain ⟨rfl, hpath⟩ := FrameRole.table.inj hrole
      obtain ⟨rfl, hi⟩ := List.append_inj' hpath rfl
      obtain rfl : i' = i := by simpa using hi
      exact ⟨t, h.role_old h.table, h.child_slot⟩
    · obtain ⟨t', ht', hchild⟩ := hforest.parent_role hx'
      exact ⟨t', h.role_old ht', h.child_keep ht' hchild⟩
  role_inj := by
    intro a b r' p' ha hb
    rcases h.role_cases ha with ⟨rfl, hrole⟩ | ha' <;> rcases h.role_cases hb with ⟨rfl, hrole'⟩ | hb'
    · rfl
    · rw [hrole] at hb'
      exact absurd hb' (h.path_unused hforest)
    · rw [hrole'] at ha'
      exact absurd ha' (h.path_unused hforest)
    · exact hforest.role_inj ha' hb'
  table_frame := by
    intro a r' p' ha
    rcases h.role_cases ha with ⟨rfl, -⟩ | ha'
    · exact h.frame
    · exact hforest.table_frame ha'
  role_notFree := by
    intro a x ha hg
    obtain ⟨hg', hne⟩ := (h.free_iff _).mp hg
    rcases h.role_cases ha with ⟨rfl, -⟩ | ha'
    · exact hne rfl
    · exact hforest.role_notFree ha' hg'
  free_frame := fun hg => hforest.free_frame ((h.free_iff _).mp hg).1

/-- A leaf table that appears is the fresh one, which maps nothing. -/
theorem walk_eq (hforest : WellFormed roots role s) {r' : Nat} (hr' : r' ∈ roots) (virt : Nat) :
    s'.walk r' virt = s.walk r' virt := by
  have hpath : (upperPath virt).length ≤ 3 := by simp [upperPath_length]
  rw [VMState.walk, VMState.walk]
  -- a leaf table that was there is still the one, and was not written
  cases hpt : s.leafTable r' virt with
  | some pt =>
    have hpt' : s'.leafTable r' virt = some pt :=
      TableForest.follow_keep hforest.stratified h.keepAt (hforest.root_at hr') hpath hpt
    obtain ⟨r₁, hrole, -⟩ := hforest.leafTable_role hr' hpt
    have hne : pt ≠ t := hforest.leafTable_ne hr' hpt h.table h.upper
    rw [hpt', Option.bind_some, Option.bind_some, h.entry_old hrole (fun heq => hne heq.1)]
  | none =>
    cases hpt' : s'.leafTable r' virt with
    | none => rw [Option.bind_none, Option.bind_none]
    | some pt =>
      obtain rfl : pt = c :=
        follow_new hforest.stratified h.keepAt h.newAt h.child_new (hforest.root_at hr') hpath hpt
          hpt'
      rw [Option.bind_some, Option.bind_none, h.entry_new, decode_zero]

theorem writable (hw : LinksWritable role s) : LinksWritable (role.link r p i c) s' := by
  intro t' r' p' i' x ht' hp' hx
  rcases h.role_cases ht' with ⟨rfl, -⟩ | ht''
  · rw [h.child_new] at hx
    cases hx
  · rcases h.child_cases ht'' hx with ⟨rfl, rfl, -⟩ | hold
    -- the new link has the flags of a table
    · obtain ⟨flags, hslot⟩ := h.entry_slot
      rw [hslot, WritableEntry, or_and_flag h.frame (by decide)]
      exact tableFlags_rw flags
    · rw [h.entry_keep ht'' hold]
      exact hw t' r' p' i' x ht'' hp' hold

theorem grows (hforest : WellFormed roots role s) :
    Grows roots (fun r' p' i' => r' = r ∧ p' = p ∧ i' = i) role s (role.link r p i c) s' where
  wellFormed := h.wellFormed hforest
  kernelPML4_eq := h.kernelPML4_eq
  isInitialized_eq := h.isInitialized_eq
  role_keep := h.role_old
  role_new := by
    intro a x ha
    rcases h.role_cases ha with ⟨rfl, rfl⟩ | ha'
    · exact .inr ⟨h.free, r, p ++ [i], rfl⟩
    · exact .inl ha'
  link_old := by
    intro t' r' p' i' x ht' hp' hx
    rcases h.role_cases ht' with ⟨rfl, -⟩ | ht''
    · rw [h.child_new] at hx
      cases hx
    · rcases h.child_cases ht'' hx with ⟨-, rfl, rfl, rfl, rfl⟩ | hold
      · exact .inr ⟨⟨rfl, rfl, rfl⟩, h.fresh⟩
      · exact .inl ⟨ht'', hold⟩
  follow_keep := fun hr his hx =>
    TableForest.follow_keep hforest.stratified h.keepAt (hforest.root_at hr) his hx
  along_keep := fun hr his hx hall =>
    allAlong_keep hforest.stratified h.keepAt h.userAt (hforest.root_at hr) his hx hall
  walk_eq := h.walk_eq hforest
  writable := h.writable
  free_of_free := fun hg => ((h.free_iff _).mp hg).1
  mem_eq := by
    intro x hx
    apply h.mem_eq
    · intro heq
      exact hx r (p ++ [i]) (heq ▸ role_fresh)
    · intro heq
      exact hx r p (heq ▸ h.role_old h.table)

end Forest

end LinksTable

/-- Linking the fresh, empty table `c` into a slot that was not present. -/
theorem Grows.of_link (h : WellFormed roots role s) {t r : Nat} {p : List (Fin 512)} {i : Fin 512}
    (ht : role t = some (.table r p)) (hp : p.length < 3)
    (hnone : childTable (s.entry t i) = none) {f c : Nat} (hf : s.pmm.FrameFree f)
    (hc : c = f * kVMPageSize) {s₁ : VMState}
    (hmem : s₁.mem = s.mem) (hkernel : s₁.kernelPML4 = s.kernelPML4)
    (hinit : s₁.isInitialized = s.isInitialized)
    (hfree : ∀ g, s₁.pmm.FrameFree g ↔ s.pmm.FrameFree g ∧ g ≠ f) (flags : Nat) :
    Grows roots (fun r' p' i' => r' = r ∧ p' = p ∧ i' = i) role s
      (Function.update role c (some (.table r (p ++ [i]))))
      ((s₁.zeroPage c).setEntry t i (c ||| tableFlags flags)) := by
  subst hc
  exact (LinksTable.of_setEntry h ht hp hnone hf hmem hkernel hinit hfree flags).grows h

end TermOS.VM
