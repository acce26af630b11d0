import TermOS.VM.PageTableStep

/-!
# Mapping, unmapping and creating address spaces

One lemma for each operation of `VMM.c`: what it does to the forest of page
tables, to the walks of every address space and to the number of free frames.
-/

namespace TermOS.VM

open TermOS.Lib TermOS.Kernel TermOS.Lib.TableForest VMState

variable {roots : List Nat} {New : Links} {role role' : Roles} {s s' : VMState}

/-! ## Section 1: One level -/

/-- What one level of the walk does: it gives up without a free frame, follows
a link, or links a fresh empty table. -/
theorem descendOrCreate_cases (h : WellFormed roots role s) {t r : Nat} {p : List (Fin 512)}
    (ht : role t = some (.table r p)) (i : Fin 512) (flags : Nat) :
    (s.pmm.freeCount = 0 ∧ childTable (s.entry t i) = none ∧
      descendOrCreate s t i.val flags = (none, s)) ∨
    (∃ c, childTable (s.entry t i) = some c ∧ descendOrCreate s t i.val flags =
      (some c, s.setEntry t i (s.entry t i ||| (flags &&& pteUser)))) ∨
    ∃ f c, ∃ s₁ : VMState, s.pmm.FrameFree f ∧ c = f * kVMPageSize ∧ childTable (s.entry t i) = none ∧
      s₁.mem = s.mem ∧ s₁.kernelPML4 = s.kernelPML4 ∧ s₁.isInitialized = s.isInitialized ∧
      (∀ g, s₁.pmm.FrameFree g ↔ s.pmm.FrameFree g ∧ g ≠ f) ∧ s.allocatePage = (c, s₁) ∧
      descendOrCreate s t i.val flags =
        (some c, (s₁.zeroPage c).setEntry t i (c ||| tableFlags flags)) := by
  have htframe := h.table_frame ht
  have hload : s.load (sVMGetVirtualTable s t) i.val = s.entry t i :=
    load_eq_entry rfl htframe.2 i
  -- Without a link a frame is needed for the new table.
  by_cases hbit : s.entry t i &&& ptePresent = 0
  · have hnone : childTable (s.entry t i) = none := by rw [childTable, if_pos hbit]
    rcases allocatePage_state_cases s with ⟨hfull, heq⟩ |
      ⟨f, s₁, hf, heq, hmem, hkernel, hinit, -, -, hfree⟩
    · refine .inl ⟨freeCount_eq_zero_iff.mpr hfull, hnone, ?_⟩
      rw [descendOrCreate, hload, if_pos hbit, heq]
      rfl
    -- The frame becomes an empty table, and its link is read back as its address.
    · obtain ⟨-, hcframe, hc0⟩ := h.free_address hf
      refine .inr (.inr ⟨f, f * kVMPageSize, s₁, hf, rfl, hnone, hmem, hkernel, hinit, hfree, heq, ?_⟩)
      have hclear : s₁.clearPage (sVMGetVirtualTable s₁ (f * kVMPageSize)) =
          s₁.zeroPage (f * kVMPageSize) := clearPage_eq_zeroPage rfl hcframe.2
      have hlt : f * kVMPageSize ||| tableFlags flags < 2 ^ 64 :=
        or_lt_word (lt_trans hcframe.2 (by decide)) (isFlagWord_tableFlags flags).1
      rw [descendOrCreate, hload, if_pos hbit, heq]
      simp only [if_neg hc0, hclear]
      rw [store_eq_setEntry (by simp [hinit]) htframe.2, load_eq_entry (by simp [hinit]) htframe.2,
        entry_setEntry_same _ _ _ hlt, pteGetAddr_or hcframe (isFlagWord_tableFlags flags)]
  -- With a link the flag for ring 3 is added to it, which leaves the address.
  · refine .inr (.inl ⟨pteGetAddr (s.entry t i), by rw [childTable, if_neg hbit], ?_⟩)
    have hlt : s.entry t i ||| (flags &&& pteUser) < 2 ^ 64 :=
      or_lt_word (entry_lt s t i) (isFlagWord_user flags).1
    rw [descendOrCreate, hload, if_neg hbit]
    simp only
    rw [store_eq_setEntry rfl htframe.2, load_eq_entry (by simp) htframe.2,
      entry_setEntry_same _ _ _ hlt, pteGetAddr_or_user]

/-- The links that a walk along `path` from `root` may create. -/
def LinksAlong (root : Nat) (path : List (Fin 512)) : Links :=
  fun r p i => (p ++ [i]) <+: path ∧ (p = [] → r = root)

/-- A walk from `root` along `path` has come to `table` in state `s'`, after
the slots `done`, and the slots `todo` remain. `flags` are the walk's flags. -/
structure Descended (roots : List Nat) (root : Nat) (path : List (Fin 512)) (flags : Nat)
    (role : Roles) (s : VMState) (done : List (Fin 512)) (table : Nat) (todo : List (Fin 512))
    (role' : Roles) (s' : VMState) : Prop where
  grows : Grows roots (LinksAlong root path) role s role' s'
  path_eq : path = done ++ todo
  reached : follow childTable s'.entry root done = some table
  user : UserEntry flags → AllAlong childTable UserEntry s'.entry root done
  frames : s.pmm.freeCount + missing childTable s'.entry table todo =
    s'.pmm.freeCount + missing childTable s.entry root path

theorem Descended.start (h : WellFormed roots role s) (root : Nat) (path : List (Fin 512))
    (flags : Nat) : Descended roots root path flags role s [] root path role s where
  grows := Grows.refl h
  path_eq := rfl
  reached := rfl
  user := fun _ => trivial
  frames := rfl

section Levels

variable {root t c flags : Nat} {path done todo : List (Fin 512)} {i : Fin 512}

/-- The table that the walk has come to, and the links it may create there. -/
theorem Descended.table_role (h : Descended roots root path flags role s done t (i :: todo) role' s')
    (hroot : root ∈ roots) (hlen : path.length = 3) :
    ∃ r, role' t = some (.table r done) ∧ done.length + todo.length = 2 ∧
      ∀ r' p' i', r' = r ∧ p' = done ∧ i' = i → LinksAlong root path r' p' i' := by
  have hwf := h.grows.wellFormed
  have hlen' : done.length + todo.length = 2 := by
    rw [h.path_eq] at hlen
    simp only [List.length_append, List.length_cons] at hlen
    omega
  obtain ⟨r, hrole, -⟩ := hwf.follow_role (hwf.root_role hroot) (by simp; omega) h.reached
  rw [List.nil_append] at hrole
  refine ⟨r, hrole, hlen', ?_⟩
  rintro r' p' i' ⟨rfl, rfl, rfl⟩
  refine ⟨⟨todo, by rw [h.path_eq]; simp⟩, ?_⟩
  rintro rfl
  have hback : role' t = some (.table root []) := by
    rw [← Option.some.inj h.reached]
    exact hwf.root_role hroot
  exact (table_role_inj hrole hback).1

/-- One more link, in a state that has only grown. -/
theorem Descended.next (h : Descended roots root path flags role s done t (i :: todo) role' s')
    (hroot : root ∈ roots) (hlen : path.length = 3) {role'' : Roles} {s'' : VMState}
    (hg : Grows roots (LinksAlong root path) role' s' role'' s'')
    (hc : childTable (s''.entry t i) = some c)
    (huser : UserEntry flags → UserEntry (s''.entry t i))
    (hframes : s'.pmm.freeCount + missing childTable s''.entry c todo =
      s''.pmm.freeCount + missing childTable s'.entry t (i :: todo)) :
    Descended roots root path flags role s (done ++ [i]) c todo role'' s'' := by
  obtain ⟨-, -, hlen', -⟩ := h.table_role hroot hlen
  have hreached := hg.follow_keep hroot (by omega) h.reached
  exact {
    grows := h.grows.trans hg
    path_eq := by rw [h.path_eq]; simp
    reached := follow_concat_eq_some.mpr ⟨t, hreached, hc⟩
    user := fun hf => allAlong_concat hreached
      (hg.along_keep hroot (by omega) h.reached (h.user hf)) (huser hf)
    frames := by
      have := h.frames
      omega }

/-- The next level follows a link that is there. -/
theorem Descended.followLink
    (h : Descended roots root path flags role s done t (i :: todo) role' s')
    (hroot : root ∈ roots) (hlen : path.length = 3) (hc : childTable (s'.entry t i) = some c) :
    Descended roots root path flags role s (done ++ [i]) c todo role'
      (s'.setEntry t i (s'.entry t i ||| (flags &&& pteUser))) := by
  have hwf := h.grows.wellFormed
  obtain ⟨r, hrole, hlen', -⟩ := h.table_role hroot hlen
  have htAt : TableAt role' (todo.length + 1) t := ⟨r, done, hrole, by omega⟩
  have hv : s'.entry t i ||| (flags &&& pteUser) < 2 ^ 64 :=
    or_lt_word (entry_lt s' t i) (isFlagWord_user flags).1
  have hsame : ∀ n t' i', TableAt role' (n + 1) t' →
      childTable ((s'.setEntry t i (s'.entry t i ||| (flags &&& pteUser))).entry t' i') =
        childTable (s'.entry t' i') := by
    rintro n t' i' ⟨r', p', ht', -⟩
    rw [entry_setEntry s' hv (hwf.table_frame hrole).1 (hwf.table_frame ht').1]
    split
    · next hslot => rw [hslot.1, hslot.2, childTable_or_user]
    · rfl
  refine h.next hroot hlen (Grows.of_orUser hwf hrole (by omega) flags)
    ((hsame _ t i htAt).trans hc) (fun hflags => ?_) ?_
  · rw [entry_setEntry_same s' t i hv]
    exact (or_user_and_user _ _).mpr (.inr hflags)
  · rw [missing_congr hwf.stratified hsame (hwf.stratified.descend htAt hc) (Nat.le_refl _),
      setEntry_pmm, missing_cons_of_some hc]

/-- The next level links a fresh table, below which everything is missing. -/
theorem Descended.createLink
    (h : Descended roots root path flags role s done t (i :: todo) role' s')
    (hroot : root ∈ roots) (hlen : path.length = 3) (hnone : childTable (s'.entry t i) = none)
    {f : Nat} (hf : s'.pmm.FrameFree f) (hcf : c = f * kVMPageSize) {s₁ : VMState}
    (hmem : s₁.mem = s'.mem) (hkernel : s₁.kernelPML4 = s'.kernelPML4)
    (hinit : s₁.isInitialized = s'.isInitialized)
    (hfree : ∀ g, s₁.pmm.FrameFree g ↔ s'.pmm.FrameFree g ∧ g ≠ f) :
    ∃ role'', Grows roots (LinksAlong root path) role' s' role''
        ((s₁.zeroPage c).setEntry t i (c ||| tableFlags flags)) ∧
      Descended roots root path flags role s (done ++ [i]) c todo role''
        ((s₁.zeroPage c).setEntry t i (c ||| tableFlags flags)) := by
  have hwf := h.grows.wellFormed
  obtain ⟨r, hrole, hlen', hlink⟩ := h.table_role hroot hlen
  have hg := Grows.of_link hwf hrole (by omega) hnone hf hcf hmem hkernel hinit hfree flags
  obtain ⟨hcnone, hcframe, -⟩ := hwf.free_address hf
  rw [← hcf] at hcnone hcframe
  have hv : c ||| tableFlags flags < 2 ^ 64 :=
    or_lt_word (lt_trans hcframe.2 (by decide)) (isFlagWord_tableFlags flags).1
  have hslot : ((s₁.zeroPage c).setEntry t i (c ||| tableFlags flags)).entry t i =
      c ||| tableFlags flags := entry_setEntry_same _ t i hv
  have hempty : ∀ j, childTable
      (((s₁.zeroPage c).setEntry t i (c ||| tableFlags flags)).entry c j) = none := by
    intro j
    have hct : c ≠ t := by
      rintro rfl
      rw [hcnone] at hrole
      exact absurd hrole (by simp)
    rw [entry_setEntry _ hv (hwf.table_frame hrole).1 hcframe.1,
      if_neg (fun e => hct e.1), entry_zeroPage_same, childTable_zero]
  refine ⟨_, hg.mono hlink, h.next hroot hlen (hg.mono hlink)
    (by rw [hslot, childTable_link hcframe]) (fun hflags => ?_) ?_⟩
  · rwa [hslot, UserEntry, or_and_flag hcframe (by decide), tableFlags_user]
  · have hcount := freeCount_of_erase hf hfree
    rw [missing_of_empty hempty, missing_cons_of_none hnone, setEntry_pmm, zeroPage_pmm]
    omega

/-- The next level of the walk either stops for lack of a frame or leads on. -/
theorem Descended.step (h : Descended roots root path flags role s done t (i :: todo) role' s')
    (hroot : root ∈ roots) (hlen : path.length = 3) :
    (s'.pmm.freeCount = 0 ∧ 0 < missing childTable s'.entry t (i :: todo) ∧
      descendOrCreate s' t i.val flags = (none, s')) ∨
    ∃ c role'' s'', descendOrCreate s' t i.val flags = (some c, s'') ∧
      Grows roots (LinksAlong root path) role' s' role'' s'' ∧
      Descended roots root path flags role s (done ++ [i]) c todo role'' s'' := by
  obtain ⟨r, hrole, hlen', -⟩ := h.table_role hroot hlen
  rcases descendOrCreate_cases h.grows.wellFormed hrole i flags with ⟨hfull, hnone, heq⟩ |
    ⟨c, hc, heq⟩ | ⟨f, c, s₁, hf, hcf, hnone, hmem, hkernel, hinit, hfree, -, heq⟩
  · exact .inl ⟨hfull, by rw [missing_cons_of_none hnone]; omega, heq⟩
  · exact .inr ⟨c, role', _, heq, Grows.of_orUser h.grows.wellFormed hrole (by omega) flags,
      h.followLink hroot hlen hc⟩
  · obtain ⟨role'', hgrows, hnext⟩ :=
      h.createLink hroot hlen hnone hf hcf hmem hkernel hinit hfree
    exact .inr ⟨c, role'', _, heq, hgrows, hnext⟩

/-- Where tables are missing below the walk, the whole path leads nowhere. -/
theorem Descended.follow_eq_none (h : Descended roots root path flags role s done t todo role' s')
    (hpos : 0 < missing childTable s'.entry t todo) : follow childTable s'.entry root path = none := by
  rw [h.path_eq, follow_append, h.reached, Option.bind_some]
  cases hfollow : follow childTable s'.entry t todo with
  | none => rfl
  | some c =>
    have hzero := missing_eq_zero_iff.mpr (by rw [hfollow]; rfl)
    omega

end Levels

/-- Growth keeps every table. -/
theorem Grows.follow_isSome (hg : Grows roots New role s role' s') {r : Nat}
    {is : List (Fin 512)} (hr : r ∈ roots) (his : is.length ≤ 3)
    (h : (follow childTable s.entry r is).isSome) : (follow childTable s'.entry r is).isSome := by
  obtain ⟨c, hc⟩ := Option.isSome_iff_exists.mp h
  rw [hg.follow_keep hr his hc]
  rfl

/-- A walk along `path` adds tables on `path` only. The induction descends from
an old table; below the first new link every table is new. -/
theorem Grows.follow_new_of_role {root : Nat} {path : List (Fin 512)}
    (hg : Grows roots (LinksAlong root path) role s role' s') (h : WellFormed roots role s)
    {is : List (Fin 512)} :
    ∀ {t r p c}, role' t = some (.table r p) → p.length + is.length ≤ 3 →
      follow childTable s'.entry t is = some c →
      (role t = some (.table r p) → (follow childTable s.entry t is).isSome ∨ p ++ is <+: path) ∧
      (role t = none → is = [] ∨ p ++ is <+: path) := by
  induction is with
  | nil => exact fun _ _ _ => ⟨fun _ => .inl rfl, fun _ => .inl rfl⟩
  | cons i is ih =>
    intro t r p c ht hlen hc
    obtain ⟨d, hd, hrest⟩ := follow_cons_eq_some.mp hc
    rw [List.length_cons] at hlen
    obtain ⟨r', hr', -⟩ := hg.wellFormed.child_role ht (by omega) hd
    obtain ⟨hkept, hfresh⟩ := ih hr' (by simp; omega) hrest
    rw [List.append_assoc, List.singleton_append] at hkept hfresh
    rcases hg.link_old ht (by omega) hd with ⟨hold, hdold⟩ | ⟨⟨hpre, -⟩, hdnew⟩
    · refine ⟨fun _ => ?_, fun hnone => ?_⟩
      · obtain ⟨r'', hr'', -⟩ := h.child_role hold (by omega) hdold
        obtain rfl : r'' = r' := (table_role_inj (hg.role_keep hr'') hr').1
        rw [follow_cons, hdold, Option.bind_some]
        exact hkept hr''
      · rw [hold] at hnone
        exact absurd hnone (by simp)
    · have hpath : p ++ i :: is <+: path := by
        rcases hfresh hdnew with rfl | hpath
        · exact hpre
        · exact hpath
      exact ⟨fun _ => .inr hpath, fun _ => .inr hpath⟩

theorem Grows.follow_new {root : Nat} {path : List (Fin 512)}
    (hg : Grows roots (LinksAlong root path) role s role' s') (h : WellFormed roots role s)
    {r : Nat} {is : List (Fin 512)} (hr : r ∈ roots) (his : is.length ≤ 3)
    (hsome : (follow childTable s'.entry r is).isSome) :
    (follow childTable s.entry r is).isSome ∨ is <+: path := by
  obtain ⟨c, hc⟩ := Option.isSome_iff_exists.mp hsome
  exact (hg.follow_new_of_role h (hg.wellFormed.root_role hr) (by simpa using his) hc).1
    (h.root_role hr)

/-! ## Section 2: Mapping a page -/

/-- What `VMVirtualMemoryMapPage` does. Without enough frames for the missing
tables it fails and the forest has only grown; otherwise it writes one entry
of the leaf table that the walk of `virt` now reaches. -/
theorem mapPage_cases (h : WellFormed roots role s) {root : Nat} (hroot : root ∈ roots)
    (phys virt flags : Nat) :
    (s.pmm.freeCount < missing childTable s.entry root (upperPath virt) ∧
      ∃ role' s', vmVirtualMemoryMapPage s root phys virt flags = (none, s') ∧
        s'.pmm.freeCount = 0 ∧ s'.leafTable root virt = none ∧
        Grows roots (LinksAlong root (upperPath virt)) role s role' s') ∨
    (∃ pt role' s', vmVirtualMemoryMapPage s root phys virt flags =
        (some virt, s'.setEntry pt (ptSlot virt) (phys ||| flags)) ∧
      s.pmm.freeCount = s'.pmm.freeCount + missing childTable s.entry root (upperPath virt) ∧
      Grows roots (LinksAlong root (upperPath virt)) role s role' s' ∧
      s'.leafTable root virt = some pt ∧ (UserEntry flags → s'.UpperUser root virt)) := by
  have hlen : (upperPath virt).length = 3 := rfl
  rw [vmVirtualMemoryMapPage, sVMVirtualMemoryMapPageInternal]
  have h0 : Descended roots root (upperPath virt) flags role s [] root
      [pml4Slot virt, pdptSlot virt, pdSlot virt] role s :=
    Descended.start h root (upperPath virt) flags
  rcases h0.step hroot hlen with
    ⟨hfull, hpos, heq⟩ | ⟨pdpt, role₁, s₁, heq, -, h1⟩
  · refine .inl ⟨?_, role, s, ?_, hfull, h0.follow_eq_none hpos, h0.grows⟩
    · rw [hfull]
      exact hpos
    · rw [show vmmPML4Index virt = (pml4Slot virt).val from rfl, heq]
  rw [show vmmPML4Index virt = (pml4Slot virt).val from rfl, heq]
  rcases h1.step hroot hlen with ⟨hfull, hpos, heq⟩ | ⟨pd, role₂, s₂, heq, -, h2⟩
  · have hframes := h1.frames
    refine .inl ⟨?_, role₁, s₁, ?_, hfull, h1.follow_eq_none hpos, h1.grows⟩
    · omega
    · simp only [show vmmPDPTIndex virt = (pdptSlot virt).val from rfl, heq]
  simp only [show vmmPDPTIndex virt = (pdptSlot virt).val from rfl, heq]
  rcases h2.step hroot hlen with ⟨hfull, hpos, heq⟩ | ⟨pt, role₃, s₃, heq, -, h3⟩
  · have hframes := h2.frames
    refine .inl ⟨?_, role₂, s₂, ?_, hfull, h2.follow_eq_none hpos, h2.grows⟩
    · omega
    · simp only [show vmmPDIndex virt = (pdSlot virt).val from rfl, heq]
  simp only [show vmmPDIndex virt = (pdSlot virt).val from rfl, heq]
  have hpt : s₃.leafTable root virt = some pt := h3.reached
  have hptlt : pt < 2 ^ 52 := by
    obtain ⟨r', hrole, -⟩ := h3.grows.wellFormed.leafTable_role hroot hpt
    exact (h3.grows.wellFormed.table_frame hrole).2
  refine .inr ⟨pt, role₃, s₃, ?_, ?_, h3.grows, hpt, h3.user⟩
  · rw [show vmmPTIndex virt = (ptSlot virt).val from rfl, store_eq_setEntry rfl hptlt]
  · have hframes := h3.frames
    simpa [missing] using hframes

/-! ## Section 3: Writing a leaf entry -/

/-- A write into a leaf table leaves every upper table alone. -/
theorem entry_setLeaf (h : WellFormed roots role s) {pt r virt t r' v : Nat} {p : List (Fin 512)}
    {j : Fin 512} (hpt : role pt = some (.table r (upperPath virt))) (hv : v < 2 ^ 64)
    (ht : role t = some (.table r' p)) (hp : p.length < 3) (i : Fin 512) :
    (s.setEntry pt j v).entry t i = s.entry t i := by
  rw [entry_setEntry s hv (h.table_frame hpt).1 (h.table_frame ht).1, if_neg]
  rintro ⟨rfl, -⟩
  obtain ⟨-, rfl⟩ := table_role_inj hpt ht
  exact absurd hp (by simp [upperPath_length])

theorem WellFormed.setLeaf (h : WellFormed roots role s) {pt r virt v : Nat} {j : Fin 512}
    (hpt : role pt = some (.table r (upperPath virt))) (hv : v < 2 ^ 64) :
    WellFormed roots role (s.setEntry pt j v) :=
  h.of_links rfl id fun ht hp => by rw [entry_setLeaf h hpt hv ht hp]

theorem follow_setLeaf (h : WellFormed roots role s) {pt r virt v root : Nat} {j : Fin 512}
    (hpt : role pt = some (.table r (upperPath virt))) (hv : v < 2 ^ 64) (hroot : root ∈ roots)
    {is : List (Fin 512)} (his : is.length ≤ 3) :
    follow childTable (s.setEntry pt j v).entry root is = follow childTable s.entry root is := by
  refine follow_congr h.stratified ?_ (h.root_at hroot) his
  rintro n t i ⟨r', p, ht, hp⟩
  rw [entry_setLeaf h hpt hv ht (by omega)]

theorem upperUser_setLeaf (h : WellFormed roots role s) {pt r virt v root : Nat} {j : Fin 512}
    (hpt : role pt = some (.table r (upperPath virt))) (hv : v < 2 ^ 64) (hroot : root ∈ roots)
    (virt' : Nat) : (s.setEntry pt j v).UpperUser root virt' ↔ s.UpperUser root virt' := by
  refine allAlong_congr h.stratified ?_ (h.root_at hroot) (by simp [upperPath_length])
  rintro n t i ⟨r', p, ht, hp⟩
  exact entry_setLeaf h hpt hv ht (by omega) i

/-- The write is seen by exactly the walks that end in the written slot. -/
theorem walk_setLeaf (h : WellFormed roots role s) {pt r virt v root : Nat} {j : Fin 512}
    (hpt : role pt = some (.table r (upperPath virt))) (hv : v < 2 ^ 64) (hroot : root ∈ roots)
    (virt' : Nat) :
    (s.setEntry pt j v).walk root virt' =
      if s.leafTable root virt' = some pt ∧ ptSlot virt' = j then decode v
      else s.walk root virt' := by
  have hleaf : (s.setEntry pt j v).leafTable root virt' = s.leafTable root virt' :=
    follow_setLeaf h hpt hv hroot (by simp [upperPath_length])
  rw [VMState.walk, VMState.walk, hleaf]
  cases hpt' : s.leafTable root virt' with
  | none => rw [Option.bind_none, Option.bind_none, if_neg (by simp)]
  | some pt' =>
    obtain ⟨r', hrole, -⟩ := h.leafTable_role hroot hpt'
    rw [Option.bind_some, Option.bind_some,
      entry_setEntry s hv (h.table_frame hpt).1 (h.table_frame hrole).1]
    by_cases hslot : pt' = pt ∧ ptSlot virt' = j
    · rw [if_pos hslot, if_pos ⟨congrArg some hslot.1, hslot.2⟩]
    · rw [if_neg hslot, if_neg (fun e => hslot ⟨Option.some.inj e.1, e.2⟩)]

/-! ## Section 4: Unmapping a page -/

/-- `VMVirtualMemoryUnmapPage` clears the entry that the walk ends in, if the
walk reaches a leaf table. -/
theorem unmapPage_eq (h : WellFormed roots role s) {root : Nat} (hroot : root ∈ roots)
    (virt : Nat) :
    vmVirtualMemoryUnmapPage s root virt =
      match s.leafTable root virt with
      | none => s
      | some pt => s.setEntry pt (ptSlot virt) 0 := by
  have hload : ∀ {t : Nat} {r p} (i : Fin 512), role t = some (.table r p) →
      s.load (sVMGetVirtualTable s t) i.val = s.entry t i :=
    fun i ht => load_eq_entry rfl (h.table_frame ht).2 i
  have hpresent : ∀ {e}, childTable e = none ↔ e &&& ptePresent = 0 := by
    intro e
    rw [childTable]
    split <;> simp_all
  have hsome : ∀ {e}, ¬ e &&& ptePresent = 0 → childTable e = some (pteGetAddr e) := by
    intro e he
    rw [childTable, if_neg he]
  have hr0 := h.root_role hroot
  rw [vmVirtualMemoryUnmapPage, sVMVirtualMemoryUnmapPageInternal, VMState.leafTable, upperPath,
    show vmmPML4Index virt = (pml4Slot virt).val from rfl, hload _ hr0]
  by_cases h1 : s.entry root (pml4Slot virt) &&& ptePresent = 0
  · rw [if_pos h1, follow_cons, hpresent.mpr h1, Option.bind_none]
  obtain ⟨r1, hr1, -⟩ := h.child_role hr0 (by simp) (hsome h1)
  rw [if_neg h1, show vmmPDPTIndex virt = (pdptSlot virt).val from rfl, hload _ hr1, follow_cons,
    hsome h1, Option.bind_some]
  by_cases h2 : s.entry (pteGetAddr (s.entry root (pml4Slot virt))) (pdptSlot virt) &&&
      ptePresent = 0
  · rw [if_pos h2, follow_cons, hpresent.mpr h2, Option.bind_none]
  obtain ⟨r2, hr2, -⟩ := h.child_role hr1 (by simp) (hsome h2)
  rw [if_neg h2, show vmmPDIndex virt = (pdSlot virt).val from rfl, hload _ hr2, follow_cons,
    hsome h2, Option.bind_some]
  by_cases h3 : s.entry (pteGetAddr (s.entry (pteGetAddr (s.entry root (pml4Slot virt)))
      (pdptSlot virt))) (pdSlot virt) &&& ptePresent = 0
  · rw [if_pos h3, follow_cons, hpresent.mpr h3, Option.bind_none]
  obtain ⟨r3, hr3, -⟩ := h.child_role hr2 (by simp) (hsome h3)
  rw [if_neg h3, show vmmPTIndex virt = (ptSlot virt).val from rfl,
    store_eq_setEntry rfl (h.table_frame hr3).2, follow_cons, hsome h3, Option.bind_some,
    follow_nil]

end TermOS.VM
