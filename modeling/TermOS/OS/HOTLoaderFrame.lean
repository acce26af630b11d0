import TermOS.OS.HOTLoader

/-!
# What loading does to the kernel half

`HOTLoad` takes the pages that it maps from the file and checks none of them.
A page of the kernel half is mapped like any other, through the tables that all
address spaces share. Loading leaves the kernel half alone exactly when no such
page is visited, or memory runs out before the first of them could be mapped.
-/

namespace TermOS.OS

open TermOS.Lib TermOS.Kernel TermOS.VM TermOS.Lib.TableForest VMState

/-! ## Section 1: Runs of turns -/

section Turns

variable {spaces : List Nat} {s : VMState} {pml4 : Nat} {data : Memory}
  {turns : List (HOTSegment × Nat)}

/-- What every run of turns keeps: the forest, and the page tables that exist. -/
theorem turns_consistent (hpml4 : pml4 ∈ spaces) :
    ∀ {s : VMState}, (∃ role, Consistent spaces role s) → (∀ t ∈ turns, LoopPage t.2) →
      (∃ role, Consistent spaces role (turns.foldl (hotTurn pml4 data) s)) ∧
      (turns.foldl (hotTurn pml4 data) s).kernelPML4 = s.kernelPML4 ∧
      ∀ virt, (s.leafTable pml4 virt).isSome →
        ((turns.foldl (hotTurn pml4 data) s).leafTable pml4 virt).isSome := by
  induction turns with
  | nil => exact fun h _ => ⟨h, rfl, fun _ => id⟩
  | cons turn rest ih =>
    intro s h hturns
    have hout := hotTurn_outcome data h hpml4 (hturns turn List.mem_cons_self)
    obtain ⟨hrest, hkernel, hleaf⟩ :=
      ih hout.consistent fun t ht => hturns t (List.mem_cons_of_mem _ ht)
    rw [List.foldl_cons]
    exact ⟨hrest, hkernel.trans hout.kernelPML4_eq,
      fun virt hsome => hleaf virt (hout.leaf_keep virt hsome)⟩

/-- Turns below the kernel half do not change the kernel half. -/
theorem turns_walk_of_low (hpml4 : pml4 ∈ spaces) :
    ∀ {s : VMState}, (∃ role, Consistent spaces role s) → (∀ t ∈ turns, LoopPage t.2) →
      (∀ t ∈ turns, ¬ KernelHalf t.2) →
      ∀ r ∈ s.kernelPML4 :: spaces, ∀ virt, KernelHalf virt →
        (turns.foldl (hotTurn pml4 data) s).walk r virt = s.walk r virt := by
  induction turns with
  | nil => exact fun _ _ _ _ _ _ _ => rfl
  | cons turn rest ih =>
    intro s h hturns hlow r hr virt hhalf
    have hout := hotTurn_outcome data h hpml4 (hturns turn List.mem_cons_self)
    rw [List.foldl_cons, ih hout.consistent (fun t ht => hturns t (List.mem_cons_of_mem _ ht))
      (fun t ht => hlow t (List.mem_cons_of_mem _ ht)) r (by rwa [hout.kernelPML4_eq]) virt hhalf]
    rcases hout.walk_cases r hr virt with hsame | ⟨hpage, -⟩
    · exact hsame
    · exact absurd ((kernelHalf_congr hpage).mp hhalf) (hlow turn List.mem_cons_self)

/-- A page that was mapped for ring 3 stays mapped for ring 3. -/
theorem turns_keep_mapped (hpml4 : pml4 ∈ spaces) {virt : Nat} :
    ∀ {s : VMState}, (∃ role, Consistent spaces role s) → (∀ t ∈ turns, LoopPage t.2) →
      (∃ frame, s.walk pml4 virt = some (frame, pteUserData)) →
      ∃ frame, (turns.foldl (hotTurn pml4 data) s).walk pml4 virt = some (frame, pteUserData) := by
  induction turns with
  | nil => exact fun _ _ => id
  | cons turn rest ih =>
    intro s h hturns hmapped
    have hout := hotTurn_outcome data h hpml4 (hturns turn List.mem_cons_self)
    rw [List.foldl_cons]
    apply ih hout.consistent fun t ht => hturns t (List.mem_cons_of_mem _ ht)
    rcases hout.walk_cases pml4 (List.mem_cons_of_mem _ hpml4) virt with hsame | ⟨-, hnew⟩
    · rw [hsame]
      exact hmapped
    · exact hnew

/-- The visited pages of the kernel half have no page table yet. -/
def NoKernelTables (s : VMState) (pml4 : Nat) (turns : List (HOTSegment × Nat)) : Prop :=
  ∀ t ∈ turns, KernelHalf t.2 → s.leafTable pml4 t.2 = none

/-- A turn that adds no page table for the kernel half. -/
theorem noKernelTables_of_turn {address : Nat} {s' : VMState}
    (hout : TurnOutcome spaces s pml4 address s')
    (haddress : KernelHalf address → s'.leafTable pml4 address = none)
    (h : NoKernelTables s pml4 turns) : NoKernelTables s' pml4 turns := by
  intro t ht hhalf
  cases hleaf : s'.leafTable pml4 t.2 with
  | none => rfl
  | some pt =>
    rcases hout.leaf_new t.2 (by rw [hleaf]; rfl) with hold | hpath
    · rw [h t ht hhalf] at hold
      exact absurd hold (by simp)
    · -- the page table that appeared is the one of `address`
      have hhalf' : KernelHalf address := by
        have hslots : pml4Slot t.2 = pml4Slot address := by
          simp only [upperPath, List.cons.injEq] at hpath
          exact hpath.1
        rwa [KernelHalf, ← hslots]
      have hnone := haddress hhalf'
      rw [VMState.leafTable, ← hpath] at hnone
      exact absurd (hleaf.symm.trans hnone) (by simp)

/-- Without free frames, pages whose page table is missing are not mapped. -/
theorem turns_walk_of_full (hpml4 : pml4 ∈ spaces) :
    ∀ {s : VMState}, (∃ role, Consistent spaces role s) → (∀ t ∈ turns, LoopPage t.2) →
      NoKernelTables s pml4 turns → s.pmm.freeCount = 0 →
      ∀ r ∈ s.kernelPML4 :: spaces, ∀ virt, KernelHalf virt →
        (turns.foldl (hotTurn pml4 data) s).walk r virt = s.walk r virt := by
  -- Induction on the turns; without free frames each of them fails or is in the low half.
  induction turns with
  | nil => exact fun _ _ _ _ _ _ _ _ => rfl
  | cons turn rest ih =>
    intro s h hturns htables hfull r hr virt hhalf
    have hout := hotTurn_outcome data h hpml4 (hturns turn List.mem_cons_self)
    have hrest : NoKernelTables s pml4 rest := fun t ht => htables t (List.mem_cons_of_mem _ ht)
    have hfull' : (hotTurn pml4 data s turn).pmm.freeCount = 0 := by
      rcases hout.cases with ⟨hlt, -⟩ | ⟨-, hzero, -⟩
      · omega
      · exact hzero
    have hstep : (hotTurn pml4 data s turn).walk r virt = s.walk r virt ∧
        NoKernelTables (hotTurn pml4 data s turn) pml4 rest := by
      -- In the kernel half the page lacks its table, so the turn fails.
      by_cases hturn : KernelHalf turn.2
      · obtain ⟨-, hnone, hsame⟩ :=
          hout.fails (htables turn List.mem_cons_self hturn) (by rw [hfull]; exact Nat.zero_le _)
        exact ⟨hsame r hr virt, noKernelTables_of_turn hout (fun _ => hnone) hrest⟩
      -- A page of the low half does not change what the kernel half maps to.
      · refine ⟨?_, noKernelTables_of_turn hout (fun hk => absurd hk hturn) hrest⟩
        rcases hout.walk_cases r hr virt with hsame | ⟨hpage, -⟩
        · exact hsame
        · exact absurd ((kernelHalf_congr hpage).mp hhalf) hturn
    rw [List.foldl_cons, ih hout.consistent (fun t ht => hturns t (List.mem_cons_of_mem _ ht))
      hstep.2 hfull' r (by rwa [hout.kernelPML4_eq]) virt hhalf]
    exact hstep.1

/-- With too few frames for the pages up to the first one of the kernel half,
that page is not mapped, and nothing after it either. -/
theorem turns_walk_of_short (hpml4 : pml4 ∈ spaces) {before after : List (HOTSegment × Nat)}
    {first : HOTSegment × Nat} (hfirst : KernelHalf first.2) :
    ∀ {s : VMState}, (∃ role, Consistent spaces role s) →
      (∀ t ∈ before ++ first :: after, LoopPage t.2) → (∀ t ∈ before, ¬ KernelHalf t.2) →
      NoKernelTables s pml4 (before ++ first :: after) →
      s.pmm.freeCount < framesNeeded s pml4 (before.map Prod.snd ++ [first.2]) →
      ∀ r ∈ s.kernelPML4 :: spaces, ∀ virt, KernelHalf virt →
        ((before ++ first :: after).foldl (hotTurn pml4 data) s).walk r virt = s.walk r virt := by
  -- Induction on the pages before the first one of the kernel half.
  induction before with
  | nil =>
    intro s h hturns _ htables hshort r hr virt hhalf
    rw [List.map_nil, List.nil_append, framesNeeded, List.length_singleton,
      ← missing_eq_tablesNeeded] at hshort
    rw [List.nil_append] at hturns htables ⊢
    have hout := hotTurn_outcome data h hpml4 (hturns first List.mem_cons_self)
    -- That page itself lacks a frame, and from then on there is none at all.
    obtain ⟨hfull, hnone, hsame⟩ :=
      hout.fails (htables first List.mem_cons_self hfirst) (by omega)
    have hrest := noKernelTables_of_turn hout (fun _ => hnone)
      fun t ht => htables t (List.mem_cons_of_mem _ ht)
    rw [List.foldl_cons, turns_walk_of_full hpml4 hout.consistent
      (fun t ht => hturns t (List.mem_cons_of_mem _ ht)) hrest hfull r
      (by rwa [hout.kernelPML4_eq]) virt hhalf]
    exact hsame r hr virt
  | cons turn before ih =>
    intro s h hturns hlow htables hshort r hr virt hhalf
    rw [List.map_cons, List.cons_append, framesNeeded, List.length_cons] at hshort
    rw [List.cons_append] at hturns htables ⊢
    have hout := hotTurn_outcome data h hpml4 (hturns turn List.mem_cons_self)
    have hturns' : ∀ t ∈ before ++ first :: after, LoopPage t.2 :=
      fun t ht => hturns t (List.mem_cons_of_mem _ ht)
    have hrest := noKernelTables_of_turn hout
      (fun hk => absurd hk (hlow turn List.mem_cons_self))
      fun t ht => htables t (List.mem_cons_of_mem _ ht)
    have hstep : (hotTurn pml4 data s turn).walk r virt = s.walk r virt := by
      rcases hout.walk_cases r hr virt with hsame | ⟨hpage, -⟩
      · exact hsame
      · exact absurd ((kernelHalf_congr hpage).mp hhalf) (hlow turn List.mem_cons_self)
    rw [List.foldl_cons]
    -- Either the turn is granted and the rest is still short, or it has used up the frames.
    rcases hout.cases with ⟨-, hcount, -, hneeded⟩ | ⟨-, hfull, -⟩
    · have htotal := hneeded (before.map Prod.snd ++ [first.2])
      rw [ih hout.consistent hturns' (fun t ht => hlow t (List.mem_cons_of_mem _ ht)) hrest
        (by rw [framesNeeded]; omega) r (by rwa [hout.kernelPML4_eq]) virt hhalf, hstep]
    · rw [turns_walk_of_full hpml4 hout.consistent hturns' hrest hfull r
        (by rwa [hout.kernelPML4_eq]) virt hhalf, hstep]

/-- With enough frames for some pages, the last of them gets mapped. -/
private theorem turns_map_last (hpml4 : pml4 ∈ spaces) {before : List (HOTSegment × Nat)}
    {last : HOTSegment × Nat} :
    ∀ {s : VMState}, (∃ role, Consistent spaces role s) →
      (∀ t ∈ before ++ [last], LoopPage t.2) →
      framesNeeded s pml4 (before.map Prod.snd ++ [last.2]) ≤ s.pmm.freeCount →
      ∃ frame, ((before ++ [last]).foldl (hotTurn pml4 data) s).walk pml4 last.2 =
        some (frame, pteUserData) := by
  -- Induction on the pages before the last one; each turn is granted and leaves enough.
  induction before with
  | nil =>
    intro s h hturns henough
    rw [List.map_nil, List.nil_append, framesNeeded, List.length_singleton,
      ← missing_eq_tablesNeeded] at henough
    have hout := hotTurn_outcome data h hpml4 (hturns last (by simp))
    rcases hout.cases with ⟨-, -, hmapped, -⟩ | ⟨hle, -⟩
    · exact hmapped
    · omega
  | cons turn before ih =>
    intro s h hturns henough
    rw [List.map_cons, List.cons_append, framesNeeded, List.length_cons] at henough
    have hout := hotTurn_outcome data h hpml4 (hturns turn List.mem_cons_self)
    have hle := missing_le_tablesNeeded s pml4 turn.2
      (before.map Prod.snd ++ [last.2])
    rw [List.cons_append, List.foldl_cons]
    rcases hout.cases with ⟨-, hcount, -, hneeded⟩ | ⟨hshort, -⟩
    · have htotal := hneeded (before.map Prod.snd ++ [last.2])
      apply ih hout.consistent fun t ht => hturns t (List.mem_cons_of_mem _ ht)
      rw [framesNeeded]
      omega
    · omega

/-- With enough frames for the pages up to one of them, it is mapped at the end. -/
theorem turns_map_of_enough (hpml4 : pml4 ∈ spaces) {before after : List (HOTSegment × Nat)}
    {turn : HOTSegment × Nat} (h : ∃ role, Consistent spaces role s)
    (hturns : ∀ t ∈ before ++ turn :: after, LoopPage t.2)
    (henough : framesNeeded s pml4 (before.map Prod.snd ++ [turn.2]) ≤ s.pmm.freeCount) :
    ∃ frame, ((before ++ turn :: after).foldl (hotTurn pml4 data) s).walk pml4 turn.2 =
      some (frame, pteUserData) := by
  rw [← List.singleton_append, ← List.append_assoc] at hturns ⊢
  have hhead : ∀ t ∈ before ++ [turn], LoopPage t.2 :=
    fun t ht => hturns t (List.mem_append_left _ ht)
  rw [List.foldl_append]
  exact turns_keep_mapped hpml4 (turns_consistent hpml4 h hhead).1
    (fun t ht => hturns t (List.mem_append_right _ ht)) (turns_map_last hpml4 h hhead henough)

/-- A page whose page table exists is mapped at the end, whatever the frames. -/
theorem turns_map_of_leafTable (hpml4 : pml4 ∈ spaces) {before after : List (HOTSegment × Nat)}
    {turn : HOTSegment × Nat} (h : ∃ role, Consistent spaces role s)
    (hturns : ∀ t ∈ before ++ turn :: after, LoopPage t.2)
    (hleaf : (s.leafTable pml4 turn.2).isSome) :
    ∃ frame, ((before ++ turn :: after).foldl (hotTurn pml4 data) s).walk pml4 turn.2 =
      some (frame, pteUserData) := by
  obtain ⟨hmid, -, hkeep⟩ := turns_consistent hpml4 h
    fun t ht => hturns t (List.mem_append_left _ ht)
  have hout := hotTurn_outcome data hmid hpml4 (hturns turn (by simp))
  have hsome := hkeep turn.2 hleaf
  have hmapped : ∃ frame, (hotTurn pml4 data (before.foldl (hotTurn pml4 data) s) turn).walk
      pml4 turn.2 = some (frame, pteUserData) := by
    rcases hout.cases with ⟨-, -, hmapped, -⟩ | ⟨-, -, ⟨-, hmapped⟩ | ⟨hnone, -⟩⟩
    · exact hmapped
    · exact hmapped
    · have hkept := hout.leaf_keep turn.2 hsome
      rw [hnone] at hkept
      exact absurd hkept (by simp)
  rw [List.foldl_append, List.foldl_cons]
  exact turns_keep_mapped hpml4 hout.consistent
    (fun t ht => hturns t (List.mem_append_right _ (List.mem_cons_of_mem _ ht))) hmapped

end Turns

/-! ## Section 2: The kernel half -/

/-- The state of memory in which processes are loaded: the address spaces share
one forest of tables, and ring 3 has no access to the kernel half. -/
def KernelIsolated (spaces : List Nat) (s : VMState) : Prop :=
  (∃ role, Consistent spaces role s) ∧ KernelPrivate spaces s

/-- No page of the kernel half gets mapped: none is visited, or the frames run
out before the first one while none of them has a page table. -/
def SparesKernelHalf (s : VMState) (pml4 : Nat) (pages : List Nat) : Prop :=
  (∀ a ∈ pages, ¬ KernelHalf a) ∨
  ((∀ a ∈ pages, KernelHalf a → s.leafTable pml4 a = none) ∧
    ∃ before first after, pages = before ++ first :: after ∧ (∀ a ∈ before, ¬ KernelHalf a) ∧
      KernelHalf first ∧ s.pmm.freeCount < framesNeeded s pml4 (before ++ [first]))

/-- The first page of the kernel half that is visited. -/
theorem exists_first_kernelHalf {turns : List (HOTSegment × Nat)}
    (h : ¬ ∀ t ∈ turns, ¬ KernelHalf t.2) :
    ∃ before first after, turns = before ++ first :: after ∧ (∀ t ∈ before, ¬ KernelHalf t.2) ∧
      KernelHalf first.2 := by
  obtain ⟨first, hfind⟩ : ∃ first, turns.find? (fun t => KernelHalf t.2) = some first := by
    rw [← Option.isSome_iff_exists, List.find?_isSome]
    push Not at h
    obtain ⟨turn, hturn, hhalf⟩ := h
    exact ⟨turn, hturn, by simpa using hhalf⟩
  obtain ⟨hfirst, before, after, hsplit, hbefore⟩ := List.find?_eq_some_iff_append.mp hfind
  exact ⟨before, first, after, hsplit, fun t ht => by simpa using hbefore t ht, by simpa using hfirst⟩

/-- When the kernel half is not spared, one of its pages gets mapped for ring 3. -/
theorem exists_mapped_of_not_spares {spaces : List Nat} {s : VMState} {pml4 : Nat} {data : Memory}
    (h : ∃ role, Consistent spaces role s) (hpml4 : pml4 ∈ spaces)
    (hnot : ¬ SparesKernelHalf s pml4 (hotPages data)) :
    ∃ virt frame, KernelHalf virt ∧
      ((hotTurns data).foldl (hotTurn pml4 data) s).walk pml4 virt = some (frame, pteUserData) := by
  have hturns : ∀ t ∈ hotTurns data, LoopPage t.2 := fun t ht => (loopPage_of_mem_hotTurns ht).2
  rw [SparesKernelHalf, not_or] at hnot
  obtain ⟨hvisited, hshort⟩ := hnot
  by_cases htables : ∀ a ∈ hotPages data, KernelHalf a → s.leafTable pml4 a = none
  · -- the frames suffice for the pages up to the first one of the kernel half
    obtain ⟨before, first, after, hsplit, hbefore, hfirst⟩ :=
      exists_first_kernelHalf fun hlow => hvisited fun a ha => by
        obtain ⟨turn, hturn, rfl⟩ := List.mem_map.mp ha
        exact hlow turn hturn
    have henough : framesNeeded s pml4 (before.map Prod.snd ++ [first.2]) ≤ s.pmm.freeCount := by
      by_contra hlt
      refine hshort ⟨htables, before.map Prod.snd, first.2, after.map Prod.snd, ?_, ?_, hfirst,
        Nat.lt_of_not_le hlt⟩
      · rw [hotPages, hsplit, List.map_append, List.map_cons]
      · intro a ha
        obtain ⟨turn, hturn, rfl⟩ := List.mem_map.mp ha
        exact hbefore turn hturn
    rw [hsplit] at hturns ⊢
    obtain ⟨frame, hmapped⟩ := turns_map_of_enough hpml4 h hturns henough
    exact ⟨first.2, frame, hfirst, hmapped⟩
  · push Not at htables
    obtain ⟨a, ha, hhalf, hleaf⟩ := htables
    obtain ⟨turn, hturn, rfl⟩ := List.mem_map.mp ha
    obtain ⟨before, after, hsplit⟩ := List.append_of_mem hturn
    rw [hsplit] at hturns ⊢
    obtain ⟨frame, hmapped⟩ := turns_map_of_leafTable hpml4 h hturns
      (Option.isSome_iff_ne_none.mpr hleaf)
    exact ⟨turn.2, frame, hhalf, hmapped⟩

/-- A file that spares the kernel half leaves every walk there as it was. -/
theorem turns_walk_of_spares {spaces : List Nat} {s : VMState} {pml4 : Nat} {data : Memory}
    (h : ∃ role, Consistent spaces role s) (hpml4 : pml4 ∈ spaces)
    (hspares : SparesKernelHalf s pml4 (hotPages data)) :
    ∀ r ∈ s.kernelPML4 :: spaces, ∀ virt, KernelHalf virt →
      ((hotTurns data).foldl (hotTurn pml4 data) s).walk r virt = s.walk r virt := by
  have hturns : ∀ t ∈ hotTurns data, LoopPage t.2 := fun t ht => (loopPage_of_mem_hotTurns ht).2
  have hpage : ∀ {t}, t ∈ hotTurns data → t.2 ∈ hotPages data := fun ht => List.mem_map_of_mem ht
  rcases hspares with hlow | ⟨htables, before, first, after, hsplit, hbefore, hfirst, hshort⟩
  · exact turns_walk_of_low hpml4 h hturns fun t ht => hlow t.2 (hpage ht)
  · obtain ⟨before', rest', hturnsplit, rfl, hrest⟩ := List.map_eq_append_iff.mp hsplit
    obtain ⟨first', after', rfl, rfl, rfl⟩ := List.map_eq_cons_iff.mp hrest
    rw [hturnsplit] at hturns ⊢
    apply turns_walk_of_short hpml4 hfirst h hturns
      (fun t ht => hbefore t.2 (List.mem_map_of_mem ht)) ?_ hshort
    intro t ht hhalf
    exact htables t.2 (hpage (by rw [hturnsplit]; exact ht)) hhalf

/-- Loading a file leaves the walk of every kernel-half address in every address
space as it was exactly when the file's pages spare the kernel half. -/
theorem hotLoad_walk_kernelHalf_iff (spaces : List Nat) (s : VMState) (h : KernelIsolated spaces s)
    (process : OSProcess) (hprocess : process.physicalPML4 ∈ spaces) (data : Memory) :
    (∀ r ∈ s.kernelPML4 :: spaces, ∀ virt, KernelHalf virt →
      (hotLoad s process data).2.walk r virt = s.walk r virt) ↔
    SparesKernelHalf s process.physicalPML4 (hotPages data) := by
  rw [hotLoad_eq]
  refine ⟨fun hsame => ?_, turns_walk_of_spares h.1 hprocess⟩
  by_contra hnot
  obtain ⟨virt, frame, hhalf, hmapped⟩ := exists_mapped_of_not_spares h.1 hprocess hnot
  -- a page of the kernel half that is mapped for ring 3 was not before
  have hroot : process.physicalPML4 ∈ s.kernelPML4 :: spaces := List.mem_cons_of_mem _ hprocess
  rw [hsame _ hroot virt hhalf] at hmapped
  exact h.2 _ hroot virt _ hhalf hmapped
    (by simp [UserEntry, pteUserData, pteUser, ptePresent, pteRW])

/-! ## Section 3: From boot to the first load -/

theorem kernelIsolated_of_bootHeap {m : Machine} (hm : m.Accepted) {heap : List Nat} {s : VMState}
    (hboot : m.bootHeap = some (heap, s)) : KernelIsolated [] s := by
  obtain ⟨role, hready, -⟩ := bootHeap_ready hm hboot
  exact ⟨⟨role, hready.consistent⟩, hready.kernelPrivate⟩

/-- A new address space keeps the kernel isolated, and takes one frame. -/
theorem KernelIsolated.createAddressSpace {spaces : List Nat} {s : VMState}
    (h : KernelIsolated spaces s) (hfree : s.pmm.freeCount ≠ 0) :
    ∃ pml4 s', vmVirtualMemoryCreateAddressSpace s = (pml4, s') ∧ pml4 ≠ 0 ∧
      KernelIsolated (pml4 :: spaces) s' ∧ (∀ virt, ¬ KernelHalf virt → s'.walk pml4 virt = none) ∧
      s.pmm.freeCount = s'.pmm.freeCount + 1 := by
  obtain ⟨⟨role, hconsistent⟩, hprivate⟩ := h
  rcases createAddressSpace_cases hconsistent.wellFormed hconsistent.isInitialized with
    ⟨hfull, -⟩ | ⟨c, s', heq, hne, hadd⟩
  · exact absurd hfull hfree
  · exact ⟨c, s', heq, hne, ⟨⟨_, hconsistent.addsRoot hadd⟩,
      hprivate.addsRoot hconsistent.wellFormed hadd⟩, fun _ => hadd.walk_new, hadd.freeCount_eq⟩

/-- Loading a file that spares the kernel half keeps the kernel isolated. -/
theorem KernelIsolated.hotLoad {spaces : List Nat} {s : VMState} (h : KernelIsolated spaces s)
    {process : OSProcess} (hprocess : process.physicalPML4 ∈ spaces) {data : Memory}
    (hspares : SparesKernelHalf s process.physicalPML4 (hotPages data)) :
    KernelIsolated spaces (hotLoad s process data).2 := by
  obtain ⟨hconsistent, hkernel, -⟩ := turns_consistent hprocess h.1
    fun t ht => (loopPage_of_mem_hotTurns ht).2
  rw [hotLoad_eq]
  exact ⟨hconsistent, KernelPrivate.of_walk_eq h.2 hkernel
    (turns_walk_of_spares h.1 hprocess hspares)⟩

/-- A file with one segment of one byte, all of it zero, at `vaddr`. -/
def oneByteFile (vaddr : Nat) : Memory :=
  let header := (((Memory.writeLE (fun _ => 0) 0 4 hotMagic).writeLE 4 1 1).setWord 8 vaddr).setWord
    16 1
  (header.setWord 40 vaddr).setWord 64 1

/-- The state in which a first process exists. -/
theorem exists_firstProcess : ∃ heap vm pml4 s, heapMachine.bootHeap = some (heap, vm) ∧
    vmVirtualMemoryCreateAddressSpace vm = (pml4, s) ∧ KernelIsolated [pml4] s ∧
    (∀ virt, ¬ KernelHalf virt → s.walk pml4 virt = none) ∧ 599 ≤ s.pmm.freeCount := by
  obtain ⟨heap, vm, hboot, hcount⟩ := heapMachine_bootHeap
  obtain ⟨pml4, s, heq, -, hisolated, hempty, hfree⟩ :=
    (kernelIsolated_of_bootHeap heapMachine_accepted hboot).createAddressSpace (by omega)
  exact ⟨heap, vm, pml4, s, hboot, heq, hisolated, hempty, by omega⟩

/-- A program whose segment lies in the user half leaves the kernel half alone. -/
theorem hotLoad_walk_kernelHalf_userFile : ∃ heap vm pml4 s,
    heapMachine.bootHeap = some (heap, vm) ∧ vmVirtualMemoryCreateAddressSpace vm = (pml4, s) ∧
    ∀ r ∈ s.kernelPML4 :: [pml4], ∀ virt, KernelHalf virt →
      (hotLoad s ⟨pml4, kOSHeapStart⟩ (oneByteFile 0x400000)).2.walk r virt = s.walk r virt := by
  obtain ⟨heap, vm, pml4, s, hboot, heq, hisolated, -, -⟩ := exists_firstProcess
  have hpages : hotPages (oneByteFile 0x400000) = [0x400000] := by decide +kernel
  refine ⟨heap, vm, pml4, s, hboot, heq, ?_⟩
  apply (hotLoad_walk_kernelHalf_iff [pml4] s hisolated ⟨pml4, kOSHeapStart⟩ List.mem_cons_self
    (oneByteFile 0x400000)).mpr
  rw [hpages]
  exact .inl (by decide)

/-- A program whose segment lies in the direct map changes the kernel half: its
own page appears there in place of the kernel's. -/
theorem hotLoad_remaps_directMap : ∃ heap vm pml4 s,
    heapMachine.bootHeap = some (heap, vm) ∧ vmVirtualMemoryCreateAddressSpace vm = (pml4, s) ∧
    ¬ ∀ r ∈ s.kernelPML4 :: [pml4], ∀ virt, KernelHalf virt →
      (hotLoad s ⟨pml4, kOSHeapStart⟩ (oneByteFile hhdmOffset)).2.walk r virt = s.walk r virt := by
  obtain ⟨heap, vm, pml4, s, hboot, heq, hisolated, -, hcount⟩ := exists_firstProcess
  have hpages : hotPages (oneByteFile hhdmOffset) = [hhdmOffset] := by decide +kernel
  refine ⟨heap, vm, pml4, s, hboot, heq, fun hsame => ?_⟩
  -- one frame for the page and at most three for its tables
  have hneeded : framesNeeded s pml4 [hhdmOffset] ≤ s.pmm.freeCount := by
    have htables := tablesNeeded_le s pml4
      (show ∀ virt ∈ [hhdmOffset], upperPath virt ∈ ({upperPath hhdmOffset} : Finset _) by simp)
    rw [Finset.card_singleton] at htables
    rw [framesNeeded, List.length_singleton]
    omega
  have hnot : ¬ SparesKernelHalf s pml4 (hotPages (oneByteFile hhdmOffset)) := by
    rw [hpages]
    rintro (hlow | ⟨-, before, first, after, hsplit, -, -, hshort⟩)
    · exact hlow hhdmOffset List.mem_cons_self (by decide)
    · obtain ⟨rfl, rfl, -⟩ : before = [] ∧ first = hhdmOffset ∧ after = [] := by
        cases before with
        | nil => simpa [eq_comm] using hsplit
        | cons b before => simp at hsplit
      exact Nat.not_lt.mpr hneeded hshort
  obtain ⟨virt, frame, hhalf, hmapped⟩ :=
    exists_mapped_of_not_spares hisolated.1 List.mem_cons_self hnot
  have hroot : pml4 ∈ s.kernelPML4 :: [pml4] := List.mem_cons_of_mem _ List.mem_cons_self
  have hsame' := hsame pml4 hroot virt hhalf
  rw [hotLoad_eq, hmapped] at hsame'
  exact hisolated.2 pml4 hroot virt _ hhalf hsame'.symm
    (by simp [UserEntry, pteUserData, pteUser, ptePresent, pteRW])

end TermOS.OS
