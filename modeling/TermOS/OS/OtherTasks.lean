import TermOS.OS.OSLoader
import TermOS.OS.ProcessPages

/-!
# What other tasks leave alone

A process that is being set up has page tables that no other task knows. While
it waits for memory for its stack, the other tasks may create processes, load
programs into them and get memory for them. Its own pages stay as they are, and
no frame becomes free.
-/

namespace TermOS.OS

open TermOS.Lib TermOS.Kernel TermOS.VM TermOS.Lib.TableForest VMState

/-- From `s` to `s'` the pages of the user half of `own` stay, and no frame
becomes free. -/
structure Spares (own : Nat) (spaces : List Nat) (s : VMState) (spaces' : List Nat) (s' : VMState) :
    Prop where
  consistent : ∃ role, Consistent spaces' role s'
  mem_spaces : ∀ pml4 ∈ spaces, pml4 ∈ spaces'
  walk_eq : ∀ virt, ¬ KernelHalf virt → s'.walk own virt = s.walk own virt
  free_of_free : ∀ {f}, s'.pmm.FrameFree f → s.pmm.FrameFree f

section Spare

variable {own pml4 : Nat} {spaces spaces₁ spaces' : List Nat} {s s₁ s' : VMState}

theorem Spares.refl (h : ∃ role, Consistent spaces role s) : Spares own spaces s spaces s where
  consistent := h
  mem_spaces := fun _ => id
  walk_eq := fun _ _ => rfl
  free_of_free := id

theorem Spares.trans (h : Spares own spaces s spaces₁ s₁) (h' : Spares own spaces₁ s₁ spaces' s') :
    Spares own spaces s spaces' s' where
  consistent := h'.consistent
  mem_spaces := fun pml4 hp => h'.mem_spaces pml4 (h.mem_spaces pml4 hp)
  walk_eq := fun virt hlow => (h'.walk_eq virt hlow).trans (h.walk_eq virt hlow)
  free_of_free := fun hf => h.free_of_free (h'.free_of_free hf)

/-- A turn for a page of another address space. -/
theorem spares_of_turn {address : Nat} (hout : TurnOutcome spaces s pml4 address s')
    (hown : own ∈ spaces) (hne : pml4 ≠ own) : Spares own spaces s spaces s' where
  consistent := hout.consistent
  mem_spaces := fun _ => id
  walk_eq := hout.walk_space own (List.mem_cons_of_mem _ hown) hne.symm
  free_of_free := hout.free_of_free

/-- A loop of such turns. -/
theorem foldl_spares {τ : Type} {turn : VMState → τ → VMState} {turns : List τ}
    (hturn : ∀ s, (∃ role, Consistent spaces role s) → ∀ t ∈ turns,
      Spares own spaces s spaces (turn s t)) :
    ∀ {s : VMState}, (∃ role, Consistent spaces role s) →
      Spares own spaces s spaces (turns.foldl turn s) := by
  induction turns with
  | nil => exact fun h => Spares.refl h
  | cons t rest ih =>
    intro s h
    have hfirst := hturn s h t List.mem_cons_self
    rw [List.foldl_cons]
    apply hfirst.trans
    exact ih (fun s hs u hu => hturn s hs u (List.mem_cons_of_mem _ hu)) hfirst.consistent

/-- A loop of such turns that stops without a free frame. -/
theorem guardedTurns_spares {turn : VMState → Nat → VMState}
    (hturn : ∀ s, (∃ role, Consistent spaces role s) → ∀ virt,
      Spares own spaces s spaces (turn s virt)) {pages : List Nat} :
    ∀ {s : VMState}, (∃ role, Consistent spaces role s) →
      Spares own spaces s spaces (guardedTurns turn s pages).2 := by
  induction pages with
  | nil => exact fun h => Spares.refl h
  | cons virt rest ih =>
    intro s h
    rw [guardedTurns]
    split
    · exact Spares.refl h
    · exact (hturn s h virt).trans (ih (hturn s h virt).consistent)

/-- Loading a program, whatever its file says. -/
theorem hotLoad_spares (h : ∃ role, Consistent spaces role s) (hown : own ∈ spaces)
    {process : OSProcess} (hprocess : process.physicalPML4 ∈ spaces)
    (hne : process.physicalPML4 ≠ own) (data : Memory) :
    Spares own spaces s spaces (hotLoad s process data).2 := by
  rw [hotLoad_eq]
  refine foldl_spares (fun s hs t ht => ?_) h
  exact spares_of_turn (hotTurn_outcome data hs hprocess (loopPage_of_mem_hotTurns ht).2) hown hne

theorem setupUserStack_spares (h : ∃ role, Consistent spaces role s) (hown : own ∈ spaces)
    (hpml4 : pml4 ∈ spaces) (hne : pml4 ≠ own) :
    Spares own spaces s spaces (vmVirtualMemorySetupUserStack s pml4).2 := by
  rw [vmVirtualMemorySetupUserStack, setupUserStackPages_turns hpml4 _ h]
  refine guardedTurns_spares (fun s hs virt => ?_) h
  exact spares_of_turn (stackTurn_outcome hs hpml4 virt) hown hne

theorem memoryAllocate_spares (h : ∃ role, Consistent spaces role s) (hown : own ∈ spaces)
    {process : OSProcess} (hprocess : process.physicalPML4 ∈ spaces)
    (hne : process.physicalPML4 ≠ own) (size : Nat) :
    Spares own spaces s spaces (osServiceMemoryAllocate s process size).2.1 := by
  by_cases hsize : size = 0
  · rw [osServiceMemoryAllocate, if_pos hsize]
    exact Spares.refl h
  · have hturns := memoryAllocatePages_turns (pagesNeeded size) process h hprocess
    rw [osServiceMemoryAllocate_eq hsize]
    show Spares own spaces s spaces (memoryAllocatePages s process (pagesNeeded size)).2.1
    rw [show (memoryAllocatePages s process (pagesNeeded size)).2.1 = _ from congrArg Prod.snd hturns]
    refine guardedTurns_spares (fun s hs virt => ?_) h
    exact spares_of_turn (serviceTurn_outcome hs hprocess virt) hown hne

/-- A new address space has a frame that was free. -/
theorem createAddressSpace_spares (h : ∃ role, Consistent spaces role s) (hown : own ∈ spaces)
    (hne : (vmVirtualMemoryCreateAddressSpace s).1 ≠ 0) :
    Spares own spaces s ((vmVirtualMemoryCreateAddressSpace s).1 :: spaces)
      (vmVirtualMemoryCreateAddressSpace s).2 := by
  obtain ⟨role, h⟩ := h
  rcases createAddressSpace_cases h.wellFormed h.isInitialized with ⟨-, heq⟩ |
    ⟨c, s', heq, -, hadd⟩
  · rw [heq] at hne
    exact absurd rfl hne
  · rw [heq]
    exact {
      consistent := ⟨_, h.addsRoot hadd⟩
      mem_spaces := fun _ hp => List.mem_cons_of_mem _ hp
      walk_eq := fun virt _ => hadd.walk_old h.wellFormed (List.mem_cons_of_mem _ hown) virt
      free_of_free := hadd.free_of_free }

/-- One call of another task. -/
theorem OtherCall.spares (hcall : OtherCall own spaces s spaces' s')
    (h : ∃ role, Consistent spaces role s) (hown : own ∈ spaces) :
    Spares own spaces s spaces' s' := by
  cases hcall with
  | noAddressSpace hzero =>
    obtain ⟨role, h⟩ := h
    rcases createAddressSpace_cases h.wellFormed h.isInitialized with ⟨-, heq⟩ |
      ⟨c, s', heq, hne, -⟩
    · rw [heq]
      exact Spares.refl ⟨role, h⟩
    · rw [heq] at hzero
      exact absurd hzero hne
  | createAddressSpace hne => exact createAddressSpace_spares h hown hne
  | hotLoad process data hprocess hne => exact hotLoad_spares h hown hprocess hne data
  | setupUserStack pml4 hpml4 hne => exact setupUserStack_spares h hown hpml4 hne
  | memoryAllocate process size hprocess hne =>
    exact memoryAllocate_spares h hown hprocess hne size

/-- Any number of calls. -/
theorem OtherCalls.spares (hcalls : OtherCalls own spaces s spaces' s')
    (h : ∃ role, Consistent spaces role s) (hown : own ∈ spaces) :
    Spares own spaces s spaces' s' := by
  induction hcalls with
  | refl => exact Spares.refl h
  | tail _ hcall ih =>
    have hbefore := ih h
    exact hbefore.trans (hcall.spares hbefore.consistent (hbefore.mem_spaces _ hown))

end Spare

end TermOS.OS
