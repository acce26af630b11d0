import TermOS.OS.HOTLoaderImage
import TermOS.OS.MemoryService
import TermOS.OS.Syscall
import TermOS.VM.ReservedFrames
import TermOS.VM.UserPages

/-!
# The private memories of processes

What a process sees of the physical memory is its private memory: a partial map
from the addresses of its user half to bytes. No call that the kernel makes for
one process changes a byte that another one sees, and a page that a process is
given holds nothing but what the call puts there.
-/

namespace TermOS.OS

open TermOS.Lib TermOS.Kernel TermOS.VM TermOS.Lib.TableForest VMState

/-! ## Section 1: What a call leaves of the private memories -/

/-- After a call for the address space `own`, the others show the same bytes as
before, and `own` shows the same ones except for bytes of `Source`. The kernel's
frames and the kernel half are as before. -/
structure Confined (fixed : Nat → Prop) (spaces : List Nat) (own : Nat)
    (Source : Nat → UInt8 → Prop) (s s' : VMState) : Prop where
  owned : ∃ role, Owned fixed spaces role s'
  userPages : UserPages spaces s → UserPages spaces s'
  own_byte : ∀ virt, ¬ KernelHalf virt → userByte s' own virt = userByte s own virt ∨
    ∃ byte, userByte s' own virt = some byte ∧ Source virt byte
  other_byte : ∀ u ∈ spaces, u ≠ own → ∀ virt, ¬ KernelHalf virt →
    userByte s' u virt = userByte s u virt
  frames : KeepsFrames fixed s s'
  kernel_walk : ∀ r ∈ s.kernelPML4 :: spaces, ∀ virt, KernelHalf virt → s'.walk r virt = s.walk r virt

section Confine

variable {fixed : Nat → Prop} {spaces : List Nat} {role : Roles} {s s₁ s' : VMState}
  {own pml4 virt : Nat} {Source Source' : Nat → UInt8 → Prop}
  {prepare fill : VMState → Nat → VMState} {bytes : Nat → UInt8}

theorem Confined.refl (h : ∃ role, Owned fixed spaces role s) :
    Confined fixed spaces own Source s s where
  owned := h
  userPages := id
  own_byte := fun _ _ => .inl rfl
  other_byte := fun _ _ _ _ _ => rfl
  frames := KeepsFrames.refl fixed s
  kernel_walk := fun _ _ _ _ => rfl

theorem Confined.trans (h : Confined fixed spaces own Source s s₁)
    (h' : Confined fixed spaces own Source s₁ s') : Confined fixed spaces own Source s s' where
  owned := h'.owned
  userPages := fun hpages => h'.userPages (h.userPages hpages)
  own_byte := by
    intro virt hlow
    rcases h'.own_byte virt hlow with hkept | hnew
    · rw [hkept]
      exact h.own_byte virt hlow
    · exact .inr hnew
  other_byte := by
    intro u hu hne virt hlow
    rw [h'.other_byte u hu hne virt hlow]
    exact h.other_byte u hu hne virt hlow
  frames := h.frames.trans h'.frames
  kernel_walk := by
    intro r hr virt hhalf
    rw [h'.kernel_walk r (by rwa [h.frames.kernelPML4_eq]) virt hhalf]
    exact h.kernel_walk r hr virt hhalf

theorem Confined.mono (h : Confined fixed spaces own Source s s')
    (hsource : ∀ virt byte, Source virt byte → Source' virt byte) :
    Confined fixed spaces own Source' s s' where
  owned := h.owned
  userPages := h.userPages
  own_byte := by
    intro virt hlow
    apply (h.own_byte virt hlow).imp_right
    rintro ⟨byte, hbyte, hfrom⟩
    exact ⟨byte, hbyte, hsource virt byte hfrom⟩
  other_byte := h.other_byte
  frames := h.frames
  kernel_walk := h.kernel_walk

/-- Ownership after a page was mapped to a frame with the page's role. -/
theorem Owned.of_mapOutcome {role' : Roles} {m : Nat × Nat} (h : Owned fixed spaces role s)
    (hconsistent : Consistent spaces role' s') (hlow : ¬ KernelHalf virt)
    (hrole : role m.1 = some (.page pml4 (pagePath virt)))
    (hmap : MapOutcome (s.kernelPML4 :: spaces) role s pml4 virt m role' s') :
    Owned fixed spaces role' s' where
  consistent := hconsistent
  kernelPrivate := h.kernelPrivate.mapPage hmap fun hhalf => absurd hhalf hlow
  owned := PagesOwned.mapPage h.owned (fun _ hu => List.mem_cons_of_mem _ hu) hrole hmap
  fixed_role := by
    intro a ha
    rw [hmap.kernelPML4_eq]
    exact (h.fixed_role ha).imp_left (hmap.role_keep _ _)

/-- A write to the frame of a page. -/
theorem Owned.keepsFrames_writesFrame {write : VMState → Nat → VMState} {phys : Nat} {p : List (Fin 512)}
    (h : Owned fixed spaces role s) (hwrite : WritesFrame spaces write) (hframe : IsFrameAddress phys)
    (hrole : role phys = some (.page pml4 p)) : KeepsFrames fixed s (write s phys) where
  kernelPML4_eq := (hwrite.sameTables h.consistent hframe (by simp [hrole])).kernelPML4_eq
  mem_eq := by
    intro x hfixed hne
    apply hwrite.mem_eq h.consistent hframe
    -- the page is not reserved
    rintro rfl
    have hreserved := (h.fixed_role hfixed).resolve_right hne
    rw [hrole] at hreserved
    simp at hreserved

/-- One page for `pml4`, while a frame is free. Whether or not the page can be
mapped, nobody else sees a change, and the page shows what was written to its
frame: either after the mapping, or before it and nothing afterwards. -/
theorem pageTurn_confined (hprepare : WritesFrame spaces prepare) (hfill : WritesFrame spaces fill)
    (hbytes : FillsFrame spaces fill bytes ∨
      FillsFrame spaces prepare bytes ∧ fill = fun s _ => s)
    (h : ∃ role, Owned fixed spaces role s) (hpml4 : pml4 ∈ spaces) (hlow : ¬ KernelHalf virt)
    (hfree : s.pmm.freeCount ≠ 0) :
    Confined fixed spaces pml4
      (fun virt' byte => pageNumber virt' = pageNumber virt ∧ byte = bytes (virt' % 4096))
      s (pageTurn prepare fill s pml4 virt) := by
  obtain ⟨role, h⟩ := h
  rcases h.consistent.allocatePage (x := .page pml4 (pagePath virt)) (by simp) with ⟨hfull, -⟩ |
    ⟨a, s₀, heq, hne, -, hnone, -, hsame₀, hmem₀, -⟩
  · exact absurd hfull hfree
  obtain ⟨role₀, h₀, hrole₀, hframe, -⟩ := h.allocatePage heq hne pml4 (pagePath virt)
  have hturn : pageTurn prepare fill s pml4 virt =
      fill (vmVirtualMemoryMapPage (prepare s₀ a) pml4 a virt pteUserData).2 a := by
    rw [pageTurn, heq]
  rw [hturn]
  -- the frame is nobody's page before
  have hfresh : ∀ u ∈ spaces, ∀ virt', ¬ KernelHalf virt' → ∀ frame flags,
      s.walk u virt' = some (frame, flags) → frame ≠ a := by
    rintro u hu virt' hlow' frame flags hwalk rfl
    have hpage := h.owned hu hlow' hwalk
    rw [hnone] at hpage
    exact absurd hpage (by simp)
  -- it is prepared
  have hprepared := hprepare.sameTables h₀.consistent hframe (by simp [hrole₀])
  have h₁ := h₀.of_sameTables hprepared
  have hpages₁ : UserPages spaces s → UserPages spaces (prepare s₀ a) := fun hpages =>
    (hpages.of_sameTables h.consistent hsame₀).of_sameTables h₀.consistent hprepared
  have hmem₁ : ∀ x, x / 4096 * 4096 ≠ a → (prepare s₀ a).mem x = s.mem x := by
    intro x hx
    rw [hprepare.mem_eq h₀.consistent hframe hx, hmem₀]
  have hwalk₁ : ∀ u ∈ s.kernelPML4 :: spaces, ∀ virt', (prepare s₀ a).walk u virt' = s.walk u virt' := by
    intro u hu virt'
    rw [hprepared.walk_eq h₀.consistent.wellFormed (by rwa [hsame₀.kernelPML4_eq]),
      hsame₀.walk_eq h.consistent.wellFormed hu]
  have hallocated : KeepsFrames fixed s s₀ := ⟨hsame₀.kernelPML4_eq, fun x _ _ => by rw [hmem₀]⟩
  have hframes₁ := hallocated.trans (h₀.keepsFrames_writesFrame hprepare hframe hrole₀)
  have hbytes₁ : FillsFrame spaces fill bytes ∨
      (∀ i, i < 4096 → (prepare s₀ a).mem (a + i) = bytes i) ∧ fill = fun s _ => s :=
    hbytes.imp_right fun hb => ⟨hb.1 role₀ s₀ a h₀.consistent hframe, hb.2⟩
  generalize prepare s₀ a = s₁ at h₁ hpages₁ hmem₁ hwalk₁ hbytes₁ hframes₁
  -- mapped
  obtain ⟨role₂, hconsistent₂, hmap, -⟩ := h₁.consistent.mapPage virt
    (List.mem_cons_of_mem _ hpml4) hframe (show IsFlagWord pteUserData by decide) (by decide)
  have h₂ := h₁.of_mapOutcome hconsistent₂ hlow hrole₀ hmap
  have hrole₂ := hmap.role_keep _ _ hrole₀
  have hframes₂ := hframes₁.trans (hmap.keepsFrames fun _ => h₁.fixed_role)
  have hpages₂ := fun hpages => (hpages₁ hpages).mapPage h₁.consistent hpml4 hframe virt
  generalize (vmVirtualMemoryMapPage s₁ pml4 a virt pteUserData).2 = s₂ at h₂ hmap hpages₂ hframes₂
  -- and filled
  have hsame₃ := hfill.sameTables h₂.consistent hframe (by simp [hrole₂])
  have hwalk₃ : ∀ u ∈ s.kernelPML4 :: spaces, ∀ virt', (fill s₂ a).walk u virt' = s₂.walk u virt' :=
    fun u hu => hsame₃.walk_eq h₂.consistent.wellFormed (by rwa [hframes₂.kernelPML4_eq])
  -- where the walk is as before, so is the byte
  have hkept : ∀ u ∈ spaces, ∀ virt', ¬ KernelHalf virt' → s₂.walk u virt' = s₁.walk u virt' →
      userByte (fill s₂ a) u virt' = userByte s u virt' := by
    intro u hu virt' hlow' hsame
    have hwalk : (fill s₂ a).walk u virt' = s.walk u virt' := by
      rw [hwalk₃ u (List.mem_cons_of_mem _ hu), hsame, hwalk₁ u (List.mem_cons_of_mem _ hu)]
    refine userByte_congr hwalk fun frame flags hs => ?_
    have hfloor := walk_floor hs
    have hother := hfresh u hu virt' hlow' frame flags hs
    have hwalk₂ : s₂.walk u virt' = some (frame, flags) := by
      rw [hsame, hwalk₁ u (List.mem_cons_of_mem _ hu), hs]
    have hpage := h₂.owned hu hlow' hwalk₂
    rw [hfill.mem_eq h₂.consistent hframe (by rwa [hfloor]),
      hmap.mem_eq (by intro r p; rw [hfloor, hpage]; simp), hmem₁ _ (by rwa [hfloor])]
  constructor
  · exact ⟨role₂, h₂.of_sameTables hsame₃⟩
  · exact fun hpages => (hpages₂ hpages).of_sameTables h₂.consistent hsame₃
  · intro virt' hlow'
    by_cases hsame : s₂.walk pml4 virt' = s₁.walk pml4 virt'
    · exact .inl (hkept pml4 hpml4 virt' hlow' hsame)
    · obtain ⟨hpage, -, hnew⟩ :=
        (hmap.walk_cases (List.mem_cons_of_mem _ hpml4)).resolve_left hsame
      refine .inr ⟨bytes (virt' % 4096), ?_, hpage, rfl⟩
      have hoffset : virt' % 4096 < 4096 := Nat.mod_lt _ (by omega)
      rw [userByte, hwalk₃ pml4 (List.mem_cons_of_mem _ hpml4), hnew, Option.map_some]
      rcases hbytes₁ with hfills | ⟨hprep, rfl⟩
      · rw [hfills role₂ s₂ a h₂.consistent hframe _ hoffset]
      · -- mapping the page writes only tables
        have hfloor : (a + virt' % 4096) / 4096 * 4096 = a := by
          have halign := hframe.1
          omega
        rw [hmap.mem_eq (by intro r p; rw [hfloor, hrole₂]; simp), hprep _ hoffset]
  · intro u hu hne virt' hlow'
    apply hkept u hu virt' hlow'
    apply (hmap.walk_cases (List.mem_cons_of_mem _ hu)).resolve_right
    rintro ⟨-, hroot | hhalf, -⟩
    · exact hne hroot
    · exact hlow hhalf
  · exact hframes₂.trans (h₂.keepsFrames_writesFrame hfill hframe hrole₂)
  · intro r hr virt' hhalf
    rw [hwalk₃ r hr, ← hwalk₁ r hr]
    apply (hmap.walk_cases (by rwa [hframes₁.kernelPML4_eq])).resolve_right
    -- the page is in the user half
    rintro ⟨hpage, -, -⟩
    exact hlow ((kernelHalf_congr hpage).mp hhalf)

/-! ## Section 2: The calls -/

/-- The loop of the loader: what a program's own pages show comes from its file. -/
def ImageByte (data : Memory) (virt : Nat) (byte : UInt8) : Prop :=
  ∃ turn ∈ hotTurns data, pageNumber virt = pageNumber turn.2 ∧
    byte = pageByte data turn.1 turn.2 (virt % 4096)

theorem hotTurns_confined {data : Memory} (hpml4 : pml4 ∈ spaces) {turns : List (HOTSegment × Nat)}
    (hturns : ∀ turn ∈ turns, turn ∈ hotTurns data ∧ turn.2 < 2 ^ 47) :
    ∀ {s : VMState}, (∃ role, Owned fixed spaces role s) →
      framesNeeded s pml4 (turns.map Prod.snd) ≤ s.pmm.freeCount →
      Confined fixed spaces pml4 (ImageByte data) s (turns.foldl (hotTurn pml4 data) s) := by
  induction turns with
  | nil => exact fun h _ => Confined.refl h
  | cons turn rest ih =>
    intro s h henough
    obtain ⟨hturn, hlow⟩ := hturns turn List.mem_cons_self
    have hpage := (loopPage_of_mem_hotTurns hturn).2
    obtain ⟨role, howned⟩ := h
    have hlt := missing_lt_of_framesNeeded_le henough
    obtain ⟨a, role', -, -, hcount⟩ := pageTurn_granted writesFrame_id
      (writesFrame_fillPage data turn.1 hpage) howned.consistent hpml4 hlt
    have hnext := hcount (rest.map Prod.snd)
    rw [← hotTurn_eq] at hnext
    have hfirst : Confined fixed spaces pml4 (ImageByte data) s (hotTurn pml4 data s turn) := by
      rw [hotTurn_eq]
      apply (pageTurn_confined writesFrame_id (writesFrame_fillPage data turn.1 hpage)
        (.inl (fillsFrame_fillPage data turn.1 hpage)) ⟨role, howned⟩ hpml4 (lowHalf_of_lt hlow)
        (by omega)).mono
      rintro virt byte ⟨hvirt, hbyte⟩
      exact ⟨turn, hturn, hvirt, hbyte⟩
    rw [List.foldl_cons]
    apply hfirst.trans
    apply ih (fun t ht => hturns t (List.mem_cons_of_mem _ ht)) hfirst.owned
    rw [List.map_cons] at henough
    omega

/-- `HOTLoad` of a file for the user half, with frames enough. -/
theorem hotLoad_confined {data : Memory} {process : OSProcess}
    (h : ∃ role, Owned fixed spaces role s) (hprocess : process.physicalPML4 ∈ spaces)
    (hlow : ∀ page ∈ hotPages data, page < 2 ^ 47)
    (henough : framesNeeded s process.physicalPML4 (hotPages data) ≤ s.pmm.freeCount) :
    Confined fixed spaces process.physicalPML4 (ImageByte data) s (hotLoad s process data).2 := by
  rw [hotLoad_eq]
  refine hotTurns_confined hprocess (fun turn hturn => ⟨hturn, ?_⟩) h henough
  exact hlow turn.2 (List.mem_map_of_mem hturn)

/-- `VMVirtualMemorySetupUserStack`, whether or not it gets all its frames. -/
theorem setupUserStack_confined (h : ∃ role, Owned fixed spaces role s) (hpml4 : pml4 ∈ spaces) :
    Confined fixed spaces pml4 (fun _ byte => byte = 0) s
      (vmVirtualMemorySetupUserStack s pml4).2 := by
  have hloop : ∀ {pages : List Nat}, (∀ page ∈ pages, ¬ KernelHalf page) →
      ∀ {s : VMState}, (∃ role, Owned fixed spaces role s) →
        Confined fixed spaces pml4 (fun _ byte => byte = 0) s
          (guardedTurns (stackTurn pml4) s pages).2 := by
    intro pages
    induction pages with
    | nil => exact fun _ _ h => Confined.refl h
    | cons page rest ih =>
      intro hlow s h
      rw [guardedTurns]
      split
      · exact Confined.refl h
      · next hfree =>
        have hfirst : Confined fixed spaces pml4 (fun _ byte => byte = 0) s (stackTurn pml4 s page) := by
          apply (pageTurn_confined writesFrame_clearPage writesFrame_id
            (.inr ⟨fillsFrame_clearPage, rfl⟩) h hpml4 (hlow page List.mem_cons_self) hfree).mono
          exact fun _ _ hbyte => hbyte.2
        exact hfirst.trans (ih (fun p hp => hlow p (List.mem_cons_of_mem _ hp)) hfirst.owned)
  obtain ⟨role, howned⟩ := h
  rw [vmVirtualMemorySetupUserStack,
    setupUserStackPages_turns hpml4 _ ⟨role, howned.consistent⟩]
  refine hloop (fun page hpage => lowHalf_of_lt ?_) ⟨role, howned⟩
  have hpage := (mem_userStackPages.mp hpage).2.2
  omega

/-- The loop of `OSServiceMemoryAllocate`, as far as it gets. -/
theorem memoryAllocatePages_confined {count : Nat} :
    ∀ {s : VMState} (process : OSProcess), (∃ role, Owned fixed spaces role s) →
      process.physicalPML4 ∈ spaces →
      process.heapCurrentPointer + kVMPageSize * s.pmm.freeCount ≤ heapLimit →
      Confined fixed spaces process.physicalPML4 (fun _ byte => byte = 0) s
        (memoryAllocatePages s process count).2.1 := by
  induction count with
  | zero => exact fun _ h _ _ => Confined.refl h
  | succ count ih =>
    intro s process h hpml4 hlimit
    obtain ⟨role, howned⟩ := h
    rw [memoryAllocatePages_succ ⟨role, howned.consistent⟩]
    split
    · exact Confined.refl ⟨role, howned⟩
    · next hfree =>
      have hlt := heapLimit_lt
      simp only [kVMPageSize] at hlimit
      have hpointer : process.heapCurrentPointer + 4096 < 2 ^ 47 := by omega
      have hfirst : Confined fixed spaces process.physicalPML4 (fun _ byte => byte = 0) s
          (serviceTurn process.physicalPML4 s process.heapCurrentPointer) := by
        apply (pageTurn_confined writesFrame_id writesFrame_clearPage (.inl fillsFrame_clearPage)
          ⟨role, howned⟩ hpml4 (lowHalf_of_lt (by omega)) hfree).mono
        exact fun _ _ hbyte => hbyte.2
      -- the turn takes at least one frame, and the pointer moves by one page
      have hout : TurnOutcome spaces s process.physicalPML4 process.heapCurrentPointer
          (serviceTurn process.physicalPML4 s process.heapCurrentPointer) :=
        serviceTurn_outcome ⟨role, howned.consistent⟩ hpml4 process.heapCurrentPointer
      have hcount : (serviceTurn process.physicalPML4 s process.heapCurrentPointer).pmm.freeCount + 1 ≤
          s.pmm.freeCount := by
        rcases hout.cases with ⟨-, hcount, -⟩ | ⟨-, hzero, -⟩ <;> omega
      rw [wrap64_of_lt (by simp only [kVMPageSize]; omega)]
      apply hfirst.trans
      apply ih ⟨process.physicalPML4, process.heapCurrentPointer + kVMPageSize⟩ hfirst.owned hpml4
      simp only [kVMPageSize]
      omega

theorem memoryAllocatePages_pml4 (count : Nat) :
    ∀ (s : VMState) (process : OSProcess),
      (memoryAllocatePages s process count).2.2.physicalPML4 = process.physicalPML4 := by
  induction count with
  | zero => exact fun _ _ => rfl
  | succ count ih =>
    intro s process
    rw [memoryAllocatePages]
    rcases s.allocatePage with ⟨phys, s₁⟩
    simp only
    split
    · rfl
    · rw [ih]

theorem memoryAllocate_pml4 (s : VMState) (process : OSProcess) (size : Nat) :
    (osServiceMemoryAllocate s process size).2.2.physicalPML4 = process.physicalPML4 := by
  by_cases hsize : size = 0
  · rw [osServiceMemoryAllocate, if_pos hsize]
  · rw [osServiceMemoryAllocate_eq hsize]
    exact memoryAllocatePages_pml4 _ s process

/-- `OSServiceMemoryAllocate` -/
theorem memoryAllocate_confined (process : OSProcess) (size : Nat)
    (h : ∃ role, Owned fixed spaces role s) (hpml4 : process.physicalPML4 ∈ spaces)
    (hlimit : process.heapCurrentPointer + kVMPageSize * s.pmm.freeCount ≤ heapLimit) :
    Confined fixed spaces process.physicalPML4 (fun _ byte => byte = 0) s
      (osServiceMemoryAllocate s process size).2.1 := by
  by_cases hsize : size = 0
  · rw [osServiceMemoryAllocate, if_pos hsize]
    exact Confined.refl h
  · rw [osServiceMemoryAllocate_eq hsize]
    exact memoryAllocatePages_confined process h hpml4 hlimit

/-! ## Section 3: Stores of a process -/

/-- The processor lets a ring-3 store through: every level of the walk has the
USER and the RW bit. -/
def StorePermitted (s : VMState) (pml4 virt : Nat) : Prop :=
  virt < 2 ^ 64 ∧ Canonical virt ∧ s.UserAccessible pml4 virt ∧ s.Writable pml4 virt

instance : DecidablePred UserEntry := fun entry => inferInstanceAs (Decidable (entry &&& pteUser ≠ 0))

instance (s : VMState) (pml4 virt : Nat) : Decidable (s.UserAccessible pml4 virt) :=
  match h : s.walk pml4 virt with
  | none => isFalse (by simp [UserAccessible, h])
  | some (frame, flags) =>
    decidable_of_iff (AllAlong childTable UserEntry s.entry pml4 (upperPath virt) ∧
      flags &&& pteUser ≠ 0) (by simp [UserAccessible, UpperUser, h])

instance (s : VMState) (pml4 virt : Nat) : Decidable (StorePermitted s pml4 virt) :=
  inferInstanceAs (Decidable (_ ∧ _ ∧ _ ∧ _))

/-- A store of a task that runs in the address space `pml4`. One that is not
permitted faults and writes nothing. -/
def userStore (s : VMState) (pml4 virt : Nat) (value : UInt8) : VMState :=
  match s.walk pml4 virt with
  | none => s
  | some (frame, _) =>
    if StorePermitted s pml4 virt then
      { s with mem := s.mem.setByte (frame + virt % 4096) value }
    else s

theorem userStore_pmm (s : VMState) (pml4 virt : Nat) (value : UInt8) :
    (userStore s pml4 virt value).pmm = s.pmm := by
  rw [userStore]
  split
  · rfl
  · split <;> rfl

/-- Ring 3 reaches only the user half. -/
theorem StorePermitted.lt (h : StorePermitted s pml4 virt) (howned : Owned fixed spaces role s)
    (hpml4 : pml4 ∈ spaces) : virt < 2 ^ 47 := by
  obtain ⟨hlt64, hcanonical, ⟨-, frame, flags, hwalk, huser⟩, -⟩ := h
  have hlow : ¬ KernelHalf virt := by
    intro hhalf
    exact howned.kernelPrivate pml4 (List.mem_cons_of_mem _ hpml4) virt _ hhalf hwalk huser
  simp only [KernelHalf, pml4Slot, vmmPML4Index_eq] at hlow
  rcases hcanonical with hlt | hge
  · exact hlt
  · omega

/-- A store reaches no page table. -/
theorem userStore_sameTables (h : Owned fixed spaces role s) (hpml4 : pml4 ∈ spaces) (virt : Nat)
    (value : UInt8) : SameTables role s (userStore s pml4 virt value) := by
  have hrefl : SameTables role s s := SameTables.of_mem h.consistent.wellFormed fun _ _ _ _ => rfl
  rw [userStore]
  cases hwalk : s.walk pml4 virt with
  | none => exact hrefl
  | some m =>
    obtain ⟨frame, flags⟩ := m
    simp only
    split
    · next hpermitted =>
      have hrole := h.owned hpml4 (lowHalf_of_lt (hpermitted.lt h hpml4)) hwalk
      apply SameTables.of_mem h.consistent.wellFormed
      intro x r p hx
      apply Memory.setByte_ne
      rintro rfl
      rw [walk_floor hwalk, hrole] at hx
      exact absurd hx (by simp)
    · exact hrefl

/-- It reaches no frame of the kernel's. -/
theorem Owned.keepsFrames_userStore (h : Owned fixed spaces role s) (hpml4 : pml4 ∈ spaces) (virt : Nat)
    (value : UInt8) : KeepsFrames fixed s (userStore s pml4 virt value) where
  kernelPML4_eq := (userStore_sameTables h hpml4 virt value).kernelPML4_eq
  mem_eq := by
    intro x hfixed hne
    rw [userStore]
    cases hwalk : s.walk pml4 virt with
    | none => rfl
    | some m =>
      obtain ⟨frame, flags⟩ := m
      simp only
      split
      · next hpermitted =>
        have hrole := h.owned hpml4 (lowHalf_of_lt (hpermitted.lt h hpml4)) hwalk
        apply Memory.setByte_ne
        -- the page's frame is not reserved
        rintro rfl
        have hreserved := (h.fixed_role hfixed).resolve_right hne
        rw [walk_floor hwalk, hrole] at hreserved
        simp at hreserved
      · rfl

/-- A permitted store is read back, and no other byte of any process changes. -/
theorem userByte_userStore (h : ∃ role, Owned fixed spaces role s) (hpml4 : pml4 ∈ spaces)
    (value : UInt8) {u virt' : Nat} (hu : u ∈ spaces) (hvirt' : virt' < 2 ^ 47) :
    userByte (userStore s pml4 virt value) u virt' =
      if StorePermitted s pml4 virt ∧ u = pml4 ∧ virt' = virt then some value
      else userByte s u virt' := by
  obtain ⟨role, h⟩ := h
  rw [userStore]
  cases hwalk : s.walk pml4 virt with
  | none =>
    rw [if_neg]
    rintro ⟨⟨-, -, ⟨-, frame, flags, hsome, -⟩, -⟩, -⟩
    rw [hwalk] at hsome
    exact absurd hsome (by simp)
  | some m =>
    obtain ⟨frame, flags⟩ := m
    simp only
    by_cases hpermitted : StorePermitted s pml4 virt
    · have hfloor := walk_floor hwalk
      have hvirt := hpermitted.lt h hpml4
      have hlow := lowHalf_of_lt hvirt
      have hlow' := lowHalf_of_lt hvirt'
      have hwalk' := (userStore_sameTables h hpml4 virt value).walk_eq h.consistent.wellFormed
        (List.mem_cons_of_mem _ hu) virt'
      rw [userStore, hwalk] at hwalk'
      simp only [if_pos hpermitted] at hwalk'
      rw [if_pos hpermitted]
      by_cases hsamebyte : u = pml4 ∧ virt' = virt
      · obtain ⟨rfl, rfl⟩ := hsamebyte
        rw [if_pos ⟨hpermitted, rfl, rfl⟩, userByte, hwalk', hwalk, Option.map_some]
        exact congrArg some (Memory.setByte_same ..)
      · rw [if_neg fun hc => hsamebyte hc.2]
        refine userByte_congr hwalk' fun frame' flags' hs => Memory.setByte_ne _ _ ?_
        -- the same byte of the same frame is the same address of the same process
        intro heq
        have hfloor' := walk_floor hs
        have hframe : frame' = frame := by omega
        subst hframe
        obtain ⟨hspace, hpage⟩ := PagesOwned.page_inj h.owned hu hpml4 hlow' hlow hs hwalk
        refine hsamebyte ⟨hspace, ?_⟩
        simp only [pageNumber] at hpage
        omega
    · rw [if_neg hpermitted, if_neg fun hc => hpermitted hc.1]

theorem Owned.userStore (h : ∃ role, Owned fixed spaces role s) (hpml4 : pml4 ∈ spaces)
    (virt : Nat) (value : UInt8) : ∃ role, Owned fixed spaces role (userStore s pml4 virt value) := by
  obtain ⟨role, h⟩ := h
  exact ⟨role, h.of_sameTables (userStore_sameTables h hpml4 virt value)⟩

end Confine

/-! ## Section 4: Runs of the system -/

/-- What happens to the memory of the processes. -/
inductive ProcessEvent where
  /-- A call of `MemoryCall`. -/
  | call (call : MemoryCall)
  /-- `HOTLoad` for the process with the address space `pml4`. -/
  | load (pml4 : Nat) (data : Memory)
  /-- A task of that process stores a byte. -/
  | store (pml4 virt : Nat) (value : UInt8)

/-- The bytes that an event may bring into the address space it is for. -/
def ProcessEvent.Brings : ProcessEvent → Nat → UInt8 → Prop
  | .call _, _, byte => byte = 0
  | .load _ data, virt, byte => ImageByte data virt byte
  | .store _ virt' value, virt, byte => virt = virt' ∧ byte = value

namespace MemorySystem

def event (σ : MemorySystem) : ProcessEvent → MemorySystem
  | .call call => σ.step call
  | .load pml4 data => { σ with vm := (hotLoad σ.vm ⟨pml4, kOSHeapStart⟩ data).2 }
  | .store pml4 virt value => { σ with vm := userStore σ.vm pml4 virt value }

/-- Files are loaded for the user half and with frames enough: `HOTLoad` checks neither. -/
def Allows (σ : MemorySystem) : ProcessEvent → Prop
  | .call _ => σ.panicked = false
  | .load pml4 data => σ.panicked = false ∧ pml4 ∈ σ.spaces ∧
      (∀ page ∈ hotPages data, page < 2 ^ 47) ∧
      framesNeeded σ.vm pml4 (hotPages data) ≤ σ.vm.pmm.freeCount
  | .store pml4 _ _ => σ.panicked = false ∧ pml4 ∈ σ.spaces

/-- The address space that an event is for. -/
def target (σ : MemorySystem) : ProcessEvent → Option Nat
  | .call .createProcess => none
  | .call (.setupUserStack i) => σ.processes[i]?.map OSProcess.physicalPML4
  | .call (.memoryAllocate i _) => σ.processes[i]?.map OSProcess.physicalPML4
  | .load pml4 _ => some pml4
  | .store pml4 _ _ => some pml4

variable {fixed : Nat → Prop} {σ σ' : MemorySystem} {e : ProcessEvent}

/-- Everything an event does to the private memories, and what it leaves of the kernel's. -/
structure Confines (fixed : Nat → Prop) (σ : MemorySystem) (e : ProcessEvent) (σ' : MemorySystem) :
    Prop where
  spaces : ∀ u ∈ σ.spaces, u ∈ σ'.spaces
  pages : UserPages σ.spaces σ.vm → UserPages σ'.spaces σ'.vm
  old : ∀ u ∈ σ.spaces, ∀ virt, virt < 2 ^ 47 →
    userByte σ'.vm u virt = userByte σ.vm u virt ∨
      σ.target e = some u ∧ ∃ byte, userByte σ'.vm u virt = some byte ∧ e.Brings virt byte
  new : ∀ u ∈ σ'.spaces, u ∉ σ.spaces → ∀ virt, virt < 2 ^ 47 → userByte σ'.vm u virt = none
  frames : KeepsFrames fixed σ.vm σ'.vm
  kernel_walk : ∀ virt m, KernelHalf virt → (∀ r ∈ σ.vm.kernelPML4 :: σ.spaces, σ.vm.walk r virt = m) →
    ∀ r ∈ σ'.vm.kernelPML4 :: σ'.spaces, σ'.vm.walk r virt = m

theorem Confines.of_confined {own : Nat} {Source : Nat → UInt8 → Prop}
    (h : Confined fixed σ.spaces own Source σ.vm σ'.vm) (hspaces : σ'.spaces = σ.spaces)
    (htarget : σ.target e = some own) (hsource : ∀ virt byte, Source virt byte → e.Brings virt byte) :
    Confines fixed σ e σ' where
  spaces := fun u hu => by rwa [hspaces]
  pages := by
    rw [hspaces]
    exact h.userPages
  old := by
    intro u hu virt hvirt
    by_cases hown : u = own
    · subst hown
      apply (h.own_byte virt (lowHalf_of_lt hvirt)).imp_right
      rintro ⟨byte, hbyte, hfrom⟩
      exact ⟨htarget, byte, hbyte, hsource virt byte hfrom⟩
    · exact .inl (h.other_byte u hu hown virt (lowHalf_of_lt hvirt))
  new := by
    intro u hu hnew
    rw [hspaces] at hu
    exact absurd hu hnew
  frames := h.frames
  kernel_walk := by
    intro virt m hhalf hwalk r hr
    rw [hspaces, h.frames.kernelPML4_eq] at hr
    rw [h.kernel_walk r hr virt hhalf]
    exact hwalk r hr

theorem Confines.refl (σ : MemorySystem) (e : ProcessEvent) : Confines fixed σ e σ where
  spaces := fun _ => id
  pages := id
  old := fun _ _ _ _ => .inl rfl
  new := fun _ hu hnew => absurd hu hnew
  frames := KeepsFrames.refl fixed σ.vm
  kernel_walk := fun _ _ _ hwalk => hwalk

/-- A new process has a new address space that shows nothing. -/
theorem Invariant.createProcess_confines (h : Invariant fixed σ) :
    Confines fixed σ (.call .createProcess) (σ.step .createProcess) := by
  obtain ⟨role, howned⟩ := h.owned
  rcases createAddressSpace_cases howned.consistent.wellFormed howned.consistent.isInitialized with
    ⟨-, heq⟩ | ⟨c, vm, heq, hc0, hadd⟩
  · rw [MemorySystem.step, heq]
    exact Confines.refl σ _
  · rw [MemorySystem.step, heq]
    simp only [if_neg hc0]
    exact {
      spaces := fun u hu => List.mem_cons_of_mem _ hu
      pages := fun hpages => hpages.createAddressSpace howned.consistent heq hc0
      old := by
        intro u hu virt hvirt
        refine .inl (userByte_congr
          (hadd.walk_old howned.consistent.wellFormed (List.mem_cons_of_mem _ hu) virt) ?_)
        intro frame flags hwalk
        apply hadd.mem_eq
        rw [walk_floor hwalk]
        -- its frame is a page's, and the new root's was nobody's
        rintro rfl
        have hpage := howned.owned hu (lowHalf_of_lt hvirt) hwalk
        rw [hadd.fresh] at hpage
        exact absurd hpage (by simp)
      new := by
        intro u hu hnew virt hvirt
        rcases List.mem_cons.mp hu with rfl | hu
        · rw [userByte, hadd.walk_new (lowHalf_of_lt hvirt)]
          rfl
        · exact absurd hu hnew
      frames := by
        refine ⟨hadd.kernelPML4_eq, fun x hfixed hne => hadd.mem_eq ?_⟩
        rintro rfl
        have hreserved := (howned.fixed_role hfixed).resolve_right hne
        rw [hadd.fresh] at hreserved
        simp at hreserved
      kernel_walk := by
        intro virt m hhalf hwalk r hr
        by_cases hrc : r = c
        · rw [hrc, hadd.walk_new_kernelHalf howned.consistent.wellFormed hhalf]
          exact hwalk _ List.mem_cons_self
        · have hr' : r ∈ σ.vm.kernelPML4 :: σ.spaces := by
            simp only [MemorySystem.spaces, List.map_cons, List.mem_cons, hadd.kernelPML4_eq] at hr ⊢
            tauto
          rw [hadd.walk_old howned.consistent.wellFormed hr']
          exact hwalk r hr' }

/-- One event, whatever it is. -/
theorem Invariant.event (h : Invariant fixed σ) (hallows : σ.Allows e) :
    Invariant fixed (σ.event e) ∧ Confines fixed σ e (σ.event e) := by
  cases e with
  | call call =>
    refine ⟨h.step call, ?_⟩
    cases call with
    | createProcess => exact h.createProcess_confines
    | setupUserStack i =>
      rw [MemorySystem.event, MemorySystem.step]
      cases hi : σ.processes[i]? with
      | none => exact Confines.refl σ _
      | some process =>
        have hspace : process.physicalPML4 ∈ σ.spaces :=
          List.mem_map_of_mem (List.mem_of_getElem? hi)
        exact Confines.of_confined (setupUserStack_confined h.owned hspace) rfl
          (by rw [target, hi, Option.map_some]) fun _ _ hbyte => hbyte
    | memoryAllocate i size =>
      rw [MemorySystem.event, MemorySystem.step]
      cases hi : σ.processes[i]? with
      | none => exact Confines.refl σ _
      | some process =>
        have hmem := List.mem_of_getElem? hi
        have hspace : process.physicalPML4 ∈ σ.spaces := List.mem_map_of_mem hmem
        have hconfined :=
          memoryAllocate_confined process size h.owned hspace (h.pointers process hmem)
        refine Confines.of_confined hconfined ?_ (by rw [target, hi, Option.map_some])
          fun _ _ hbyte => hbyte
        exact spaces_set hi (memoryAllocate_pml4 σ.vm process size)
  | load pml4 data =>
    obtain ⟨-, hspace, hlow, henough⟩ := hallows
    have hprocess : (⟨pml4, kOSHeapStart⟩ : OSProcess).physicalPML4 ∈ σ.spaces := hspace
    have hconfined := hotLoad_confined h.owned hprocess hlow henough
    have hle : (hotLoad σ.vm ⟨pml4, kOSHeapStart⟩ data).2.pmm.freeCount ≤ σ.vm.pmm.freeCount :=
      freeCount_le_of_free fun _ => (keeps_hotLoad σ.vm ⟨pml4, kOSHeapStart⟩ data).free_of_free
    refine ⟨?_, Confines.of_confined hconfined rfl rfl fun _ _ hbyte => hbyte⟩
    exact {
      owned := hconfined.owned
      nodup := h.nodup
      pointers := by
        intro p hp
        exact (Nat.add_le_add_left (Nat.mul_le_mul_left _ hle) _).trans (h.pointers p hp)
      freeCount_le := hle.trans h.freeCount_le }
  | store pml4 virt value =>
    obtain ⟨-, hspace⟩ := hallows
    have hpmm := userStore_pmm σ.vm pml4 virt value
    constructor
    · exact {
        owned := Owned.userStore h.owned hspace virt value
        nodup := h.nodup
        pointers := by
          intro p hp
          rw [MemorySystem.event, hpmm]
          exact h.pointers p hp
        freeCount_le := by
          rw [MemorySystem.event, hpmm]
          exact h.freeCount_le }
    · obtain ⟨role, howned⟩ := h.owned
      have hsame := userStore_sameTables howned hspace virt value
      refine ⟨fun _ => id, fun hpages => hpages.of_sameTables howned.consistent hsame,
        fun u hu virt' hvirt' => ?_, fun _ hu hnew => absurd hu hnew, ?_, ?_⟩
      · rw [MemorySystem.event, userByte_userStore h.owned hspace value hu hvirt']
        split
        · next hstored =>
          obtain ⟨-, rfl, rfl⟩ := hstored
          exact .inr ⟨rfl, value, rfl, rfl, rfl⟩
        · exact .inl rfl
      · exact howned.keepsFrames_userStore hspace virt value
      · intro virt' m _ hwalk r hr
        have hr' : r ∈ σ.vm.kernelPML4 :: σ.spaces := by
          rwa [MemorySystem.event, hsame.kernelPML4_eq] at hr
        rw [MemorySystem.event, hsame.walk_eq howned.consistent.wellFormed hr']
        exact hwalk r hr'

/-! ## Section 5: Isolation over whole runs -/

/-- The bytes of a process come from its own events. -/
def Origin (events : List ProcessEvent) (u virt : Nat) (byte : UInt8) : Prop :=
  byte = 0 ∨ .store u virt byte ∈ events ∨ ∃ data, .load u data ∈ events ∧ ImageByte data virt byte

theorem Origin.mono {events events' : List ProcessEvent} {u virt : Nat} {byte : UInt8}
    (h : Origin events u virt byte) (hsub : ∀ e ∈ events, e ∈ events') :
    Origin events' u virt byte := by
  rcases h with hzero | hstore | ⟨data, hload, himage⟩
  · exact .inl hzero
  · exact .inr (.inl (hsub _ hstore))
  · exact .inr (.inr ⟨data, hsub _ hload, himage⟩)

/-- What an event brings to its target has that event as its origin. -/
theorem Origin.of_brings {u virt : Nat} {byte : UInt8} (htarget : σ.target e = some u)
    (hbrings : e.Brings virt byte) : Origin [e] u virt byte := by
  cases e with
  | call call => exact .inl hbrings
  | load pml4 data =>
    obtain rfl := Option.some.inj htarget
    exact .inr (.inr ⟨data, List.mem_singleton_self _, hbrings⟩)
  | store pml4 virt' value =>
    obtain rfl := Option.some.inj htarget
    obtain ⟨rfl, rfl⟩ := hbrings
    exact .inr (.inl (List.mem_singleton_self _))

/-- From bytes of some origin, a run leads to bytes of that origin or of one of
its own events. -/
theorem origin_of_run {events : List ProcessEvent} (hruns : Run Allows event σ events σ') :
    ∀ {before : List ProcessEvent}, Invariant fixed σ →
      (∀ u ∈ σ.spaces, ∀ virt, virt < 2 ^ 47 → ∀ byte, userByte σ.vm u virt = some byte →
        Origin before u virt byte) →
      ∀ u ∈ σ'.spaces, ∀ virt, virt < 2 ^ 47 → ∀ byte, userByte σ'.vm u virt = some byte →
        Origin (before ++ events) u virt byte := by
  induction hruns with
  | nil σ =>
    intro before _ horigin
    rw [List.append_nil]
    exact horigin
  | @cons σ σ' e events hallows hrest ih =>
    intro before hinv horigin
    obtain ⟨hinv', hconfines⟩ := hinv.event hallows
    have hstep : ∀ u ∈ (σ.event e).spaces, ∀ virt, virt < 2 ^ 47 → ∀ byte,
        userByte (σ.event e).vm u virt = some byte → Origin (before ++ [e]) u virt byte := by
      intro u hu virt hvirt byte hbyte
      by_cases hold : u ∈ σ.spaces
      · rcases hconfines.old u hold virt hvirt with hkept | ⟨htarget, byte', hbyte', hbrings⟩
        · rw [hkept] at hbyte
          exact (horigin u hold virt hvirt byte hbyte).mono fun e he =>
            List.mem_append_left _ he
        · obtain rfl := Option.some.inj (hbyte'.symm.trans hbyte)
          exact (Origin.of_brings htarget hbrings).mono fun e he => List.mem_append_right _ he
      · rw [hconfines.new u hu hold virt hvirt] at hbyte
        exact absurd hbyte (by simp)
    have hall := ih hinv' hstep
    rwa [List.append_assoc] at hall

end MemorySystem

/-- A first process after boot. -/
theorem exists_firstSpace : ∃ heap vm u, heapMachine.bootHeap = some (heap, vm) ∧
    (MemorySystem.step ⟨vm, [], false⟩ .createProcess).processes = [⟨u, kOSHeapStart⟩] ∧
    599 ≤ (MemorySystem.step ⟨vm, [], false⟩ .createProcess).vm.pmm.freeCount := by
  obtain ⟨heap, vm, hboot, hcount⟩ := heapMachine_bootHeap
  have hinv := bootHeap_invariant heapMachine_accepted (by decide) hboot
  obtain ⟨role, howned⟩ := hinv.owned
  rcases createAddressSpace_cases howned.consistent.wellFormed howned.consistent.isInitialized with
    ⟨hfull, -⟩ | ⟨c, s, heq, hc0, hadd⟩
  · simp only at hfull
    omega
  · have hfree := hadd.freeCount_eq
    refine ⟨heap, vm, c, hboot, ?_, ?_⟩
    · rw [MemorySystem.step, heq]
      simp only [if_neg hc0]
    · rw [MemorySystem.step, heq]
      simp only [if_neg hc0]
      simp only at hfree
      omega

theorem MemorySystem.step_memoryAllocate_keeps (σ : MemorySystem) (i size : Nat) :
    (σ.step (.memoryAllocate i size)).spaces = σ.spaces ∧
    (σ.step (.memoryAllocate i size)).panicked = σ.panicked := by
  rw [MemorySystem.step]
  cases hi : σ.processes[i]? with
  | none => exact ⟨rfl, rfl⟩
  | some process => exact ⟨spaces_set hi (memoryAllocate_pml4 σ.vm process size), rfl⟩

/-- What a process stores it reads back, no other byte of any process changes
with it, and as long as it neither stores nor calls again, all its bytes stay,
whatever the other processes do. -/
theorem memory_isolated (m : Machine) (hm : m.Accepted)
    (hmemory : maxPhysicalAddress m.memoryMap ≤ 2 ^ 46) {heap : List Nat} {vm : VMState}
    (hboot : m.bootHeap = some (heap, vm)) {events : List ProcessEvent} {σ : MemorySystem}
    (hruns : Run MemorySystem.Allows MemorySystem.event ⟨vm, [], false⟩ events σ) {u : Nat}
    (hu : u ∈ σ.spaces) :
    (∀ virt value, StorePermitted σ.vm u virt → ∀ u' ∈ σ.spaces, ∀ virt', virt' < 2 ^ 47 →
      userByte (σ.event (.store u virt value)).vm u' virt' =
        if u' = u ∧ virt' = virt then some value else userByte σ.vm u' virt') ∧
    ∀ later σ', Run (fun σ e => σ.Allows e ∧ σ.target e ≠ some u) MemorySystem.event σ later σ' →
      ∀ virt, virt < 2 ^ 47 → userByte σ'.vm u virt = userByte σ.vm u virt := by
  have hinv : MemorySystem.Invariant (KernelFrame m heap) σ :=
    hruns.invariant (fun σ e h hallows => (h.event hallows).1) (bootHeap_invariant hm hmemory hboot)
  constructor
  · intro virt value hpermitted u' hu' virt' hvirt'
    rw [MemorySystem.event, userByte_userStore hinv.owned hu value hu' hvirt']
    simp only [hpermitted, true_and]
  · intro later σ' hlater
    clear hruns
    induction hlater with
    | nil => exact fun _ _ => rfl
    | @cons σ σ' e later hok hrest ih =>
      intro virt hvirt
      obtain ⟨hinv', hconfines⟩ := hinv.event hok.1
      have hstep : userByte (σ.event e).vm u virt = userByte σ.vm u virt :=
        (hconfines.old u hu virt hvirt).resolve_right fun hnew => hok.2 hnew.1
      rw [ih (hconfines.spaces u hu) hinv' virt hvirt, hstep]

theorem memory_isolated_two : ∃ heap vm u v, heapMachine.bootHeap = some (heap, vm) ∧
    let σ := (MemorySystem.step ⟨vm, [], false⟩ .createProcess).step .createProcess
    σ.spaces = [v, u] ∧ ∀ virt, virt < 2 ^ 47 →
      userByte (σ.event (.call (.memoryAllocate 0 0x3000))).vm u virt = userByte σ.vm u virt := by
  obtain ⟨heap, vm, u, hboot, hprocesses, hcount⟩ := exists_firstSpace
  have hinv := bootHeap_invariant heapMachine_accepted (by decide) hboot
  have hfirst := MemorySystem.step_createProcess_panicked ⟨vm, [], false⟩
  have hruns : Run MemorySystem.Allows MemorySystem.event ⟨vm, [], false⟩
      [.call .createProcess, .call .createProcess]
      ((MemorySystem.step ⟨vm, [], false⟩ .createProcess).step .createProcess) := by
    refine .cons ?_ (.cons ?_ (.nil _))
    · rfl
    · exact hfirst
  -- the second creation finds a frame, and not the first one's
  obtain ⟨v, hsecond⟩ : ∃ v, ((MemorySystem.step ⟨vm, [], false⟩ .createProcess).step
      .createProcess).processes = [⟨v, kOSHeapStart⟩, ⟨u, kOSHeapStart⟩] := by
    obtain ⟨role, howned⟩ := (hinv.step .createProcess).owned
    rcases createAddressSpace_cases howned.consistent.wellFormed
      howned.consistent.isInitialized with ⟨hfull, -⟩ | ⟨c, s, heq, hc0, -⟩
    · omega
    · refine ⟨c, ?_⟩
      rw [MemorySystem.step.eq_def (MemorySystem.step _ _), heq]
      simp only [if_neg hc0, hprocesses]
  have hnodup := ((hinv.step .createProcess).step .createProcess).nodup
  rw [MemorySystem.spaces, hsecond] at hnodup
  have hne : v ≠ u := by simpa using hnodup
  refine ⟨heap, vm, u, v, hboot, by rw [MemorySystem.spaces, hsecond]; rfl, fun virt hvirt => ?_⟩
  have hspace : u ∈ ((MemorySystem.step ⟨vm, [], false⟩ .createProcess).step
      .createProcess).spaces := by
    rw [MemorySystem.spaces, hsecond]
    simp
  refine (memory_isolated heapMachine heapMachine_accepted (by decide) hboot hruns hspace).2
    [.call (.memoryAllocate 0 0x3000)] _ (.cons ⟨?_, ?_⟩ (.nil _)) virt hvirt
  · exact (MemorySystem.step_createProcess_panicked _).trans hfirst
  · rw [MemorySystem.target, hsecond]
    simpa using hne

end TermOS.OS
