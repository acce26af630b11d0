import TermOS.OS.HOTLoaderSegments
import TermOS.OS.MemoryService

/-!
# The pages of a new process

A process starts with the pages of its image and with four pages of stack. The
loader does not notice that it runs out of frames, but the stack comes after the
image, and its setup panics as soon as no frame is left. So if it succeeds,
every page of the image has got a frame.
-/

namespace TermOS.OS

open TermOS.Lib TermOS.Kernel TermOS.VM TermOS.Lib.TableForest VMState

/-! ## Section 1: The user stack -/

/-- The pages of `VMVirtualMemorySetupUserStack`. -/
def userStackPages : List Nat := pageLoop (kVMUserStackTop - kVMUserStackSize) kVMUserStackTop

theorem userStackPages_eq : userStackPages = [0x6FFFC000, 0x6FFFD000, 0x6FFFE000, 0x6FFFF000] := by
  decide

theorem mem_userStackPages {page : Nat} :
    page ∈ userStackPages ↔ page % 4096 = 0 ∧ 0x6FFFC000 ≤ page ∧ page < 0x70000000 := by
  simp only [userStackPages_eq, List.mem_cons, List.not_mem_nil, or_false]
  omega

/-- A turn of the stack's loop: the frame is cleared before it is mapped. -/
def stackTurn (pml4 : Nat) (s : VMState) (virt : Nat) : VMState :=
  pageTurn (fun s phys => s.clearPage (physToHhdm phys)) (fun s _ => s) s pml4 virt

section Stack

variable {spaces : List Nat} {role : Roles} {s : VMState} {pml4 : Nat}

theorem stackTurn_outcome (h : ∃ role, Consistent spaces role s) (hpml4 : pml4 ∈ spaces)
    (virt : Nat) : TurnOutcome spaces s pml4 virt (stackTurn pml4 s virt) := by
  obtain ⟨role, h⟩ := h
  exact pageTurn_outcome writesFrame_clearPage writesFrame_id h hpml4 virt

/-- The loop is one of guarded turns. -/
theorem setupUserStackPages_turns (hpml4 : pml4 ∈ spaces) (pages : List Nat) :
    ∀ {s : VMState}, (∃ role, Consistent spaces role s) →
      setupUserStackPages pml4 s pages = guardedTurns (stackTurn pml4) s pages := by
  induction pages with
  | nil => exact fun _ => rfl
  | cons virt rest ih =>
    intro s h
    have hout := stackTurn_outcome h hpml4 virt
    rw [guardedTurns, ← ih hout.consistent, setupUserStackPages]
    obtain ⟨role, h⟩ := h
    rcases h.allocatePage (x := .reserved) (by simp) with ⟨hfull, heq⟩ |
      ⟨a, s₁, heq, hne, -, -, hcount, -⟩
    · simp [heq, hfull]
    · have hpos : s.pmm.freeCount ≠ 0 := by omega
      simp only [heq, if_neg hne, if_neg hpos, stackTurn, pageTurn]

/-- The four pages share their tables. -/
theorem framesNeeded_userStackPages (s : VMState) (pml4 : Nat) :
    framesNeeded s pml4 userStackPages = framesNeeded s pml4 userStackPages.dropLast + 1 := by
  have hpaths : (userStackPages.map upperPath).toFinset =
      (userStackPages.dropLast.map upperPath).toFinset := by decide
  have hlength : userStackPages.length = userStackPages.dropLast.length + 1 := by decide
  simp only [framesNeeded, tablesNeeded, hpaths, hlength]
  omega

/-- The setup succeeds exactly when there are frames for all pages and their tables. -/
theorem setupUserStack_true_iff (h : ∃ role, Consistent spaces role s) (hpml4 : pml4 ∈ spaces) :
    (vmVirtualMemorySetupUserStack s pml4).1 = true ↔
      framesNeeded s pml4 userStackPages ≤ s.pmm.freeCount := by
  have hturns := setupUserStackPages_turns hpml4 userStackPages h
  obtain ⟨role, h⟩ := h
  rw [vmVirtualMemorySetupUserStack, ← userStackPages, hturns, framesNeeded_userStackPages]
  exact guardedTurns_true_iff writesFrame_clearPage writesFrame_id hpml4 h (by decide)

/-- Then each of them gets a frame of its own; further pages need as many frames
as before. -/
theorem setupUserStack_granted (h : Consistent spaces role s) (hpml4 : pml4 ∈ spaces)
    (henough : framesNeeded s pml4 userStackPages ≤ s.pmm.freeCount) :
    ∃ role', PagesGranted spaces none role s pml4 userStackPages role'
        (vmVirtualMemorySetupUserStack s pml4).2 ∧
      ∀ rest, s.pmm.freeCount + framesNeeded (vmVirtualMemorySetupUserStack s pml4).2 pml4 rest =
        (vmVirtualMemorySetupUserStack s pml4).2.pmm.freeCount +
          framesNeeded s pml4 (userStackPages ++ rest) := by
  have hturns : vmVirtualMemorySetupUserStack s pml4 =
      guardedTurns (stackTurn pml4) s userStackPages :=
    setupUserStackPages_turns hpml4 userStackPages ⟨role, h⟩
  have hloop : guardedTurns (stackTurn pml4) s userStackPages =
      (true, userStackPages.foldl (stackTurn pml4) s) :=
    guardedTurns_eq_foldl writesFrame_clearPage writesFrame_id hpml4 h henough
  have hgranted : ∃ role', PagesGranted spaces none role s pml4 (userStackPages.map id) role'
      (userStackPages.foldl (stackTurn pml4) s) ∧ _ :=
    foldl_pageTurn_granted id (fun _ s _ => s) writesFrame_clearPage hpml4 userStackPages
      (fun _ _ => writesFrame_id) (fun _ _ _ hb => absurd hb (by simp)) h (by rwa [List.map_id])
  rw [List.map_id] at hgranted
  rw [hturns, hloop]
  exact hgranted

end Stack

/-! ## Section 2: Image and stack -/

/-- The pages that a program gets before it runs. -/
def processPages (data : Memory) : List Nat := hotPages data ++ userStackPages

section Pages

variable {spaces : List Nat} {role : Roles} {s : VMState} {pml4 : Nat} {data : Memory}
  {turns : List (HOTSegment × Nat)}

/-- Without frames enough, none is left in the end. -/
theorem turns_freeCount_of_short (hpml4 : pml4 ∈ spaces) :
    ∀ {s : VMState}, (∃ role, Consistent spaces role s) → (∀ t ∈ turns, LoopPage t.2) →
      s.pmm.freeCount < framesNeeded s pml4 (turns.map Prod.snd) ∨ s.pmm.freeCount = 0 →
      (turns.foldl (hotTurn pml4 data) s).pmm.freeCount = 0 := by
  induction turns with
  | nil =>
    intro s _ _ hshort
    simpa [framesNeeded] using hshort
  | cons turn rest ih =>
    intro s h hturns hshort
    have hout := hotTurn_outcome data h hpml4 (hturns turn List.mem_cons_self)
    rw [List.foldl_cons]
    apply ih hout.consistent fun t ht => hturns t (List.mem_cons_of_mem _ ht)
    rw [framesNeeded, List.map_cons, List.length_cons] at hshort
    rw [framesNeeded]
    rcases hout.cases with ⟨hlt, hcount, -, hneeded⟩ | ⟨-, hzero, -⟩
    · -- the page was mapped, so the others are short of frames
      have hrest := hneeded (rest.map Prod.snd)
      left
      omega
    · exact .inr hzero

/-- With frames enough, every page of the image gets one. -/
theorem hotLoad_granted (h : Consistent spaces role s) {process : OSProcess}
    (hprocess : process.physicalPML4 ∈ spaces)
    (henough : framesNeeded s process.physicalPML4 (hotPages data) ≤ s.pmm.freeCount) :
    ∃ role', PagesGranted spaces none role s process.physicalPML4 (hotPages data) role'
        (hotLoad s process data).2 ∧
      ∀ rest, s.pmm.freeCount +
          framesNeeded (hotLoad s process data).2 process.physicalPML4 rest =
        (hotLoad s process data).2.pmm.freeCount +
          framesNeeded s process.physicalPML4 (hotPages data ++ rest) := by
  rw [hotLoad_eq]
  exact foldl_pageTurn_granted Prod.snd (fun t s phys => fillPage data t.1 s phys t.2)
    writesFrame_id hprocess (hotTurns data)
    (fun t ht => writesFrame_fillPage data t.1 (loopPage_of_mem_hotTurns ht).2)
    (fun _ _ _ hb => absurd hb (by simp)) h henough

/-- After the image was loaded, the stack is set up exactly when there were
frames for all pages of the process. -/
theorem setupUserStack_hotLoad_true_iff (h : Consistent spaces role s) {process : OSProcess}
    (hprocess : process.physicalPML4 ∈ spaces) :
    (vmVirtualMemorySetupUserStack (hotLoad s process data).2 process.physicalPML4).1 = true ↔
      framesNeeded s process.physicalPML4 (processPages data) ≤ s.pmm.freeCount := by
  have hloop : ∀ t ∈ hotTurns data, LoopPage t.2 := fun t ht => (loopPage_of_mem_hotTurns ht).2
  have hconsistent : ∃ role, Consistent spaces role (hotLoad s process data).2 := by
    rw [hotLoad_eq]
    exact (turns_consistent hprocess ⟨role, h⟩ hloop).1
  rw [setupUserStack_true_iff hconsistent hprocess]
  by_cases henough : framesNeeded s process.physicalPML4 (hotPages data) ≤ s.pmm.freeCount
  · obtain ⟨role', -, hcount⟩ := hotLoad_granted h hprocess henough
    have hstack := hcount userStackPages
    rw [processPages]
    omega
  · -- the loader has used up the frames
    have hzero : (hotLoad s process data).2.pmm.freeCount = 0 := by
      rw [hotLoad_eq]
      apply turns_freeCount_of_short hprocess ⟨role, h⟩ hloop
      exact .inl (Nat.not_le.mp henough)
    have hmore : framesNeeded s process.physicalPML4 (hotPages data) ≤
        framesNeeded s process.physicalPML4 (processPages data) := by
      rw [processPages]
      exact framesNeeded_append_le _ _ _ _
    rw [hzero, framesNeeded_userStackPages]
    omega

/-- If the stack is set up, every page of the process has a frame of its own that
was free before; further pages need as many frames as before. -/
theorem processPages_granted (h : Consistent spaces role s) (process : OSProcess)
    (hprocess : process.physicalPML4 ∈ spaces)
    (henough : framesNeeded s process.physicalPML4 (processPages data) ≤ s.pmm.freeCount) :
    ∃ role', PagesGranted spaces none role s process.physicalPML4 (processPages data) role'
        (vmVirtualMemorySetupUserStack (hotLoad s process data).2 process.physicalPML4).2 ∧
      ∀ rest, s.pmm.freeCount + framesNeeded (vmVirtualMemorySetupUserStack
            (hotLoad s process data).2 process.physicalPML4).2 process.physicalPML4 rest =
        (vmVirtualMemorySetupUserStack (hotLoad s process data).2
            process.physicalPML4).2.pmm.freeCount +
          framesNeeded s process.physicalPML4 (processPages data ++ rest) := by
  have himage : framesNeeded s process.physicalPML4 (hotPages data) ≤ s.pmm.freeCount := by
    apply Nat.le_trans _ henough
    exact framesNeeded_append_le _ _ _ _
  obtain ⟨role₁, hgranted, hcount⟩ := hotLoad_granted h hprocess himage
  have hstack := hcount userStackPages
  rw [processPages] at henough
  have hconsistent := hgranted.consistent
  have hfew : framesNeeded (hotLoad s process data).2 process.physicalPML4 userStackPages ≤
      (hotLoad s process data).2.pmm.freeCount := by omega
  generalize (hotLoad s process data).2 = s₁ at hgranted hconsistent hcount hfew
  obtain ⟨role', hgranted', hcount'⟩ := setupUserStack_granted hconsistent hprocess hfew
  refine ⟨role', hgranted.append hgranted', fun rest => ?_⟩
  have hfirst := hcount (userStackPages ++ rest)
  have hsecond := hcount' rest
  rw [processPages, List.append_assoc]
  omega

end Pages

/-! ## Section 3: Frames are never freed -/

theorem keeps_loadPage (pml4 : Nat) (data : Memory) (segment : HOTSegment) (s : VMState)
    (address : Nat) : Keeps s (loadPage pml4 data segment s address) := by
  have hmapped := (keeps_allocatePage s).trans
    (keeps_mapPage s.allocatePage.2 pml4 s.allocatePage.1 address pteUserData)
  have hclear := hmapped.trans (keeps_clearPage _ (physToHhdm s.allocatePage.1))
  unfold loadPage fillPage
  simp only
  split
  · exact hclear.trans ⟨rfl, rfl, rfl, rfl, id⟩
  · exact hclear

theorem keeps_foldl {τ : Type} {turn : VMState → τ → VMState}
    (hturn : ∀ s t, Keeps s (turn s t)) (turns : List τ) (s : VMState) :
    Keeps s (turns.foldl turn s) := by
  induction turns generalizing s with
  | nil => exact Keeps.refl s
  | cons t rest ih => exact (hturn s t).trans (ih (turn s t))

/-- Loading frees nothing, even with page tables that are none. -/
theorem keeps_hotLoad (s : VMState) (process : OSProcess) (data : Memory) :
    Keeps s (hotLoad s process data).2 := by
  have hturn : ∀ (s : VMState) (t : HOTSegment × Nat),
      Keeps s (hotTurn process.physicalPML4 data s t) :=
    fun s t => keeps_loadPage process.physicalPML4 data t.1 s t.2
  rw [hotLoad_eq]
  exact keeps_foldl hturn (hotTurns data) s

theorem keeps_setupUserStackPages (pml4 : Nat) (pages : List Nat) (s : VMState) :
    Keeps s (setupUserStackPages pml4 s pages).2 := by
  induction pages generalizing s with
  | nil => exact Keeps.refl s
  | cons virt rest ih =>
    have halloc := keeps_allocatePage s
    rw [setupUserStackPages]
    simp only
    split
    · exact halloc
    · have hclear := halloc.trans (keeps_clearPage _ (physToHhdm s.allocatePage.1))
      exact (hclear.trans (keeps_mapPage _ pml4 _ virt pteUserData)).trans (ih _)

theorem keeps_setupUserStack (s : VMState) (pml4 : Nat) :
    Keeps s (vmVirtualMemorySetupUserStack s pml4).2 :=
  keeps_setupUserStackPages pml4 _ s

theorem keeps_memoryAllocatePages (count : Nat) (s : VMState) (process : OSProcess) :
    Keeps s (memoryAllocatePages s process count).2.1 := by
  induction count generalizing s process with
  | zero => exact Keeps.refl s
  | succ count ih =>
    have halloc := keeps_allocatePage s
    rw [memoryAllocatePages]
    simp only
    split
    · exact halloc
    · have hmap := halloc.trans (keeps_mapPage _ process.physicalPML4 s.allocatePage.1
        process.heapCurrentPointer pteUserData)
      exact (hmap.trans (keeps_clearPage _ _)).trans (ih _ _)

theorem keeps_memoryAllocate (s : VMState) (process : OSProcess) (size : Nat) :
    Keeps s (osServiceMemoryAllocate s process size).2.1 := by
  by_cases hsize : size = 0
  · rw [osServiceMemoryAllocate, if_pos hsize]
    exact Keeps.refl s
  · rw [osServiceMemoryAllocate_eq hsize]
    exact keeps_memoryAllocatePages _ s process

/-- Without a free frame the stack cannot be set up. -/
theorem setupUserStack_of_full {s : VMState} (hfull : s.pmm.freeCount = 0) (pml4 : Nat) :
    (vmVirtualMemorySetupUserStack s pml4).1 = false := by
  rw [vmVirtualMemorySetupUserStack, ← userStackPages, userStackPages_eq, setupUserStackPages]
  rcases allocatePage_state_cases s with ⟨-, heq⟩ | ⟨f, s₁, hf, -⟩
  · simp [heq]
  · exact absurd hf (freeCount_eq_zero_iff.mp hfull f)

theorem full_of_keeps {s s' : VMState} (h : Keeps s s') (hfull : s.pmm.freeCount = 0) :
    s'.pmm.freeCount = 0 :=
  freeCount_eq_zero_iff.mpr fun f hf => freeCount_eq_zero_iff.mp hfull f (h.free_of_free hf)

/-! ## Section 4: Programs -/

/-- A file of `size` bytes with the magic number whose segment table is in the
file and whose segments lie in the user half. -/
structure UserProgram (data : Memory) (size : Nat) : Prop where
  magic : (readHeader data).magic = hotMagic
  table : hotHeaderSize + hotSegmentSize * (readHeader data).segmentsCount ≤ size
  userHalf : ∀ segment ∈ hotSegments data, ∀ virt, segment.Covers virt → virt < 2 ^ 47

section Program

variable {data data' : Memory} {size : Nat}

/-- The segment table depends only on the bytes that it lies in. -/
theorem hotSegments_congr (hsize : size < 2 ^ 64)
    (htable : hotHeaderSize + hotSegmentSize * (readHeader data).segmentsCount ≤ size)
    (h : ∀ x, x < size → data x = data' x) : hotSegments data = hotSegments data' := by
  have hheader : readHeader data = readHeader data' :=
    readHeader_congr fun x hx => h x (by omega)
  rw [hotSegments, hotSegments, ← hheader]
  apply List.map_congr_left
  intro i hi
  have hi := List.mem_range.mp hi
  have hle : hotHeaderSize + hotSegmentSize * (i + 1) ≤ size :=
    le_trans (Nat.add_le_add_left (Nat.mul_le_mul_left _ hi) _) htable
  exact readSegment_congr (Nat.lt_of_le_of_lt hle hsize) fun x hx => h x (Nat.lt_of_lt_of_le hx hle)

/-- A copy of a program is a program, with the same segments. -/
theorem UserProgram.congr (h : UserProgram data size) (hsize : size < 2 ^ 64)
    (hsame : ∀ x, x < size → data x = data' x) :
    UserProgram data' size ∧ hotSegments data' = hotSegments data := by
  have htable := h.table
  have hheader : readHeader data = readHeader data' :=
    readHeader_congr fun x hx => hsame x (by omega)
  have hsegments := hotSegments_congr hsize htable hsame
  refine ⟨?_, hsegments.symm⟩
  exact {
    magic := by rw [← hheader, h.magic]
    table := by rwa [← hheader]
    userHalf := by
      rw [← hsegments]
      exact h.userHalf }

/-- The pages of a program are those that its segments meet. -/
theorem UserProgram.mem_hotPages (h : UserProgram data size) {page : Nat} :
    page ∈ hotPages data ↔
      page % 4096 = 0 ∧ ∃ segment ∈ hotSegments data, segment.MeetsPage (page / 4096) := by
  have hpages : ∀ segment ∈ hotSegments data, (page ∈ segment.pages ↔
      page % 4096 = 0 ∧ segment.MeetsPage (page / 4096)) := by
    intro segment hsegment
    by_cases hmemsz : segment.memsz = 0
    · -- a segment without pages
      rw [HOTSegment.pages, if_pos hmemsz]
      refine ⟨fun hmem => absurd hmem (by simp), ?_⟩
      rintro ⟨-, virt, ⟨hle, hlt⟩, -⟩
      omega
    · apply HOTSegment.mem_pages_iff
      have hlast := h.userHalf segment hsegment (segment.vaddr + segment.memsz - 1)
        ⟨by omega, by omega⟩
      omega
  rw [hotPages, hotTurns_eq h.magic]
  simp only [List.map_flatMap, List.map_map, Function.comp_def, List.map_id', List.mem_flatMap]
  constructor
  · rintro ⟨segment, hsegment, hmem⟩
    obtain ⟨halign, hmeets⟩ := (hpages segment hsegment).mp hmem
    exact ⟨halign, segment, hsegment, hmeets⟩
  · rintro ⟨halign, segment, hsegment, hmeets⟩
    exact ⟨segment, hsegment, (hpages segment hsegment).mpr ⟨halign, hmeets⟩⟩

/-- A copy of a program has the same pages. -/
theorem UserProgram.hotPages_congr (h : UserProgram data size) (hsize : size < 2 ^ 64)
    (hsame : ∀ x, x < size → data x = data' x) : hotPages data' = hotPages data := by
  obtain ⟨h', hsegments⟩ := h.congr hsize hsame
  rw [hotPages, hotPages, hotTurns_eq h'.magic, hotTurns_eq h.magic, hsegments]

/-- They lie in the user half. -/
theorem UserProgram.hotPages_lt (h : UserProgram data size) {page : Nat}
    (hpage : page ∈ hotPages data) : page < 2 ^ 47 := by
  obtain ⟨halign, segment, hsegment, virt, hcovers, heq⟩ := h.mem_hotPages.mp hpage
  have hvirt := h.userHalf segment hsegment virt hcovers
  omega

end Program

end TermOS.OS
