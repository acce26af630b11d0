import TermOS.OS.HOTLoaderFrame

/-!
# What the memory service grants

`OSServiceMemoryAllocate` looks at the frame that it allocates for a page, and
not at what comes of mapping it. The tables of the last page may be missing
without anyone noticing, and a call that is refused keeps what it took. The
number of free frames decides which of these happens.
-/

namespace TermOS.OS

open TermOS.Lib TermOS.Kernel TermOS.VM TermOS.Lib.TableForest VMState

/-! ## Section 1: The pages of a call -/

/-- The number of turns that `OSServiceMemoryAllocate` computes. -/
def pagesNeeded (size : Nat) : Nat := wrap64 (size + (kVMPageSize - 1)) / kVMPageSize

/-- The pages that `count` turns visit from the heap pointer on. -/
def servicePages : Nat → Nat → List Nat
  | _, 0 => []
  | virt, count + 1 => virt :: servicePages (wrap64 (virt + kVMPageSize)) count

theorem length_servicePages (count : Nat) :
    ∀ virt, (servicePages virt count).length = count := by
  induction count with
  | zero => exact fun _ => rfl
  | succ count ih =>
    intro virt
    rw [servicePages, List.length_cons, ih]

/-- All pages of a call but the last one. -/
theorem dropLast_servicePages (count : Nat) :
    ∀ virt, (servicePages virt (count + 1)).dropLast = servicePages virt count := by
  induction count with
  | zero => exact fun _ => rfl
  | succ count ih =>
    intro virt
    rw [servicePages, servicePages, List.dropLast_cons_cons, ← servicePages, ih]
    rfl

/-- Below the top of the address space the pages follow each other. -/
theorem servicePages_eq (count : Nat) :
    ∀ {virt}, virt + kVMPageSize * count < 2 ^ 64 →
      servicePages virt count = (List.range count).map fun i => virt + kVMPageSize * i := by
  induction count with
  | zero => exact fun _ => rfl
  | succ count ih =>
    intro virt hlt
    rw [Nat.mul_succ] at hlt
    rw [servicePages, wrap64_of_lt (by omega), ih (by omega), List.range_succ_eq_map,
      List.map_cons, List.map_map]
    congr 1
    apply List.map_congr_left
    intro i _
    simp only [Function.comp_apply, Nat.succ_eq_add_one]
    rw [Nat.mul_add]
    omega

theorem mem_servicePages {virt count page : Nat} (hlt : virt + kVMPageSize * count < 2 ^ 64) :
    page ∈ servicePages virt count ↔ ∃ i < count, page = virt + kVMPageSize * i := by
  rw [servicePages_eq count hlt, List.mem_map]
  simp only [List.mem_range, eq_comm]

theorem pagesNeeded_of_lt {size : Nat} (h : size + 4095 < 2 ^ 64) :
    pagesNeeded size = (size + 4095) / 4096 := by
  rw [pagesNeeded, kVMPageSize, wrap64_of_lt h]

/-- Near the top of the 64-bit range the rounding wraps, and nothing is left. -/
theorem pagesNeeded_of_ge {size : Nat} (hsize : size < 2 ^ 64) (h : 2 ^ 64 ≤ size + 4095) :
    pagesNeeded size = 0 := by
  rw [pagesNeeded, wrap64, kVMPageSize]
  omega

/-! ## Section 2: The loop -/

/-- One turn of the service, after a frame was found. -/
def serviceTurn (pml4 : Nat) (s : VMState) (virt : Nat) : VMState :=
  pageTurn (fun s _ => s) (fun s phys => s.clearPage (physToHhdm phys)) s pml4 virt

/-- The states in which a process asks for memory: its address space is one of
`spaces`, and the heap pointer has room for all the frames that are free. -/
structure ServiceReady (spaces : List Nat) (s : VMState) (process : OSProcess) : Prop where
  consistent : ∃ role, Consistent spaces role s
  space : process.physicalPML4 ∈ spaces
  aligned : process.heapCurrentPointer % kVMPageSize = 0
  start_le : kOSHeapStart ≤ process.heapCurrentPointer
  room : process.heapCurrentPointer + kVMPageSize * s.pmm.freeCount ≤ 2 ^ 47

section Loop

variable {spaces : List Nat} {role : Roles} {s : VMState} {process : OSProcess} {count : Nat}

/-- A turn takes a frame. -/
theorem serviceTurn_outcome (h : ∃ role, Consistent spaces role s)
    (hpml4 : process.physicalPML4 ∈ spaces) (virt : Nat) :
    TurnOutcome spaces s process.physicalPML4 virt (serviceTurn process.physicalPML4 s virt) := by
  obtain ⟨role, h⟩ := h
  exact pageTurn_outcome writesFrame_id writesFrame_clearPage h hpml4 virt

/-- The loop stops when no frame is free, and goes on with the next page otherwise. -/
theorem memoryAllocatePages_succ (h : ∃ role, Consistent spaces role s) (process : OSProcess)
    (count : Nat) :
    memoryAllocatePages s process (count + 1) =
      if s.pmm.freeCount = 0 then (false, s, process)
      else memoryAllocatePages (serviceTurn process.physicalPML4 s process.heapCurrentPointer)
        { process with heapCurrentPointer := wrap64 (process.heapCurrentPointer + kVMPageSize) }
        count := by
  obtain ⟨role, h⟩ := h
  rw [memoryAllocatePages]
  rcases h.allocatePage (x := .reserved) (by simp) with ⟨hfull, heq⟩ |
    ⟨a, s₁, heq, hne, -, -, hcount, -⟩
  · simp [heq, hfull]
  · have hpos : s.pmm.freeCount ≠ 0 := by omega
    simp only [heq, if_neg hne, if_neg hpos, serviceTurn, pageTurn]

/-- The loop is one of guarded turns. -/
theorem memoryAllocatePages_turns (count : Nat) :
    ∀ {s : VMState} (process : OSProcess), (∃ role, Consistent spaces role s) →
      process.physicalPML4 ∈ spaces →
      ((memoryAllocatePages s process count).1, (memoryAllocatePages s process count).2.1) =
        guardedTurns (serviceTurn process.physicalPML4) s
          (servicePages process.heapCurrentPointer count) := by
  induction count with
  | zero => exact fun _ _ _ => rfl
  | succ count ih =>
    intro s process h hpml4
    rw [memoryAllocatePages_succ h, servicePages, guardedTurns]
    split
    · rfl
    · exact ih { process with heapCurrentPointer := _ }
        (serviceTurn_outcome h hpml4 _).consistent hpml4

/-- The heap pointer moves by one page for each turn, and each turn takes at
least one frame. -/
theorem memoryAllocatePages_pointer (count : Nat) :
    ∀ {s : VMState} (process : OSProcess), (∃ role, Consistent spaces role s) →
      process.physicalPML4 ∈ spaces →
      process.heapCurrentPointer + kVMPageSize * s.pmm.freeCount < 2 ^ 64 →
      ∃ turns, (memoryAllocatePages s process count).2.2 = { process with
          heapCurrentPointer := process.heapCurrentPointer + kVMPageSize * turns } ∧
        (memoryAllocatePages s process count).2.1.pmm.freeCount + turns ≤ s.pmm.freeCount ∧
        ((memoryAllocatePages s process count).1 = true → turns = count) ∧
        ∃ role, Consistent spaces role (memoryAllocatePages s process count).2.1 := by
  induction count with
  | zero => exact fun _ h _ _ => ⟨0, rfl, Nat.le_refl _, fun _ => rfl, h⟩
  | succ count ih =>
    intro s process h hpml4 hroom
    rw [memoryAllocatePages_succ h]
    have hout := serviceTurn_outcome h hpml4 process.heapCurrentPointer
    by_cases hfull : s.pmm.freeCount = 0
    · -- refused at once
      rw [if_pos hfull]
      exact ⟨0, rfl, Nat.le_refl _, fun htrue => absurd htrue (by simp), h⟩
    · rw [if_neg hfull]
      have hless : (serviceTurn process.physicalPML4 s process.heapCurrentPointer).pmm.freeCount + 1 ≤
          s.pmm.freeCount := by
        rcases hout.cases with ⟨-, hcount, -⟩ | ⟨-, hzero, -⟩ <;> omega
      have hpages := Nat.mul_le_mul_left kVMPageSize hless
      rw [Nat.mul_succ] at hpages
      rw [wrap64_of_lt (by omega)]
      obtain ⟨turns, hpointer, hcount, htrue, hrest⟩ :=
        ih ⟨process.physicalPML4, process.heapCurrentPointer + kVMPageSize⟩ hout.consistent hpml4
          (by simp only; omega)
      refine ⟨turns + 1, ?_, by omega, fun ht => by rw [htrue ht], hrest⟩
      rw [hpointer, Nat.mul_succ]
      simp only [OSProcess.mk.injEq, true_and]
      omega

/-- The call is its loop. -/
theorem osServiceMemoryAllocate_eq {size : Nat} (hsize : size ≠ 0) :
    osServiceMemoryAllocate s process size =
      (if (memoryAllocatePages s process (pagesNeeded size)).1 then process.heapCurrentPointer else 0,
        (memoryAllocatePages s process (pagesNeeded size)).2) := by
  rw [osServiceMemoryAllocate, if_neg hsize, ← pagesNeeded]
  simp only
  generalize memoryAllocatePages s process (pagesNeeded size) = result
  obtain ⟨_ | _, s', process'⟩ := result <;> rfl

/-- Whatever a call does, the process may ask again. -/
theorem ServiceReady.memoryAllocate (h : ServiceReady spaces s process) (size : Nat) :
    ServiceReady spaces (osServiceMemoryAllocate s process size).2.1
      (osServiceMemoryAllocate s process size).2.2 := by
  by_cases hsize : size = 0
  · simpa [osServiceMemoryAllocate, hsize] using h
  · rw [osServiceMemoryAllocate_eq hsize]
    have hroom := h.room
    obtain ⟨turns, hpointer, hcount, -, hconsistent⟩ :=
      memoryAllocatePages_pointer (pagesNeeded size) process h.consistent h.space (by omega)
    have hpages := Nat.mul_le_mul_left kVMPageSize hcount
    rw [Nat.mul_add] at hpages
    exact {
      consistent := hconsistent
      space := by
        rw [hpointer]
        exact h.space
      aligned := by
        simp only [hpointer]
        rw [Nat.add_mul_mod_self_left, h.aligned]
      start_le := by
        simp only [hpointer]
        exact h.start_le.trans (Nat.le_add_right _ _)
      room := by
        simp only [hpointer]
        omega }

end Loop

/-! ## Section 3: What a call grants -/

/-- Each page of the `size` bytes at `address` has a frame of its own that the
call handed out, with zeros in it. -/
structure ServiceGrants (s : VMState) (pml4 address size : Nat) (s' : VMState) : Prop where
  granted : ∀ virt, address ≤ virt → virt < address + size →
    ∃ frame, s'.walk pml4 virt = some (frame, pteUserData) ∧
      s.pmm.FrameFree (frame / kVMPageSize) ∧ ¬ s'.pmm.FrameFree (frame / kVMPageSize) ∧
      ∀ i, i < kVMPageSize → s'.mem (frame + i) = 0
  distinct : ∀ virt virt' frame frame', address ≤ virt → virt < address + size →
    address ≤ virt' → virt' < address + size →
    s'.walk pml4 virt = some frame → s'.walk pml4 virt' = some frame' → frame.1 = frame'.1 →
    pageNumber virt = pageNumber virt'

section Grant

variable {spaces : List Nat} {role : Roles} {s : VMState} {process : OSProcess} {size : Nat}

/-- The page of an address that was asked for is one of those that the turns visit. -/
theorem exists_servicePage {address virt : Nat} (halign : address % kVMPageSize = 0)
    (hsize : size + 4095 < 2 ^ 64) (hpages : address + kVMPageSize * pagesNeeded size < 2 ^ 64)
    (hle : address ≤ virt) (hlt : virt < address + size) :
    ∃ page ∈ servicePages address (pagesNeeded size), pageNumber virt = pageNumber page := by
  refine ⟨address + kVMPageSize * ((virt - address) / 4096), ?_, ?_⟩
  · rw [mem_servicePages hpages]
    refine ⟨(virt - address) / 4096, ?_, rfl⟩
    rw [pagesNeeded_of_lt hsize]
    omega
  · simp only [pageNumber, kVMPageSize] at halign ⊢
    congr 1
    omega

/-- With frames for all pages and their tables, a call grants what it reports. -/
theorem serviceGrants_of_enough (h : ServiceReady spaces s process) (hpos : size ≠ 0)
    (hsize : size + 4095 < 2 ^ 64)
    (henough : framesNeeded s process.physicalPML4
      (servicePages process.heapCurrentPointer (pagesNeeded size)) ≤ s.pmm.freeCount) :
    (osServiceMemoryAllocate s process size).1 = process.heapCurrentPointer ∧
    ServiceGrants s process.physicalPML4 process.heapCurrentPointer size
      (osServiceMemoryAllocate s process size).2.1 := by
  obtain ⟨role, hconsistent⟩ := h.consistent
  have hroom := h.room
  -- the call takes a frame for each page
  have hcount : pagesNeeded size ≤ s.pmm.freeCount := by
    rw [framesNeeded, length_servicePages] at henough
    omega
  have hpages : process.heapCurrentPointer + kVMPageSize * pagesNeeded size < 2 ^ 64 := by
    have hmul := Nat.mul_le_mul_left kVMPageSize hcount
    omega
  have hfills : ∀ t ∈ servicePages process.heapCurrentPointer (pagesNeeded size),
      ∀ b ∈ some fun _ => (0 : UInt8),
        FillsFrame spaces (fun s phys => s.clearPage (physToHhdm phys)) b := by
    intro _ _ b hb
    obtain rfl := Option.some.inj hb
    exact fillsFrame_clearPage
  obtain ⟨role', hgranted, -⟩ := foldl_pageTurn_granted id
    (fun _ s phys => s.clearPage (physToHhdm phys)) writesFrame_id h.space
    (servicePages process.heapCurrentPointer (pagesNeeded size)) (fun _ _ => writesFrame_clearPage)
    hfills hconsistent (by rwa [List.map_id])
  have hturns := memoryAllocatePages_turns (pagesNeeded size) process h.consistent h.space
  have hloop : guardedTurns (serviceTurn process.physicalPML4) s
      (servicePages process.heapCurrentPointer (pagesNeeded size)) = _ :=
    guardedTurns_eq_foldl writesFrame_id writesFrame_clearPage h.space hconsistent henough
  obtain ⟨htrue, hstate⟩ := Prod.mk.inj (hturns.trans hloop)
  rw [osServiceMemoryAllocate_eq hpos, htrue, hstate, if_pos rfl]
  rw [List.map_id] at hgranted
  refine ⟨rfl, ?_⟩
  exact {
    granted := by
      intro virt hle hlt
      obtain ⟨page, hpage, hnumber⟩ := exists_servicePage h.aligned hsize hpages hle hlt
      obtain ⟨a, hwalk, -, hfree, htaken, hzero⟩ := hgranted.granted page hpage
      refine ⟨a, ?_, hfree, htaken, hzero _ rfl⟩
      rw [walk_congr _ _ hnumber]
      exact hwalk
    distinct := by
      intro virt virt' frame frame' hle hlt hle' hlt' hwalk hwalk' heq
      obtain ⟨page, hpage, hnumber⟩ := exists_servicePage h.aligned hsize hpages hle hlt
      obtain ⟨page', hpage', hnumber'⟩ := exists_servicePage h.aligned hsize hpages hle' hlt'
      rw [walk_congr _ _ hnumber] at hwalk
      rw [walk_congr _ _ hnumber'] at hwalk'
      rw [hnumber, hnumber']
      exact hgranted.frame_inj hpage hpage' hwalk hwalk' heq }

/-- When the result of a call is not 0: the frames suffice for all pages but the
last one, and one is left for it. -/
theorem memoryAllocate_ne_zero_iff (h : ServiceReady spaces s process)
    (hpos : size ≠ 0) (hsize : size + 4095 < 2 ^ 64) :
    (osServiceMemoryAllocate s process size).1 ≠ 0 ↔
      framesNeeded s process.physicalPML4
        (servicePages process.heapCurrentPointer (pagesNeeded size - 1)) < s.pmm.freeCount := by
  obtain ⟨role, hconsistent⟩ := h.consistent
  obtain ⟨count, hcount⟩ : ∃ count, pagesNeeded size = count + 1 := by
    rw [pagesNeeded_of_lt hsize]
    exact ⟨(size + 4095) / 4096 - 1, by omega⟩
  have hstart : process.heapCurrentPointer ≠ 0 := by
    have hle := h.start_le
    simp only [kOSHeapStart] at hle
    omega
  have hturns := memoryAllocatePages_turns (pagesNeeded size) process h.consistent h.space
  have hne : servicePages process.heapCurrentPointer (pagesNeeded size) ≠ [] := by
    rw [hcount]
    simp [servicePages]
  have hiff := guardedTurns_true_iff writesFrame_id writesFrame_clearPage h.space hconsistent hne
  rw [show guardedTurns (pageTurn _ _ · process.physicalPML4 ·) s _ = _ from hturns.symm] at hiff
  simp only [hcount, dropLast_servicePages] at hiff
  rw [osServiceMemoryAllocate_eq hpos, hcount, Nat.add_sub_cancel, ← hiff]
  simp only
  split <;> simp_all

theorem servicePages_concat (count : Nat) :
    ∀ {virt}, virt + kVMPageSize * (count + 1) < 2 ^ 64 → servicePages virt (count + 1) =
      servicePages virt count ++ [virt + kVMPageSize * count] := by
  intro virt hlt
  have hle : kVMPageSize * count ≤ kVMPageSize * (count + 1) :=
    Nat.mul_le_mul_left _ (Nat.le_succ count)
  rw [servicePages_eq _ hlt, servicePages_eq _ (by omega), List.range_succ, List.map_append,
    List.map_singleton]

/-- When the tables of the last page are what is missing, the call reports a
region whose last page is not mapped. -/
theorem not_serviceGrants_of_short (h : ServiceReady spaces s process) (hpos : size ≠ 0)
    (hsize : size + 4095 < 2 ^ 64)
    (hlast : framesNeeded s process.physicalPML4
      (servicePages process.heapCurrentPointer (pagesNeeded size - 1)) < s.pmm.freeCount)
    (hshort : s.pmm.freeCount < framesNeeded s process.physicalPML4
      (servicePages process.heapCurrentPointer (pagesNeeded size))) :
    ¬ ServiceGrants s process.physicalPML4 process.heapCurrentPointer size
      (osServiceMemoryAllocate s process size).2.1 := by
  intro hgrants
  obtain ⟨role, hconsistent⟩ := h.consistent
  have hroom := h.room
  have hrounded := pagesNeeded_of_lt hsize
  obtain ⟨count, hcount⟩ : ∃ count, pagesNeeded size = count + 1 :=
    ⟨(size + 4095) / 4096 - 1, by omega⟩
  rw [hcount, Nat.add_sub_cancel] at hlast
  have hle : count + 1 ≤ s.pmm.freeCount := by
    rw [framesNeeded, length_servicePages] at hlast
    omega
  have hpages := Nat.mul_le_mul_left kVMPageSize hle
  have hwithin : process.heapCurrentPointer + kVMPageSize * (count + 1) < 2 ^ 64 := by omega
  have hsplit := servicePages_concat count hwithin
  rw [hcount, hsplit] at hshort
  have hturns := memoryAllocatePages_turns (pagesNeeded size) process h.consistent h.space
  have hunmapped := guardedTurns_last_unmapped writesFrame_id writesFrame_clearPage h.space
    hconsistent hlast hshort
  rw [← hsplit, ← hcount, show guardedTurns (pageTurn _ _ · process.physicalPML4 ·) s _ = _ from
    hturns.symm] at hunmapped
  -- the last page lies in the region that was reported
  obtain ⟨frame, hwalk, -⟩ := hgrants.granted
    (process.heapCurrentPointer + kVMPageSize * count) (Nat.le_add_right _ _) (by
      simp only [kVMPageSize]
      omega)
  rw [osServiceMemoryAllocate_eq hpos, hunmapped] at hwalk
  exact absurd hwalk (by simp)

/-- A size so large that its rounding wraps gets the heap pointer and no page. -/
theorem not_serviceGrants_of_wrap (s : VMState) (process : OSProcess) (hsize : size < 2 ^ 64) (hwrap : 2 ^ 64 ≤ size + 4095) :
    (osServiceMemoryAllocate s process size).1 = process.heapCurrentPointer ∧
    ¬ ServiceGrants s process.physicalPML4 process.heapCurrentPointer size
      (osServiceMemoryAllocate s process size).2.1 := by
  have hpos : size ≠ 0 := by omega
  rw [osServiceMemoryAllocate_eq hpos, pagesNeeded_of_ge hsize hwrap, memoryAllocatePages]
  refine ⟨rfl, fun hgrants => ?_⟩
  obtain ⟨frame, -, hfree, htaken, -⟩ :=
    hgrants.granted process.heapCurrentPointer (Nat.le_refl _) (by omega)
  exact htaken hfree

/-- A non-zero result stands for a region of fresh, zeroed pages exactly when the
rounding of the size does not wrap and the free frames either suffice for all
pages and their tables or run out before the last page gets its frame. -/
theorem memoryAllocate_grants_iff (spaces : List Nat) (s : VMState) (process : OSProcess)
    (h : ServiceReady spaces s process) (size : Nat) (hsize : size < 2 ^ 64) :
    ((osServiceMemoryAllocate s process size).1 ≠ 0 →
      ServiceGrants s process.physicalPML4 (osServiceMemoryAllocate s process size).1 size
        (osServiceMemoryAllocate s process size).2.1) ↔
    size = 0 ∨ (size + 4095 < 2 ^ 64 ∧
      (s.pmm.freeCount ≤ framesNeeded s process.physicalPML4
          (servicePages process.heapCurrentPointer (pagesNeeded size - 1)) ∨
        framesNeeded s process.physicalPML4
          (servicePages process.heapCurrentPointer (pagesNeeded size)) ≤ s.pmm.freeCount)) := by
  have hstart : process.heapCurrentPointer ≠ 0 := by
    have hle := h.start_le
    simp only [kOSHeapStart] at hle
    omega
  constructor
  · intro hgrants
    by_cases hpos : size = 0
    · exact .inl hpos
    by_cases hwrap : 2 ^ 64 ≤ size + 4095
    · obtain ⟨hresult, hnot⟩ := not_serviceGrants_of_wrap s process hsize hwrap
      rw [hresult] at hgrants
      exact absurd (hgrants hstart) hnot
    refine .inr ⟨by omega, ?_⟩
    by_contra hshort
    rw [not_or, Nat.not_le, Nat.not_le] at hshort
    have hne := (memoryAllocate_ne_zero_iff h hpos (by omega)).mpr hshort.1
    -- a result that is not 0 is the heap pointer
    have hresult : (osServiceMemoryAllocate s process size).1 = process.heapCurrentPointer := by
      rw [osServiceMemoryAllocate_eq hpos] at hne ⊢
      split at hne
      · next htrue => rw [if_pos htrue]
      · simp at hne
    have hregion := hgrants hne
    rw [hresult] at hregion
    exact not_serviceGrants_of_short h hpos (by omega) hshort.1 hshort.2 hregion
  · rintro (rfl | ⟨hlt, hfew | henough⟩) hne
    · exact absurd rfl hne
    · by_cases hpos : size = 0
      · subst hpos
        exact absurd rfl hne
      · have hmore := (memoryAllocate_ne_zero_iff h hpos hlt).mp hne
        omega
    · by_cases hpos : size = 0
      · subst hpos
        exact absurd rfl hne
      · obtain ⟨hresult, hgrants⟩ := serviceGrants_of_enough h hpos hlt henough
        rw [hresult]
        exact hgrants

end Grant

/-! ## Section 4: What a refused call leaves -/

/-- Nothing that the process or another caller can see has changed. -/
structure ServiceUnchanged (s : VMState) (process : OSProcess) (s' : VMState)
    (process' : OSProcess) : Prop where
  heapCurrentPointer_eq : process'.heapCurrentPointer = process.heapCurrentPointer
  walk_eq : ∀ virt, s'.walk process.physicalPML4 virt = s.walk process.physicalPML4 virt
  freeCount_eq : s'.pmm.freeCount = s.pmm.freeCount

/-- A call whose frames run out before the last page gets one is refused, and no
frame is free afterwards. -/
theorem memoryAllocate_refused {spaces : List Nat} {s : VMState} {process : OSProcess}
    (h : ServiceReady spaces s process) {size : Nat} (hpos : size ≠ 0) (hsize : size + 4095 < 2 ^ 64)
    (hshort : s.pmm.freeCount ≤ framesNeeded s process.physicalPML4
      (servicePages process.heapCurrentPointer (pagesNeeded size - 1))) :
    (osServiceMemoryAllocate s process size).1 = 0 ∧
      (osServiceMemoryAllocate s process size).2.1.pmm.freeCount = 0 := by
  have hstart : process.heapCurrentPointer ≠ 0 := by
    have hle := h.start_le
    simp only [kOSHeapStart] at hle
    omega
  have hzero : (osServiceMemoryAllocate s process size).1 = 0 := by
    by_contra hresult
    have hmore := (memoryAllocate_ne_zero_iff h hpos hsize).mp hresult
    omega
  refine ⟨hzero, ?_⟩
  rw [osServiceMemoryAllocate_eq hpos] at hzero ⊢
  -- Zero is no page of the heap, so the service has returned it for a refusal.
  have hfalse : (memoryAllocatePages s process (pagesNeeded size)).1 = false := by
    by_contra htrue
    simp only [Bool.not_eq_false] at htrue
    rw [if_pos htrue] at hzero
    exact hstart hzero
  have hturns := memoryAllocatePages_turns (pagesNeeded size) process h.consistent h.space
  have hfalse' : (guardedTurns (serviceTurn process.physicalPML4) s
      (servicePages process.heapCurrentPointer (pagesNeeded size))).1 = false := by
    rw [← hturns]
    exact hfalse
  -- The turns were stopped by a map that failed, which leaves no frame free.
  have hgone := freeCount_of_guardedTurns_false _ hfalse'
  rwa [← hturns] at hgone

/-- A call that is refused changes nothing exactly when it is refused at its first
page, because no frame was free. Otherwise it takes all the frames there are. The
condition also holds when the call is not refused. -/
theorem memoryAllocate_unchanged_iff (spaces : List Nat) (s : VMState) (process : OSProcess)
    (h : ServiceReady spaces s process) (size : Nat) (hpos : 0 < size) (hsize : size < 2 ^ 64) :
    ((osServiceMemoryAllocate s process size).1 = 0 →
      ServiceUnchanged s process (osServiceMemoryAllocate s process size).2.1
        (osServiceMemoryAllocate s process size).2.2) ↔
    s.pmm.freeCount = 0 ∨
      framesNeeded s process.physicalPML4
        (servicePages process.heapCurrentPointer (pagesNeeded size - 1)) < s.pmm.freeCount ∨
      2 ^ 64 ≤ size + 4095 := by
  have hne : size ≠ 0 := by omega
  have hstart : process.heapCurrentPointer ≠ 0 := by
    have hle := h.start_le
    simp only [kOSHeapStart] at hle
    omega
  by_cases hwrap : 2 ^ 64 ≤ size + 4095
  · -- the call is not refused
    obtain ⟨hresult, -⟩ := not_serviceGrants_of_wrap s process hsize hwrap
    rw [hresult]
    exact ⟨fun _ => .inr (.inr hwrap), fun _ hzero => absurd hzero hstart⟩
  have hiff := memoryAllocate_ne_zero_iff h hne (by omega)
  constructor
  · intro hsame
    by_contra hcond
    simp only [not_or, Nat.not_lt] at hcond
    obtain ⟨hfree, hshort, -⟩ := hcond
    obtain ⟨hzero, hgone⟩ := memoryAllocate_refused h hne (by omega) hshort
    have hcount := (hsame hzero).freeCount_eq
    omega
  · rintro (hfull | hmore | hover) hzero
    · -- refused at once
      obtain ⟨count, hcount⟩ : ∃ count, pagesNeeded size = count + 1 := by
        rw [pagesNeeded_of_lt (by omega)]
        exact ⟨(size + 4095) / 4096 - 1, by omega⟩
      rw [osServiceMemoryAllocate_eq hne, hcount, memoryAllocatePages_succ h.consistent,
        if_pos hfull]
      exact ⟨rfl, fun _ => rfl, rfl⟩
    · exact absurd hzero (hiff.mpr hmore)
    · exact absurd hover hwrap

/-! ## Section 5: Processes since boot -/

namespace MemorySystem

variable {fixed : Nat → Prop} {σ : MemorySystem}

/-- The heap pointers stay on page boundaries. -/
def PointersAligned (σ : MemorySystem) : Prop :=
  ∀ p ∈ σ.processes, p.heapCurrentPointer % kVMPageSize = 0 ∧ kOSHeapStart ≤ p.heapCurrentPointer

theorem Invariant.serviceReady (h : Invariant fixed σ) (haligned : PointersAligned σ)
    {p : OSProcess} (hp : p ∈ σ.processes) : ServiceReady σ.spaces σ.vm p := by
  obtain ⟨role, howned⟩ := h.owned
  obtain ⟨halign, hstart⟩ := haligned p hp
  have hlimit := heapLimit_lt
  have hroom := h.pointers p hp
  exact ⟨⟨role, howned.consistent⟩, List.mem_map_of_mem hp, halign, hstart, by omega⟩

theorem PointersAligned.step (h : Invariant fixed σ) (haligned : PointersAligned σ)
    (call : MemoryCall) : PointersAligned (σ.step call) := by
  cases call with
  | createProcess =>
    rw [MemorySystem.step]
    rcases vmVirtualMemoryCreateAddressSpace σ.vm with ⟨pml4, vm⟩
    simp only
    split
    · exact haligned
    · intro p hp
      rcases List.mem_cons.mp hp with rfl | hp
      · exact ⟨show kOSHeapStart % kVMPageSize = 0 by decide, Nat.le_refl _⟩
      · exact haligned p hp
  | setupUserStack i =>
    rw [MemorySystem.step]
    cases σ.processes[i]? with
    | none => exact haligned
    | some process => exact haligned
  | memoryAllocate i size =>
    rw [MemorySystem.step]
    cases hi : σ.processes[i]? with
    | none => exact haligned
    | some process =>
      intro p hp
      rcases List.mem_or_eq_of_mem_set hp with hp | rfl
      · exact haligned p hp
      · have hready := (h.serviceReady haligned (List.mem_of_getElem? hi)).memoryAllocate size
        exact ⟨hready.aligned, hready.start_le⟩

end MemorySystem

/-- In every state that calls of processes lead to after boot, every process may
ask for memory. -/
theorem serviceReady_of_run {m : Machine} (hm : m.Accepted)
    (hmemory : maxPhysicalAddress m.memoryMap ≤ 2 ^ 46) {heap : List Nat} {vm : VMState}
    (hboot : m.bootHeap = some (heap, vm)) {calls : List MemoryCall} {σ : MemorySystem}
    (hruns : Run MemorySystem.Running MemorySystem.step ⟨vm, [], false⟩ calls σ) :
    ∀ p ∈ σ.processes, ServiceReady σ.spaces σ.vm p := by
  have hinv : MemorySystem.Invariant (KernelFrame m heap) σ ∧ σ.PointersAligned := by
    apply hruns.invariant (fun σ call h _ => ⟨h.1.step call, h.2.step h.1 call⟩)
    exact ⟨bootHeap_invariant hm hmemory hboot, fun p hp => absurd hp (by simp)⟩
  exact fun p hp => hinv.1.serviceReady hinv.2 hp

/-- The first process of `heapMachine`. -/
theorem exists_serviceReady : ∃ heap vm pml4 s, heapMachine.bootHeap = some (heap, vm) ∧
    vmVirtualMemoryCreateAddressSpace vm = (pml4, s) ∧
    ServiceReady [pml4] s ⟨pml4, kOSHeapStart⟩ ∧ 599 ≤ s.pmm.freeCount := by
  obtain ⟨heap, vm, pml4, s, hboot, heq, hisolated, -, hcount⟩ := exists_firstProcess
  refine ⟨heap, vm, pml4, s, hboot, heq, ?_, hcount⟩
  have hinv := bootHeap_invariant heapMachine_accepted (by decide) hboot
  have hle : s.pmm.freeCount ≤ vm.pmm.freeCount := by
    have hkeeps := keeps_createAddressSpace vm
    rw [heq] at hkeeps
    exact freeCount_le_of_free fun _ => hkeeps.free_of_free
  have hmax := hinv.freeCount_le
  exact {
    consistent := hisolated.1
    space := List.mem_cons_self
    aligned := show kOSHeapStart % kVMPageSize = 0 by decide
    start_le := Nat.le_refl _
    room := by
      simp only [kOSHeapStart, kVMPageSize]
      simp only at hmax
      omega }

/-- Three pages below one page table need at most six frames. -/
theorem framesNeeded_threePages (s : VMState) (pml4 : Nat) :
    framesNeeded s pml4 (servicePages kOSHeapStart 3) ≤ 6 := by
  have hpath : ∀ v ∈ servicePages kOSHeapStart 3,
      upperPath v ∈ ({upperPath kOSHeapStart} : Finset _) := by decide
  have htables := tablesNeeded_le s pml4 hpath
  rw [Finset.card_singleton] at htables
  rw [framesNeeded, length_servicePages]
  omega

/-- Three pages for the first process. -/
theorem memoryAllocate_grants_threePages : ∃ heap vm pml4 s,
    heapMachine.bootHeap = some (heap, vm) ∧ vmVirtualMemoryCreateAddressSpace vm = (pml4, s) ∧
    ((osServiceMemoryAllocate s ⟨pml4, kOSHeapStart⟩ 0x3000).1 ≠ 0 →
      ServiceGrants s pml4 (osServiceMemoryAllocate s ⟨pml4, kOSHeapStart⟩ 0x3000).1 0x3000
        (osServiceMemoryAllocate s ⟨pml4, kOSHeapStart⟩ 0x3000).2.1) := by
  obtain ⟨heap, vm, pml4, s, hboot, heq, hready, hcount⟩ := exists_serviceReady
  refine ⟨heap, vm, pml4, s, hboot, heq, ?_⟩
  apply (memoryAllocate_grants_iff [pml4] s ⟨pml4, kOSHeapStart⟩ hready 0x3000 (by decide)).mpr
  have hthree := framesNeeded_threePages s pml4
  have hpages : pagesNeeded 0x3000 = 3 := by decide
  refine .inr ⟨by decide, .inr ?_⟩
  rw [hpages]
  exact hthree.trans (by omega)

/-- The first process asks for `2 ^ 64 - 1` bytes: it gets the heap pointer, and
no page is mapped there. -/
theorem memoryAllocate_grants_nothing : ∃ heap vm pml4 s,
    heapMachine.bootHeap = some (heap, vm) ∧ vmVirtualMemoryCreateAddressSpace vm = (pml4, s) ∧
    ¬ ((osServiceMemoryAllocate s ⟨pml4, kOSHeapStart⟩ (2 ^ 64 - 1)).1 ≠ 0 →
      ServiceGrants s pml4 (osServiceMemoryAllocate s ⟨pml4, kOSHeapStart⟩ (2 ^ 64 - 1)).1
        (2 ^ 64 - 1) (osServiceMemoryAllocate s ⟨pml4, kOSHeapStart⟩ (2 ^ 64 - 1)).2.1) := by
  obtain ⟨heap, vm, pml4, s, hboot, heq, -, -⟩ := exists_serviceReady
  refine ⟨heap, vm, pml4, s, hboot, heq, fun hgrants => ?_⟩
  have hsize : 2 ^ 64 - 1 < 2 ^ 64 := by decide
  obtain ⟨hresult, hnot⟩ := not_serviceGrants_of_wrap s ⟨pml4, kOSHeapStart⟩ hsize (by decide)
  rw [hresult] at hgrants
  exact hnot (hgrants (show kOSHeapStart ≠ 0 by decide))

/-- Three pages for the first process are not refused. -/
theorem memoryAllocate_unchanged_threePages : ∃ heap vm pml4 s,
    heapMachine.bootHeap = some (heap, vm) ∧ vmVirtualMemoryCreateAddressSpace vm = (pml4, s) ∧
    ((osServiceMemoryAllocate s ⟨pml4, kOSHeapStart⟩ 0x3000).1 = 0 →
      ServiceUnchanged s ⟨pml4, kOSHeapStart⟩
        (osServiceMemoryAllocate s ⟨pml4, kOSHeapStart⟩ 0x3000).2.1
        (osServiceMemoryAllocate s ⟨pml4, kOSHeapStart⟩ 0x3000).2.2) := by
  obtain ⟨heap, vm, pml4, s, hboot, heq, hready, hcount⟩ := exists_serviceReady
  refine ⟨heap, vm, pml4, s, hboot, heq, ?_⟩
  apply (memoryAllocate_unchanged_iff [pml4] s ⟨pml4, kOSHeapStart⟩ hready 0x3000 (by decide)
    (by decide)).mpr
  refine .inr (.inl ?_)
  have hpath : ∀ v ∈ servicePages kOSHeapStart 2,
      upperPath v ∈ ({upperPath kOSHeapStart} : Finset _) := by decide
  have htables := tablesNeeded_le s pml4 hpath
  have hpages : pagesNeeded 0x3000 - 1 = 2 := by decide
  rw [Finset.card_singleton] at htables
  rw [hpages, framesNeeded, length_servicePages]
  exact Nat.lt_of_le_of_lt (Nat.add_le_add_left htables 2) (by omega)

/-- The first process asks for more memory than there is: it is refused, and all
free frames are gone. -/
theorem memoryAllocate_unchanged_refused : ∃ heap vm pml4 s,
    heapMachine.bootHeap = some (heap, vm) ∧ vmVirtualMemoryCreateAddressSpace vm = (pml4, s) ∧
    ¬ ((osServiceMemoryAllocate s ⟨pml4, kOSHeapStart⟩ (2 ^ 50)).1 = 0 →
      ServiceUnchanged s ⟨pml4, kOSHeapStart⟩
        (osServiceMemoryAllocate s ⟨pml4, kOSHeapStart⟩ (2 ^ 50)).2.1
        (osServiceMemoryAllocate s ⟨pml4, kOSHeapStart⟩ (2 ^ 50)).2.2) := by
  obtain ⟨heap, vm, pml4, s, hboot, heq, hready, hcount⟩ := exists_serviceReady
  refine ⟨heap, vm, pml4, s, hboot, heq, fun hsame => ?_⟩
  have hpages : pagesNeeded (2 ^ 50) - 1 = 2 ^ 38 - 1 := by decide
  have hroom := hready.room
  -- memory has fewer frames than that
  have hshort : s.pmm.freeCount ≤
      framesNeeded s pml4 (servicePages kOSHeapStart (pagesNeeded (2 ^ 50) - 1)) := by
    rw [hpages, framesNeeded, length_servicePages]
    simp only [kVMPageSize] at hroom
    omega
  obtain ⟨hzero, hgone⟩ := memoryAllocate_refused hready (by decide) (by decide) hshort
  have hcount' := (hsame hzero).freeCount_eq
  omega

end TermOS.OS
