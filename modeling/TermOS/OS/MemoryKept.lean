import TermOS.OS.SpawnBuilt

/-!
# What the memory service replaces

Image, heap and stack of a process are placed independently of each other: the
image where its file says, the heap from `kOSHeapStart` up, and the stack below
`kVMUserStackTop`. `OSServiceMemoryAllocate` maps the page at the heap pointer
whether or not another page is there. A mapping is kept as long as the heap does
not come to a page of the image or of the stack.

## Main Theorems

* `memoryAllocate_keepsMappings_iff` - after a run that spares image and stack, a
  call keeps every mapping exactly if it spares them as well
-/

namespace TermOS.OS

open TermOS.Lib TermOS.Kernel TermOS.VM TermOS.FS TermOS.Lib.TableForest VMState

/-! ## Section 1: The pages of a call, by number -/

theorem wrap64_wrap64_add (a b : Nat) : wrap64 (wrap64 a + b) = wrap64 (a + b) := by
  unfold wrap64
  omega

/-- The turn with number `i`, and those before it. -/
theorem servicePages_split (i : Nat) :
    ∀ {virt count : Nat}, virt < 2 ^ 64 → i < count →
      servicePages virt (i + 1) = servicePages virt i ++ [wrap64 (virt + kVMPageSize * i)] ∧
      ∃ after, servicePages virt count =
        servicePages virt i ++ wrap64 (virt + kVMPageSize * i) :: after := by
  induction i with
  | zero =>
    intro virt count hvirt hi
    obtain ⟨count, rfl⟩ : ∃ n, count = n + 1 := ⟨count - 1, by omega⟩
    have hstart : wrap64 (virt + kVMPageSize * 0) = virt := wrap64_of_lt hvirt
    rw [hstart]
    exact ⟨rfl, _, rfl⟩
  | succ i ih =>
    intro virt count _ hi
    obtain ⟨count, rfl⟩ : ∃ n, count = n + 1 := ⟨count - 1, by omega⟩
    have hnext : wrap64 (virt + kVMPageSize) < 2 ^ 64 := Nat.mod_lt _ (by decide)
    obtain ⟨hsplit, after, hrest⟩ := ih hnext (Nat.lt_of_succ_lt_succ hi)
    have hpage : wrap64 (wrap64 (virt + kVMPageSize) + kVMPageSize * i) =
        wrap64 (virt + kVMPageSize * (i + 1)) := by
      rw [wrap64_wrap64_add, Nat.mul_succ, Nat.add_assoc, Nat.add_comm kVMPageSize]
    rw [hpage] at hsplit hrest
    constructor
    · rw [servicePages, hsplit]
      rfl
    · refine ⟨after, ?_⟩
      rw [servicePages, hrest]
      rfl

/-! ## Section 2: Runs -/

/-- A process and the memory that it lives in. -/
structure ServiceState where
  spaces : List Nat
  vm : VMState
  process : OSProcess

namespace ServiceState

variable (σ : ServiceState)

/-- What a virtual address of the process is mapped to. -/
def mapping (virt : Nat) : Option (Nat × Nat) := σ.vm.walk σ.process.physicalPML4 virt

/-- The process calls `OSServiceMemoryAllocate`. -/
def memoryAllocate (size : Nat) : ServiceState where
  spaces := σ.spaces
  vm := (osServiceMemoryAllocate σ.vm σ.process size).2.1
  process := (osServiceMemoryAllocate σ.vm σ.process size).2.2

/-- There are frames for the page with number `i` and for all pages before it. -/
def HasFrames (i : Nat) : Prop :=
  framesNeeded σ.vm σ.process.physicalPML4 (servicePages σ.process.heapCurrentPointer (i + 1)) ≤
    σ.vm.pmm.freeCount

/-- The pages that a call has frames for lie in the user half. -/
def StaysInUserHalf (size : Nat) : Prop :=
  ∀ i < pagesNeeded size, σ.HasFrames i →
    σ.process.heapCurrentPointer + kVMPageSize * i < 2 ^ 47

/-- They are not pages of the image or of the stack. -/
def SparesProcess (data : Memory) (size : Nat) : Prop :=
  ∀ i < pagesNeeded size, σ.HasFrames i →
    σ.process.heapCurrentPointer + kVMPageSize * i ∉ processPages data

/-- Every page that was mapped is mapped as before. -/
def KeepsMappings (σ' : ServiceState) : Prop :=
  ∀ virt m, σ.mapping virt = some m → σ'.mapping virt = some m

end ServiceState

/-- Calls of the process and of others, in any order. `Allowed` says which calls
of the process there are. -/
inductive ServiceRun (Allowed : ServiceState → Nat → Prop) : ServiceState → ServiceState → Prop
  | refl (σ : ServiceState) : ServiceRun Allowed σ σ
  | other {σ σ' : ServiceState} {spaces : List Nat} {vm : VMState} :
      ServiceRun Allowed σ σ' → OtherCall σ'.process.physicalPML4 σ'.spaces σ'.vm spaces vm →
      ServiceRun Allowed σ ⟨spaces, vm, σ'.process⟩
  | memoryAllocate {σ σ' : ServiceState} (size : Nat) :
      ServiceRun Allowed σ σ' → Allowed σ' size → ServiceRun Allowed σ (σ'.memoryAllocate size)

/-- The calls that spare image and stack and stay in the user half. -/
def SparingCall (data : Memory) (σ : ServiceState) (size : Nat) : Prop :=
  σ.StaysInUserHalf size ∧ σ.SparesProcess data size

/-! ## Section 3: The pages of a process -/

/-- In the user half a process has the pages that it was started with, each with a
frame that is in use, and pages of its heap below the heap pointer. -/
structure OwnPages (data : Memory) (σ : ServiceState) : Prop where
  consistent : ∃ role, Consistent σ.spaces role σ.vm
  space : σ.process.physicalPML4 ∈ σ.spaces
  aligned : σ.process.heapCurrentPointer % kVMPageSize = 0
  start_le : kOSHeapStart ≤ σ.process.heapCurrentPointer
  pointer : σ.process.heapCurrentPointer ≤ 2 ^ 47 ∨ σ.vm.pmm.freeCount = 0
  granted : ∀ page ∈ processPages data, page < 2 ^ 47 ∧
    ∃ frame, σ.mapping page = some (frame, pteUserData) ∧
      ¬ σ.vm.pmm.FrameFree (frame / kVMPageSize)
  placed : ∀ virt, virt < 2 ^ 47 → (σ.mapping virt).isSome →
    virt / 4096 * 4096 ∈ processPages data ∨
      (kOSHeapStart ≤ virt ∧ virt < σ.process.heapCurrentPointer)

section Pages

variable {data : Memory} {σ σ' : ServiceState} {spaces : List Nat} {s vm : VMState}
  {process : OSProcess} {size : Nat}

theorem pageNumber_eq_of_lt {virt page : Nat} (hpage : page < 2 ^ 47) (hvirt : virt < 2 ^ 47)
    (halign : page % 4096 = 0) (h : pageNumber virt = pageNumber page) :
    page ≤ virt ∧ virt < page + 4096 := by
  unfold pageNumber at h
  omega

/-- Mappings that are kept carry the frames of image and stack along. -/
theorem OwnPages.granted_of_kept (h : OwnPages data σ)
    (hkept : ∀ virt m, virt < 2 ^ 47 → σ.mapping virt = some m → σ'.mapping virt = some m)
    (hfree : ∀ {f}, σ'.vm.pmm.FrameFree f → σ.vm.pmm.FrameFree f) :
    ∀ page ∈ processPages data, page < 2 ^ 47 ∧
      ∃ frame, σ'.mapping page = some (frame, pteUserData) ∧
        ¬ σ'.vm.pmm.FrameFree (frame / kVMPageSize) := by
  intro page hpage
  obtain ⟨hlow, frame, hmapped, hnot⟩ := h.granted page hpage
  exact ⟨hlow, frame, hkept page _ hlow hmapped, fun hf => hnot (hfree hf)⟩

/-- What a turn does to the mappings: it maps a page that was not mapped, or finds
no frames for its tables. -/
theorem OwnPages.turn_cases (h : OwnPages data ⟨spaces, s, process⟩) (hpos : s.pmm.freeCount ≠ 0)
    (hlow : framesNeeded s process.physicalPML4 [process.heapCurrentPointer] ≤ s.pmm.freeCount →
      process.heapCurrentPointer < 2 ^ 47 ∧ process.heapCurrentPointer ∉ processPages data) :
    ((serviceTurn process.physicalPML4 s process.heapCurrentPointer).pmm.freeCount = 0 ∧
      ∀ virt, (serviceTurn process.physicalPML4 s process.heapCurrentPointer).walk
        process.physicalPML4 virt = s.walk process.physicalPML4 virt) ∨
    (process.heapCurrentPointer < 2 ^ 47 ∧
      s.walk process.physicalPML4 process.heapCurrentPointer = none ∧
      ∀ virt, pageNumber virt ≠ pageNumber process.heapCurrentPointer →
        (serviceTurn process.physicalPML4 s process.heapCurrentPointer).walk process.physicalPML4
          virt = s.walk process.physicalPML4 virt) := by
  have hspace : process.physicalPML4 ∈ spaces := h.space
  have hroot : process.physicalPML4 ∈ s.kernelPML4 :: spaces := List.mem_cons_of_mem _ hspace
  have hout : TurnOutcome spaces s process.physicalPML4 process.heapCurrentPointer _ :=
    serviceTurn_outcome h.consistent hspace process.heapCurrentPointer
  rcases hout.cases with ⟨hlt, -, -, -⟩ | ⟨hle, hzero, ⟨hnone, -⟩ | ⟨-, hsame⟩⟩
  · right
    rw [missing_eq_tablesNeeded] at hlt
    obtain ⟨hpointer, hnot⟩ := hlow (by
      rw [framesNeeded, List.length_singleton]
      omega)
    refine ⟨hpointer, ?_, fun virt hpage => ?_⟩
    · -- a mapped page at the heap pointer would be one of the image or the stack
      by_contra hmapped
      have halign := h.aligned
      rcases h.placed process.heapCurrentPointer hpointer (Option.isSome_iff_ne_none.mpr hmapped)
        with hpage | ⟨-, hbelow⟩
      · have hfloor : process.heapCurrentPointer / 4096 * 4096 = process.heapCurrentPointer := by
          simp only [kVMPageSize] at halign
          omega
        rw [hfloor] at hpage
        exact hnot hpage
      · exact Nat.lt_irrefl _ hbelow
    · exact (hout.walk_cases _ hroot virt).resolve_right fun hnew => hpage hnew.1
  · omega
  · exact .inl ⟨hzero, fun virt => hsame _ hroot virt⟩

/-- One turn of the call. -/
theorem OwnPages.turn (h : OwnPages data ⟨spaces, s, process⟩) (hpos : s.pmm.freeCount ≠ 0)
    (hlow : framesNeeded s process.physicalPML4 [process.heapCurrentPointer] ≤ s.pmm.freeCount →
      process.heapCurrentPointer < 2 ^ 47 ∧ process.heapCurrentPointer ∉ processPages data) :
    OwnPages data ⟨spaces, serviceTurn process.physicalPML4 s process.heapCurrentPointer,
        { process with
          heapCurrentPointer := wrap64 (process.heapCurrentPointer + kVMPageSize) }⟩ ∧
      ∀ virt m, s.walk process.physicalPML4 virt = some m →
        (serviceTurn process.physicalPML4 s process.heapCurrentPointer).walk process.physicalPML4
          virt = some m := by
  have hspace : process.physicalPML4 ∈ spaces := h.space
  have halign : process.heapCurrentPointer % kVMPageSize = 0 := h.aligned
  have hstart : kOSHeapStart ≤ process.heapCurrentPointer := h.start_le
  have hpointer : process.heapCurrentPointer ≤ 2 ^ 47 := h.pointer.resolve_right hpos
  have hout := serviceTurn_outcome h.consistent hspace process.heapCurrentPointer
  have hcases := h.turn_cases hpos hlow
  have hkept : ∀ virt m, s.walk process.physicalPML4 virt = some m →
      (serviceTurn process.physicalPML4 s process.heapCurrentPointer).walk process.physicalPML4
        virt = some m := by
    intro virt m hwalk
    rcases hcases with ⟨-, hsame⟩ | ⟨-, hnone, hsame⟩
    · rw [hsame, hwalk]
    · rw [hsame, hwalk]
      intro hpage
      rw [walk_congr _ _ hpage, hnone] at hwalk
      exact absurd hwalk (by simp)
  rw [wrap64_of_lt (by simp only [kVMPageSize]; omega)]
  refine ⟨?_, hkept⟩
  exact {
    consistent := hout.consistent
    space := hspace
    aligned := by simpa using halign
    start_le := Nat.le_trans hstart (Nat.le_add_right _ _)
    pointer := by
      rcases hcases with ⟨hzero, -⟩ | ⟨hlt, -⟩
      · exact .inr hzero
      · simp only [kVMPageSize] at halign ⊢
        omega
    granted := h.granted_of_kept (fun virt m _ hwalk => hkept virt m hwalk) hout.free_of_free
    placed := by
      intro virt hvirt hmapped
      have hold : (s.walk process.physicalPML4 virt).isSome →
          virt / 4096 * 4096 ∈ processPages data ∨ (kOSHeapStart ≤ virt ∧
            virt < process.heapCurrentPointer + kVMPageSize) := by
        intro hsome
        rcases h.placed virt hvirt hsome with hpage | ⟨hle, hlt⟩
        · exact .inl hpage
        · exact .inr ⟨hle, Nat.lt_of_lt_of_le hlt (Nat.le_add_right _ _)⟩
      simp only [ServiceState.mapping] at hmapped
      rcases hcases with ⟨-, hsame⟩ | ⟨hlt, -, hsame⟩
      · rw [hsame] at hmapped
        exact hold hmapped
      · by_cases hpage : pageNumber virt = pageNumber process.heapCurrentPointer
        · -- the new page
          obtain ⟨hle, hupper⟩ := pageNumber_eq_of_lt hlt hvirt halign hpage
          exact .inr ⟨Nat.le_trans hstart hle, hupper⟩
        · rw [hsame virt hpage] at hmapped
          exact hold hmapped }

/-- The condition on a turn with frames left, for the turns after it. -/
theorem hasFrames_succ (hout : TurnOutcome spaces s process.physicalPML4 process.heapCurrentPointer vm)
    {pages : List Nat} (hpages : pages ≠ [])
    (hframes : framesNeeded vm process.physicalPML4 pages ≤ vm.pmm.freeCount) :
    framesNeeded s process.physicalPML4 (process.heapCurrentPointer :: pages) ≤ s.pmm.freeCount := by
  have hlength := List.length_pos_iff.mpr hpages
  rw [framesNeeded] at hframes
  rw [framesNeeded, List.length_cons]
  rcases hout.cases with ⟨-, hcount, -, hneeded⟩ | ⟨-, hzero, -⟩
  · have hrest := hneeded pages
    omega
  · omega

theorem memoryAllocatePages_physicalPML4 (count : Nat) (s : VMState) (process : OSProcess) :
    (OS.memoryAllocatePages s process count).2.2.physicalPML4 = process.physicalPML4 := by
  induction count generalizing s process with
  | zero => rfl
  | succ count ih =>
    rw [OS.memoryAllocatePages]
    simp only
    split
    · rfl
    · exact ih _ _

/-- The turns of a call that spares image and stack. -/
theorem OwnPages.memoryAllocatePages (count : Nat) :
    ∀ {s : VMState} {process : OSProcess}, OwnPages data ⟨spaces, s, process⟩ →
      (∀ i < count, ServiceState.HasFrames ⟨spaces, s, process⟩ i →
        process.heapCurrentPointer + kVMPageSize * i < 2 ^ 47 ∧
          process.heapCurrentPointer + kVMPageSize * i ∉ processPages data) →
      OwnPages data ⟨spaces, (OS.memoryAllocatePages s process count).2.1,
        (OS.memoryAllocatePages s process count).2.2⟩ ∧
      ∀ virt m, s.walk process.physicalPML4 virt = some m →
        (OS.memoryAllocatePages s process count).2.1.walk process.physicalPML4 virt = some m := by
  -- Induction on the pages that are left; the pointer has moved on behind those before.
  induction count with
  | zero => exact fun h _ => ⟨h, fun _ _ => id⟩
  | succ count ih =>
    intro s process h hspares
    have hspace : process.physicalPML4 ∈ spaces := h.space
    rw [memoryAllocatePages_succ h.consistent]
    split
    · exact ⟨h, fun _ _ => id⟩
    next hpos =>
    have hpointer : process.heapCurrentPointer ≤ 2 ^ 47 := h.pointer.resolve_right hpos
    obtain ⟨hturn, hkept⟩ := h.turn hpos fun hframes => hspares 0 (Nat.succ_pos count) hframes
    have hout : TurnOutcome spaces s process.physicalPML4 process.heapCurrentPointer _ :=
      serviceTurn_outcome h.consistent hspace process.heapCurrentPointer
    -- The pages of the rest are those of the call without the first one.
    obtain ⟨hown, hrest⟩ := ih hturn fun i hi hframes => by
      have hnext := hspares (i + 1) (Nat.succ_lt_succ hi)
        (hasFrames_succ hout (by simp [servicePages]) hframes)
      rw [Nat.mul_succ] at hnext
      simp only
      rw [wrap64_of_lt (by simp only [kVMPageSize]; omega)]
      have hsame : process.heapCurrentPointer + kVMPageSize + kVMPageSize * i =
          process.heapCurrentPointer + (kVMPageSize * i + kVMPageSize) := by omega
      rwa [hsame]
    exact ⟨hown, fun virt m hwalk => hrest virt m (hkept virt m hwalk)⟩

/-- A call that spares image and stack keeps every mapping. -/
theorem OwnPages.memoryAllocate (h : OwnPages data σ) (hspares : SparingCall data σ size) :
    OwnPages data (σ.memoryAllocate size) ∧ σ.KeepsMappings (σ.memoryAllocate size) := by
  obtain ⟨spaces, s, process⟩ := σ
  unfold ServiceState.KeepsMappings ServiceState.memoryAllocate ServiceState.mapping
  by_cases hsize : size = 0
  · subst hsize
    exact ⟨h, fun _ _ => id⟩
  · rw [osServiceMemoryAllocate_eq hsize]
    obtain ⟨hown, hkept⟩ := h.memoryAllocatePages (pagesNeeded size) fun i hi hframes =>
      ⟨hspares.1 i hi hframes, hspares.2 i hi hframes⟩
    simp only [memoryAllocatePages_physicalPML4]
    exact ⟨hown, hkept⟩

/-- So do the calls of other tasks, in the user half. -/
theorem OwnPages.other (h : OwnPages data σ)
    (hcall : OtherCall σ.process.physicalPML4 σ.spaces σ.vm spaces vm) :
    OwnPages data ⟨spaces, vm, σ.process⟩ ∧ ∀ virt, ¬ KernelHalf virt →
      vm.walk σ.process.physicalPML4 virt = σ.mapping virt := by
  have hspares := hcall.spares h.consistent h.space
  refine ⟨?_, hspares.walk_eq⟩
  exact {
    consistent := hspares.consistent
    space := hspares.mem_spaces _ h.space
    aligned := h.aligned
    start_le := h.start_le
    pointer := by
      rcases h.pointer with hle | hzero
      · exact .inl hle
      · right
        rw [freeCount_eq_zero_iff] at hzero ⊢
        exact fun f hf => hzero f (hspares.free_of_free hf)
    granted := h.granted_of_kept
      (fun virt m hvirt hwalk => (hspares.walk_eq virt (lowHalf_of_lt hvirt)).trans hwalk)
      hspares.free_of_free
    placed := by
      intro virt hvirt hmapped
      simp only [ServiceState.mapping] at hmapped
      rw [hspares.walk_eq virt (lowHalf_of_lt hvirt)] at hmapped
      exact h.placed virt hvirt hmapped }

/-- In a run whose calls spare image and stack every mapping of the user half stays. -/
theorem ServiceRun.keeps (hrun : ServiceRun (SparingCall data) σ σ') (h : OwnPages data σ) :
    OwnPages data σ' ∧ ∀ virt m, ¬ KernelHalf virt → σ.mapping virt = some m →
      σ'.mapping virt = some m := by
  induction hrun with
  | refl => exact ⟨h, fun _ _ _ => id⟩
  | other _ hcall ih =>
    obtain ⟨hown, hkept⟩ := ih
    obtain ⟨hown', hsame⟩ := hown.other hcall
    exact ⟨hown', fun virt m hlow hwalk => (hsame virt hlow).trans (hkept virt m hlow hwalk)⟩
  | memoryAllocate size _ hspares ih =>
    obtain ⟨hown, hkept⟩ := ih
    obtain ⟨hown', hcall⟩ := hown.memoryAllocate hspares
    exact ⟨hown', fun virt m hlow hwalk => hcall virt m (hkept virt m hlow hwalk)⟩

/-- A page of the image or of the stack that the call has frames for gets another frame. -/
theorem OwnPages.not_keepsMappings (h : OwnPages data σ) {i : Nat} (hi : i < pagesNeeded size)
    (hframes : σ.HasFrames i)
    (hpage : σ.process.heapCurrentPointer + kVMPageSize * i ∈ processPages data) :
    ¬ σ.KeepsMappings (σ.memoryAllocate size) := by
  intro hkept
  obtain ⟨hlow, frame, hmapped, htaken⟩ := h.granted _ hpage
  obtain ⟨role, hconsistent⟩ := h.consistent
  obtain ⟨hlast, after, hsplit⟩ := servicePages_split i
    (show σ.process.heapCurrentPointer < 2 ^ 64 by omega) hi
  rw [wrap64_of_lt (by omega)] at hlast hsplit
  unfold ServiceState.HasFrames at hframes
  rw [hlast] at hframes
  obtain ⟨a, hnew, hfree⟩ := guardedTurns_maps writesFrame_id writesFrame_clearPage h.space after
    hconsistent hframes
  have hsize : size ≠ 0 := by
    rintro rfl
    exact absurd hi (by simp [pagesNeeded, kVMPageSize, wrap64])
  -- the mapping after the call is the new one
  have hturns := congrArg Prod.snd
    (memoryAllocatePages_turns (pagesNeeded size) σ.process h.consistent h.space)
  have hafter : (σ.memoryAllocate size).mapping
      (σ.process.heapCurrentPointer + kVMPageSize * i) = some (a, pteUserData) := by
    unfold ServiceState.mapping ServiceState.memoryAllocate
    rw [osServiceMemoryAllocate_eq hsize]
    simp only [memoryAllocatePages_physicalPML4] at hturns ⊢
    rw [hturns, hsplit]
    exact hnew
  have hsame := hkept _ _ hmapped
  rw [hafter] at hsame
  obtain ⟨rfl, -⟩ := Prod.mk.inj (Option.some.inj hsame)
  exact htaken hfree

/-- The pages that a process is started with. -/
theorem Loaded.ownPages {k k₃ k₄ : Kernel} {newProcess : Nat} (h : Loaded k newProcess data k₃)
    (hconsistent : ∃ role, Consistent k.spaces role k.vm)
    (hstack : (k₃.setupUserStack newProcess).1 = true) (hprogram : UserProgram data size)
    (hmeanwhile : Meanwhile newProcess (k₃.setupUserStack newProcess).2 k₄) :
    OwnPages data ⟨k₄.spaces, k₄.vm, (k₄.process newProcess).toOSProcess⟩ := by
  obtain ⟨-, hmem, -, role, role', s₁, -, -, -, hempty, hgranted⟩ := h.granted hconsistent hstack
  have hprocess : (k₄.process newProcess).toOSProcess = (k₃.process newProcess).toOSProcess :=
    congrArg ProcessRecord.toOSProcess hmeanwhile.process_eq
  have hpointer : (k₃.process newProcess).heapCurrentPointer = kOSHeapStart :=
    congrArg OSProcess.heapCurrentPointer h.toOSProcess_eq
  have hspares : Spares (k₃.process newProcess).physicalPML4 k₃.spaces
      (k₃.setupUserStack newProcess).2.vm k₄.spaces k₄.vm :=
    hmeanwhile.calls.spares ⟨role', hgranted.consistent⟩ hmem
  have hpages : ∀ page ∈ processPages data, page % 4096 = 0 ∧ page < 2 ^ 47 := by
    intro page hpage
    rcases List.mem_append.mp hpage with himage | hstack
    · exact ⟨(hprogram.mem_hotPages.mp himage).1, hprogram.hotPages_lt himage⟩
    · have hbounds := mem_userStackPages.mp hstack
      omega
  rw [hprocess]
  exact {
    consistent := hspares.consistent
    space := hspares.mem_spaces _ hmem
    aligned := by
      simp only [hpointer]
      decide
    start_le := Nat.le_of_eq hpointer.symm
    pointer := by
      left
      simp only [hpointer]
      decide
    granted := by
      intro page hpage
      obtain ⟨-, hlow⟩ := hpages page hpage
      obtain ⟨frame, hwalk, -, -, htaken, -⟩ := hgranted.granted page hpage
      refine ⟨hlow, frame, ?_, fun hf => htaken (hspares.free_of_free hf)⟩
      exact (hspares.walk_eq page (lowHalf_of_lt hlow)).trans hwalk
    placed := by
      intro virt hvirt hmapped
      left
      have hlow := lowHalf_of_lt hvirt
      have hwalk := hspares.walk_eq virt hlow
      simp only [ServiceState.mapping] at hmapped
      rw [hwalk] at hmapped
      by_contra hnot
      -- the other pages are those of a new address space
      rw [hgranted.walk_other, hempty virt hlow] at hmapped
      · exact absurd hmapped (by simp)
      · intro page hpage heq
        obtain ⟨halign, hlt⟩ := hpages page hpage
        have hbounds := pageNumber_eq_of_lt hlt hvirt halign heq
        have hfloor : virt / 4096 * 4096 = page := by omega
        exact hnot (by rwa [hfloor]) }

end Pages

/-! ## Section 4: From the spawn on -/

/-- A process and its memory in a state of the kernel. -/
def Kernel.serviceState (k : Kernel) (process : Nat) : ServiceState :=
  ⟨k.spaces, k.vm, (k.process process).toOSProcess⟩

/-- The pages of a process that the loader has started. -/
theorem ownPages_of_started {others : OtherTasks} {k : Kernel} (hready : LoaderReady k)
    {executablePath processName : List UInt8} {executableFile : Nat}
    (hopen : k.openPath executablePath = some executableFile)
    (hfile : ArchiveFile k executableFile)
    (hprogram : UserProgram (k.fileData executableFile)
      (k.volume.node executableFile).dataLength) {r : SpawnResult}
    (hresult : k.osLoaderProcessSpawn others executablePath processName = some (.ok r))
    (hstarted : r.task ≠ 0) :
    OwnPages (k.fileData executableFile) (r.kernel.serviceState r.newProcess) := by
  obtain ⟨k₃, data, hloaded, hstack, hmeanwhile, hsame⟩ :=
    exists_loaded_of_started hready.heap hopen hfile hresult hstarted
  have hlength := hfile.dataLength_lt
  obtain ⟨hprogram', -⟩ := hprogram.congr (by omega) hsame
  -- The kernel's copy of the file names the same pages as the file.
  have hpages : processPages data = processPages (k.fileData executableFile) := by
    rw [processPages, hprogram.hotPages_congr (by omega) hsame, processPages]
  have hown := hloaded.ownPages hready.consistent hstack hprogram' hmeanwhile
  exact {
    consistent := hown.consistent
    space := hown.space
    aligned := hown.aligned
    start_le := hown.start_le
    pointer := hown.pointer
    granted := by
      rw [← hpages]
      exact hown.granted
    placed := by
      rw [← hpages]
      exact hown.placed }

end TermOS.OS
