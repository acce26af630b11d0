import TermOS.Lib.Run
import TermOS.VM.FrameCount

/-!
# User memory

Processes get memory in two ways: `VMVirtualMemorySetupUserStack` when they
are loaded, and the service of `kernel/src/OS/Services/OSServiceMemory.c` when
they ask for it. No frame is ever mapped at two user pages, and no user page
gets a frame that the kernel uses.
-/

namespace TermOS.OS

open TermOS.Lib TermOS.Kernel TermOS.VM TermOS.Lib.TableForest VMState

/-! ## Section 1: The service -/

/-- `kOSHeapStart` -/
def kOSHeapStart : Nat := 0x40000000

/-- The fields of `OSProcess` that memory management uses. -/
structure OSProcess where
  physicalPML4 : Nat
  heapCurrentPointer : Nat
  deriving DecidableEq, Repr

/-- `count` turns of the loop of `OSServiceMemoryAllocate`; the result `false`
is the early `return 0`. -/
def memoryAllocatePages : VMState → OSProcess → Nat → Bool × VMState × OSProcess
  | s, process, 0 => (true, s, process)
  | s, process, count + 1 =>
    let (physicalAddress, s) := s.allocatePage
    if physicalAddress = 0 then (false, s, process)
    else
      let s := (vmVirtualMemoryMapPage s process.physicalPML4 physicalAddress
        process.heapCurrentPointer pteUserData).2
      let s := s.clearPage (physToHhdm physicalAddress)
      memoryAllocatePages s
        { process with heapCurrentPointer := wrap64 (process.heapCurrentPointer + kVMPageSize) }
        count

/-- `OSServiceMemoryAllocate`: the address that it returns, and what it leaves. -/
def osServiceMemoryAllocate (s : VMState) (process : OSProcess) (size : Nat) :
    Nat × VMState × OSProcess :=
  if size = 0 then (0, s, process)
  else
    let pagesNeeded := wrap64 (size + (kVMPageSize - 1)) / kVMPageSize
    match memoryAllocatePages s process pagesNeeded with
    | (true, s, process') => (process.heapCurrentPointer, s, process')
    | (false, s, process') => (0, s, process')

/-! ## Section 2: Runs of processes -/

/-- The processes that got an address space, over the state of memory. -/
structure MemorySystem where
  vm : VMState
  processes : List OSProcess
  panicked : Bool

/-- A call by or for a process, named by its position. -/
inductive MemoryCall where
  | createProcess
  | setupUserStack (process : Nat)
  | memoryAllocate (process size : Nat)
  deriving DecidableEq, Repr

namespace MemorySystem

/-- The PML4s of the processes. -/
def spaces (σ : MemorySystem) : List Nat := σ.processes.map OSProcess.physicalPML4

/-- All PML4s in use. -/
def roots (σ : MemorySystem) : List Nat := σ.vm.kernelPML4 :: σ.spaces

def step (σ : MemorySystem) : MemoryCall → MemorySystem
  | .createProcess =>
    let (pml4, vm) := vmVirtualMemoryCreateAddressSpace σ.vm
    if pml4 = 0 then { σ with vm }
    else { σ with vm, processes := ⟨pml4, kOSHeapStart⟩ :: σ.processes }
  | .setupUserStack i =>
    match σ.processes[i]? with
    | none => σ
    | some process =>
      let (ok, vm) := vmVirtualMemorySetupUserStack σ.vm process.physicalPML4
      { σ with vm, panicked := !ok }
  | .memoryAllocate i size =>
    match σ.processes[i]? with
    | none => σ
    | some process =>
      let (_, vm, process) := osServiceMemoryAllocate σ.vm process size
      { σ with vm, processes := σ.processes.set i process }

/-- Nothing runs after a panic. -/
def Running (σ : MemorySystem) (_ : MemoryCall) : Prop := σ.panicked = false

/-- The frame holds a page table of some address space. -/
def TableFrame (σ : MemorySystem) (frame : Nat) : Prop :=
  ∃ r ∈ σ.roots, ∃ path : List (Fin 512), path.length ≤ 3 ∧
    follow childTable σ.vm.entry r path = some frame

/-- The frame is mapped at the page of `virt`, which lies in the user half or is
accessible from ring 3. -/
def UserPage (σ : MemorySystem) (p : OSProcess) (virt frame : Nat) : Prop :=
  ∃ flags, σ.vm.walk p.physicalPML4 virt = some (frame, flags) ∧
    (KernelHalf virt → UserEntry flags)

end MemorySystem

/-- The frame holds a page of the kernel image. -/
def ImageFrame (m : Machine) (frame : Nat) : Prop :=
  kernelVirtToPhys m.image.kernelStart ≤ frame ∧ frame < kernelVirtToPhys m.image.kernelEnd

/-- The frame holds a page of the bitmap of the physical memory manager. -/
def BitmapFrame (m : Machine) (frame : Nat) : Prop :=
  ∃ host, bitmapHostDescriptor m.memoryMap = some host ∧ host.physicalStart ≤ frame ∧
    frame < host.physicalStart + bitmapSize m.memoryMap

/-! ## Section 3: The ownership invariant -/

/-- The most that a heap pointer can reach: memory has at most `2 ^ 34` frames. -/
def heapLimit : Nat := kOSHeapStart + 2 ^ 46

theorem heapLimit_eq : heapLimit = kOSHeapStart + kVMPageSize * 2 ^ 34 := by decide

theorem heapLimit_lt : heapLimit < 2 ^ 47 := by decide

/-- The state of memory while the frames in `fixed` belong to the kernel. -/
structure Owned (fixed : Nat → Prop) (spaces : List Nat) (role : Roles) (s : VMState) : Prop where
  consistent : Consistent spaces role s
  kernelPrivate : KernelPrivate spaces s
  owned : PagesOwned spaces role s
  fixed_role : ∀ {a}, fixed a → role a = some .reserved ∨ a = s.kernelPML4

section Turns

variable {fixed : Nat → Prop} {spaces : List Nat} {role : Roles} {s s' s₁ : VMState}
  {pml4 phys virt : Nat}

theorem lowHalf_of_lt {virt : Nat} (h : virt < 2 ^ 47) : ¬ KernelHalf virt := by
  simp only [KernelHalf, pml4Slot, vmmPML4Index_eq]
  omega

/-- Bytes outside the tables do not matter to ownership. -/
theorem Owned.of_sameTables (h : Owned fixed spaces role s) (hsame : SameTables role s s') :
    Owned fixed spaces role s' where
  consistent := hsame.consistent h.consistent
  kernelPrivate := h.kernelPrivate.of_walk_eq hsame.kernelPML4_eq fun _ hr virt _ =>
    hsame.walk_eq h.consistent.wellFormed hr virt
  owned := by
    intro u virt m hu hlow hwalk
    rw [hsame.walk_eq h.consistent.wellFormed (List.mem_cons_of_mem _ hu)] at hwalk
    exact h.owned hu hlow hwalk
  fixed_role := by
    intro a ha
    rw [hsame.kernelPML4_eq]
    exact h.fixed_role ha

/-- Mapping a page to a frame with the page's role keeps ownership. -/
theorem Owned.mapPage (h : Owned fixed spaces role s) (hpml4 : pml4 ∈ spaces)
    (hlow : ¬ KernelHalf virt) (hframe : IsFrameAddress phys)
    (hrole : role phys = some (.page pml4 (pagePath virt))) :
    ∃ role', Owned fixed spaces role' (vmVirtualMemoryMapPage s pml4 phys virt pteUserData).2 ∧
      Roles.Extends role role' := by
  obtain ⟨role', hconsistent, hmap, -⟩ := h.consistent.mapPage virt
    (List.mem_cons_of_mem _ hpml4) hframe (show IsFlagWord pteUserData by decide) (by decide)
  refine ⟨role', ?_, hmap.role_keep⟩
  exact {
    consistent := hconsistent
    kernelPrivate := h.kernelPrivate.mapPage hmap fun hhalf => absurd hhalf hlow
    owned := PagesOwned.mapPage h.owned (fun u hu => List.mem_cons_of_mem _ hu) hrole hmap
    fixed_role := by
      intro a ha
      rw [hmap.kernelPML4_eq]
      exact (h.fixed_role ha).imp_left (hmap.role_keep _ _) }

/-- A frame that was just allocated for a page belongs to the page. -/
theorem Owned.allocatePage (h : Owned fixed spaces role s) (halloc : s.allocatePage = (phys, s₁))
    (hne : phys ≠ 0) (root : Nat) (path : List (Fin 512)) :
    ∃ role', Owned fixed spaces role' s₁ ∧ role' phys = some (.page root path) ∧
      IsFrameAddress phys ∧ s.pmm.freeCount = s₁.pmm.freeCount + 1 := by
  rcases h.consistent.allocatePage (x := .page root path) (by simp) with
    ⟨-, heq⟩ | ⟨a, s₂, heq, -, hframe, hnone, hcount, hsame, -, hconsistent⟩
  · rw [heq] at halloc
    exact absurd (congrArg Prod.fst halloc).symm hne
  · obtain ⟨rfl, rfl⟩ : a = phys ∧ s₂ = s₁ := by
      rw [heq] at halloc
      exact ⟨congrArg Prod.fst halloc, congrArg Prod.snd halloc⟩
    have hext := Roles.Extends.update_of_none hnone (.page root path)
    have h₁ := h.of_sameTables hsame
    refine ⟨Function.update role a (some (.page root path)), ?_, Function.update_self .., hframe,
      hcount⟩
    exact {
      consistent := hconsistent
      kernelPrivate := h₁.kernelPrivate
      owned := fun hu hlow hwalk => hext _ _ (h₁.owned hu hlow hwalk)
      fixed_role := fun hb => (h₁.fixed_role hb).imp_left (hext _ _) }

/-- Without a free frame nothing is allocated. -/
theorem Owned.allocatePage_zero (h : Owned fixed spaces role s)
    (halloc : s.allocatePage = (0, s₁)) : s₁ = s := by
  rcases h.consistent.allocatePage (x := .reserved) (by simp) with ⟨-, heq⟩ | ⟨a, s₂, heq, hne, -⟩
  · rw [heq] at halloc
    exact (congrArg Prod.snd halloc).symm
  · rw [heq] at halloc
    exact absurd (congrArg Prod.fst halloc) hne

/-- The loop of `VMVirtualMemorySetupUserStack`, however far it gets. -/
theorem Owned.setupUserStackPages (hpml4 : pml4 ∈ spaces) {addresses : List Nat}
    (hlow : ∀ a ∈ addresses, ¬ KernelHalf a) :
    ∀ {role : Roles} {s : VMState}, Owned fixed spaces role s →
      ∃ role', Owned fixed spaces role' (setupUserStackPages pml4 s addresses).2 ∧
        (setupUserStackPages pml4 s addresses).2.pmm.freeCount ≤ s.pmm.freeCount := by
  induction addresses with
  | nil => exact fun h => ⟨_, h, Nat.le_refl _⟩
  | cons address rest ih =>
    intro role s h
    rw [TermOS.VM.setupUserStackPages]
    rcases halloc : s.allocatePage with ⟨phys, s₁⟩
    have hkeeps := keeps_allocatePage s
    rw [halloc] at hkeeps
    simp only
    split
    · -- out of memory: the panic
      next hzero =>
      obtain rfl := h.allocatePage_zero (hzero ▸ halloc)
      exact ⟨role, h, Nat.le_refl _⟩
    · next hne =>
      obtain ⟨role₁, h₁, hrole, hframe, hcount⟩ :=
        h.allocatePage halloc hne pml4 (pagePath address)
      have h₂ := h₁.of_sameTables
        (h₁.consistent.clearPage hframe fun r p => by rw [hrole]; simp)
      obtain ⟨role₃, h₃, -⟩ :=
        h₂.mapPage hpml4 (hlow address List.mem_cons_self) hframe hrole
      obtain ⟨role', h', hle⟩ := ih (fun a ha => hlow a (List.mem_cons_of_mem _ ha)) h₃
      refine ⟨role', h', hle.trans ?_⟩
      apply freeCount_le_of_free
      intro f hf
      apply hkeeps.free_of_free
      have hmap := keeps_mapPage (s₁.clearPage (physToHhdm phys)) pml4 phys address pteUserData
      have hf' := hmap.free_of_free hf
      rwa [clearPage_pmm] at hf'

/-- The loop of `OSServiceMemoryAllocate`, however far it gets. The heap pointer
moves by one page for each frame that is taken. -/
theorem Owned.memoryAllocatePages {count : Nat} :
    ∀ {role : Roles} {s : VMState} (process : OSProcess), Owned fixed spaces role s →
      process.physicalPML4 ∈ spaces →
      process.heapCurrentPointer + kVMPageSize * s.pmm.freeCount ≤ heapLimit →
      ∃ role', Owned fixed spaces role' (memoryAllocatePages s process count).2.1 ∧
        (memoryAllocatePages s process count).2.2.physicalPML4 = process.physicalPML4 ∧
        (memoryAllocatePages s process count).2.2.heapCurrentPointer + kVMPageSize *
          (memoryAllocatePages s process count).2.1.pmm.freeCount ≤ heapLimit ∧
        (memoryAllocatePages s process count).2.1.pmm.freeCount ≤ s.pmm.freeCount := by
  induction count with
  | zero => exact fun _ h _ hlimit => ⟨_, h, rfl, hlimit, Nat.le_refl _⟩
  | succ count ih =>
    intro role s process h hpml4 hlimit
    rw [TermOS.OS.memoryAllocatePages]
    rcases halloc : s.allocatePage with ⟨phys, s₁⟩
    simp only
    split
    · -- out of memory: the call returns 0
      next hzero =>
      obtain rfl := h.allocatePage_zero (hzero ▸ halloc)
      exact ⟨role, h, rfl, hlimit, Nat.le_refl _⟩
    · next hne =>
      obtain ⟨role₁, h₁, hrole, hframe, hcount⟩ := h.allocatePage halloc hne process.physicalPML4
        (pagePath process.heapCurrentPointer)
      have hptr : process.heapCurrentPointer + kVMPageSize < 2 ^ 47 := by
        have hlt := heapLimit_lt
        simp only [kVMPageSize] at hlimit ⊢
        omega
      obtain ⟨role₂, h₂, hext⟩ := h₁.mapPage hpml4 (lowHalf_of_lt (by omega)) hframe hrole
      have h₃ := h₂.of_sameTables
        (h₂.consistent.clearPage hframe fun r p => by rw [hext _ _ hrole]; simp)
      have hle : (vmVirtualMemoryMapPage s₁ process.physicalPML4 phys process.heapCurrentPointer
          pteUserData).2.pmm.freeCount ≤ s₁.pmm.freeCount :=
        freeCount_le_of_free fun _ => (keeps_mapPage s₁ _ _ _ _).free_of_free
      rw [wrap64_of_lt (by omega)]
      have hlimit' : process.heapCurrentPointer + kVMPageSize + kVMPageSize *
          (vmVirtualMemoryMapPage s₁ process.physicalPML4 phys process.heapCurrentPointer
            pteUserData).2.pmm.freeCount ≤ heapLimit := by
        simp only [kVMPageSize] at hlimit ⊢
        omega
      obtain ⟨role', h', hpml4', hlimit'', hle'⟩ :=
        ih ⟨process.physicalPML4, process.heapCurrentPointer + kVMPageSize⟩ h₃ hpml4 hlimit'
      refine ⟨role', h', hpml4', hlimit'', hle'.trans ?_⟩
      rw [clearPage_pmm]
      omega

/-- A new address space owns nothing yet. -/
theorem Owned.addsRoot {c : Nat} (h : Owned fixed spaces role s)
    (hadd : AddsRoot (s.kernelPML4 :: spaces) role s c s') :
    Owned fixed (c :: spaces) (Function.update role c (some (.table c []))) s' where
  consistent := h.consistent.addsRoot hadd
  kernelPrivate := h.kernelPrivate.addsRoot h.consistent.wellFormed hadd
  owned := by
    intro u virt m hu hlow hwalk
    rcases List.mem_cons.mp hu with rfl | hu
    · rw [hadd.walk_new hlow] at hwalk
      exact absurd hwalk (by simp)
    · rw [hadd.walk_old h.consistent.wellFormed (List.mem_cons_of_mem _ hu)] at hwalk
      exact Roles.Extends.update_of_none hadd.fresh _ _ _ (h.owned hu hlow hwalk)
  fixed_role := by
    intro a ha
    rw [hadd.kernelPML4_eq]
    exact (h.fixed_role ha).imp_left (Roles.Extends.update_of_none hadd.fresh _ _ _)

end Turns

/-! ## Section 4: The invariant of the system -/

namespace MemorySystem

/-- What holds in every reachable state, while the frames in `fixed` belong to
the kernel. -/
structure Invariant (fixed : Nat → Prop) (σ : MemorySystem) : Prop where
  owned : ∃ role, Owned fixed σ.spaces role σ.vm
  nodup : σ.spaces.Nodup
  pointers : ∀ p ∈ σ.processes,
    p.heapCurrentPointer + kVMPageSize * σ.vm.pmm.freeCount ≤ heapLimit
  freeCount_le : σ.vm.pmm.freeCount ≤ 2 ^ 34

variable {fixed : Nat → Prop} {σ : MemorySystem}

theorem Invariant.createProcess (h : Invariant fixed σ) :
    Invariant fixed (σ.step .createProcess) := by
  obtain ⟨role, howned⟩ := h.owned
  rcases createAddressSpace_cases howned.consistent.wellFormed howned.consistent.isInitialized with
    ⟨-, heq⟩ | ⟨c, vm, heq, hc0, hadd⟩
  · rw [step, heq]
    exact h
  · rw [step, heq]
    simp only [if_neg hc0]
    have hcount := hadd.freeCount_eq
    have hle : vm.pmm.freeCount ≤ 2 ^ 34 := by
      have := h.freeCount_le
      omega
    exact {
      owned := ⟨_, howned.addsRoot hadd⟩
      nodup := by
        apply List.nodup_cons.mpr
        exact ⟨fun hc => hadd.not_mem howned.consistent.wellFormed (List.mem_cons_of_mem _ hc), h.nodup⟩
      pointers := by
        intro p hp
        rcases List.mem_cons.mp hp with rfl | hp
        · rw [heapLimit_eq]
          exact Nat.add_le_add_left (Nat.mul_le_mul_left _ hle) _
        · have hp' := h.pointers p hp
          rw [hcount] at hp'
          exact (Nat.add_le_add_left (Nat.mul_le_mul_left _ (Nat.le_succ _)) _).trans hp'
      freeCount_le := hle }

theorem Invariant.setupUserStack (h : Invariant fixed σ) (i : Nat) :
    Invariant fixed (σ.step (.setupUserStack i)) := by
  obtain ⟨role, howned⟩ := h.owned
  rw [step]
  cases hi : σ.processes[i]? with
  | none => exact h
  | some process =>
    have hmem : process ∈ σ.processes := List.mem_of_getElem? hi
    have hspace : process.physicalPML4 ∈ σ.spaces := List.mem_map_of_mem hmem
    have hlow : ∀ a ∈ pageLoop (kVMUserStackTop - kVMUserStackSize) kVMUserStackTop,
        ¬ KernelHalf a := by
      intro a ha
      obtain ⟨n, -, hlt⟩ := mem_pageLoop.mp ha
      apply lowHalf_of_lt
      simp only [kVMUserStackTop] at hlt
      omega
    obtain ⟨role', howned', hle⟩ := Owned.setupUserStackPages hspace hlow howned
    exact {
      owned := ⟨role', howned'⟩
      nodup := h.nodup
      pointers := by
        intro p hp
        exact (Nat.add_le_add_left (Nat.mul_le_mul_left _ hle) _).trans (h.pointers p hp)
      freeCount_le := hle.trans h.freeCount_le }

/-- Updating a process without changing its PML4 keeps the address spaces. -/
theorem spaces_set {processes : List OSProcess} {i : Nat} {p p' : OSProcess}
    (hi : processes[i]? = some p) (hp : p'.physicalPML4 = p.physicalPML4) :
    (processes.set i p').map OSProcess.physicalPML4 =
      processes.map OSProcess.physicalPML4 := by
  apply List.ext_getElem?
  intro j
  rw [List.getElem?_map, List.getElem?_map, List.getElem?_set]
  split
  · next hij =>
    subst hij
    rw [hi]
    split
    · rw [Option.map_some, Option.map_some, hp]
    · next hlt => exact absurd (List.getElem?_eq_some_iff.mp hi).1 hlt
  · rfl

theorem Invariant.memoryAllocate (h : Invariant fixed σ) (i size : Nat) :
    Invariant fixed (σ.step (.memoryAllocate i size)) := by
  obtain ⟨role, howned⟩ := h.owned
  rw [step]
  cases hi : σ.processes[i]? with
  | none => exact h
  | some process =>
    have hmem : process ∈ σ.processes := List.mem_of_getElem? hi
    have hspace : process.physicalPML4 ∈ σ.spaces := List.mem_map_of_mem hmem
    -- a call with size 0 is a loop without turns
    have hcall : ∃ count, (osServiceMemoryAllocate σ.vm process size).2 =
        (memoryAllocatePages σ.vm process count).2 := by
      rw [osServiceMemoryAllocate]
      by_cases hsize : size = 0
      · exact ⟨0, by rw [if_pos hsize]; rfl⟩
      · refine ⟨wrap64 (size + (kVMPageSize - 1)) / kVMPageSize, ?_⟩
        rw [if_neg hsize]
        simp only
        generalize memoryAllocatePages σ.vm process _ = result
        obtain ⟨_ | _, s', process'⟩ := result <;> rfl
    obtain ⟨count, hcall⟩ := hcall
    obtain ⟨role', howned', hpml4, hlimit, hle⟩ :=
      Owned.memoryAllocatePages process howned hspace (h.pointers process hmem)
    rw [← hcall] at howned' hpml4 hlimit hle
    have hspaces := spaces_set hi hpml4
    exact {
      owned := by
        refine ⟨role', ?_⟩
        rw [spaces]
        simp only [hspaces]
        exact howned'
      nodup := by
        rw [spaces]
        simp only [hspaces]
        exact h.nodup
      pointers := by
        intro p hp
        rcases List.mem_or_eq_of_mem_set hp with hp | rfl
        · exact (Nat.add_le_add_left (Nat.mul_le_mul_left _ hle) _).trans (h.pointers p hp)
        · exact hlimit
      freeCount_le := hle.trans h.freeCount_le }

theorem Invariant.step (h : Invariant fixed σ) (call : MemoryCall) :
    Invariant fixed (σ.step call) := by
  cases call with
  | createProcess => exact h.createProcess
  | setupUserStack i => exact h.setupUserStack i
  | memoryAllocate i size => exact h.memoryAllocate i size

/-- User pages lie in the user half. -/
theorem Invariant.userPage_low (h : Invariant fixed σ) {p : OSProcess} (hp : p ∈ σ.processes)
    {virt frame : Nat} (huser : σ.UserPage p virt frame) :
    ¬ KernelHalf virt ∧ ∃ flags, σ.vm.walk p.physicalPML4 virt = some (frame, flags) := by
  obtain ⟨role, howned⟩ := h.owned
  obtain ⟨flags, hwalk, hflags⟩ := huser
  refine ⟨fun hhalf => ?_, flags, hwalk⟩
  exact howned.kernelPrivate _ (List.mem_cons_of_mem _ (List.mem_map_of_mem hp)) virt _ hhalf hwalk
    (hflags hhalf)

/-- No frame is mapped at two user pages. -/
theorem Invariant.page_unique (h : Invariant fixed σ) {i j : Nat} {p q : OSProcess}
    (hp : σ.processes[i]? = some p) (hq : σ.processes[j]? = some q) {virt virt' frame : Nat}
    (huser : σ.UserPage p virt frame) (huser' : σ.UserPage q virt' frame) :
    i = j ∧ pageNumber virt = pageNumber virt' := by
  obtain ⟨hv, flags, hwalk⟩ := h.userPage_low (List.mem_of_getElem? hp) huser
  obtain ⟨hv', flags', hwalk'⟩ := h.userPage_low (List.mem_of_getElem? hq) huser'
  obtain ⟨role, howned⟩ := h.owned
  have hpi : σ.spaces[i]? = some p.physicalPML4 := by
    rw [spaces, List.getElem?_map, hp, Option.map_some]
  have hqj : σ.spaces[j]? = some q.physicalPML4 := by
    rw [spaces, List.getElem?_map, hq, Option.map_some]
  obtain ⟨hroot, hpage⟩ := PagesOwned.page_inj howned.owned (List.mem_of_getElem? hpi)
    (List.mem_of_getElem? hqj) hv hv' hwalk hwalk'
  refine ⟨?_, hpage⟩
  obtain ⟨hi, hpi⟩ := List.getElem?_eq_some_iff.mp hpi
  obtain ⟨hj, hqj⟩ := List.getElem?_eq_some_iff.mp hqj
  exact (h.nodup.getElem_inj_iff).mp (hpi.trans (hroot.trans hqj.symm))

/-- A user page's frame is not a table and not one of the kernel's. -/
theorem Invariant.page_not_kernel (h : Invariant fixed σ) {p : OSProcess} (hp : p ∈ σ.processes)
    {virt frame : Nat} (huser : σ.UserPage p virt frame) :
    ¬ σ.TableFrame frame ∧ ¬ fixed frame := by
  obtain ⟨hv, flags, hwalk⟩ := h.userPage_low hp huser
  obtain ⟨role, howned⟩ := h.owned
  have hrole := howned.owned (List.mem_map_of_mem hp) hv hwalk
  have htable : ∀ {r path}, role frame ≠ some (.table r path) := by
    intro r path ht
    rw [hrole] at ht
    exact absurd ht (by simp)
  constructor
  · rintro ⟨r, hr, path, hlen, hfollow⟩
    obtain ⟨r', ht, -⟩ :=
      howned.consistent.wellFormed.follow_role (howned.consistent.wellFormed.root_role hr) (by simpa using hlen) hfollow
    exact htable ht
  · intro hfixed
    rcases howned.fixed_role hfixed with hres | rfl
    · rw [hrole] at hres
      exact absurd hres (by simp)
    · exact htable (howned.consistent.wellFormed.root_role List.mem_cons_self)

end MemorySystem

/-! ## Section 5: Exclusive ownership from boot on -/

/-- The frames that the kernel keeps for itself after `VMHeapInitialize`. -/
def KernelFrame (m : Machine) (heap : List Nat) (frame : Nat) : Prop :=
  frame ∈ heap ∨ (frame % kVMPageSize = 0 ∧ (ImageFrame m frame ∨ BitmapFrame m frame))

/-- The state in which the first process is created. -/
theorem bootHeap_invariant {m : Machine} (hm : m.Accepted)
    (hmemory : maxPhysicalAddress m.memoryMap ≤ 2 ^ 46) {heap : List Nat} {vm : VMState}
    (hboot : m.bootHeap = some (heap, vm)) :
    MemorySystem.Invariant (KernelFrame m heap) ⟨vm, [], false⟩ := by
  obtain ⟨role, hready, pmm, hpmm, hfree, hroles⟩ := bootHeap_ready hm hboot
  obtain ⟨host, pm, hhost, heq, haddress, -, -, husable⟩ := physicalMemoryInitialize_eq_some hm.map
  obtain rfl : pm = pmm := Option.some.inj (heq.symm.trans hpmm)
  -- The image and the bitmap are the kernel's: no free frame lies in them.
  have hreserved : ∀ {frame}, frame % kVMPageSize = 0 → ImageFrame m frame ∨ BitmapFrame m frame →
      reservedRoles pm frame = some .reserved := by
    intro frame halign hkernel
    rw [reservedRoles, if_pos]
    refine ⟨halign, fun hf => ?_⟩
    obtain ⟨-, -, himage, hbitmap⟩ := (husable _).mp hf
    have hback : frame / kVMPageSize * kVMPageSize = frame := by
      simp only [kVMPageSize] at halign ⊢
      omega
    rw [hback] at himage hbitmap
    rcases hkernel with himage' | ⟨host', hhost', hbitmap'⟩
    · exact himage himage'
    · obtain rfl : host' = host := Option.some.inj (hhost'.symm.trans hhost)
      rw [haddress] at hbitmap
      exact hbitmap hbitmap'
  -- The allocator counts its free frames below the end of the memory.
  have hcount : vm.pmm.freeCount ≤ 2 ^ 34 := by
    apply freeCount_le_of_lt
    intro f hf
    obtain ⟨-, hlt, -⟩ := free_frame_bounds hm hpmm (hfree f hf)
    simp only [kVMPageSize] at hlt
    omega
  exact {
    owned := ⟨role, hready.consistent, hready.kernelPrivate,
      fun hu => absurd hu (by simp [MemorySystem.spaces]), by
        rintro a (hheap | ⟨halign, hkernel⟩)
        · exact .inl (hready.heap_reserved a hheap)
        · exact hroles a (hreserved halign hkernel)⟩
    nodup := List.nodup_nil
    pointers := fun p hp => absurd hp (by simp)
    freeCount_le := hcount }

/-- In every state that calls of processes lead to after boot, no frame is
mapped at two user pages, and no user page has a frame that holds a page table,
the kernel heap, the kernel image or the frame bitmap. -/
theorem userFrames_exclusive (m : Machine) (hm : m.Accepted)
    (hmemory : maxPhysicalAddress m.memoryMap ≤ 2 ^ 46) {heap : List Nat} {vm : VMState}
    (hboot : m.bootHeap = some (heap, vm)) {calls : List MemoryCall} {σ : MemorySystem}
    (hruns : Run MemorySystem.Running MemorySystem.step ⟨vm, [], false⟩ calls σ) :
    (∀ (i j : Nat) (p q : OSProcess), σ.processes[i]? = some p → σ.processes[j]? = some q →
      ∀ virt virt' frame, σ.UserPage p virt frame → σ.UserPage q virt' frame →
        i = j ∧ pageNumber virt = pageNumber virt') ∧
    ∀ p ∈ σ.processes, ∀ virt frame, σ.UserPage p virt frame →
      ¬ σ.TableFrame frame ∧ frame ∉ heap ∧ ¬ ImageFrame m frame ∧ ¬ BitmapFrame m frame := by
  have hinv : MemorySystem.Invariant (KernelFrame m heap) σ :=
    hruns.invariant (fun σ call h _ => h.step call) (bootHeap_invariant hm hmemory hboot)
  refine ⟨fun i j p q hp hq virt virt' frame huser huser' => hinv.page_unique hp hq huser huser',
    fun p hp virt frame huser => ?_⟩
  obtain ⟨htable, hkernel⟩ := hinv.page_not_kernel hp huser
  have halign : frame % kVMPageSize = 0 := by
    obtain ⟨flags, hwalk, -⟩ := huser
    obtain ⟨pt, -, hdecode⟩ := walk_eq_some.mp hwalk
    exact decode_frame_mod hdecode
  exact ⟨htable, fun h => hkernel (.inl h), fun h => hkernel (.inr ⟨halign, .inl h⟩),
    fun h => hkernel (.inr ⟨halign, .inr h⟩)⟩

/-- Only setting up a stack can panic. -/
theorem MemorySystem.step_createProcess_panicked (σ : MemorySystem) :
    (σ.step .createProcess).panicked = σ.panicked := by
  rw [MemorySystem.step]
  rcases vmVirtualMemoryCreateAddressSpace σ.vm with ⟨pml4, vm⟩
  simp only
  split <;> rfl

/-- Two processes, one of which asks for three pages: no frame is shared. -/
theorem userFrames_exclusive_small : ∃ heap vm, heapMachine.bootHeap = some (heap, vm) ∧
    let σ := ((MemorySystem.step ⟨vm, [], false⟩ .createProcess).step .createProcess).step
      (.memoryAllocate 0 0x3000)
    ∀ p ∈ σ.processes, ∀ virt frame, σ.UserPage p virt frame →
      ¬ σ.TableFrame frame ∧ frame ∉ heap := by
  obtain ⟨heap, vm, hboot, -⟩ := heapMachine_bootHeap
  refine ⟨heap, vm, hboot, fun p hp virt frame huser => ?_⟩
  have hmemory : maxPhysicalAddress heapMachine.memoryMap ≤ 2 ^ 46 := by decide
  have hfirst : MemorySystem.Running ⟨vm, [], false⟩ .createProcess := rfl
  have hsecond : MemorySystem.Running (MemorySystem.step ⟨vm, [], false⟩ .createProcess)
      .createProcess := MemorySystem.step_createProcess_panicked _
  have hthird : MemorySystem.Running ((MemorySystem.step ⟨vm, [], false⟩ .createProcess).step
      .createProcess) (.memoryAllocate 0 0x3000) :=
    (MemorySystem.step_createProcess_panicked _).trans hsecond
  obtain ⟨htable, hheap, -⟩ := (userFrames_exclusive heapMachine heapMachine_accepted hmemory hboot
    (.cons hfirst (.cons hsecond (.cons hthird (.nil _))))).2 p hp virt frame huser
  exact ⟨htable, hheap⟩

end TermOS.OS
