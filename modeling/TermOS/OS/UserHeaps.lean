import TermOS.Libterm.MemoryFrame
import TermOS.Libterm.MemoryGrowth
import TermOS.OS.PrivateMemory

/-!
# The heaps of the processes

`MemoryAllocate` and its kin run in ring 3, at addresses that the page tables of
their process translate, and they call the kernel for pages when no block is large
enough. Here the two come together: each process has a heap, its bytes are those
that the process sees, and the pages that the kernel grants are where the library
takes them to be.
-/

namespace TermOS.OS

open TermOS.Lib TermOS.Kernel TermOS.VM TermOS.Lib.TableForest TermOS.Libterm VMState

/-! ## Section 1: The pages that a call adds -/

section Grow

variable {fixed : Nat → Prop} {spaces : List Nat} {role : Roles} {s : VMState} {pml4 virt : Nat}

/-- A turn that leaves a frame has mapped its page, which shows zeros. -/
theorem serviceTurn_shows (h : Owned fixed spaces role s) (hpml4 : pml4 ∈ spaces) (hvirt : virt < 2 ^ 47)
    (hleft : (serviceTurn pml4 s virt).pmm.freeCount ≠ 0) :
    s.pmm.freeCount ≠ 0 ∧
    (∀ x, pageNumber x = pageNumber virt → userByte (serviceTurn pml4 s virt) pml4 x = some 0) ∧
    ∀ x, x < 2 ^ 47 → pageNumber x ≠ pageNumber virt →
      userByte (serviceTurn pml4 s virt) pml4 x = userByte s pml4 x := by
  have hout : TurnOutcome spaces s pml4 virt (serviceTurn pml4 s virt) :=
    pageTurn_outcome writesFrame_id writesFrame_clearPage h.consistent hpml4 virt
  rcases hout.cases with ⟨henough, -⟩ | ⟨-, hzero, -⟩
  · refine ⟨by omega, fun x hx => ?_, fun x hx hpage => ?_⟩
    · obtain ⟨a, role', hgranted, hbytes, -⟩ :=
        pageTurn_granted writesFrame_id writesFrame_clearPage h.consistent hpml4 henough
      have hwalk : (serviceTurn pml4 s virt).walk pml4 x = some (a, pteUserData) := by
        rw [walk_congr _ _ hx]
        exact hgranted.walk_eq
      rw [userByte, hwalk, Option.map_some]
      exact congrArg some (hbytes fillsFrame_clearPage _ (Nat.mod_lt _ (by decide)))
    · have hconfined := pageTurn_confined writesFrame_id writesFrame_clearPage
        (.inl fillsFrame_clearPage) ⟨role, h⟩ hpml4 (lowHalf_of_lt hvirt) (by omega)
      rcases hconfined.own_byte x (lowHalf_of_lt hx) with hkept | ⟨-, -, hsame, -⟩
      · exact hkept
      · exact absurd hsame hpage
  · exact absurd hzero hleft

/-- The loop of `OSServiceMemoryAllocate`, if it leaves a frame: it has gone through all its
pages, they show zeros, and nothing else has changed. -/
theorem memoryAllocatePages_shows (count : Nat) :
    ∀ {s : VMState} {process : OSProcess}, (∃ role, Owned fixed spaces role s) →
      process.physicalPML4 ∈ spaces → process.heapCurrentPointer % kVMPageSize = 0 →
      process.heapCurrentPointer + kVMPageSize * s.pmm.freeCount ≤ heapLimit →
      (memoryAllocatePages s process count).2.1.pmm.freeCount ≠ 0 →
      (memoryAllocatePages s process count).1 = true ∧
      (memoryAllocatePages s process count).2.2.heapCurrentPointer =
        process.heapCurrentPointer + kVMPageSize * count ∧
      (∀ x, process.heapCurrentPointer ≤ x → x < process.heapCurrentPointer + kVMPageSize * count →
        userByte (memoryAllocatePages s process count).2.1 process.physicalPML4 x = some 0) ∧
      ∀ x, x < 2 ^ 47 → x < process.heapCurrentPointer ∨
          process.heapCurrentPointer + kVMPageSize * count ≤ x →
        userByte (memoryAllocatePages s process count).2.1 process.physicalPML4 x =
          userByte s process.physicalPML4 x := by
  induction count with
  | zero =>
    intro s process _ _ _ _ _
    exact ⟨rfl, rfl, fun x hx hlt => by omega, fun _ _ _ => rfl⟩
  | succ count ih =>
    rintro s process ⟨role, howned⟩ hpml4 halign hlimit hleft
    have hlt := heapLimit_lt
    simp only [kVMPageSize] at halign hlimit
    rw [memoryAllocatePages_succ ⟨role, howned.consistent⟩] at hleft ⊢
    split at hleft
    · next hzero => exact absurd hzero hleft
    next hfree =>
    rw [if_neg hfree]
    have hpointer : process.heapCurrentPointer + 4096 < 2 ^ 47 := by omega
    rw [wrap64_of_lt (by simp only [kVMPageSize]; omega)] at hleft ⊢
    -- the frame that is left at the end is left after the first turn
    have hkept : (serviceTurn process.physicalPML4 s process.heapCurrentPointer).pmm.freeCount ≠ 0 := by
      have hle := freeCount_le_of_free fun _ =>
        (keeps_memoryAllocatePages count (serviceTurn process.physicalPML4 s process.heapCurrentPointer)
          { process with heapCurrentPointer := process.heapCurrentPointer + kVMPageSize }).free_of_free
      omega
    obtain ⟨-, hzeros, hsame⟩ := serviceTurn_shows howned hpml4 (by omega) hkept
    have hconfined : Confined fixed spaces process.physicalPML4 _ s
        (serviceTurn process.physicalPML4 s process.heapCurrentPointer) :=
      pageTurn_confined writesFrame_id writesFrame_clearPage (.inl fillsFrame_clearPage)
        ⟨role, howned⟩ hpml4 (lowHalf_of_lt (show process.heapCurrentPointer < 2 ^ 47 by omega)) hfree
    have hout : TurnOutcome spaces s process.physicalPML4 process.heapCurrentPointer
        (serviceTurn process.physicalPML4 s process.heapCurrentPointer) :=
      pageTurn_outcome writesFrame_id writesFrame_clearPage howned.consistent hpml4 _
    have hcount : (serviceTurn process.physicalPML4 s process.heapCurrentPointer).pmm.freeCount + 1 ≤
        s.pmm.freeCount := by
      rcases hout.cases with ⟨-, hcount, -⟩ | ⟨-, hzero, -⟩ <;> omega
    obtain ⟨hresult, hpointer', hnew, hold⟩ :=
      @ih _ ⟨process.physicalPML4, process.heapCurrentPointer + kVMPageSize⟩ hconfined.owned hpml4
        (by simp only [kVMPageSize]; omega) (by simp only [kVMPageSize]; omega) hleft
    simp only [kVMPageSize] at hpointer' hnew hold hzeros hsame ⊢
    refine ⟨hresult, by omega, fun x hle hx => ?_, fun x hlow hx => ?_⟩
    · by_cases hfirst : x < process.heapCurrentPointer + 4096
      · have hlow : x < 2 ^ 47 := Nat.lt_trans hfirst hpointer
        rw [hold x hlow (by omega)]
        apply hzeros
        rw [pageNumber, pageNumber]
        omega
      · exact hnew x (by omega) (by omega)
    · rw [hold x hlow (by omega)]
      apply hsame x hlow
      rw [pageNumber, pageNumber]
      omega

/-- What a process sees in its user half, with zeros where there is no page. -/
def userMemory (s : VMState) (pml4 : Nat) : Memory := fun virt =>
  if virt < 2 ^ 47 then (userByte s pml4 virt).getD 0 else 0

theorem userMemory_congr {s' : VMState}
    (hsame : ∀ virt, virt < 2 ^ 47 → userByte s' pml4 virt = userByte s pml4 virt) :
    userMemory s' pml4 = userMemory s pml4 := by
  funext virt
  unfold userMemory
  split
  · next hvirt => rw [hsame virt hvirt]
  · rfl

/-- If it leaves a frame, the service does to the memory of the process what the library
takes it to do. -/
theorem memoryAllocate_userMemory {process : OSProcess} (h : ∃ role, Owned fixed spaces role s)
    (hpml4 : process.physicalPML4 ∈ spaces) (halign : process.heapCurrentPointer % kVMPageSize = 0)
    (hlimit : process.heapCurrentPointer + kVMPageSize * s.pmm.freeCount ≤ heapLimit) (size : Nat)
    (hleft : (osServiceMemoryAllocate s process size).2.1.pmm.freeCount ≠ 0)
    (hend : (osServiceMemoryAllocate s process size).2.2.heapCurrentPointer ≤ heapLimit)
    {heap : UserHeap} (hmemory : heap.memory = userMemory s process.physicalPML4)
    (hpointer : heap.heapCurrentPointer = process.heapCurrentPointer) :
    let after := osServiceMemoryAllocate s process size
    let granted := (after.2.2.heapCurrentPointer - process.heapCurrentPointer) / kVMPageSize
    after.2.2.heapCurrentPointer = process.heapCurrentPointer + granted * kVMPageSize ∧
    after.1 = (heap.osServiceMemoryAllocate size granted).1 ∧
    after.2.2.heapCurrentPointer = (heap.osServiceMemoryAllocate size granted).2.heapCurrentPointer ∧
    userMemory after.2.1 process.physicalPML4 = (heap.osServiceMemoryAllocate size granted).2.memory ∧
    ∀ x, process.heapCurrentPointer ≤ x → x < after.2.2.heapCurrentPointer →
      (userByte after.2.1 process.physicalPML4 x).isSome := by
  intro after granted
  have hlt := heapLimit_lt
  by_cases hzero : size = 0
  · have hafter : after = (0, s, process) := by
      simp only [after]
      rw [osServiceMemoryAllocate, if_pos hzero]
    have hgranted : granted = 0 := by
      simp [granted, hafter]
    rw [hafter, hgranted, UserHeap.osServiceMemoryAllocate, if_pos hzero]
    exact ⟨rfl, rfl, hpointer.symm, hmemory.symm, fun x hle hx => by dsimp only at hx; omega⟩
  have hafter : after = (if (memoryAllocatePages s process (pagesNeeded size)).1 then
      process.heapCurrentPointer else 0, (memoryAllocatePages s process (pagesNeeded size)).2) :=
    osServiceMemoryAllocate_eq hzero
  have hleft' : (memoryAllocatePages s process (pagesNeeded size)).2.1.pmm.freeCount ≠ 0 := by
    have heq : after.2.1 = (memoryAllocatePages s process (pagesNeeded size)).2.1 := by rw [hafter]
    rw [← heq]
    exact hleft
  obtain ⟨hresult, hmoved, hnew, hold⟩ :=
    memoryAllocatePages_shows (pagesNeeded size) h hpml4 halign hlimit hleft'
  have hend' : process.heapCurrentPointer + kVMPageSize * pagesNeeded size ≤ heapLimit := by
    have heq : after.2.2 = (memoryAllocatePages s process (pagesNeeded size)).2.2 := by rw [hafter]
    rw [← hmoved, ← heq]
    exact hend
  have hgranted : granted = pagesNeeded size := by
    simp only [granted, hafter, hmoved]
    rw [Nat.add_sub_cancel_left]
    exact Nat.mul_div_cancel_left _ (by decide)
  rw [hafter, hresult, hgranted, UserHeap.osServiceMemoryAllocate, if_neg hzero]
  simp only [if_true, hmoved]
  have hneeded : wrap64 (size + (kVMPageSize - 1)) / kVMPageSize = pagesNeeded size := rfl
  rw [hneeded, if_pos (Nat.le_refl _), Nat.min_self, Nat.mul_comm (pagesNeeded size), hpointer,
    wrap64_of_lt (by omega)]
  refine ⟨rfl, rfl, rfl, ?_, fun x hle hx => ?_⟩
  · funext x
    unfold userMemory
    by_cases hx : x < 2 ^ 47
    · rw [if_pos hx]
      by_cases hinside : process.heapCurrentPointer ≤ x ∧
          x < process.heapCurrentPointer + kVMPageSize * pagesNeeded size
      · rw [hnew x hinside.1 hinside.2, Memory.fill_inside _ _ hinside.1 hinside.2]
        rfl
      · rw [hold x hx (by omega), Memory.fill_outside _ _ (by omega), hmemory, userMemory, if_pos hx]
    · rw [if_neg hx, Memory.fill_outside _ _ (by omega), hmemory, userMemory, if_neg hx]
  · rw [hnew x hle hx]
    rfl

end Grow

/-! ## Section 2: The system -/

/-- The list head of the library in a process, and the payloads that the clients of the
library hold there. -/
structure ProcessHeap where
  listHead : Nat
  live : List (Nat × Nat)

/-- The memory of the processes, and the heap of each address space. -/
structure HeapSystem where
  memory : MemorySystem
  heaps : Nat → ProcessHeap

inductive HeapEvent where
  /-- What happens outside the library. -/
  | kernel (e : ProcessEvent)
  /-- A process calls the library or writes into a payload. -/
  | library (process : Nat) (a : HeapAction)

namespace MemorySystem

/-- The heap pointer that the kernel keeps for a process. -/
def heapPointer (σ : MemorySystem) (i : Nat) : Nat :=
  match σ.processes[i]? with
  | none => 0
  | some p => p.heapCurrentPointer

/-- The system call of a library call, if it makes one. -/
def serve (σ : MemorySystem) (i : Nat) : Option Nat → MemorySystem
  | none => σ
  | some size => σ.step (.memoryAllocate i size)

/-- The pages that the kernel grants for it. -/
def granted (σ : MemorySystem) (i : Nat) (request : Option Nat) : Nat :=
  ((σ.serve i request).heapPointer i - σ.heapPointer i) / kVMPageSize

/-- The stores of a library call, which leave the bytes of `m` in the heap. -/
def storeAll (σ : MemorySystem) (pml4 start count : Nat) (m : Memory) : MemorySystem :=
  (List.range' start count).foldl (fun σ virt => σ.event (.store pml4 virt (m virt))) σ

end MemorySystem

namespace HeapSystem

/-- The heap of a process, as its page tables show it. -/
def userHeap (σ : HeapSystem) (p : OSProcess) : UserHeap where
  memory := userMemory σ.memory.vm p.physicalPML4
  listHead := (σ.heaps p.physicalPML4).listHead
  heapCurrentPointer := p.heapCurrentPointer

/-- What the clients of the library hold in a process. -/
def live (σ : HeapSystem) (p : OSProcess) : List (Nat × Nat) := (σ.heaps p.physicalPML4).live

/-- The state after the system call of a library call. -/
def afterServe (σ : HeapSystem) (i : Nat) (p : OSProcess) (a : HeapAction) : HeapSystem :=
  { σ with memory := σ.memory.serve i (kernelRequest (σ.userHeap p) a) }

/-- The state after the stores of a call that returns `pointer` and leaves `heap`. -/
def stored (σ : HeapSystem) (i : Nat) (p : OSProcess) (a : HeapAction) (pointer : Nat)
    (heap : UserHeap) : HeapSystem where
  memory := (σ.afterServe i p a).memory.storeAll p.physicalPML4 kOSHeapStart
    (heap.heapCurrentPointer - kOSHeapStart) heap.memory
  heaps := Function.update σ.heaps p.physicalPML4 ⟨heap.listHead, a.holdings (σ.live p) pointer⟩

/-- The library reads first, then it calls the kernel, and then it stores. -/
def event (σ : HeapSystem) : HeapEvent → HeapSystem
  | .kernel e => { σ with memory := σ.memory.event e }
  | .library i a =>
    match σ.memory.processes[i]? with
    | none => σ
    | some p =>
      let request := kernelRequest (σ.userHeap p) a
      match MemoryClients.call (σ.userHeap p) (σ.memory.granted i request) a with
      | none => σ.afterServe i p a
      | some (pointer, heap) => σ.stored i p a pointer heap

/-- Programs and stacks are made before the first library call of their process, and the stores
of a process outside the library leave the heap alone. -/
def SparesHeaps (σ : HeapSystem) : ProcessEvent → Prop
  | .call (.setupUserStack i) =>
    ∀ p, σ.memory.processes[i]? = some p → p.heapCurrentPointer = kOSHeapStart
  | .call _ => True
  | .load pml4 _ =>
    ∀ p ∈ σ.memory.processes, p.physicalPML4 = pml4 → p.heapCurrentPointer = kOSHeapStart
  | .store pml4 virt _ =>
    ∀ p ∈ σ.memory.processes, p.physicalPML4 = pml4 →
      virt < kOSHeapStart ∨ p.heapCurrentPointer ≤ virt

def Allows (σ : HeapSystem) : HeapEvent → Prop
  | .kernel e => σ.memory.Allows e ∧ σ.SparesHeaps e
  | .library i a => σ.memory.panicked = false ∧ ∀ p, σ.memory.processes[i]? = some p →
      a.Permitted (σ.userHeap p).memory (σ.live p) ∧ UserHeap.Roundable (requested a)

/-- Nobody has called the library yet. -/
def start (vm : VMState) : HeapSystem := ⟨⟨vm, [], false⟩, fun _ => ⟨0, []⟩⟩

/-! ## Section 3: The invariant -/

/-- The blocks of a process lie one behind the other in pages that it has. -/
structure HeapMapped (σ : HeapSystem) (p : OSProcess) : Prop where
  layout : ∃ bs, (σ.userHeap p).Layout bs (σ.live p)
  mapped : ∀ x, kOSHeapStart ≤ x → x < p.heapCurrentPointer →
    (userByte σ.memory.vm p.physicalPML4 x).isSome

/-- What holds in every reachable state. Without a free frame a process may have a heap pointer
behind a page that could not be mapped. -/
structure Invariant (fixed : Nat → Prop) (σ : HeapSystem) : Prop where
  memory : σ.memory.Invariant fixed
  aligned : σ.memory.PointersAligned
  pages : UserPages σ.memory.spaces σ.memory.vm
  fresh : ∀ u, u ∉ σ.memory.spaces → σ.heaps u = ⟨0, []⟩
  heaps : σ.memory.vm.pmm.freeCount ≠ 0 → ∀ p ∈ σ.memory.processes, σ.HeapMapped p

variable {fixed : Nat → Prop} {σ σ' : HeapSystem} {p p' : OSProcess} {i : Nat}

/-- Blocks are bytes of the heap. -/
theorem layout_congr {heap heap' : UserHeap} {bs : List Block} {live : List (Nat × Nat)}
    (h : heap.Layout bs live) (hhead : heap'.listHead = heap.listHead)
    (hpointer : heap'.heapCurrentPointer = heap.heapCurrentPointer)
    (hsame : ∀ x, kOSHeapStart ≤ x → x < heap.heapCurrentPointer → heap'.memory x = heap.memory x) :
    heap'.Layout bs live := by
  unfold UserHeap.Layout
  rw [hhead, hpointer]
  refine { h with linked := h.linked.congr fun c hc x hle hx => hsame x ?_ ?_ }
  · exact Nat.le_trans (h.laid.bounds adjacency_le hc).1 hle
  · obtain ⟨-, hstop⟩ := h.laid.bounds adjacency_le hc
    unfold Block.stop at hstop
    omega

theorem HeapMapped.congr (h : σ.HeapMapped p) (hheaps : σ'.heaps p.physicalPML4 = σ.heaps p.physicalPML4)
    (hsame : ∀ x, kOSHeapStart ≤ x → x < p.heapCurrentPointer →
      userByte σ'.memory.vm p.physicalPML4 x = userByte σ.memory.vm p.physicalPML4 x) :
    σ'.HeapMapped p where
  layout := by
    obtain ⟨bs, hlayout⟩ := h.layout
    have hlive : σ'.live p = σ.live p := by rw [live, live, hheaps]
    refine ⟨bs, hlive ▸ layout_congr hlayout ?_ rfl fun x hle hx => ?_⟩
    · rw [userHeap, userHeap, hheaps]
    · show userMemory _ _ x = userMemory _ _ x
      rw [userMemory, userMemory, hsame x hle hx]
  mapped := by
    intro x hle hx
    rw [hsame x hle hx]
    exact h.mapped x hle hx

/-- The heap of a new process. -/
theorem heapMapped_new (hheaps : σ.heaps p.physicalPML4 = ⟨0, []⟩)
    (hpointer : p.heapCurrentPointer = kOSHeapStart) : σ.HeapMapped p where
  layout := by
    have hlive : σ.live p = [] := by rw [live, hheaps]
    rw [hlive]
    refine ⟨[], layout_congr UserHeap.layout_empty ?_ hpointer fun x hle hx => ?_⟩
    · rw [userHeap, hheaps]
      rfl
    · exact absurd hx (Nat.not_lt.mpr hle)
  mapped := fun x hle hx => by omega

/-! ## Section 4: What the kernel does for a process -/

theorem freeCount_event (σ : MemorySystem) (e : ProcessEvent) :
    (σ.event e).vm.pmm.freeCount ≤ σ.vm.pmm.freeCount := by
  have hle : ∀ {s s' : VMState}, Keeps s s' → s'.pmm.freeCount ≤ s.pmm.freeCount :=
    fun hkeeps => freeCount_le_of_free fun _ => hkeeps.free_of_free
  cases e with
  | call call =>
    rw [MemorySystem.event]
    cases call with
    | createProcess =>
      rw [MemorySystem.step]
      have hcreate := hle (keeps_createAddressSpace σ.vm)
      rcases heq : vmVirtualMemoryCreateAddressSpace σ.vm with ⟨pml4, vm⟩
      rw [heq] at hcreate
      simp only
      split <;> exact hcreate
    | setupUserStack i =>
      rw [MemorySystem.step]
      split
      · exact Nat.le_refl _
      · exact hle (keeps_setupUserStack _ _)
    | memoryAllocate i size =>
      rw [MemorySystem.step]
      split
      · exact Nat.le_refl _
      · exact hle (keeps_memoryAllocate _ _ _)
  | load pml4 data => exact hle (keeps_hotLoad _ _ _)
  | store pml4 virt value =>
    rw [MemorySystem.event, userStore_pmm]

/-- A process is known by its address space. -/
theorem process_unique (h : σ.memory.Invariant fixed) (hp : p ∈ σ.memory.processes)
    (hp' : p' ∈ σ.memory.processes) (hsame : p.physicalPML4 = p'.physicalPML4) : p = p' :=
  List.inj_on_of_nodup_map h.nodup hp hp' hsame

/-- The heap of a process is as before if the event brings it nothing. -/
theorem HeapMapped.event (h : σ.HeapMapped p) (hinv : σ.memory.Invariant fixed)
    (hp : p ∈ σ.memory.processes) {e : ProcessEvent} (hallows : σ.memory.Allows e)
    (hspares : ∀ x byte, kOSHeapStart ≤ x → x < p.heapCurrentPointer →
      ¬ (σ.memory.target e = some p.physicalPML4 ∧ e.Brings x byte)) :
    (σ.event (.kernel e)).HeapMapped p := by
  obtain ⟨-, hconfines⟩ := hinv.event hallows
  have hlimit := hinv.pointers p hp
  have hlt := heapLimit_lt
  refine h.congr rfl fun x hle hx => ?_
  have hspace : p.physicalPML4 ∈ σ.memory.spaces := List.mem_map_of_mem hp
  rcases hconfines.old _ hspace x (by omega) with hkept | ⟨htarget, byte, -, hbrings⟩
  · exact hkept
  · exact absurd ⟨htarget, hbrings⟩ (hspares x byte hle hx)

/-- The system call of a library call, if it leaves a frame. -/
structure Served (σ : HeapSystem) (i : Nat) (p : OSProcess) (request : Option Nat) (p' : OSProcess) :
    Prop where
  processes : (σ.memory.serve i request).processes = σ.memory.processes.set i p'
  physicalPML4_eq : p'.physicalPML4 = p.physicalPML4
  advanced : p'.heapCurrentPointer =
    p.heapCurrentPointer + σ.memory.granted i request * kVMPageSize
  limit : p'.heapCurrentPointer ≤ heapLimit
  heap_eq : userHeap ⟨σ.memory.serve i request, σ.heaps⟩ p' =
    (σ.userHeap p).served request (σ.memory.granted i request)
  mapped : ∀ x, kOSHeapStart ≤ x → x < p'.heapCurrentPointer →
    (userByte (σ.memory.serve i request).vm p'.physicalPML4 x).isSome

theorem Invariant.served (h : Invariant fixed σ) (hi : σ.memory.processes[i]? = some p)
    {request : Option Nat} (hleft : (σ.memory.serve i request).vm.pmm.freeCount ≠ 0)
    (hrunning : σ.memory.panicked = false) : ∃ p', Served σ i p request p' := by
  have hmem := List.mem_of_getElem? hi
  have hpointer : σ.memory.heapPointer i = p.heapCurrentPointer := by
    rw [MemorySystem.heapPointer, hi]
  cases request with
  | none =>
    have hgranted : σ.memory.granted i none = 0 := by
      unfold MemorySystem.granted MemorySystem.serve
      rw [Nat.sub_self, Nat.zero_div]
    exact ⟨p, {
      processes := by
        obtain ⟨hbounded, rfl⟩ := List.getElem?_eq_some_iff.mp hi
        exact (List.set_getElem_self hbounded).symm
      physicalPML4_eq := rfl
      advanced := by rw [hgranted, Nat.zero_mul, Nat.add_zero]
      limit := Nat.le_trans (Nat.le_add_right _ _) (h.memory.pointers p hmem)
      heap_eq := rfl
      mapped := (h.heaps hleft p hmem).mapped }⟩
  | some size =>
    have hspace : p.physicalPML4 ∈ σ.memory.spaces := List.mem_map_of_mem hmem
    have hstep : σ.memory.serve i (some size) = { σ.memory with
        vm := (osServiceMemoryAllocate σ.memory.vm p size).2.1
        processes := σ.memory.processes.set i (osServiceMemoryAllocate σ.memory.vm p size).2.2 } := by
      rw [MemorySystem.serve, MemorySystem.step, hi]
    have hbounded : i < σ.memory.processes.length := (List.getElem?_eq_some_iff.mp hi).1
    have hpointer' : (σ.memory.serve i (some size)).heapPointer i =
        (osServiceMemoryAllocate σ.memory.vm p size).2.2.heapCurrentPointer := by
      rw [hstep, MemorySystem.heapPointer]
      simp [hbounded]
    have hpml4 : (osServiceMemoryAllocate σ.memory.vm p size).2.2.physicalPML4 = p.physicalPML4 :=
      memoryAllocate_pml4 σ.memory.vm p size
    -- the pointers of the state after it are bounded, too
    have hinv := h.memory.step (.memoryAllocate i size)
    have hmem' : (osServiceMemoryAllocate σ.memory.vm p size).2.2 ∈
        (σ.memory.step (.memoryAllocate i size)).processes := by
      show _ ∈ (σ.memory.serve i (some size)).processes
      rw [hstep]
      exact List.mem_set hbounded _
    have hlimit := Nat.le_trans (Nat.le_add_right _ _) (hinv.pointers _ hmem')
    have hleft' : (osServiceMemoryAllocate σ.memory.vm p size).2.1.pmm.freeCount ≠ 0 := by
      rw [hstep] at hleft
      exact hleft
    obtain ⟨hadvanced, -, hsame, hmemory, hnew⟩ :=
      memoryAllocate_userMemory h.memory.owned hspace (h.aligned p hmem).1
        (h.memory.pointers p hmem) size hleft' hlimit
        (show (σ.userHeap p).memory = userMemory σ.memory.vm p.physicalPML4 from rfl) rfl
    have hgranted : σ.memory.granted i (some size) =
        ((osServiceMemoryAllocate σ.memory.vm p size).2.2.heapCurrentPointer -
          p.heapCurrentPointer) / kVMPageSize := by
      rw [MemorySystem.granted, hpointer', hpointer]
    rw [← hgranted] at hadvanced hsame hmemory
    have hlt := heapLimit_lt
    refine ⟨(osServiceMemoryAllocate σ.memory.vm p size).2.2, ?_, hpml4, hadvanced, hlimit, ?_, ?_⟩
    · rw [hstep]
    · rw [hstep, userHeap, UserHeap.served, hpml4]
      dsimp only
      rw [hsame, hmemory]
      unfold UserHeap.osServiceMemoryAllocate
      split <;> rfl
    · intro x hle hx
      rw [hpml4]
      by_cases hold : x < p.heapCurrentPointer
      · have hfree : σ.memory.vm.pmm.freeCount ≠ 0 := by
          have hle := freeCount_event σ.memory (.call (.memoryAllocate i size))
          rw [MemorySystem.serve] at hleft
          rw [MemorySystem.event] at hle
          omega
        have hsome := (h.heaps hfree p hmem).mapped x hle hold
        obtain ⟨-, hconfines⟩ := h.memory.event (e := .call (.memoryAllocate i size)) hrunning
        rcases hconfines.old _ hspace x (by omega) with hkept | ⟨-, byte, hbyte, -⟩
        · rw [MemorySystem.serve]
          rw [MemorySystem.event] at hkept
          rw [hkept]
          exact hsome
        · rw [MemorySystem.serve]
          rw [MemorySystem.event] at hbyte
          rw [hbyte]
          rfl
      · rw [hstep]
        exact hnew x (Nat.not_lt.mp hold) hx

/-- The heap that the library finds after its system call has the blocks that it had. -/
theorem Served.heapMapped {request : Option Nat} (h : Served σ i p request p')
    (hlayout : ∃ bs, (σ.userHeap p).Layout bs (σ.live p)) :
    HeapMapped ⟨σ.memory.serve i request, σ.heaps⟩ p' where
  layout := by
    obtain ⟨bs, hlayout⟩ := hlayout
    have hlive : live ⟨σ.memory.serve i request, σ.heaps⟩ p' = σ.live p := by
      rw [live, live, h.physicalPML4_eq]
    refine ⟨bs, ?_⟩
    rw [h.heap_eq, hlive]
    cases request with
    | none => exact hlayout
    | some size =>
      have hlimit := h.limit
      have hlt := heapLimit_lt
      rw [h.advanced] at hlimit
      refine (hlayout.grow size ?_).1
      show p.heapCurrentPointer + _ < 2 ^ 64
      omega
  mapped := h.mapped

/-! ## Section 5: Every event keeps the invariant -/

/-- A new process has an address space that nobody had, and no heap yet. -/
theorem createProcess_fresh {σ : MemorySystem} {q : OSProcess}
    (hnodup : (σ.event (.call .createProcess)).spaces.Nodup)
    (hq : q ∈ (σ.event (.call .createProcess)).processes) (hnew : q ∉ σ.processes) :
    q.physicalPML4 ∉ σ.spaces ∧ q.heapCurrentPointer = kOSHeapStart := by
  unfold MemorySystem.event MemorySystem.step at hnodup hq
  rcases heq : vmVirtualMemoryCreateAddressSpace σ.vm with ⟨pml4, vm⟩
  rw [heq] at hnodup hq
  simp only at hnodup hq
  split at hq
  -- without a frame no process was added
  · exact absurd hq hnew
  · next hne =>
    rw [if_neg hne] at hnodup
    -- the new process is the first in the list
    rcases List.mem_cons.mp hq with rfl | hmem
    · exact ⟨(List.nodup_cons.mp hnodup).1, rfl⟩
    · exact absurd hmem hnew

/-- A memory call maps the heap of the process that makes it; the other processes are
as they were. -/
theorem Invariant.heapMapped_served (h : Invariant fixed σ) {i size : Nat} {r q : OSProcess}
    (hi : σ.memory.processes[i]? = some r) (hallows : σ.memory.Allows (.call (.memoryAllocate i size)))
    (hinv : (σ.memory.event (.call (.memoryAllocate i size))).Invariant fixed)
    (hleft : (σ.memory.event (.call (.memoryAllocate i size))).vm.pmm.freeCount ≠ 0)
    (hlayout : ∃ bs, (σ.userHeap r).Layout bs (σ.live r))
    (hq : q ∈ (σ.memory.event (.call (.memoryAllocate i size))).processes) :
    (q ∈ σ.memory.processes ∧ q.physicalPML4 ≠ r.physicalPML4) ∨
      (σ.event (.kernel (.call (.memoryAllocate i size)))).HeapMapped q := by
  obtain ⟨r', hserved⟩ : ∃ r', Served σ i r (some size) r' := h.served hi hleft hallows
  have hprocesses := hserved.processes
  have hmapped := hserved.heapMapped hlayout
  have hq' : q ∈ σ.memory.processes.set i r' := hprocesses ▸ hq
  rcases List.mem_or_eq_of_mem_set hq' with hold | rfl
  · by_cases hsame : q.physicalPML4 = r.physicalPML4
    · -- the process itself, as it is now
      have hr' : r' ∈ (σ.memory.event (.call (.memoryAllocate i size))).processes := by
        show r' ∈ (σ.memory.serve i (some size)).processes
        rw [hprocesses]
        exact List.mem_set (List.getElem?_eq_some_iff.mp hi).1 _
      have heq : q = r' := by
        apply List.inj_on_of_nodup_map hinv.nodup hq hr'
        rw [hsame, hserved.physicalPML4_eq]
      rw [heq]
      exact .inr hmapped
    · exact .inl ⟨hold, hsame⟩
  · exact .inr hmapped

/-- What happens outside the library. -/
theorem Invariant.kernel (h : Invariant fixed σ) {e : ProcessEvent} (hallows : σ.memory.Allows e)
    (hspares : σ.SparesHeaps e) : Invariant fixed (σ.event (.kernel e)) := by
  obtain ⟨hmemory, hconfines⟩ := h.memory.event hallows
  have hfree : (σ.memory.event e).vm.pmm.freeCount ≠ 0 → σ.memory.vm.pmm.freeCount ≠ 0 := by
    have hle := freeCount_event σ.memory e
    omega
  refine {
    memory := hmemory
    aligned := ?_
    pages := hconfines.pages h.pages
    fresh := fun u hu => h.fresh u fun hold => hu (hconfines.spaces u hold)
    heaps := ?_ }
  · cases e with
    | call call => exact h.aligned.step h.memory call
    | load pml4 data => exact h.aligned
    | store pml4 virt value => exact h.aligned
  intro hleft q hq
  have hheaps := h.heaps (hfree hleft)
  -- no event but a memory call makes a heap of other bytes
  have hkept : q ∈ σ.memory.processes →
      (∀ x byte, kOSHeapStart ≤ x → x < q.heapCurrentPointer →
        ¬ (σ.memory.target e = some q.physicalPML4 ∧ e.Brings x byte)) →
      (σ.event (.kernel e)).HeapMapped q :=
    fun hold hbrings => (hheaps q hold).event h.memory hold hallows hbrings
  cases e with
  | load pml4 data =>
    refine hkept hq fun x byte hle hx hcontra => ?_
    obtain ⟨htarget, -⟩ := hcontra
    have hstart := hspares q hq (Option.some.inj htarget).symm
    omega
  | store pml4 virt value =>
    refine hkept hq fun x byte hle hx hcontra => ?_
    obtain ⟨htarget, rfl, -⟩ := hcontra
    rcases hspares q hq (Option.some.inj htarget).symm with hbelow | habove <;> omega
  | call call =>
    cases call with
    | createProcess =>
      by_cases hold : q ∈ σ.memory.processes
      · exact hkept hold fun x byte hle hx hcontra => nomatch hcontra.1
      · obtain ⟨hspace, hstart⟩ := createProcess_fresh hmemory.nodup hq hold
        exact heapMapped_new (h.fresh _ hspace) hstart
    | setupUserStack i =>
      have hsame : (σ.memory.event (.call (.setupUserStack i))).processes = σ.memory.processes := by
        rw [MemorySystem.event, MemorySystem.step]
        split <;> rfl
      have hmem : q ∈ σ.memory.processes := hsame ▸ hq
      refine hkept hmem fun x byte hle hx hcontra => ?_
      obtain ⟨htarget, -⟩ := hcontra
      obtain ⟨r, hr, hpml4⟩ := Option.map_eq_some_iff.mp htarget
      obtain rfl := process_unique h.memory (List.mem_of_getElem? hr) hmem hpml4
      have hstart := hspares r hr
      omega
    | memoryAllocate i size =>
      cases hi : σ.memory.processes[i]? with
      | none =>
        have hsame : σ.memory.event (.call (.memoryAllocate i size)) = σ.memory := by
          rw [MemorySystem.event, MemorySystem.step, hi]
        have heq : σ.event (.kernel (.call (.memoryAllocate i size))) = σ := by
          show ({ σ with memory := σ.memory.event _ } : HeapSystem) = σ
          rw [hsame]
        rw [heq] at hq ⊢
        exact hheaps q hq
      | some r =>
        have hr := List.mem_of_getElem? hi
        rcases h.heapMapped_served hi hallows hmemory hleft (hheaps r hr).layout hq with
          ⟨hold, hother⟩ | hmapped
        · refine hkept hold fun x byte hle hx hcontra => hother ?_
          have htarget := hcontra.1
          rw [MemorySystem.target, hi] at htarget
          exact (Option.some.inj htarget).symm
        · exact hmapped

end HeapSystem

namespace MemorySystem

variable {fixed : Nat → Prop} {σ : MemorySystem} {pml4 start count : Nat} {m : Memory}

/-- A page of the user half is there for the stores of its process. -/
theorem Invariant.storePermitted (h : σ.Invariant fixed) (hpages : UserPages σ.spaces σ.vm)
    (hpml4 : pml4 ∈ σ.spaces) {virt : Nat} (hvirt : virt < 2 ^ 47)
    (hsome : (userByte σ.vm pml4 virt).isSome) : StorePermitted σ.vm pml4 virt := by
  obtain ⟨role, howned⟩ := h.owned
  rw [userByte, Option.isSome_map] at hsome
  obtain ⟨page, hwalk⟩ := Option.isSome_iff_exists.mp hsome
  obtain ⟨huser, hwritable⟩ :=
    hpages.writable howned.consistent hpml4 (lowHalf_of_lt hvirt) hwalk
  exact ⟨by omega, .inl hvirt, huser, hwritable⟩

/-- The stores of a library call into pages that are there. -/
structure Stored (fixed : Nat → Prop) (σ : MemorySystem) (pml4 start count : Nat) (m : Memory)
    (σ' : MemorySystem) : Prop where
  invariant : σ'.Invariant fixed
  pages : UserPages σ'.spaces σ'.vm
  processes_eq : σ'.processes = σ.processes
  panicked_eq : σ'.panicked = σ.panicked
  freeCount_eq : σ'.vm.pmm.freeCount = σ.vm.pmm.freeCount
  userByte_own : (∀ x, start ≤ x → x < start + count →
      x < 2 ^ 47 ∧ (userByte σ.vm pml4 x).isSome) →
    ∀ x, x < 2 ^ 47 → userByte σ'.vm pml4 x =
      if start ≤ x ∧ x < start + count then some (m x) else userByte σ.vm pml4 x
  userByte_other : ∀ u ∈ σ.spaces, u ≠ pml4 → ∀ x, x < 2 ^ 47 →
    userByte σ'.vm u x = userByte σ.vm u x

theorem Invariant.storeAll (m : Memory) (count : Nat) :
    ∀ {σ : MemorySystem} (start : Nat), σ.Invariant fixed → UserPages σ.spaces σ.vm →
      pml4 ∈ σ.spaces → σ.panicked = false →
      Stored fixed σ pml4 start count m (σ.storeAll pml4 start count m) := by
  induction count with
  | zero =>
    intro σ start h hpages _ _
    exact ⟨h, hpages, rfl, rfl, rfl, fun _ x _ => (if_neg (by omega)).symm, fun _ _ _ _ _ => rfl⟩
  | succ count ih =>
    intro σ start h hpages hpml4 hrunning
    obtain ⟨hinv, hconfines⟩ := h.event (e := .store pml4 start (m start)) ⟨hrunning, hpml4⟩
    have hrest := ih (start + 1) hinv (hconfines.pages hpages) hpml4 hrunning
    have hstep : σ.storeAll pml4 start (count + 1) m =
        (σ.event (.store pml4 start (m start))).storeAll pml4 (start + 1) count m := rfl
    have hbyte : ∀ u ∈ σ.spaces, ∀ x, x < 2 ^ 47 →
        userByte (σ.event (.store pml4 start (m start))).vm u x =
          if StorePermitted σ.vm pml4 start ∧ u = pml4 ∧ x = start then some (m start)
          else userByte σ.vm u x :=
      fun u hu x hx => userByte_userStore h.owned hpml4 (m start) hu hx
    rw [hstep]
    exact {
      invariant := hrest.invariant
      pages := hrest.pages
      processes_eq := hrest.processes_eq
      panicked_eq := hrest.panicked_eq
      freeCount_eq := by
        rw [hrest.freeCount_eq, MemorySystem.event, userStore_pmm]
      userByte_own := by
        intro hmapped x hx
        obtain ⟨hlow, hsome⟩ := hmapped start (Nat.le_refl _) (by omega)
        have hpermitted := h.storePermitted hpages hpml4 hlow hsome
        -- the rest of the bytes is mapped as before
        have hmapped' : ∀ x, start + 1 ≤ x → x < start + 1 + count → x < 2 ^ 47 ∧
            (userByte (σ.event (.store pml4 start (m start))).vm pml4 x).isSome := by
          intro x hle hlt
          obtain ⟨hx, hsome⟩ := hmapped x (by omega) (by omega)
          rw [hbyte pml4 hpml4 x hx, if_neg (by omega)]
          exact ⟨hx, hsome⟩
        rw [hrest.userByte_own hmapped' x hx, hbyte pml4 hpml4 x hx]
        by_cases hfirst : x = start
        · subst hfirst
          rw [if_neg (by omega), if_pos ⟨hpermitted, rfl, rfl⟩, if_pos (by omega)]
        · by_cases hinside : start + 1 ≤ x ∧ x < start + 1 + count
          · rw [if_pos hinside, if_pos (by omega)]
          · rw [if_neg hinside, if_neg (fun hcontra => hfirst hcontra.2.2), if_neg (by omega)]
      userByte_other := by
        intro u hu hne x hx
        rw [hrest.userByte_other u hu hne x hx, hbyte u hu x hx, if_neg]
        exact fun hcontra => hne hcontra.2.1 }

end MemorySystem

namespace HeapSystem

variable {fixed : Nat → Prop} {σ σ' : HeapSystem} {p p' : OSProcess} {i : Nat} {a : HeapAction}

/-- A library call: what it returns is what the library computes from the bytes that the process
sees, and the process sees what the library leaves. -/
structure LibraryCall (σ : HeapSystem) (i : Nat) (p : OSProcess) (a : HeapAction) (p' : OSProcess)
    (pointer : Nat) (σ' : HeapSystem) : Prop where
  processes : σ'.memory.processes = σ.memory.processes.set i p'
  physicalPML4_eq : p'.physicalPML4 = p.physicalPML4
  call_eq : MemoryClients.call (σ.userHeap p)
    (σ.memory.granted i (kernelRequest (σ.userHeap p) a)) a = some (pointer, σ'.userHeap p')
  respects : Respects (σ.userHeap p).memory (σ.live p) a pointer (σ'.userHeap p').memory (σ'.live p')
  live_eq : σ'.live p' = a.holdings (σ.live p) pointer
  /-- The other processes do not notice. -/
  others : ∀ q ∈ σ.memory.processes, q ≠ p → σ'.userHeap q = σ.userHeap q ∧ σ'.live q = σ.live q

theorem Invariant.serve (h : Invariant fixed σ) (hrunning : σ.memory.panicked = false) (i : Nat)
    (request : Option Nat) : Invariant fixed ⟨σ.memory.serve i request, σ.heaps⟩ := by
  cases request with
  | none => exact h
  | some size => exact h.kernel (e := .call (.memoryAllocate i size)) hrunning trivial

theorem serve_panicked (σ : MemorySystem) (i : Nat) (request : Option Nat) :
    (σ.serve i request).panicked = σ.panicked := by
  cases request with
  | none => rfl
  | some size => exact (σ.step_memoryAllocate_keeps i size).2

theorem serve_spaces (σ : MemorySystem) (i : Nat) (request : Option Nat) :
    (σ.serve i request).spaces = σ.spaces := by
  cases request with
  | none => rfl
  | some size => exact (σ.step_memoryAllocate_keeps i size).1

/-- The kernel changes the memory of the caller only. -/
theorem Invariant.serve_other (h : Invariant fixed σ) (hrunning : σ.memory.panicked = false)
    (hi : σ.memory.processes[i]? = some p) (request : Option Nat) {u x : Nat}
    (hu : u ∈ σ.memory.spaces) (hne : u ≠ p.physicalPML4) (hx : x < 2 ^ 47) :
    userByte (σ.memory.serve i request).vm u x = userByte σ.memory.vm u x := by
  cases request with
  | none => rfl
  | some size =>
    obtain ⟨-, hconfines⟩ := h.memory.event (e := .call (.memoryAllocate i size)) hrunning
    refine (hconfines.old u hu x hx).resolve_right fun hnew => hne ?_
    have htarget := hnew.1
    rw [MemorySystem.target, hi] at htarget
    exact (Option.some.inj htarget).symm

/-- The stores of a library call. -/
abbrev StoresHeap (fixed : Nat → Prop) (σ : HeapSystem) (i : Nat) (p : OSProcess) (a : HeapAction)
    (pointer : Nat) (heap : UserHeap) : Prop :=
  (σ.afterServe i p a).memory.Stored fixed p.physicalPML4 kOSHeapStart
    (heap.heapCurrentPointer - kOSHeapStart) heap.memory (σ.stored i p a pointer heap).memory

theorem Invariant.storesHeap (h : Invariant fixed (σ.afterServe i p a))
    (hspace : p.physicalPML4 ∈ (σ.afterServe i p a).memory.spaces)
    (hrunning : (σ.afterServe i p a).memory.panicked = false) (pointer : Nat) (heap : UserHeap) :
    StoresHeap fixed σ i p a pointer heap := by
  have hstored := h.memory.storeAll heap.memory (heap.heapCurrentPointer - kOSHeapStart) kOSHeapStart
    h.pages hspace hrunning
  unfold StoresHeap HeapSystem.stored
  dsimp only
  exact hstored

/-- They leave an invariant state, if the heaps are as they should be. -/
theorem Invariant.of_stored (h : Invariant fixed (σ.afterServe i p a)) {pointer : Nat}
    {heap : UserHeap} (hstored : StoresHeap fixed σ i p a pointer heap)
    (hspace : p.physicalPML4 ∈ (σ.afterServe i p a).memory.spaces)
    (hheaps : (σ.afterServe i p a).memory.vm.pmm.freeCount ≠ 0 →
      ∀ q ∈ (σ.afterServe i p a).memory.processes, (σ.stored i p a pointer heap).HeapMapped q) :
    Invariant fixed (σ.stored i p a pointer heap) where
  memory := hstored.invariant
  aligned := by
    intro q hq
    exact h.aligned q (hstored.processes_eq ▸ hq)
  pages := hstored.pages
  fresh := by
    intro u hu
    have hu' : u ∉ (σ.afterServe i p a).memory.spaces := by
      rw [MemorySystem.spaces, hstored.processes_eq] at hu
      exact hu
    have hne : u ≠ p.physicalPML4 := fun heq => hu' (heq ▸ hspace)
    exact (Function.update_of_ne hne _ _).trans (h.fresh u hu')
  heaps := by
    intro hleft q hq
    exact hheaps (hstored.freeCount_eq ▸ hleft) q (hstored.processes_eq ▸ hq)

/-- What the process sees after its stores is what the library has computed. -/
theorem userMemory_stored {memory memory' : MemorySystem} {heap served heap' : UserHeap}
    {pml4 : Nat}
    (hstored : memory.Stored fixed pml4 kOSHeapStart (heap'.heapCurrentPointer - kOSHeapStart)
      heap'.memory memory')
    (hmapped : ∀ x, kOSHeapStart ≤ x → x < heap'.heapCurrentPointer →
      x < 2 ^ 47 ∧ (userByte memory.vm pml4 x).isSome)
    (hserved : served.memory = userMemory memory.vm pml4) (hsame : InHeap heap served)
    (hpointer : heap'.heapCurrentPointer = served.heapCurrentPointer) (hcall : InHeap heap heap')
    (hend : heap'.heapCurrentPointer ≤ 2 ^ 47) :
    userMemory memory'.vm pml4 = heap'.memory := by
  have hbyte := hstored.userByte_own fun x hle hx => hmapped x hle (by omega)
  have houtside : ∀ x, ¬ (kOSHeapStart ≤ x ∧ x < heap'.heapCurrentPointer) →
      heap'.memory x = userMemory memory.vm pml4 x := by
    intro x hx
    rw [← hserved, hsame.2 x (by omega), hcall.2 x (by omega)]
  funext x
  by_cases hx : x < 2 ^ 47
  · rw [userMemory, if_pos hx, hbyte x hx]
    by_cases hinside : kOSHeapStart ≤ x ∧ x < heap'.heapCurrentPointer
    · rw [if_pos (by omega)]
      rfl
    · rw [if_neg (by omega), houtside x hinside, userMemory, if_pos hx]
  · rw [houtside x (by omega), userMemory, userMemory, if_neg hx, if_neg hx]

/-- What the library computes for a permitted call, if the kernel leaves a frame. -/
structure Computed (σ : HeapSystem) (i : Nat) (p : OSProcess) (a : HeapAction) (p' : OSProcess)
    (pointer : Nat) (heap' : UserHeap) : Prop where
  served : Served σ i p (kernelRequest (σ.userHeap p) a) p'
  call_eq : MemoryClients.call (σ.userHeap p)
    (σ.memory.granted i (kernelRequest (σ.userHeap p) a)) a = some (pointer, heap')
  pointer_eq : heap'.heapCurrentPointer = p'.heapCurrentPointer
  inHeap : InHeap (σ.userHeap p) heap'
  layout : ∃ bs, heap'.Layout bs (a.holdings (σ.live p) pointer)
  respects : Respects (σ.userHeap p).memory (σ.live p) a pointer heap'.memory
    (a.holdings (σ.live p) pointer)

theorem Invariant.computed (h : Invariant fixed σ) (hrunning : σ.memory.panicked = false)
    (hi : σ.memory.processes[i]? = some p) (ha : a.Permitted (σ.userHeap p).memory (σ.live p))
    (hround : UserHeap.Roundable (requested a))
    (hleft : (σ.memory.serve i (kernelRequest (σ.userHeap p) a)).vm.pmm.freeCount ≠ 0) :
    ∃ p' pointer heap', Computed σ i p a p' pointer heap' := by
  obtain ⟨p', hserved⟩ := h.served hi hleft hrunning
  have hfree : σ.memory.vm.pmm.freeCount ≠ 0 := by
    cases hrequest : kernelRequest (σ.userHeap p) a with
    | none =>
      rw [hrequest] at hleft
      exact hleft
    | some size =>
      rw [hrequest] at hleft
      have hle := freeCount_event σ.memory (.call (.memoryAllocate i size))
      rw [MemorySystem.serve] at hleft
      rw [MemorySystem.event] at hle
      omega
  obtain ⟨bs, hlayout⟩ := (h.heaps hfree p (List.mem_of_getElem? hi)).layout
  have hlt := heapLimit_lt
  have hlimit := hserved.limit
  have hroom : (σ.userHeap p).heapCurrentPointer +
      σ.memory.granted i (kernelRequest (σ.userHeap p) a) * kVMPageSize < 2 ^ 64 := by
    show p.heapCurrentPointer + _ < 2 ^ 64
    rw [← hserved.advanced]
    omega
  let s : MemoryClients :=
    ⟨σ.userHeap p, σ.live p, σ.memory.granted i (kernelRequest (σ.userHeap p) a)⟩
  have hordered : s.Ordered bs := ⟨hlayout, hroom⟩
  obtain ⟨pointer, heap', hcall, -, hlayout', hrespects⟩ := hordered.callSpec
    (show s.Permitted (a, σ.memory.granted i (kernelRequest (σ.userHeap p) a)) from
      ⟨ha, hround, Nat.le_refl _⟩)
  refine ⟨p', pointer, heap', hserved, hcall, ?_, call_inHeap hlayout ha hround hroom hcall,
    hlayout', hrespects⟩
  rw [call_served hlayout hround hroom hcall, ← hserved.heap_eq]
  rfl

/-- The stores of a library call after which a frame is left. -/
theorem Invariant.call {pointer : Nat} {heap' : UserHeap} (h : Invariant fixed σ)
    (hrunning₀ : σ.memory.panicked = false) (hi : σ.memory.processes[i]? = some p)
    (hinv : Invariant fixed (σ.afterServe i p a))
    (hspace : p.physicalPML4 ∈ (σ.afterServe i p a).memory.spaces)
    (hrunning : (σ.afterServe i p a).memory.panicked = false)
    (hleft : (σ.afterServe i p a).memory.vm.pmm.freeCount ≠ 0)
    (hcomputed : Computed σ i p a p' pointer heap') :
    Invariant fixed (σ.stored i p a pointer heap') ∧
      LibraryCall σ i p a p' pointer (σ.stored i p a pointer heap') := by
  have hserved := hcomputed.served
  have hmem := List.mem_of_getElem? hi
  have hstart : kOSHeapStart ≤ (σ.userHeap p).heapCurrentPointer := (h.aligned p hmem).2
  have hlimit := hserved.limit
  have hlt := heapLimit_lt
  have hstored := hinv.storesHeap hspace hrunning pointer heap'
  have hroom : (σ.userHeap p).heapCurrentPointer +
      σ.memory.granted i (kernelRequest (σ.userHeap p) a) * kVMPageSize < 2 ^ 64 := by
    show p.heapCurrentPointer + _ < 2 ^ 64
    rw [← hserved.advanced]
    omega
  -- the process sees the heap that the library leaves
  have hmemory : userMemory (σ.stored i p a pointer heap').memory.vm p.physicalPML4 = heap'.memory := by
    refine userMemory_stored hstored (fun x hle hx => ?_) ?_
      (served_inHeap (σ.userHeap p) (kernelRequest (σ.userHeap p) a) hroom hstart) ?_
      hcomputed.inHeap ?_
    · rw [hcomputed.pointer_eq] at hx
      have hsome := hserved.mapped x hle hx
      rw [hserved.physicalPML4_eq] at hsome
      exact ⟨by omega, hsome⟩
    · rw [← hserved.heap_eq, userHeap, hserved.physicalPML4_eq]
      rfl
    · rw [hcomputed.pointer_eq, ← hserved.heap_eq]
      rfl
    · rw [hcomputed.pointer_eq]
      omega
  have hheaps : (σ.stored i p a pointer heap').heaps p.physicalPML4 =
      ⟨heap'.listHead, a.holdings (σ.live p) pointer⟩ := Function.update_self ..
  have hheap : (σ.stored i p a pointer heap').userHeap p' = heap' := by
    rw [userHeap, hserved.physicalPML4_eq, hmemory, hheaps, ← hcomputed.pointer_eq]
  have hlive : (σ.stored i p a pointer heap').live p' = a.holdings (σ.live p) pointer := by
    rw [live, hserved.physicalPML4_eq, hheaps]
  have hprocesses : (σ.stored i p a pointer heap').memory.processes = σ.memory.processes.set i p' :=
    hstored.processes_eq.trans hserved.processes
  constructor
  · refine hinv.of_stored hstored hspace fun _ q hq => ?_
    by_cases hsame : q.physicalPML4 = p.physicalPML4
    · -- the process of the call
      have hp' : p' ∈ (σ.afterServe i p a).memory.processes := by
        rw [afterServe, hserved.processes]
        exact List.mem_set (List.getElem?_eq_some_iff.mp hi).1 _
      obtain rfl : q = p' :=
        process_unique hinv.memory hq hp' (hsame.trans hserved.physicalPML4_eq.symm)
      refine ⟨?_, fun x hle hx => ?_⟩
      · rw [hheap, hlive]
        exact hcomputed.layout
      · have hmapped : ∀ x, kOSHeapStart ≤ x →
            x < kOSHeapStart + (heap'.heapCurrentPointer - kOSHeapStart) →
            x < 2 ^ 47 ∧ (userByte (σ.afterServe i p a).memory.vm p.physicalPML4 x).isSome := by
          intro x hle hx
          rw [hcomputed.pointer_eq] at hx
          have hsome := hserved.mapped x hle (by omega)
          rw [hserved.physicalPML4_eq] at hsome
          exact ⟨by omega, hsome⟩
        rw [hserved.physicalPML4_eq, hstored.userByte_own hmapped x (by omega), hcomputed.pointer_eq,
          if_pos (by omega)]
        rfl
    · refine (hinv.heaps hleft q hq).congr (Function.update_of_ne hsame _ _) fun x hle hx => ?_
      have hlimit' := hinv.memory.pointers q hq
      exact hstored.userByte_other _ (List.mem_map_of_mem hq) hsame x (by omega)
  · exact {
      processes := hprocesses
      physicalPML4_eq := hserved.physicalPML4_eq
      call_eq := by
        rw [hheap]
        exact hcomputed.call_eq
      respects := by
        rw [hheap, hlive]
        exact hcomputed.respects
      live_eq := hlive
      others := by
        intro q hq hne
        have hpml4 : q.physicalPML4 ≠ p.physicalPML4 := fun hsame =>
          hne (process_unique h.memory hq hmem hsame)
        have hspace' : q.physicalPML4 ∈ σ.memory.spaces := List.mem_map_of_mem hq
        have hkept : (σ.stored i p a pointer heap').heaps q.physicalPML4 = σ.heaps q.physicalPML4 :=
          Function.update_of_ne hpml4 _ _
        have hbytes : userMemory (σ.stored i p a pointer heap').memory.vm q.physicalPML4 =
            userMemory σ.memory.vm q.physicalPML4 := by
          refine userMemory_congr fun x hx => ?_
          rw [hstored.userByte_other _ (by rwa [afterServe, serve_spaces]) hpml4 x hx]
          exact h.serve_other hrunning₀ hi _ hspace' hpml4 hx
        rw [userHeap, userHeap, live, live, hkept, hbytes]
        exact ⟨rfl, rfl⟩ }

/-- A library call, with and without a frame left. -/
theorem Invariant.library (h : Invariant fixed σ) (hrunning : σ.memory.panicked = false)
    (hi : σ.memory.processes[i]? = some p) (ha : a.Permitted (σ.userHeap p).memory (σ.live p))
    (hround : UserHeap.Roundable (requested a)) :
    Invariant fixed (σ.event (.library i a)) ∧
    ((σ.event (.library i a)).memory.vm.pmm.freeCount ≠ 0 →
      ∃ p' pointer, LibraryCall σ i p a p' pointer (σ.event (.library i a))) := by
  have hmem := List.mem_of_getElem? hi
  have hinv : Invariant fixed (σ.afterServe i p a) := h.serve hrunning i _
  have hrunning' : (σ.afterServe i p a).memory.panicked = false :=
    (serve_panicked ..).trans hrunning
  have hspace : p.physicalPML4 ∈ (σ.afterServe i p a).memory.spaces := by
    rw [afterServe, serve_spaces]
    exact List.mem_map_of_mem hmem
  by_cases hleft : (σ.afterServe i p a).memory.vm.pmm.freeCount = 0
  · -- no frame is left, and the heaps do not matter any more
    cases hcall : MemoryClients.call (σ.userHeap p)
        (σ.memory.granted i (kernelRequest (σ.userHeap p) a)) a with
    | none =>
      have hevent : σ.event (.library i a) = σ.afterServe i p a := by
        simp only [event, hi, hcall]
      rw [hevent]
      exact ⟨hinv, fun hcontra => absurd hleft hcontra⟩
    | some result =>
      obtain ⟨pointer, heap'⟩ := result
      have hstored := hinv.storesHeap hspace hrunning' pointer heap'
      have hevent : σ.event (.library i a) = σ.stored i p a pointer heap' := by
        simp only [event, hi, hcall]
      have hnone := hstored.freeCount_eq.trans hleft
      rw [hevent]
      exact ⟨hinv.of_stored hstored hspace fun hcontra => absurd hleft hcontra,
        fun hcontra => absurd hnone hcontra⟩
  · obtain ⟨p', pointer, heap', hcomputed⟩ := h.computed hrunning hi ha hround hleft
    have hevent : σ.event (.library i a) = σ.stored i p a pointer heap' := by
      simp only [event, hi, hcomputed.call_eq]
    rw [hevent]
    have hcall := h.call hrunning hi hinv hspace hrunning' hleft hcomputed
    exact ⟨hcall.1, fun _ => ⟨p', pointer, hcall.2⟩⟩

/-- One event, whatever it is. -/
theorem Invariant.event (h : Invariant fixed σ) {e : HeapEvent} (hallows : σ.Allows e) :
    Invariant fixed (σ.event e) := by
  cases e with
  | kernel e => exact h.kernel hallows.1 hallows.2
  | library i a =>
    cases hi : σ.memory.processes[i]? with
    | none =>
      have hsame : σ.event (.library i a) = σ := by simp only [HeapSystem.event, hi]
      rw [hsame]
      exact h
    | some p =>
      obtain ⟨hrunning, hpermitted⟩ := hallows
      obtain ⟨ha, hround⟩ := hpermitted p hi
      exact (h.library hrunning hi ha hround).1

theorem invariant_start {m : Machine} (hm : m.Accepted)
    (hmemory : maxPhysicalAddress m.memoryMap ≤ 2 ^ 46) {heap : List Nat} {vm : VMState}
    (hboot : m.bootHeap = some (heap, vm)) : Invariant (KernelFrame m heap) (start vm) where
  memory := bootHeap_invariant hm hmemory hboot
  aligned := fun p hp => absurd hp (by simp [start])
  pages := userPages_bootHeap hm hboot
  fresh := fun _ _ => rfl
  heaps := fun _ p hp => absurd hp (by simp [start])

/-! ## Section 6: Heaps since boot -/

/-- In every state that process creations, program loads, stores and library calls lead to after
boot and that has a free frame, each process has a heap whose blocks and payloads are apart from
one another, and every byte of it is one that the process may store to. A library call that
leaves a frame returns, it does to these bytes what the library computes, and it touches the
heap of no other process. -/
theorem heaps_are_mapped (m : Machine) (hm : m.Accepted)
    (hmemory : maxPhysicalAddress m.memoryMap ≤ 2 ^ 46) {heap : List Nat} {vm : VMState}
    (hboot : m.bootHeap = some (heap, vm)) {events : List HeapEvent} {σ : HeapSystem}
    (hruns : Run Allows event (start vm) events σ) :
    (σ.memory.vm.pmm.freeCount ≠ 0 → ∀ p ∈ σ.memory.processes,
      HeapSafe (· ≤ ·) kMemoryBlockMagic kOSHeapStart p.heapCurrentPointer
        (σ.userHeap p).listHead (σ.userHeap p).memory (σ.live p) ∧
      ∀ x, kOSHeapStart ≤ x → x < p.heapCurrentPointer →
        StorePermitted σ.memory.vm p.physicalPML4 x) ∧
    ∀ i p a, σ.memory.processes[i]? = some p → σ.Allows (.library i a) →
      (σ.event (.library i a)).memory.vm.pmm.freeCount ≠ 0 →
      ∃ p' pointer, LibraryCall σ i p a p' pointer (σ.event (.library i a)) := by
  have hinv : Invariant (KernelFrame m heap) σ :=
    hruns.invariant (fun σ e h hallows => h.event hallows) (invariant_start hm hmemory hboot)
  constructor
  · intro hleft p hp
    obtain ⟨⟨bs, hlayout⟩, hmapped⟩ := hinv.heaps hleft p hp
    refine ⟨hlayout.safe adjacency_le, fun x hle hx => ?_⟩
    have hlimit := hinv.memory.pointers p hp
    have hlt := heapLimit_lt
    exact hinv.memory.storePermitted hinv.pages (List.mem_map_of_mem hp) (by omega)
      (hmapped x hle hx)
  · intro i p a hi hallows
    obtain ⟨ha, hround⟩ := hallows.2 p hi
    exact (hinv.library hallows.1 hi ha hround).2

/-- The stores take no frame. -/
theorem freeCount_storeAll (count : Nat) :
    ∀ (σ : MemorySystem) (pml4 start : Nat) (m : Memory),
      (σ.storeAll pml4 start count m).vm.pmm = σ.vm.pmm := by
  induction count with
  | zero => exact fun _ _ _ _ => rfl
  | succ count ih =>
    intro σ pml4 start m
    exact (ih (σ.event (.store pml4 start (m start))) pml4 (start + 1) m).trans
      (userStore_pmm σ.vm pml4 start (m start))

theorem freeCount_library (hi : σ.memory.processes[i]? = some p) :
    (σ.event (.library i a)).memory.vm.pmm.freeCount =
      (σ.afterServe i p a).memory.vm.pmm.freeCount := by
  simp only [HeapSystem.event, hi]
  split
  · rfl
  · rw [HeapSystem.stored, freeCount_storeAll]

/-- A first page needs at most three tables. -/
theorem freeCount_firstPage {spaces : List Nat} {s : VMState} {pml4 : Nat}
    (h : ∃ role, Consistent spaces role s) (hpml4 : pml4 ∈ spaces) (hframes : 5 ≤ s.pmm.freeCount) :
    (osServiceMemoryAllocate s ⟨pml4, kOSHeapStart⟩ 4096).2.1.pmm.freeCount ≠ 0 := by
  have htables : tablesNeeded s pml4 [kOSHeapStart] ≤ 3 := by
    have hpath : ∀ v ∈ [kOSHeapStart], upperPath v ∈ ({upperPath kOSHeapStart} : Finset _) := by simp
    have hle := tablesNeeded_le s pml4 hpath
    rwa [Finset.card_singleton] at hle
  have hmissing : missing childTable s.entry pml4 (upperPath kOSHeapStart) ≤ 3 := by
    rw [missing_eq_tablesNeeded]
    exact htables
  have hcall : (osServiceMemoryAllocate s ⟨pml4, kOSHeapStart⟩ 4096).2.1 =
      serviceTurn pml4 s kOSHeapStart := by
    have hpages := memoryAllocatePages_succ h ⟨pml4, kOSHeapStart⟩ 0
    rw [if_neg (by omega)] at hpages
    rw [osServiceMemoryAllocate_eq (by decide), show pagesNeeded 4096 = 0 + 1 by decide, hpages]
    rfl
  have houtcome : TurnOutcome spaces s pml4 kOSHeapStart (serviceTurn pml4 s kOSHeapStart) :=
    @serviceTurn_outcome spaces s ⟨pml4, kOSHeapStart⟩ h hpml4 kOSHeapStart
  rw [hcall]
  rcases houtcome.cases with ⟨-, hcount, -⟩ | ⟨hshort, -, -⟩ <;> omega

theorem heaps_are_mapped_allocate : ∃ heap vm u, heapMachine.bootHeap = some (heap, vm) ∧
    let σ := (start vm).event (.kernel (.call .createProcess))
    σ.memory.processes = [⟨u, kOSHeapStart⟩] ∧
    ∃ p' pointer, LibraryCall σ 0 ⟨u, kOSHeapStart⟩ (.allocate 100) p' pointer
      (σ.event (.library 0 (.allocate 100))) := by
  obtain ⟨heap, vm, u, hboot, hprocesses, hcount⟩ := exists_firstSpace
  refine ⟨heap, vm, u, hboot, hprocesses, ?_⟩
  have hruns : Run Allows event (start vm) [.kernel (.call .createProcess)]
      ((start vm).event (.kernel (.call .createProcess))) := .cons ⟨rfl, trivial⟩ (.nil _)
  let σ := (start vm).event (.kernel (.call .createProcess))
  have hi : σ.memory.processes[0]? = some ⟨u, kOSHeapStart⟩ := by
    rw [show σ.memory.processes = [⟨u, kOSHeapStart⟩] from hprocesses]
    rfl
  have hrunning : σ.memory.panicked = false := MemorySystem.step_createProcess_panicked _
  have hallows : σ.Allows (.library 0 (.allocate 100)) :=
    ⟨hrunning, fun p _ => ⟨show 100 + 15 < 2 ^ 64 by decide,
      show UserHeap.Roundable 100 by decide⟩⟩
  refine (heaps_are_mapped heapMachine heapMachine_accepted (by decide) hboot hruns).2 0 _ _ hi
    hallows ?_
  -- the library asks for one page or for none
  have hrequest : ∀ heap, kernelRequest heap (.allocate 100) = none ∨
      kernelRequest heap (.allocate 100) = some 4096 := by
    intro heap
    rw [kernelRequest, allocateRequest, if_neg (by decide),
      show UserHeap.pageAlign (alignSize 100) = 4096 by decide]
    split
    · exact .inl rfl
    · split
      · exact .inl rfl
      · exact .inr rfl
  have hserved : ∀ request, request = none ∨ request = some 4096 →
      (σ.memory.serve 0 request).vm.pmm.freeCount ≠ 0 := by
    rintro request (rfl | rfl)
    · show (MemorySystem.step ⟨vm, [], false⟩ .createProcess).vm.pmm.freeCount ≠ 0
      omega
    · have hinv := ((bootHeap_invariant heapMachine_accepted (by decide) hboot).step .createProcess)
      obtain ⟨role, howned⟩ := hinv.owned
      rw [MemorySystem.serve, MemorySystem.step, hi]
      refine freeCount_firstPage ⟨role, howned.consistent⟩ ?_ ?_
      · rw [MemorySystem.spaces, hprocesses]
        exact List.mem_singleton_self u
      · show 5 ≤ (MemorySystem.step ⟨vm, [], false⟩ .createProcess).vm.pmm.freeCount
        omega
  rw [freeCount_library hi]
  exact hserved _ (hrequest _)

end HeapSystem

end TermOS.OS
