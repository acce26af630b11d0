import TermOS.Kernel.HeapClients
import TermOS.Libterm.Memory
import TermOS.Lib.Run

/-!
# Runs of the heap of a process

The heap of a process with its clients, while the kernel has frames for it or not.

## Main Theorems

* `memory_safe` - after every run the blocks are in order, what is held is apart from
  everything else, and no call changes what it should leave alone
-/

namespace TermOS.Libterm

open TermOS.Lib TermOS.Kernel TermOS.VM
open TermOS.OS (kOSHeapStart)

/-- The heap, what its clients hold, and how many frames the kernel can still give the
process. -/
structure MemoryClients where
  heap : UserHeap
  live : List (Nat × Nat)
  frames : Nat

/-- The size that is asked for. -/
def requested : HeapAction → Nat
  | .allocate size => size
  | .resize _ newSize => newSize
  | .free _ | .write _ _ _ => 0

namespace MemoryClients

/-! ## Section 1: Actions -/

/-- What the call of an action returns when the kernel has `granted` frames for it, and
the heap after it. -/
def call (heap : UserHeap) (granted : Nat) : HeapAction → Option (Nat × UserHeap)
  | .allocate size => UserHeap.memoryAllocate size [granted] heap
  | .free pointer => some (0, heap.memoryFree pointer)
  | .resize pointer newSize => heap.memoryReallocate pointer newSize [granted]
  | .write pointer offset byte =>
    some (0, { heap with memory := heap.memory.setByte (pointer + offset) byte })

/-- What is returned, and the state after the action. The frames behind the pages by which
the heap pointer has advanced are gone, whether the process knows of them or not. -/
def step (s : MemoryClients) (a : HeapAction × Nat) : Option (Nat × MemoryClients) :=
  (call s.heap a.2 a.1).map fun (pointer, heap) =>
    (pointer, {
      heap
      live := a.1.holdings s.live pointer
      frames := s.frames - (heap.heapCurrentPointer - s.heap.heapCurrentPointer) / kVMPageSize })

/-- Sizes that can be rounded up, pointers that are held, and no more frames than there are. -/
def Permitted (s : MemoryClients) (a : HeapAction × Nat) : Prop :=
  a.1.Permitted s.heap.memory s.live ∧ UserHeap.Roundable (requested a.1) ∧ a.2 ≤ s.frames

instance (s : MemoryClients) (a : HeapAction × Nat) : Decidable (s.Permitted a) :=
  inferInstanceAs (Decidable (_ ∧ _ ∧ _))

/-- A permitted action that ends. -/
def Next (s : MemoryClients) (a : HeapAction × Nat) (s' : MemoryClients) : Prop :=
  s.Permitted a ∧ ∃ pointer, s.step a = some (pointer, s')

/-- A process that has not allocated anything. -/
def start (m : Memory) (frames : Nat) : MemoryClients := ⟨⟨m, 0, kOSHeapStart⟩, [], frames⟩

/-- The clients rely on blocks in order, with gaps or not, below the heap pointer. -/
abbrev Safe (s : MemoryClients) : Prop :=
  HeapSafe (· ≤ ·) kMemoryBlockMagic kOSHeapStart s.heap.heapCurrentPointer
    s.heap.listHead s.heap.memory s.live

/-- The invariant of the runs: the heap pointer cannot wrap with the frames that are left. -/
structure Ordered (s : MemoryClients) (bs : List Block) : Prop where
  layout : s.heap.Layout bs s.live
  room : s.heap.heapCurrentPointer + s.frames * kVMPageSize < 2 ^ 64

variable {s s' : MemoryClients} {bs : List Block} {p n granted : Nat}

/-! ## Section 2: One action -/

/-- What the proof of each call provides. -/
def CallSpec (s : MemoryClients) (a : HeapAction) (granted : Nat) : Prop :=
  ∃ pointer heap, call s.heap granted a = some (pointer, heap) ∧
    s.heap.Advanced granted heap ∧ (∃ bs', heap.Layout bs' (a.holdings s.live pointer)) ∧
    Respects s.heap.memory s.live a pointer heap.memory (a.holdings s.live pointer)

theorem callSpec_allocate (h : s.heap.Layout bs s.live) {size : Nat}
    (hround : UserHeap.Roundable size)
    (hroom : s.heap.heapCurrentPointer + granted * kVMPageSize < 2 ^ 64) :
    CallSpec s (.allocate size) granted := by
  obtain ⟨pointer, heap, hsome, hadvanced, hcases⟩ := h.allocate hround hroom
  refine ⟨pointer, heap, hsome, hadvanced, ?_⟩
  rcases hcases with ⟨rfl, hlayout, hkept⟩ | ⟨bs', halloc⟩
  · refine ⟨⟨bs, hlayout⟩, ⟨?_, by simp, by simp⟩⟩
    intro p hp _ _
    exact HeapLayout.others_of_kept adjacency_le h hp fun b hb hused _ => hkept b hb hused
  · have hlive : HeapAction.holdings s.live pointer (.allocate size) = (pointer, size) :: s.live :=
      if_neg halloc.pointer_ne
    rw [hlive]
    exact ⟨⟨bs', halloc.layout⟩, HeapLayout.respects_allocated adjacency_le h halloc⟩

theorem call_free (h : s.heap.Layout bs s.live) (hp : Held s.live p) :
    (∃ bs', (s.heap.memoryFree p).Layout bs' (withoutPayload s.live p)) ∧
      Respects s.heap.memory s.live (.free p) 0 (s.heap.memoryFree p).memory
        (withoutPayload s.live p) :=
  HeapLayout.free_held adjacency_le h hp

theorem callSpec_resize (h : s.heap.Layout bs s.live) (hp : Held s.live p)
    (hround : UserHeap.Roundable n)
    (hroom : s.heap.heapCurrentPointer + granted * kVMPageSize < 2 ^ 64) :
    CallSpec s (.resize p n) granted := by
  obtain ⟨c, hc, hused, rfl, hpayload⟩ := HeapLayout.exists_block_of_held adjacency_le h hp
  have hne : c.address + sizeofHeader ≠ 0 := by
    unfold sizeofHeader
    omega
  unfold CallSpec HeapAction.holdings
  by_cases hn : n = 0
  · -- a free
    subst hn
    obtain ⟨hordered, hrespects⟩ := call_free h hp
    refine ⟨0, s.heap.memoryFree (c.address + sizeofHeader), ?_, UserHeap.Advanced.rfl, ?_, ?_⟩
    · rw [call, UserHeap.memoryReallocate, if_neg hne, if_pos rfl]
    · simpa using hordered
    · simpa using hrespects.resize_zero
  · obtain ⟨pointer, heap, hsome, hadvanced, hcases⟩ := h.reallocate hc hused hn hround hroom
    refine ⟨pointer, heap, hsome, hadvanced, ?_⟩
    dsimp only
    rw [if_neg hn]
    rcases hcases with ⟨rfl, hlayout, hkept⟩ | ⟨bs', hresized⟩
    · -- nothing is found, though the kernel may have mapped pages
      have hothers : ∀ q, Held s.live q → ∀ i < payloadSize s.heap.memory q,
          heap.memory (q + i) = s.heap.memory (q + i) := fun q hq =>
        HeapLayout.others_of_kept adjacency_le h hq fun b hb hbused _ => hkept b hb hbused
      rw [if_pos rfl]
      refine ⟨⟨bs, hlayout⟩, ⟨fun q hq _ _ => hothers q hq, by simp, ?_⟩⟩
      intro q k heq _ _
      cases heq
      refine ⟨rfl, ?_, hothers _ hp⟩
      rw [HeapLayout.payloadSize_eq adjacency_le hlayout hc, hpayload]
    · rw [if_neg hresized.pointer_ne]
      exact ⟨⟨bs', hresized.layout⟩, HeapLayout.respects_resized adjacency_le h hc hresized⟩

theorem Ordered.callSpec (h : s.Ordered bs) {a : HeapAction × Nat} (ha : s.Permitted a) :
    CallSpec s a.1 a.2 := by
  obtain ⟨a, granted⟩ := a
  obtain ⟨hpermitted, hround, hgranted⟩ := ha
  have hroom : s.heap.heapCurrentPointer + granted * kVMPageSize < 2 ^ 64 :=
    Nat.lt_of_le_of_lt (Nat.add_le_add_left (Nat.mul_le_mul_right _ hgranted) _) h.room
  cases a with
  | allocate size => exact callSpec_allocate h.layout hround hroom
  | free p => exact ⟨0, _, rfl, UserHeap.Advanced.rfl, call_free h.layout hpermitted⟩
  | resize p n => exact callSpec_resize h.layout hpermitted.1 hround hroom
  | write p offset byte =>
    obtain ⟨hlayout, hrespects⟩ :=
      HeapLayout.write_held adjacency_le h.layout hpermitted.1 hpermitted.2 byte
    exact ⟨0, { s.heap with memory := s.heap.memory.setByte (p + offset) byte }, rfl,
      UserHeap.Advanced.rfl, ⟨bs, hlayout⟩, hrespects⟩

/-- The frames of the new pages are gone. -/
theorem Ordered.room_advanced (h : s.Ordered bs) {pages pointer : Nat} (hpages : pages ≤ s.frames)
    (hpointer : pointer = s.heap.heapCurrentPointer + pages * kVMPageSize) :
    pointer + (s.frames - (pointer - s.heap.heapCurrentPointer) / kVMPageSize) * kVMPageSize <
      2 ^ 64 := by
  have hroom := h.room
  have hpos : 0 < kVMPageSize := by decide
  have hle : pages * kVMPageSize ≤ s.frames * kVMPageSize := Nat.mul_le_mul_right _ hpages
  rw [hpointer, Nat.add_sub_cancel_left, Nat.mul_div_cancel _ hpos, Nat.sub_mul]
  omega

/-- Every permitted action ends, keeps the order, and leaves alone what it should. -/
theorem Ordered.act (h : s.Ordered bs) {a : HeapAction × Nat} (ha : s.Permitted a) :
    ∃ pointer s', s.step a = some (pointer, s') ∧ (∃ bs', s'.Ordered bs') ∧
      Respects s.heap.memory s.live a.1 pointer s'.heap.memory s'.live := by
  obtain ⟨pointer, heap, hsome, ⟨pages, hpages, hpointer⟩, ⟨bs', hlayout⟩, hrespects⟩ :=
    h.callSpec ha
  have hgranted : a.2 ≤ s.frames := ha.2.2
  refine ⟨pointer, ⟨heap, a.1.holdings s.live pointer,
    s.frames - (heap.heapCurrentPointer - s.heap.heapCurrentPointer) / kVMPageSize⟩, ?_,
    ⟨bs', hlayout, ?_⟩, hrespects⟩
  · rw [step, hsome]
    rfl
  · exact h.room_advanced (Nat.le_trans hpages hgranted) hpointer

/-! ## Section 3: Whole runs -/

theorem ordered_start (m : Memory) {frames : Nat}
    (hframes : kOSHeapStart + frames * kVMPageSize < 2 ^ 64) : (start m frames).Ordered [] where
  layout := {
    head := rfl
    linked := trivial
    laid := Nat.le_refl _
    start_ge := by decide
    stop_lt := Nat.lt_of_le_of_lt (Nat.le_add_right _ _) hframes
    held := by simp [start]
    nodup := by simp [start] }
  room := hframes

theorem Ordered.next {a : HeapAction × Nat} (h : s.Ordered bs) (hnext : s.Next a s') :
    ∃ bs', s'.Ordered bs' := by
  obtain ⟨hpermitted, pointer, hstep⟩ := hnext
  obtain ⟨pointer₁, s₁, hstep₁, hordered, -⟩ := h.act hpermitted
  have hsame : some (pointer₁, s₁) = some (pointer, s') := by rw [← hstep₁, hstep]
  cases hsame
  exact hordered

/-- In every state that a run reaches the heap is safe, and every permitted action ends
and leaves alone what it should. The frames that there are lie in the address space. -/
theorem memory_safe {m : Memory} {frames : Nat}
    (hframes : kOSHeapStart + frames * kVMPageSize < 2 ^ 64) {actions : List (HeapAction × Nat)}
    {s : MemoryClients} (hrun : Trace Next (start m frames) actions s) :
    s.Safe ∧ ∀ a, s.Permitted a → ∃ pointer s', s.step a = some (pointer, s') ∧
      Respects s.heap.memory s.live a.1 pointer s'.heap.memory s'.live := by
  have hkeep : ∀ (s : MemoryClients) a s', (∃ bs, s.Ordered bs) → s.Next a s' →
      ∃ bs', s'.Ordered bs' := by
    rintro s a s' ⟨bs, h⟩ hnext
    exact h.next hnext
  obtain ⟨bs, hordered⟩ := hrun.invariant hkeep ⟨[], ordered_start m hframes⟩
  constructor
  · exact HeapLayout.safe adjacency_le hordered.layout
  · intro a ha
    obtain ⟨pointer, s', hstep, -, hrespects⟩ := hordered.act ha
    exact ⟨pointer, s', hstep, hrespects⟩

/-- Two payloads, then a request for which the kernel has one frame of two, and a resize
into a region behind the gap. -/
def exampleMemoryRun : List (HeapAction × Nat) :=
  [(.allocate 100, 1), (.allocate 40, 0), (.write 0x40000028 99 7, 0), (.allocate 5000, 1),
    (.resize 0x40000028 5000, 2), (.free 0x400000c0, 0)]

theorem memory_safe_gap : ∃ s, Trace Next (start (fun _ => 0) 10) exampleMemoryRun s ∧
    s.live = [(0x40002028, 5000)] ∧ s.frames = 6 ∧ s.Safe := by
  have hrun : (Trace.perform (Trace.permittedStep Permitted step) (start (fun _ => 0) 10)
      exampleMemoryRun).any (fun s => s.live = [(0x40002028, 5000)] ∧ s.frames = 6) = true := by
    decide +kernel
  obtain ⟨s, htrace, hlast⟩ := Trace.exists_of_perform Trace.next_of_permittedStep hrun
  obtain ⟨hlive, hframes⟩ := of_decide_eq_true hlast
  exact ⟨s, htrace, hlive, hframes, (memory_safe (by decide) htrace).1⟩

end MemoryClients

end TermOS.Libterm
