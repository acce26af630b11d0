import TermOS.Kernel.HeapClients
import TermOS.VM.Heap

/-!
# Runs of the kernel heap

The kernel heap with its clients, from `VMHeapInitialize` on.

## Main Theorems

* `heap_safe` - after every run the headers tile the arena, what is held is apart from
  everything else, and no operation changes what it should leave alone
-/

namespace TermOS.VM

open TermOS.Lib TermOS.Kernel

/-- The heap, and what its clients hold: the pointer and the size they asked for. -/
structure HeapClients where
  heap : VMHeap
  live : List (Nat × Nat)

namespace HeapClients

/-! ## Section 1: Actions -/

/-- What the call of an action returns, and the heap after it. -/
def call (heap : VMHeap) : HeapAction → Option (Nat × VMHeap)
  | .allocate size => heap.vmHeapAllocate size
  | .free pointer => some (0, heap.vmHeapFree pointer)
  | .resize pointer newSize => heap.vmHeapResize pointer newSize
  | .write pointer offset byte =>
    some (0, { heap with memory := heap.memory.setByte (pointer + offset) byte })

/-- What is returned, and the state after the action. -/
def step (s : HeapClients) (a : HeapAction) : Option (Nat × HeapClients) :=
  (call s.heap a).map fun (pointer, heap) => (pointer, ⟨heap, a.holdings s.live pointer⟩)

abbrev Permitted (s : HeapClients) (a : HeapAction) : Prop := a.Permitted s.heap.memory s.live

/-- A permitted action that ends. -/
def Next (s : HeapClients) (a : HeapAction) (s' : HeapClients) : Prop :=
  s.Permitted a ∧ ∃ pointer, s.step a = some (pointer, s')

/-- After `VMHeapInitialize`. -/
def start (m : Memory) : HeapClients := ⟨vmHeapInitialize m, []⟩

/-- The clients of the kernel heap rely on an arena without gaps. -/
abbrev Safe (s : HeapClients) : Prop :=
  HeapSafe (· = ·) kVMHeapBlockHeaderMagic kVMKernelHeapStart (kVMKernelHeapStart + heapArenaSize)
    s.heap.listHead s.heap.memory s.live

/-- The invariant of the runs. -/
def Ordered (s : HeapClients) : Prop := ∃ bs, s.heap.Layout bs s.live

variable {s s' : HeapClients} {bs : List Block} {p n : Nat}

/-! ## Section 2: One action -/

theorem call_allocate (h : s.heap.Layout bs s.live) {size : Nat} (hsize : size + 15 < 2 ^ 64) :
    ∃ pointer heap, call s.heap (.allocate size) = some (pointer, heap) ∧
      (∃ bs', heap.Layout bs' (HeapAction.holdings s.live pointer (.allocate size))) ∧
      Respects s.heap.memory s.live (.allocate size) pointer heap.memory
        (HeapAction.holdings s.live pointer (.allocate size)) := by
  rcases h.allocateInternal hsize with hnone | ⟨pointer, heap, bs', hsome, halloc⟩
  · exact ⟨0, s.heap, hnone, ⟨bs, h⟩, ⟨fun _ _ _ _ _ _ => rfl, by simp, by simp⟩⟩
  · have hlive : HeapAction.holdings s.live pointer (.allocate size) = (pointer, size) :: s.live :=
      if_neg halloc.pointer_ne
    refine ⟨pointer, heap, hsome, ?_⟩
    rw [hlive]
    exact ⟨⟨bs', halloc.layout⟩, h.respects_allocated adjacency_eq halloc⟩

theorem call_free (h : s.heap.Layout bs s.live) (hp : Held s.live p) :
    (∃ bs', (s.heap.vmHeapFree p).Layout bs' (withoutPayload s.live p)) ∧
      Respects s.heap.memory s.live (.free p) 0 (s.heap.vmHeapFree p).memory
        (withoutPayload s.live p) :=
  HeapLayout.free_held adjacency_eq h hp

theorem call_resize (h : s.heap.Layout bs s.live) (hp : Held s.live p) (hsize : n + 15 < 2 ^ 64) :
    ∃ pointer heap, call s.heap (.resize p n) = some (pointer, heap) ∧
      (∃ bs', heap.Layout bs' (HeapAction.holdings s.live pointer (.resize p n))) ∧
      Respects s.heap.memory s.live (.resize p n) pointer heap.memory
        (HeapAction.holdings s.live pointer (.resize p n)) := by
  obtain ⟨c, hc, hused, rfl, hpayload⟩ := h.exists_block_of_held adjacency_eq hp
  have hne : c.address + sizeofHeader ≠ 0 := by
    unfold sizeofHeader
    omega
  unfold HeapAction.holdings
  by_cases hn : n = 0
  · -- a free
    subst hn
    obtain ⟨hordered, hrespects⟩ := call_free h hp
    refine ⟨0, s.heap.vmHeapFree (c.address + sizeofHeader), ?_, ?_, ?_⟩
    · rw [call, VMHeap.vmHeapResize, if_neg hne, if_pos rfl]
    · simpa using hordered
    · simpa using hrespects.resize_zero
  · rcases h.resize hc hused hn hsize with hnone | ⟨pointer, heap, bs', hsome, hresized⟩
    · refine ⟨0, s.heap, hnone, ⟨bs, ?_⟩, ⟨fun _ _ _ _ _ _ => rfl, by simp, ?_⟩⟩
      · simpa [hn] using h
      · intro _ _ _ _ _
        exact ⟨by simp [hn], rfl, fun _ _ => rfl⟩
    · have hlive : (if n = 0 then withoutPayload s.live (c.address + sizeofHeader)
          else if pointer = 0 then s.live
          else (pointer, n) :: withoutPayload s.live (c.address + sizeofHeader)) =
            (pointer, n) :: withoutPayload s.live (c.address + sizeofHeader) := by
        rw [if_neg hn, if_neg hresized.pointer_ne]
      refine ⟨pointer, heap, hsome, ?_⟩
      dsimp only
      rw [hlive]
      exact ⟨⟨bs', hresized.layout⟩, h.respects_resized adjacency_eq hc hresized⟩

/-- Every permitted action ends, keeps the order, and leaves alone what it should. -/
theorem Ordered.act {a : HeapAction} (h : s.Ordered) (ha : s.Permitted a) :
    ∃ pointer s', s.step a = some (pointer, s') ∧ s'.Ordered ∧
      Respects s.heap.memory s.live a pointer s'.heap.memory s'.live := by
  obtain ⟨bs, h⟩ := h
  have hcall : ∃ pointer heap, call s.heap a = some (pointer, heap) ∧
      (∃ bs', heap.Layout bs' (a.holdings s.live pointer)) ∧
      Respects s.heap.memory s.live a pointer heap.memory (a.holdings s.live pointer) := by
    cases a with
    | allocate size => exact call_allocate h ha
    | free p => exact ⟨0, _, rfl, call_free h ha⟩
    | resize p n => exact call_resize h ha.1 ha.2
    | write p offset byte =>
      obtain ⟨hlayout, hrespects⟩ := HeapLayout.write_held adjacency_eq h ha.1 ha.2 byte
      exact ⟨0, { s.heap with memory := s.heap.memory.setByte (p + offset) byte }, rfl,
        ⟨bs, hlayout⟩, hrespects⟩
  obtain ⟨pointer, heap, hsome, hordered, hrespects⟩ := hcall
  refine ⟨pointer, ⟨heap, a.holdings s.live pointer⟩, ?_, hordered, hrespects⟩
  rw [step, hsome]
  rfl

/-! ## Section 3: Whole runs -/

theorem ordered_start (m : Memory) : (start m).Ordered :=
  ⟨[VMHeap.wholeArena], VMHeap.layout_initialize m⟩

theorem Ordered.next {a : HeapAction} (h : s.Ordered) (hnext : s.Next a s') : s'.Ordered := by
  obtain ⟨hpermitted, pointer, hstep⟩ := hnext
  obtain ⟨pointer₁, s₁, hstep₁, hordered, -⟩ := h.act hpermitted
  have hsame : some (pointer₁, s₁) = some (pointer, s') := by rw [← hstep₁, hstep]
  cases hsame
  exact hordered

/-- In every state that a run reaches the heap is safe, and every permitted action ends
and leaves alone what it should. -/
theorem heap_safe {m : Memory} {actions : List HeapAction} {s : HeapClients}
    (hrun : Trace Next (start m) actions s) :
    s.Safe ∧ ∀ a, s.Permitted a → ∃ pointer s', s.step a = some (pointer, s') ∧
      Respects s.heap.memory s.live a pointer s'.heap.memory s'.live := by
  have hordered : s.Ordered := hrun.invariant (fun _ _ _ h hnext => h.next hnext) (ordered_start m)
  constructor
  · obtain ⟨bs, h⟩ := hordered
    exact h.safe adjacency_eq
  · intro a ha
    obtain ⟨pointer, s', hstep, -, hrespects⟩ := hordered.act ha
    exact ⟨pointer, s', hstep, hrespects⟩

/-- Two payloads, of which the first is filled a little and then outgrows its place; the
hole it leaves is used again. -/
def exampleHeapRun : List HeapAction :=
  [.allocate 100, .allocate 40, .write 0xFFFFFFFFC0000028 99 7, .resize 0xFFFFFFFFC0000028 200,
    .allocate 16, .free 0xFFFFFFFFC00000C0]

theorem heap_safe_moved : ∃ s, Trace Next (start fun _ => 0) exampleHeapRun s ∧
    s.live = [(0xFFFFFFFFC0000028, 16), (0xFFFFFFFFC0000118, 200)] ∧ s.Safe := by
  have hrun : (Trace.perform (Trace.permittedStep Permitted step) (start fun _ => 0) exampleHeapRun).any
      (fun s => s.live = [(0xFFFFFFFFC0000028, 16), (0xFFFFFFFFC0000118, 200)]) = true := by
    decide +kernel
  obtain ⟨s, htrace, hlive⟩ := Trace.exists_of_perform Trace.next_of_permittedStep hrun
  exact ⟨s, htrace, of_decide_eq_true hlive, (heap_safe htrace).1⟩

end HeapClients

end TermOS.VM
