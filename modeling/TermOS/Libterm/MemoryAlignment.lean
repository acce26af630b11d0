import TermOS.Libterm.MemoryCapacity
import TermOS.OS.Scheduler

/-!
# Where payloads begin

The arena of the kernel and the regions of a process begin at pages, and every size is
rounded up to 16 bytes, but a header takes 40. So the first payload of all, behind the
first header of the arena or of a region, is 8 bytes off.

## Main Theorems

* `pointers_aligned_iff` - the pointers that a run of a heap returns are aligned exactly if
  none of its requests is served
-/

namespace TermOS.Kernel

open TermOS.Lib

/-- 64-bit sizes, and pointers that are held or null. -/
def HeapAction.Valid (m : Memory) (live : List (Nat × Nat)) : HeapAction → Prop
  | .allocate size => size < 2 ^ 64
  | .free pointer => pointer = 0 ∨ Held live pointer
  | .resize pointer newSize => (pointer = 0 ∨ Held live pointer) ∧ newSize < 2 ^ 64
  | .write pointer offset _ => Held live pointer ∧ offset < payloadSize m pointer

theorem not_held_nil (p : Nat) : ¬ Held [] p := by simp [Held]

theorem holdings_nil_resize (n : Nat) : HeapAction.holdings [] 0 (.resize 0 n) = [] := by
  simp [HeapAction.holdings, withoutPayload]

end TermOS.Kernel

namespace TermOS.Libterm.UserHeap

def kMemoryAlignment : Nat := 16

end TermOS.Libterm.UserHeap

namespace TermOS.VM.HeapClients

open TermOS.Lib TermOS.Kernel
open TermOS.Libterm.UserHeap (kMemoryAlignment)

variable {s s' : HeapClients} {bs : List Block} {size pointer : Nat} {heap : VMHeap}

/-! ## Section 1: The heap of the kernel -/

/-- A valid call that ends, with the pointer that it returns. -/
def Returns (s : HeapClients) (l : HeapAction × Nat) (s' : HeapClients) : Prop :=
  l.1.Valid s.heap.memory s.live ∧ s.step l.1 = some (l.2, s')

/-- No free block takes the rounded size. -/
def NoRoom (s : HeapClients) (size : Nat) : Prop :=
  size = 0 ∨ ∃ bs, s.heap.Layout bs s.live ∧ firstFit (alignSize size) bs = none

/-- The action asks for no memory, or for more than there is in one piece. -/
def Unserved (s : HeapClients) : HeapAction → Prop
  | .allocate size => s.NoRoom size
  | .resize pointer newSize => pointer = 0 ∧ s.NoRoom newSize
  | .free _ | .write _ _ _ => True

/-- The arena is the block that it was at the start. -/
structure Untouched (s : HeapClients) : Prop where
  live : s.live = []
  layout : s.heap.Layout [VMHeap.wholeArena] s.live

theorem untouched_start (m : Memory) : (start m).Untouched := ⟨rfl, VMHeap.layout_initialize m⟩

/-- An allocation that has room returns the first payload of the arena. -/
theorem Untouched.allocate (h : s.Untouched)
    (hsome : s.heap.vmHeapAllocate size = some (pointer, heap)) :
    (s.NoRoom size ∧ pointer = 0 ∧ heap = s.heap) ∨
      (¬ s.NoRoom size ∧ pointer = kVMKernelHeapStart + sizeofHeader) := by
  by_cases hzero : size = 0
  · rw [hzero, VMHeap.vmHeapAllocate, VMHeap.Layout.allocateInternal_zero] at hsome
    obtain ⟨rfl, rfl⟩ := Prod.mk.inj (Option.some.inj hsome)
    exact .inl ⟨.inl hzero, rfl, rfl⟩
  cases hfit : firstFit (alignSize size) [VMHeap.wholeArena] with
  | none =>
    rw [VMHeap.vmHeapAllocate, h.layout.allocateInternal_none hfit] at hsome
    obtain ⟨rfl, rfl⟩ := Prod.mk.inj (Option.some.inj hsome)
    exact .inl ⟨.inr ⟨_, h.layout, hfit⟩, rfl, rfl⟩
  | some found =>
    obtain ⟨xs, c, ys⟩ := found
    obtain ⟨heap₁, hsome₁, halloc⟩ := h.layout.allocateInternal_some hzero hfit (Nat.le_refl _)
    obtain ⟨rfl, rfl⟩ := Prod.mk.inj (Option.some.inj (hsome₁.symm.trans hsome))
    have hc : c ∈ [VMHeap.wholeArena] := by
      rw [(firstFit_eq_some hfit).1]
      simp
    refine .inr ⟨?_, by rw [List.mem_singleton.mp hc]; rfl⟩
    rintro (hsize | ⟨bs, hlayout, hnone⟩)
    · exact hzero hsize
    · -- with no room null would have been returned
      have hnull := hlayout.allocateInternal_none hnone
      exact halloc.pointer_ne (Prod.mk.inj (Option.some.inj (hsome.symm.trans hnull))).1

/-- The first request that is served returns a pointer that is 8 bytes off. -/
theorem Untouched.next {l : HeapAction × Nat} (h : s.Untouched) (hnext : s.Returns l s') :
    (s.Unserved l.1 ∧ l.2 % kMemoryAlignment = 0 ∧ s'.Untouched) ∨
      (¬ s.Unserved l.1 ∧ l.2 % kMemoryAlignment = 8) := by
  obtain ⟨a, p⟩ := l
  obtain ⟨hvalid, hstep⟩ := hnext
  obtain ⟨⟨pointer, heap⟩, hcall, heq⟩ := Option.map_eq_some_iff.mp hstep
  obtain ⟨rfl, rfl⟩ := Prod.mk.inj heq
  -- Nothing is held yet, so no call can name a payload.
  have hnone : ∀ p, ¬ Held s.live p := by
    rw [h.live]
    exact not_held_nil
  have hwithout : withoutPayload s.live 0 = s.live := by
    rw [h.live]
    rfl
  -- The first payload lies right behind the first header, whose size is 8 off.
  have hmisaligned : (kVMKernelHeapStart + sizeofHeader) % kMemoryAlignment = 8 := by decide
  cases a with
  | allocate size =>
    rcases h.allocate hcall with ⟨hroom, rfl, rfl⟩ | ⟨hroom, rfl⟩
    · exact .inl ⟨hroom, rfl, h⟩
    · exact .inr ⟨hroom, hmisaligned⟩
  | free p =>
    obtain rfl : p = 0 := hvalid.resolve_right (hnone p)
    obtain ⟨rfl, rfl⟩ := Prod.mk.inj (Option.some.inj hcall)
    refine .inl ⟨trivial, rfl, ?_⟩
    have hsame : s.heap.vmHeapFree 0 = s.heap := by
      unfold VMHeap.vmHeapFree freeBlock
      rw [if_pos rfl]
    rw [hsame, HeapAction.holdings, hwithout]
    exact h
  | resize p n =>
    obtain rfl : p = 0 := hvalid.1.resolve_right (hnone p)
    -- `VMHeapResize` of a null pointer is an allocation.
    rw [call, VMHeap.vmHeapResize, if_pos rfl] at hcall
    rcases h.allocate hcall with ⟨hroom, rfl, rfl⟩ | ⟨hroom, rfl⟩
    · refine .inl ⟨⟨rfl, hroom⟩, rfl, ?_⟩
      have hlive : HeapAction.holdings s.live 0 (.resize 0 n) = s.live := by
        rw [h.live]
        exact holdings_nil_resize n
      rw [hlive]
      exact h
    · exact .inr ⟨fun hunserved => hroom hunserved.2, hmisaligned⟩
  | write p offset byte => exact absurd hvalid.1 (hnone p)

theorem returns_unique {l : HeapAction × Nat} {s₁ s₂ : HeapClients} (h : s.Returns l s₁)
    (h' : s.Returns l s₂) : s₁ = s₂ :=
  (Prod.mk.inj (Option.some.inj (h.2.symm.trans h'.2))).2

end TermOS.VM.HeapClients

namespace TermOS.Libterm

open TermOS.Lib TermOS.Kernel TermOS.VM
open TermOS.OS (kOSHeapStart SchedulerState)

namespace UserHeap

variable {heap heap' : UserHeap} {bs : List Block} {live : List (Nat × Nat)} {size pointer : Nat}
  {grants : List Nat}

/-! ## Section 2: The heap of a process -/

/-- The kernel grants the first region that it is asked for, and the region is large enough. -/
def Enough (size : Nat) (grants : List Nat) : Prop :=
  alignSize size + sizeofHeader ≤ pageAlign (alignSize size) ∧
    pageAlign (alignSize size) ≤ grants.headD 0 * kVMPageSize

/-- An allocation that ends returns null exactly if no block fits and the kernel does not
help. -/
theorem Layout.allocate_eq_zero_iff (h : heap.Layout bs live) (hsize : size < 2 ^ 64)
    (hroom : heap.heapCurrentPointer + grants.sum * kVMPageSize < 2 ^ 64)
    (hsome : memoryAllocate size grants heap = some (pointer, heap')) :
    pointer = 0 ↔ size = 0 ∨ firstFit (alignSize size) bs = none ∧ ¬ Enough size grants := by
  by_cases hne : size = 0
  · rw [memoryAllocate.eq_def, if_pos hne] at hsome
    exact iff_of_true (Prod.mk.inj (Option.some.inj hsome)).1.symm (.inl hne)
  rw [or_iff_right hne]
  cases hfit : firstFit (alignSize size) bs with
  | some found =>
    obtain ⟨heap₁, hsome₁, -, halloc⟩ := h.allocate_carve hne hfit (Nat.le_refl _) grants
    obtain ⟨rfl, rfl⟩ := Prod.mk.inj (Option.some.inj (hsome₁.symm.trans hsome))
    exact iff_of_false halloc.pointer_ne (fun hnone => absurd hnone.1 (by simp))
  | none =>
    rw [and_iff_right rfl]
    by_cases henough : Enough size grants
    · refine iff_of_false ?_ (not_not_intro henough)
      cases grants with
      | nil =>
        obtain ⟨hlarge, hgranted⟩ := henough
        unfold sizeofHeader at hlarge
        rw [List.headD_nil, Nat.zero_mul] at hgranted
        omega
      | cons granted grants =>
        rw [List.sum_cons, Nat.add_mul] at hroom
        obtain ⟨hlarge, hgranted⟩ := henough
        rw [List.headD_cons] at hgranted
        obtain ⟨heap₁, hsome₁, -, halloc⟩ :=
          h.allocate_region hne hfit (Nat.le_refl _) hlarge hgranted (by omega) grants
        obtain ⟨rfl, rfl⟩ := Prod.mk.inj (Option.some.inj (hsome₁.symm.trans hsome))
        exact halloc.pointer_ne
    · refine iff_of_true ?_ henough
      by_cases hwraps : HeaderWraps size
      · -- no payload is that large
        obtain ⟨-, regions, -, ⟨hnull, -⟩ | ⟨-, -, bs', -, halloc⟩⟩ :=
          h.allocate_any hroom (Nat.le_refl _) hsome
        · exact hnull
        · obtain ⟨b, hb, -, -, hn⟩ := halloc.layout.held _ _ List.mem_cons_self
          have hstop := (halloc.layout.arena adjacency_le).stop_le hb
          unfold Block.stop at hstop
          have hlt := halloc.layout.stop_lt
          have hwide := hwraps.2
          omega
      · cases grants with
        | nil =>
          rw [memoryAllocate.eq_def, if_neg hne, h.head,
            findBlock_none h.linked (h.arena adjacency_le) h.turns hfit] at hsome
          cases hsome
        | cons granted grants =>
          have hshort : pageAlign (alignSize size) = 0 ∨
              granted * kVMPageSize < pageAlign (alignSize size) := by
            refine (pageAlign_large hwraps hsize).imp_right fun hlarge => ?_
            exact Nat.lt_of_not_le fun hgranted => henough ⟨hlarge, hgranted⟩
          rw [h.allocate_refused hne hfit hshort] at hsome
          exact (Prod.mk.inj (Option.some.inj hsome)).1.symm

end UserHeap

namespace MemoryClients

open UserHeap (kMemoryAlignment)

variable {s s' : MemoryClients} {bs : List Block} {size pointer : Nat} {grants : List Nat}
  {heap : UserHeap}

/-- A valid call that ends, with the pointer that it returns. -/
def Returns (s : MemoryClients) (l : (HeapAction × List Nat) × Nat) (s' : MemoryClients) : Prop :=
  (l.1.1.Valid s.heap.memory s.live ∧ l.1.2.sum ≤ s.frames) ∧ s.stepGranted l.1 = some (l.2, s')

/-- No free block takes the rounded size, and the kernel does not give a region that does. -/
def NoRoom (s : MemoryClients) (size : Nat) (grants : List Nat) : Prop :=
  size = 0 ∨ (∃ bs, s.heap.Layout bs s.live ∧ firstFit (alignSize size) bs = none) ∧
    ¬ UserHeap.Enough size grants

/-- The action asks for no memory, or for more than there is and the kernel gives. -/
def Unserved (s : MemoryClients) : HeapAction × List Nat → Prop
  | (.allocate size, grants) => s.NoRoom size grants
  | (.resize pointer newSize, grants) => pointer = 0 ∧ s.NoRoom newSize grants
  | (.free _, _) | (.write _ _ _, _) => True

/-- Nothing is held, and the blocks that requests without success have left begin at pages. -/
structure Untouched (s : MemoryClients) (bs : List Block) : Prop where
  live : s.live = []
  ordered : s.Ordered bs
  pages : ∀ b ∈ bs, b.address % kVMPageSize = 0
  pointer : s.heap.heapCurrentPointer % kVMPageSize = 0

theorem untouched_start (m : Memory) {frames : Nat}
    (hframes : kOSHeapStart + frames * kVMPageSize < 2 ^ 64) : (start m frames).Untouched [] where
  live := rfl
  ordered := ordered_start m hframes
  pages := by simp
  pointer := show kOSHeapStart % kVMPageSize = 0 by decide

/-- An allocation that is served returns a payload behind a header at a page. -/
theorem Untouched.allocate (h : s.Untouched bs) (hsize : size < 2 ^ 64) (hgrants : grants.sum ≤ s.frames)
    (hsome : UserHeap.memoryAllocate size grants s.heap = some (pointer, heap)) :
    (s.NoRoom size grants ∧ pointer = 0 ∧ ∃ bs', Untouched ⟨heap, s.live,
        s.frames - (heap.heapCurrentPointer - s.heap.heapCurrentPointer) / kVMPageSize⟩ bs') ∨
      (¬ s.NoRoom size grants ∧ pointer % kMemoryAlignment = 8) := by
  have hroom : s.heap.heapCurrentPointer + grants.sum * kVMPageSize < 2 ^ 64 :=
    Nat.lt_of_le_of_lt (Nat.add_le_add_left (Nat.mul_le_mul_right _ hgrants) _) h.ordered.room
  have hzero := h.ordered.layout.allocate_eq_zero_iff hsize hroom hsome
  obtain ⟨⟨granted, hgranted, hpointer⟩, regions, hregions, hcases⟩ :=
    h.ordered.layout.allocate_any hroom (Nat.le_refl _) hsome
  have hpages : ∀ b ∈ bs ++ regions, b.address % kVMPageSize = 0 := by
    intro b hb
    rcases List.mem_append.mp hb with hb | hb
    · exact h.pages b hb
    · obtain ⟨pages, heq⟩ := hregions b hb
      rw [heq, Nat.add_mul_mod_self_right]
      exact h.pointer
  rcases hcases with ⟨rfl, hlayout⟩ | ⟨c, hc, bs', rfl, halloc⟩
  · left
    refine ⟨(hzero.mp rfl).imp_right ?_, rfl, bs ++ regions, h.live, ⟨hlayout, ?_⟩, hpages, ?_⟩
    · rintro ⟨hnone, henough⟩
      exact ⟨⟨bs, h.ordered.layout, hnone⟩, henough⟩
    · exact h.ordered.room_advanced (Nat.le_trans hgranted hgrants) hpointer
    · show heap.heapCurrentPointer % kVMPageSize = 0
      rw [hpointer, Nat.add_mul_mod_self_right]
      exact h.pointer
  · right
    constructor
    · rintro (hsize | ⟨⟨bs₁, hlayout, hnone⟩, henough⟩)
      · exact halloc.pointer_ne (hzero.mpr (.inl hsize))
      · -- whatever list the blocks are in, null would have been returned
        have hzero₁ := UserHeap.Layout.allocate_eq_zero_iff hlayout hsize hroom hsome
        exact halloc.pointer_ne (hzero₁.mpr (.inr ⟨hnone, henough⟩))
    · have hpage := hpages c hc
      unfold kVMPageSize at hpage
      unfold sizeofHeader kMemoryAlignment
      omega

/-- The first request that is served returns a pointer that is 8 bytes off. -/
theorem Untouched.next {l : (HeapAction × List Nat) × Nat} (h : s.Untouched bs)
    (hnext : s.Returns l s') :
    (s.Unserved l.1 ∧ l.2 % kMemoryAlignment = 0 ∧ ∃ bs', s'.Untouched bs') ∨
      (¬ s.Unserved l.1 ∧ l.2 % kMemoryAlignment = 8) := by
  obtain ⟨⟨a, grants⟩, p⟩ := l
  obtain ⟨⟨hvalid, hgrants⟩, hstep⟩ := hnext
  obtain ⟨⟨pointer, heap⟩, hcall, heq⟩ := Option.map_eq_some_iff.mp hstep
  obtain ⟨rfl, rfl⟩ := Prod.mk.inj heq
  have hnone : ∀ p, ¬ Held s.live p := by
    rw [h.live]
    exact not_held_nil
  have hwithout : withoutPayload s.live 0 = s.live := by
    rw [h.live]
    rfl
  cases a with
  | allocate size =>
    rcases h.allocate hvalid hgrants hcall with ⟨hroom, rfl, huntouched⟩ | ⟨hroom, hpointer⟩
    · exact .inl ⟨hroom, rfl, huntouched⟩
    · exact .inr ⟨hroom, hpointer⟩
  | free p =>
    obtain rfl : p = 0 := hvalid.resolve_right (hnone p)
    obtain ⟨rfl, rfl⟩ := Prod.mk.inj (Option.some.inj hcall)
    refine .inl ⟨trivial, rfl, bs, ?_⟩
    have hsame : s.heap.memoryFree 0 = s.heap := by
      unfold UserHeap.memoryFree freeBlock
      rw [if_pos rfl]
    rw [hsame, HeapAction.holdings, hwithout, Nat.sub_self, Nat.zero_div, Nat.sub_zero]
    exact h
  | resize p n =>
    obtain rfl : p = 0 := hvalid.1.resolve_right (hnone p)
    rw [callGranted, UserHeap.memoryReallocate, if_pos rfl] at hcall
    rcases h.allocate hvalid.2 hgrants hcall with ⟨hroom, rfl, huntouched⟩ | ⟨hroom, hpointer⟩
    · refine .inl ⟨⟨rfl, hroom⟩, rfl, ?_⟩
      have hlive : HeapAction.holdings s.live 0 (.resize 0 n) = s.live := by
        rw [h.live]
        exact holdings_nil_resize n
      rw [hlive]
      exact huntouched
    · exact .inr ⟨fun hunserved => hroom hunserved.2, hpointer⟩
  | write p offset byte => exact absurd hvalid.1 (hnone p)

theorem returns_unique {l : (HeapAction × List Nat) × Nat} {s₁ s₂ : MemoryClients}
    (h : s.Returns l s₁) (h' : s.Returns l s₂) : s₁ = s₂ :=
  (Prod.mk.inj (Option.some.inj (h.2.symm.trans h'.2))).2

/-! ## Section 3: Whole runs -/

/-- The pointers that a run of the kernel's heap or of the heap of a process returns are all
aligned exactly if none of its requests is served, and a kernel stack ends at an aligned
address exactly if it begins at one. -/
theorem pointers_aligned_iff {m m' : Memory} {frames : Nat} {calls : List (HeapAction × Nat)}
    {calls' : List ((HeapAction × List Nat) × Nat)} {k : HeapClients}
    (hframes : kOSHeapStart + frames * kVMPageSize < 2 ^ 64)
    (hkernel : Trace HeapClients.Returns (HeapClients.start m) calls k)
    (hprocess : Trace Returns (start m' frames) calls' s) :
    ((∀ l ∈ calls, l.2 % kMemoryAlignment = 0) ↔
        Trace (fun s l s' => HeapClients.Returns s l s' ∧ s.Unserved l.1) (HeapClients.start m)
          calls k) ∧
      ((∀ l ∈ calls', l.2 % kMemoryAlignment = 0) ↔
        Trace (fun s l s' => Returns s l s' ∧ s.Unserved l.1) (start m' frames) calls' s) ∧
      ∀ (scheduler : SchedulerState) (task stackBaseAddress entry owner : Nat) (isUser : Bool)
        (fixedUserStackPointer : Nat),
        ((scheduler.linkTask task stackBaseAddress entry owner isUser
            fixedUserStackPointer).task task).kernelStackTop % kMemoryAlignment = 0 ↔
          stackBaseAddress % kMemoryAlignment = 0 := by
  refine ⟨?_, ?_, ?_⟩
  -- For both heaps: unserved requests keep the heap untouched, and the first served one is off.
  · refine hkernel.forall_iff (HeapClients.untouched_start m)
      (fun _ _ _ _ => HeapClients.returns_unique) ?_ ?_
    · intro s l s' h hnext hunserved
      rcases h.next hnext with ⟨-, hkept⟩ | ⟨hserved, -⟩
      · exact hkept
      · exact absurd hunserved hserved
    · intro s l s' h hnext haligned
      rcases h.next hnext with ⟨hunserved, -⟩ | ⟨-, hoff⟩
      · exact hunserved
      · rw [haligned] at hoff
        cases hoff
  · refine hprocess.forall_iff (I := fun s => ∃ bs, s.Untouched bs)
      ⟨[], untouched_start m' hframes⟩ (fun _ _ _ _ => returns_unique) ?_ ?_
    · rintro s l s' ⟨bs, h⟩ hnext hunserved
      rcases h.next hnext with ⟨-, hkept⟩ | ⟨hserved, -⟩
      · exact hkept
      · exact absurd hunserved hserved
    · rintro s l s' ⟨bs, h⟩ hnext haligned
      rcases h.next hnext with ⟨hunserved, -⟩ | ⟨-, hoff⟩
      · exact hunserved
      · rw [haligned] at hoff
        cases hoff
  · intro scheduler task stackBaseAddress entry owner isUser fixedUserStackPointer
    -- The stack ends `stackSize` above its base, which changes nothing modulo the alignment.
    have htop : ((scheduler.linkTask task stackBaseAddress entry owner isUser
        fixedUserStackPointer).task task).kernelStackTop = stackBaseAddress + OS.stackSize := by
      unfold SchedulerState.linkTask
      by_cases hcurrent : task = scheduler.currentTask
      · subst hcurrent
        simp [SchedulerState.spawnedTask]
      · dsimp only
        rw [SchedulerState.setTask_ne _ _ hcurrent, SchedulerState.setTask_same]
        rfl
    rw [htop]
    unfold OS.stackSize kMemoryAlignment
    omega

/-- The kernel's heap is used for three blocks, and a process asks for a page too many and
then for a little. -/
def exampleCalls : List (HeapAction × Nat) :=
  [(.allocate 0x400000, 0), (.allocate OS.sizeofTask, 0xFFFFFFFFC0000028),
    (.allocate OS.sizeofTask, 0xFFFFFFFFC0000090), (.allocate OS.stackSize, 0xFFFFFFFFC00000F8)]

def exampleProcessCalls : List ((HeapAction × List Nat) × Nat) :=
  [((.allocate 5000, [1]), 0), ((.resize 0 100, [1]), 0x40001028)]

instance (m : Memory) (live : List (Nat × Nat)) : (a : HeapAction) → Decidable (a.Valid m live)
  | .allocate size => inferInstanceAs (Decidable (size < 2 ^ 64))
  | .free pointer => inferInstanceAs (Decidable (pointer = 0 ∨ Held live pointer))
  | .resize pointer newSize =>
    inferInstanceAs (Decidable ((pointer = 0 ∨ Held live pointer) ∧ newSize < 2 ^ 64))
  | .write pointer offset _ =>
    inferInstanceAs (Decidable (Held live pointer ∧ offset < payloadSize m pointer))

theorem exists_exampleCalls :
    (∃ k, Trace HeapClients.Returns (HeapClients.start fun _ => 0) exampleCalls k) ∧
      ∃ s, Trace Returns (start (fun _ => 0) 2) exampleProcessCalls s := by
  have hkernel : (Trace.perform (Trace.labelledStep
      (fun s (a : HeapAction) => a.Valid s.heap.memory s.live) HeapClients.step)
      (HeapClients.start fun _ => 0) exampleCalls).any (fun _ => true) = true := by
    decide +kernel
  have hprocess : (Trace.perform (Trace.labelledStep
      (fun s (a : HeapAction × List Nat) => a.1.Valid s.heap.memory s.live ∧ a.2.sum ≤ s.frames)
      stepGranted) (start (fun _ => 0) 2) exampleProcessCalls).any (fun _ => true) = true := by
    decide +kernel
  obtain ⟨k, hk, -⟩ := Trace.exists_of_perform Trace.next_of_labelledStep hkernel
  obtain ⟨s, hs, -⟩ := Trace.exists_of_perform Trace.next_of_labelledStep hprocess
  exact ⟨⟨k, hk⟩, ⟨s, hs⟩⟩

theorem pointers_aligned_iff_example : ∃ k s,
    Trace HeapClients.Returns (HeapClients.start fun _ => 0) exampleCalls k ∧
      Trace Returns (start (fun _ => 0) 2) exampleProcessCalls s ∧
      ¬ Trace (fun s l s' => HeapClients.Returns s l s' ∧ s.Unserved l.1)
        (HeapClients.start fun _ => 0) exampleCalls k := by
  obtain ⟨⟨k, hk⟩, s, hs⟩ := exists_exampleCalls
  refine ⟨k, s, hk, hs, ?_⟩
  rw [← (pointers_aligned_iff (by decide) hk hs).1]
  decide

/-- The three blocks are those of the scheduler's first task and of the first one that it
spawns: the stack of that one ends 8 bytes off. -/
theorem not_pointers_aligned :
    (∃ k, Trace HeapClients.Returns (HeapClients.start fun _ => 0) exampleCalls k) ∧
      (∃ s, Trace Returns (start (fun _ => 0) 2) exampleProcessCalls s) ∧
      ¬ (∀ l ∈ exampleCalls, l.2 % kMemoryAlignment = 0) ∧
      ¬ (∀ l ∈ exampleProcessCalls, l.2 % kMemoryAlignment = 0) ∧
      (0xFFFFFFFFC00000F8 + OS.stackSize) % kMemoryAlignment ≠ 0 :=
  ⟨exists_exampleCalls.1, exists_exampleCalls.2, by decide, by decide, by decide⟩

end MemoryClients

end TermOS.Libterm
