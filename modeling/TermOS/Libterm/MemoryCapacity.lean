import TermOS.Libterm.MemoryGrowth
import TermOS.Libterm.MemoryRun
import TermOS.VM.HeapRun

/-!
# What an allocation returns for a size

Both heaps round a size up to 16 bytes, and the sum may wrap: for the 15 largest sizes
the rounded size is zero, and any free block is large enough for that. The heap of a
process gets here in runs in which sizes are not limited otherwise, and in which the
kernel may be asked any number of times.

## Main Theorems

* `allocate_capacity_iff` - what both allocations return is as large as was asked for,
  exactly if the size can be rounded up or there is nothing to return
-/

namespace TermOS.Kernel.HeapLayout

open TermOS.Lib

variable {r : Nat → Nat → Prop} {magic start stop listHead : Nat} {m : Memory} {bs xs ys : List Block}
  {c : Block} {live : List (Nat × Nat)} {p n : Nat}

/-- The last payload is as large as was asked for. -/
theorem le_payloadSize (hr : Adjacency r)
    (h : HeapLayout r magic start stop listHead m bs ((p, n) :: live)) : n ≤ payloadSize m p := by
  obtain ⟨b, -, -, -, hn, hsize⟩ := h.exists_block hr List.mem_cons_self
  rw [hsize]
  exact hn

/-- A block that is taken for nothing holds hardly anything. -/
theorem payloadSize_carve (hr : Adjacency r)
    (h : HeapLayout r magic start stop listHead m (xs ++ (carve sizeofHeader 16 0 c ++ ys)) live) :
    payloadSize m (c.address + sizeofHeader) ≤ sizeofHeader + 16 := by
  obtain ⟨taken, rest, heq, htaken⟩ := exists_cons_carve sizeofHeader 16 0 c
  rw [heq] at h
  have hmem : (⟨c.address, taken, false⟩ : Block) ∈
      xs ++ (⟨c.address, taken, false⟩ :: rest ++ ys) := by simp
  have hsize := h.payloadSize_eq hr hmem
  dsimp only at hsize
  rw [hsize]
  omega

end TermOS.Kernel.HeapLayout

namespace TermOS.VM.VMHeap

open TermOS.Lib TermOS.Kernel

variable {heap : VMHeap} {bs : List Block} {live : List (Nat × Nat)} {size : Nat}

/-! ## Section 1: The heap of the kernel -/

/-- What `VMHeapAllocate` returns for the size is as large. -/
def Capacious (heap : VMHeap) (size : Nat) : Prop :=
  ∀ pointer heap', heap.vmHeapAllocate size = some (pointer, heap') → pointer ≠ 0 →
    size ≤ payloadSize heap'.memory pointer

theorem Layout.capacious_iff (h : heap.Layout bs live) (hsize : size < 2 ^ 64) :
    heap.Capacious size ↔ size + 15 < 2 ^ 64 ∨ ∀ b ∈ bs, b.isFree = false := by
  unfold Capacious vmHeapAllocate
  by_cases hround : size + 15 < 2 ^ 64
  · refine iff_of_true ?_ (.inl hround)
    intro pointer heap' hsome hpointer
    rcases h.allocateInternal hround with hnone | ⟨pointer', heap₁, bs', hsome', halloc⟩
    · rw [hnone] at hsome
      exact absurd (Prod.mk.inj (Option.some.inj hsome)).1.symm hpointer
    · rw [hsome'] at hsome
      obtain ⟨rfl, rfl⟩ := Prod.mk.inj (Option.some.inj hsome)
      exact halloc.layout.le_payloadSize adjacency_eq
  · -- the size is rounded to nothing
    have hzero := Libterm.UserHeap.alignSize_of_wraps (Nat.le_of_not_lt hround) hsize
    have hne : size ≠ 0 := by omega
    rw [or_iff_right hround, ← firstFit_zero_eq_none]
    cases hfit : firstFit 0 bs with
    | none =>
      refine iff_of_true ?_ rfl
      intro pointer heap' hsome hpointer
      rw [h.allocateInternal_none (hzero ▸ hfit)] at hsome
      exact absurd (Prod.mk.inj (Option.some.inj hsome)).1.symm hpointer
    | some found =>
      obtain ⟨xs, c, ys⟩ := found
      refine iff_of_false ?_ nofun
      intro hcapacious
      obtain ⟨heap', hsome, halloc⟩ :=
        h.allocateInternal_some hne (hzero ▸ hfit) (Nat.zero_le _)
      have hlarge := hcapacious _ heap' hsome halloc.pointer_ne
      have hlayout := halloc.layout
      rw [hzero] at hlayout
      have hsmall := hlayout.payloadSize_carve adjacency_eq
      unfold sizeofHeader at hsmall hlarge
      omega

end TermOS.VM.VMHeap

namespace TermOS.Libterm

open TermOS.Lib TermOS.Kernel TermOS.VM
open TermOS.OS (kOSHeapStart)

namespace UserHeap

variable {heap heap' : UserHeap} {bs : List Block} {live : List (Nat × Nat)} {c : Block}
  {size newSize granted pointer n : Nat} {grants : List Nat}

/-! ## Section 2: Calls that ask the kernel any number of times -/

theorem Advanced.trans {heap₁ : UserHeap} {granted₁ granted₂ : Nat} (h : heap.Advanced granted₁ heap₁)
    (h' : heap₁.Advanced granted₂ heap') : heap.Advanced (granted₁ + granted₂) heap' := by
  obtain ⟨pages, hle, heq⟩ := h
  obtain ⟨pages', hle', heq'⟩ := h'
  refine ⟨pages + pages', Nat.add_le_add hle hle', ?_⟩
  rw [heq', heq, Nat.add_mul, Nat.add_assoc]

/-- The allocation finds a block, and asks for nothing. -/
theorem Layout.allocate_found (h : heap.Layout bs live) (hne : size ≠ 0)
    {found : List Block × Block × List Block} (hfit : firstFit (alignSize size) bs = some found)
    (hn : n ≤ alignSize size) (hsome : memoryAllocate size grants heap = some (pointer, heap')) :
    heap.Advanced grants.sum heap' ∧ ∃ regions : List Block,
      (∀ b ∈ regions, ∃ pages, b.address = heap.heapCurrentPointer + pages * kVMPageSize) ∧
      ((pointer = 0 ∧ heap'.Layout (bs ++ regions) live) ∨
        ∃ c ∈ bs ++ regions, ∃ bs', pointer = c.address + sizeofHeader ∧
          heap.Allocated bs live n pointer heap' bs') := by
  obtain ⟨xs, c, ys⟩ := found
  obtain ⟨heap₁, hsome₁, hpointer, halloc⟩ := h.allocate_carve hne hfit hn grants
  obtain ⟨rfl, rfl⟩ := Prod.mk.inj (Option.some.inj (hsome₁.symm.trans hsome))
  have hc : c ∈ bs := by
    rw [(firstFit_eq_some hfit).1]
    simp
  refine ⟨⟨0, Nat.zero_le _, by simp [hpointer]⟩, [], by simp, .inr ⟨c, ?_, _, rfl, halloc⟩⟩
  rw [List.append_nil]
  exact hc

/-- An allocation of any size that ends keeps the layout, and what it returns is as large
as the rounded size. The regions that it has appended begin at pages behind the old heap
pointer. -/
theorem Layout.allocate_any (h : heap.Layout bs live)
    (hroom : heap.heapCurrentPointer + grants.sum * kVMPageSize < 2 ^ 64) (hn : n ≤ alignSize size)
    (hsome : memoryAllocate size grants heap = some (pointer, heap')) :
    heap.Advanced grants.sum heap' ∧ ∃ regions : List Block,
      (∀ b ∈ regions, ∃ pages, b.address = heap.heapCurrentPointer + pages * kVMPageSize) ∧
      ((pointer = 0 ∧ heap'.Layout (bs ++ regions) live) ∨
        ∃ c ∈ bs ++ regions, ∃ bs', pointer = c.address + sizeofHeader ∧
          heap.Allocated bs live n pointer heap' bs') := by
  by_cases hne : size = 0
  · rw [memoryAllocate.eq_def, if_pos hne] at hsome
    obtain ⟨rfl, rfl⟩ := Prod.mk.inj (Option.some.inj hsome)
    refine ⟨⟨0, Nat.zero_le _, by simp⟩, [], by simp, .inl ⟨rfl, ?_⟩⟩
    rw [List.append_nil]
    exact h
  induction grants generalizing heap bs with
  | nil =>
    cases hfit : firstFit (alignSize size) bs with
    | none =>
      rw [memoryAllocate.eq_def, if_neg hne, h.head,
        findBlock_none h.linked (h.arena adjacency_le) h.turns hfit] at hsome
      cases hsome
    | some found => exact h.allocate_found hne hfit hn hsome
  | cons granted grants ih =>
    cases hfit : firstFit (alignSize size) bs with
    | some found => exact h.allocate_found hne hfit hn hsome
    | none =>
      rw [List.sum_cons, Nat.add_mul] at hroom
      by_cases hshort : pageAlign (alignSize size) = 0 ∨
          granted * kVMPageSize < pageAlign (alignSize size)
      · -- the call is refused, and what was granted is in nobody's list
        rw [h.allocate_refused hne hfit hshort] at hsome
        obtain ⟨rfl, rfl⟩ := Prod.mk.inj (Option.some.inj hsome)
        obtain ⟨hgrown, -, pages, hpages, heq⟩ :=
          h.grow (pageAlign (alignSize size))
            (show heap.heapCurrentPointer + granted * kVMPageSize < 2 ^ 64 by omega)
        refine ⟨⟨pages, ?_, heq⟩, [], by simp, .inl ⟨rfl, ?_⟩⟩
        · rw [List.sum_cons]
          omega
        · rw [List.append_nil]
          exact hgrown
      · rw [not_or, Nat.not_lt] at hshort
        obtain ⟨hpages, hgranted⟩ := hshort
        have hpage := (pageAlign_pages hpages).1
        have hlarge : sizeofHeader ≤ pageAlign (alignSize size) := by
          unfold kMemoryPageSize at hpage
          unfold sizeofHeader
          omega
        rw [h.allocate_again hne hfit hpages hgranted (by omega)] at hsome
        obtain ⟨hlayout, hkept, hpointer⟩ := h.append_region hlarge (by omega)
        obtain ⟨hadvanced, regions, hregions, hcases⟩ := ih hlayout (by omega) hsome
        have hwhole := pageAlign_div_mul (alignSize size)
        have hregion : heap.Advanced granted (heap.regionBy bs (pageAlign (alignSize size))) := by
          refine ⟨pageAlign (alignSize size) / kVMPageSize, Nat.div_le_of_le_mul ?_, ?_⟩
          · rw [Nat.mul_comm]
            exact hgranted
          · rw [hpointer, hwhole]
        rw [List.append_assoc] at hcases
        refine ⟨hregion.trans hadvanced, heap.regionBlock (pageAlign (alignSize size)) :: regions,
          ?_, hcases.imp_right ?_⟩
        · intro b hb
          rcases List.mem_cons.mp hb with rfl | hb
          · exact ⟨0, by simp [regionBlock]⟩
          · obtain ⟨pages, heq⟩ := hregions b hb
            refine ⟨pageAlign (alignSize size) / kVMPageSize + pages, ?_⟩
            rw [heq, hpointer, Nat.add_mul, hwhole, Nat.add_assoc]
        · rintro ⟨c, hc, bs', hp, halloc⟩
          exact ⟨c, hc, bs', hp, halloc.of_grown hkept⟩

/-- A resize of a payload in use to a nonzero size that can be rounded up. -/
theorem Layout.reallocate_any (h : heap.Layout bs live) (hc : c ∈ bs) (hused : c.isFree = false)
    (hnew : newSize ≠ 0) (hsize : newSize + 15 < 2 ^ 64)
    (hroom : heap.heapCurrentPointer + grants.sum * kVMPageSize < 2 ^ 64)
    (hsome : heap.memoryReallocate (c.address + sizeofHeader) newSize grants =
      some (pointer, heap')) :
    heap.Advanced grants.sum heap' ∧
      ((pointer = 0 ∧ ∃ bs', heap'.Layout bs' live) ∨
        ∃ bs', heap.Resized bs live c newSize pointer heap' bs') := by
  have harena := h.arena adjacency_le
  have hpointer : c.address + sizeofHeader ≠ 0 := by
    unfold sizeofHeader
    omega
  unfold memoryReallocate at hsome
  rw [if_neg hpointer, if_neg hnew, headerOf_payload harena hc] at hsome
  cases hplace : resizeInPlace heap.memory c.address newSize with
  | some memory =>
    rw [hplace] at hsome
    obtain ⟨rfl, rfl⟩ := Prod.mk.inj (Option.some.inj hsome)
    obtain ⟨bs', hresized⟩ := HeapLayout.resizedInPlace adjacency_le h hc hused hplace
    exact ⟨⟨0, Nat.zero_le _, by simp⟩, .inr ⟨bs', hresized⟩⟩
  | none =>
    have hsmall := h.lt_of_resizeInPlace hc hplace
    rw [hplace] at hsome
    obtain ⟨⟨pointer₁, heap₁⟩, hsome₁, heq⟩ := Option.map_eq_some_iff.mp hsome
    obtain ⟨hadvanced, regions, -, hcases⟩ := h.allocate_any hroom (le_alignSize hsize) hsome₁
    dsimp only at heq
    rcases hcases with ⟨rfl, hlayout⟩ | ⟨-, -, bs₁, -, halloc⟩
    · rw [if_pos rfl] at heq
      obtain ⟨rfl, rfl⟩ := Prod.mk.inj heq
      exact ⟨hadvanced, .inl ⟨rfl, _, hlayout⟩⟩
    · rw [if_neg halloc.pointer_ne] at heq
      obtain ⟨rfl, rfl⟩ := Prod.mk.inj heq
      exact ⟨hadvanced, .inr (HeapLayout.move_allocated adjacency_le hc hused hsmall halloc)⟩

/-! ## Section 3: The heap of a process -/

/-- What `MemoryAllocate` returns for the size is as large. -/
def Capacious (heap : UserHeap) (size : Nat) (grants : List Nat) : Prop :=
  ∀ pointer heap', memoryAllocate size grants heap = some (pointer, heap') → pointer ≠ 0 →
    size ≤ payloadSize heap'.memory pointer

theorem Layout.capacious_iff (h : heap.Layout bs live) (hsize : size < 2 ^ 64)
    (hroom : heap.heapCurrentPointer + (granted :: grants).sum * kVMPageSize < 2 ^ 64) :
    heap.Capacious size (granted :: grants) ↔
      size + 15 < 2 ^ 64 ∨ (∀ b ∈ bs, b.isFree = false) ∧ granted = 0 := by
  by_cases hround : size + 15 < 2 ^ 64
  · refine iff_of_true ?_ (.inl hround)
    intro pointer heap' hsome hpointer
    obtain ⟨-, -, -, ⟨rfl, -⟩ | ⟨-, -, bs', -, halloc⟩⟩ :=
      h.allocate_any hroom (le_alignSize hround) hsome
    · exact absurd rfl hpointer
    · exact halloc.layout.le_payloadSize adjacency_le
  -- the size is rounded to nothing
  have hzero := alignSize_of_wraps (Nat.le_of_not_lt hround) hsize
  have hne : size ≠ 0 := by omega
  have hpage : pageAlign (alignSize size) = kMemoryPageSize := by
    rw [hzero]
    decide
  rw [or_iff_right hround, ← firstFit_zero_eq_none]
  have hsmall : ∀ {xs ys : List Block} {c : Block} {heap' : UserHeap},
      heap'.Layout (xs ++ (carve sizeofHeader 16 (alignSize size) c ++ ys))
        ((c.address + sizeofHeader, 0) :: live) →
      ¬ size ≤ payloadSize heap'.memory (c.address + sizeofHeader) := by
    intro xs ys c heap' hlayout hlarge
    rw [hzero] at hlayout
    have hsmall := HeapLayout.payloadSize_carve adjacency_le hlayout
    unfold sizeofHeader at hsmall hlarge
    omega
  cases hfit : firstFit 0 bs with
  | some found =>
    obtain ⟨xs, c, ys⟩ := found
    refine iff_of_false ?_ (fun hnone => nomatch hnone.1)
    intro hcapacious
    obtain ⟨heap', hsome, -, halloc⟩ :=
      h.allocate_carve hne (hzero ▸ hfit) (Nat.zero_le _) (granted :: grants)
    exact hsmall halloc.layout (hcapacious _ heap' hsome halloc.pointer_ne)
  | none =>
    rw [and_iff_right rfl]
    by_cases hgranted : granted = 0
    · -- the kernel has nothing
      refine iff_of_true ?_ hgranted
      intro pointer heap' hsome hpointer
      have hshort : granted * kVMPageSize < pageAlign (alignSize size) := by
        rw [hgranted, hpage]
        decide
      rw [h.allocate_refused hne (hzero ▸ hfit) (.inr hshort)] at hsome
      exact absurd (Prod.mk.inj (Option.some.inj hsome)).1.symm hpointer
    · refine iff_of_false ?_ hgranted
      intro hcapacious
      rw [List.sum_cons, Nat.add_mul] at hroom
      have henough : pageAlign (alignSize size) ≤ granted * kVMPageSize := by
        rw [hpage]
        exact Nat.le_mul_of_pos_left _ (Nat.pos_of_ne_zero hgranted)
      have hlarge : alignSize size + sizeofHeader ≤ pageAlign (alignSize size) := by
        rw [hpage, hzero]
        decide
      obtain ⟨heap', hsome, -, halloc⟩ := h.allocate_region hne (hzero ▸ hfit) (Nat.zero_le _)
        hlarge henough (by omega) grants
      have hlayout := halloc.layout
      rw [← List.append_nil (carve _ _ _ _)] at hlayout
      exact hsmall hlayout (hcapacious _ heap' hsome halloc.pointer_ne)

end UserHeap

namespace MemoryClients

/-! ## Section 4: Whole runs -/

/-- What the call of an action returns when the kernel grants one number of frames after
the other, and the heap after it. -/
def callGranted (heap : UserHeap) (grants : List Nat) : HeapAction → Option (Nat × UserHeap)
  | .allocate size => UserHeap.memoryAllocate size grants heap
  | .free pointer => some (0, heap.memoryFree pointer)
  | .resize pointer newSize => heap.memoryReallocate pointer newSize grants
  | .write pointer offset byte =>
    some (0, { heap with memory := heap.memory.setByte (pointer + offset) byte })

/-- What is returned, and the state after the action. -/
def stepGranted (s : MemoryClients) (a : HeapAction × List Nat) : Option (Nat × MemoryClients) :=
  (callGranted s.heap a.2 a.1).map fun (pointer, heap) =>
    (pointer, {
      heap
      live := a.1.holdings s.live pointer
      frames := s.frames - (heap.heapCurrentPointer - s.heap.heapCurrentPointer) / kVMPageSize })

/-- Pointers that are held, and no more frames than there are. The sizes may be too large
for the header. -/
def PermittedGranted (s : MemoryClients) (a : HeapAction × List Nat) : Prop :=
  a.1.Permitted s.heap.memory s.live ∧ a.2.sum ≤ s.frames

instance (s : MemoryClients) (a : HeapAction × List Nat) : Decidable (s.PermittedGranted a) :=
  inferInstanceAs (Decidable (_ ∧ _))

/-- A permitted action that ends. -/
def NextGranted (s : MemoryClients) (a : HeapAction × List Nat) (s' : MemoryClients) : Prop :=
  s.PermittedGranted a ∧ ∃ pointer, s.stepGranted a = some (pointer, s')

variable {s s' : MemoryClients} {bs : List Block} {pointer : Nat} {grants : List Nat}

/-- A call that ends keeps the layout. -/
theorem Ordered.callGranted (h : s.Ordered bs) {a : HeapAction × List Nat} (ha : s.PermittedGranted a)
    {heap : UserHeap} (hcall : callGranted s.heap a.2 a.1 = some (pointer, heap)) :
    s.heap.Advanced a.2.sum heap ∧ ∃ bs', heap.Layout bs' (a.1.holdings s.live pointer) := by
  obtain ⟨a, grants⟩ := a
  obtain ⟨hpermitted, hgrants⟩ := ha
  have hroom : s.heap.heapCurrentPointer + grants.sum * kVMPageSize < 2 ^ 64 :=
    Nat.lt_of_le_of_lt (Nat.add_le_add_left (Nat.mul_le_mul_right _ hgrants) _) h.room
  cases a with
  | allocate size =>
    obtain ⟨hadvanced, regions, -, hcases⟩ :=
      h.layout.allocate_any hroom (le_alignSize hpermitted) hcall
    refine ⟨hadvanced, ?_⟩
    rcases hcases with ⟨rfl, hlayout⟩ | ⟨-, -, bs', -, halloc⟩
    · exact ⟨_, hlayout⟩
    · rw [HeapAction.holdings, if_neg halloc.pointer_ne]
      exact ⟨bs', halloc.layout⟩
  | free p =>
    obtain ⟨rfl, rfl⟩ := Prod.mk.inj (Option.some.inj hcall)
    exact ⟨⟨0, Nat.zero_le _, by simp [UserHeap.memoryFree]⟩, (call_free h.layout hpermitted).1⟩
  | resize p n =>
    obtain ⟨hp, hsize⟩ := hpermitted
    obtain ⟨c, hc, hused, rfl, -⟩ := h.layout.exists_block_of_held adjacency_le hp
    have hne : c.address + sizeofHeader ≠ 0 := by
      unfold sizeofHeader
      omega
    unfold HeapAction.holdings
    by_cases hn : n = 0
    · -- a free
      rw [MemoryClients.callGranted, UserHeap.memoryReallocate, if_neg hne, if_pos hn] at hcall
      obtain ⟨rfl, rfl⟩ := Prod.mk.inj (Option.some.inj hcall)
      simp only [if_pos hn]
      exact ⟨⟨0, Nat.zero_le _, by simp [UserHeap.memoryFree]⟩, (call_free h.layout hp).1⟩
    · simp only [if_neg hn]
      obtain ⟨hadvanced, hcases⟩ := h.layout.reallocate_any hc hused hn hsize hroom hcall
      refine ⟨hadvanced, ?_⟩
      rcases hcases with ⟨rfl, hlayout⟩ | ⟨bs', hresized⟩
      · exact hlayout
      · rw [if_neg hresized.pointer_ne]
        exact ⟨bs', hresized.layout⟩
  | write p offset byte =>
    obtain ⟨rfl, rfl⟩ := Prod.mk.inj (Option.some.inj hcall)
    obtain ⟨hlayout, -⟩ :=
      HeapLayout.write_held adjacency_le h.layout hpermitted.1 hpermitted.2 byte
    exact ⟨⟨0, Nat.zero_le _, by simp⟩, bs, hlayout⟩

theorem Ordered.nextGranted {a : HeapAction × List Nat} (h : s.Ordered bs)
    (hnext : s.NextGranted a s') : ∃ bs', s'.Ordered bs' := by
  obtain ⟨hpermitted, pointer, hstep⟩ := hnext
  obtain ⟨⟨p, heap⟩, hcall, heq⟩ := Option.map_eq_some_iff.mp hstep
  obtain ⟨-, rfl⟩ := Prod.mk.inj heq
  obtain ⟨⟨pages, hpages, hpointer⟩, bs', hlayout⟩ := h.callGranted hpermitted hcall
  exact ⟨bs', hlayout, h.room_advanced (Nat.le_trans hpages hpermitted.2) hpointer⟩

/-- After runs of the two heaps, what an allocation returns for a size is as large, exactly
if the size can be rounded up, or no block is free and, in a process, the kernel has no
frame for it. -/
theorem allocate_capacity_iff {m m' : Memory} {frames size granted : Nat}
    {actions : List HeapAction} {actions' : List (HeapAction × List Nat)} {k : HeapClients}
    (hframes : kOSHeapStart + frames * kVMPageSize < 2 ^ 64)
    (hkernel : Trace HeapClients.Next (HeapClients.start m) actions k)
    (hprocess : Trace NextGranted (start m' frames) actions' s) (hsize : size < 2 ^ 64)
    (hgrants : (granted :: grants).sum ≤ s.frames) :
    (k.heap.Capacious size ↔ size + 15 < 2 ^ 64 ∨
        ∃ bs, k.heap.Layout bs k.live ∧ ∀ b ∈ bs, b.isFree = false) ∧
      (s.heap.Capacious size (granted :: grants) ↔ size + 15 < 2 ^ 64 ∨
        (∃ bs, s.heap.Layout bs s.live ∧ ∀ b ∈ bs, b.isFree = false) ∧ granted = 0) := by
  obtain ⟨bs, hk⟩ : k.Ordered :=
    hkernel.invariant (fun _ _ _ h hnext => h.next hnext) (HeapClients.ordered_start m)
  have hkeep : ∀ (s : MemoryClients) a s', (∃ bs, s.Ordered bs) → s.NextGranted a s' →
      ∃ bs', s'.Ordered bs' := by
    rintro s a s' ⟨bs, h⟩ hnext
    exact h.nextGranted hnext
  obtain ⟨bs', hs⟩ := hprocess.invariant hkeep ⟨[], ordered_start m' hframes⟩
  have hroom : s.heap.heapCurrentPointer + (granted :: grants).sum * kVMPageSize < 2 ^ 64 :=
    Nat.lt_of_le_of_lt (Nat.add_le_add_left (Nat.mul_le_mul_right _ hgrants) _) hs.room
  refine ⟨⟨fun hcapacious => ?_, ?_⟩, ⟨fun hcapacious => ?_, ?_⟩⟩
  · exact ((hk.capacious_iff hsize).mp hcapacious).imp_right fun hused => ⟨bs, hk, hused⟩
  · rintro (hround | ⟨bs₁, hk₁, hused⟩)
    · exact (hk.capacious_iff hsize).mpr (.inl hround)
    · exact (hk₁.capacious_iff hsize).mpr (.inr hused)
  · refine ((hs.layout.capacious_iff hsize hroom).mp hcapacious).imp_right ?_
    rintro ⟨hused, hgranted⟩
    exact ⟨⟨bs', hs.layout, hused⟩, hgranted⟩
  · rintro (hround | ⟨⟨bs₁, hs₁, hused⟩, hgranted⟩)
    · exact (hs.layout.capacious_iff hsize hroom).mpr (.inl hround)
    · exact (UserHeap.Layout.capacious_iff hs₁ hsize hroom).mpr (.inr ⟨hused, hgranted⟩)

/-- Two payloads, then a size for which the kernel gives all of its frames but one. -/
def exampleGrantedRun : List (HeapAction × List Nat) :=
  [(.allocate 100, [1]), (.allocate (2 ^ 64 - 16), [1, 2, 0]), (.resize 0x40000028 5000, [2])]

theorem allocate_capacity_iff_top : ∃ k s,
    Trace HeapClients.Next (HeapClients.start fun _ => 0) HeapClients.exampleHeapRun k ∧
      Trace NextGranted (start (fun _ => 0) 9) exampleGrantedRun s ∧ s.live ≠ [] ∧
      (k.heap.Capacious (2 ^ 64 - 1) ↔ 2 ^ 64 - 1 + 15 < 2 ^ 64 ∨
        ∃ bs, k.heap.Layout bs k.live ∧ ∀ b ∈ bs, b.isFree = false) ∧
      (s.heap.Capacious (2 ^ 64 - 1) [0] ↔ 2 ^ 64 - 1 + 15 < 2 ^ 64 ∨
        (∃ bs, s.heap.Layout bs s.live ∧ ∀ b ∈ bs, b.isFree = false) ∧ 0 = 0) := by
  have hkernel : (Trace.perform (Trace.permittedStep HeapClients.Permitted HeapClients.step)
      (HeapClients.start fun _ => 0) HeapClients.exampleHeapRun).any (fun _ => true) = true := by
    decide +kernel
  have hprocess : (Trace.perform (Trace.permittedStep PermittedGranted stepGranted)
      (start (fun _ => 0) 9) exampleGrantedRun).any (fun s => s.live ≠ []) = true := by
    decide +kernel
  obtain ⟨k, hk, -⟩ := Trace.exists_of_perform Trace.next_of_permittedStep hkernel
  obtain ⟨s, hs, hlive⟩ := Trace.exists_of_perform Trace.next_of_permittedStep hprocess
  exact ⟨k, s, hk, hs, of_decide_eq_true hlive,
    allocate_capacity_iff (by decide) hk hs (by decide) (Nat.zero_le _)⟩

/-- The largest size is rounded to nothing, and what is returned holds nothing. -/
theorem not_allocate_capacity :
    ¬ (HeapClients.start fun _ => 0).heap.Capacious (2 ^ 64 - 1) ∧
      ¬ (start (fun _ => 0) 1).heap.Capacious (2 ^ 64 - 1) [1] := by
  have hkernel : ((vmHeapInitialize fun _ => 0).vmHeapAllocate (2 ^ 64 - 1)).map
      (fun r => (r.1, payloadSize r.2.memory r.1)) = some (0xFFFFFFFFC0000028, 0) := by
    decide +kernel
  have hprocess : (UserHeap.memoryAllocate (2 ^ 64 - 1) [1] UserHeap.empty).map
      (fun r => (r.1, payloadSize r.2.memory r.1)) = some (0x40000028, 0) := by
    decide +kernel
  obtain ⟨⟨p, k⟩, hsome, heq⟩ := Option.map_eq_some_iff.mp hkernel
  obtain ⟨⟨q, s⟩, hsome', heq'⟩ := Option.map_eq_some_iff.mp hprocess
  obtain ⟨rfl, hzero⟩ := Prod.mk.inj heq
  obtain ⟨rfl, hzero'⟩ := Prod.mk.inj heq'
  constructor
  · intro hcapacious
    have hlarge := hcapacious _ k hsome (by decide)
    rw [hzero] at hlarge
    exact absurd hlarge (by decide)
  · intro hcapacious
    have hlarge := hcapacious _ s hsome' (by decide)
    rw [hzero'] at hlarge
    exact absurd hlarge (by decide)

end MemoryClients

end TermOS.Libterm
