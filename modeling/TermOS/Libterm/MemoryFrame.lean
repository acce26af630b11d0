import TermOS.Libterm.MemoryRun

/-!
# The library writes only its own pages

`MemoryAllocate`, `MemoryFree` and `MemoryReallocate` write headers, and a resize
copies a payload. All of it lies between the start of the heap and the heap pointer,
in the pages that the kernel has granted to the process.
-/

namespace TermOS.Libterm

open TermOS.Lib TermOS.Kernel TermOS.VM TermOS.OS

/-- The two memories agree outside `[start, stop)`. -/
def AgreeOutside (start stop : Nat) (m m' : Memory) : Prop :=
  ∀ x, x < start ∨ stop ≤ x → m' x = m x

section Frame

variable {start stop stop' magic : Nat} {m m₁ m' : Memory} {bs xs ys : List Block} {c : Block}
  {live : List (Nat × Nat)} {size listHead : Nat}

theorem AgreeOutside.rfl : AgreeOutside start stop m m := fun _ _ => Eq.refl _

theorem AgreeOutside.trans (h : AgreeOutside start stop m m₁) (h' : AgreeOutside start stop' m₁ m')
    (hle : stop ≤ stop') : AgreeOutside start stop' m m' := by
  intro x hx
  rw [h' x hx, h x (by omega)]

theorem AgreeOutside.of_stop (h : AgreeOutside start stop m m') (hle : stop ≤ stop') :
    AgreeOutside start stop' m m' := h.trans AgreeOutside.rfl hle

/-- Headers of blocks that lie in the region. -/
theorem AgreeOutside.of_headersOnly (hlaid : Laid (· ≤ ·) sizeofHeader start bs stop)
    (honly : HeadersOnly bs m m') : AgreeOutside start stop m m' := by
  intro x hx
  apply honly
  intro b hb
  obtain ⟨hge, hle⟩ := hlaid.bounds adjacency_le hb
  unfold Block.stop at hle
  omega

/-! ## Section 1: Blocks -/

/-- Taking a block out of the free list. -/
theorem takeBlock_agrees (h : HeapLayout (· ≤ ·) magic start stop listHead m (xs ++ c :: ys) live)
    (hmagic : magic < 2 ^ 64) (hsize : size ≤ c.size) :
    AgreeOutside start stop m (takeBlock m magic c.address size) := by
  have harena := h.arena adjacency_le
  obtain ⟨middle, hxs, hlaid⟩ := (Laid.append_iff adjacency_le).mp harena.laid
  have hle := hxs.le adjacency_le
  have hmiddle : Arena middle (c :: ys) stop :=
    ⟨hlaid, Nat.le_trans harena.start_ge hle, harena.stop_lt⟩
  obtain ⟨-, honly⟩ := linked_takeBlock (linked_append.mp h.linked).2 hmiddle hmagic hsize
  have hcarved : Laid (· ≤ ·) sizeofHeader middle (carve sizeofHeader 16 size c ++ ys) stop := by
    have hblock : Laid (· ≤ ·) sizeofHeader middle ([] ++ [c] ++ ys) stop := hlaid
    exact Laid.replace adjacency_le (fun _ _ => laid_carve adjacency_le _ _) hblock
  intro x hx
  apply honly
  intro d hd
  rcases List.mem_cons.mp hd with rfl | hd
  · obtain ⟨hge, hstop⟩ := hlaid.bounds adjacency_le List.mem_cons_self
    unfold Block.stop at hstop
    omega
  · obtain ⟨hge, hstop⟩ := hcarved.bounds adjacency_le hd
    unfold Block.stop at hstop
    omega

/-- Giving a block back. -/
theorem freeBlock_agrees (h : HeapLayout (· ≤ ·) magic start stop listHead m bs live) (hc : c ∈ bs) :
    AgreeOutside start stop m (freeBlock m magic (c.address + sizeofHeader)) := by
  obtain ⟨xs, ys, rfl⟩ := List.append_of_mem hc
  have harena := h.arena adjacency_le
  exact .of_headersOnly harena.laid (linked_freeBlock h.linked harena).2

/-- Growing a block over the next one. -/
theorem resizeInPlace_agrees (h : HeapLayout (· ≤ ·) magic start stop listHead m bs live) (hc : c ∈ bs)
    (hresize : resizeInPlace m c.address size = some m') : AgreeOutside start stop m m' := by
  obtain ⟨xs, ys, rfl⟩ := List.append_of_mem hc
  have harena := h.arena adjacency_le
  unfold resizeInPlace at hresize
  dsimp only at hresize
  split at hresize
  · obtain rfl := Option.some.inj hresize
    exact .rfl
  · split at hresize
    · obtain rfl := Option.some.inj hresize
      apply AgreeOutside.of_headersOnly harena.laid
      exact (linked_combineForward_middle h.linked harena).2.mono
        fun b hb => List.mem_append_right _ hb
    · exact nomatch hresize

/-- Moving a payload to a block that is large enough. -/
theorem moveBlock_agrees {b : Block} (h : HeapLayout (· ≤ ·) magic start stop listHead m bs live)
    (hb : b ∈ bs) (hc : c ∈ bs) (hsize : c.size ≤ b.size) :
    AgreeOutside start stop m
      (moveBlock m magic (b.address + sizeofHeader) (c.address + sizeofHeader)) := by
  have harena := h.arena adjacency_le
  have hcopied : blockHeader m (headerOf (c.address + sizeofHeader)) = blockHeader m c.address := by
    rw [headerOf_payload harena hc]
  unfold moveBlock
  rw [hcopied, h.linked.size_eq hc]
  have hcopy : ∀ x, ¬ Block.Holds b x →
      memoryCopy m (b.address + sizeofHeader) (c.address + sizeofHeader) c.size x = m x := by
    intro x hx
    unfold Block.Holds at hx
    exact memoryCopy_outside m _ (by omega)
  -- the copy stays in a payload, and so the blocks are as before when the old one is given back
  have hlayout := h.write adjacency_le hb hcopy
  refine AgreeOutside.trans (fun x hx => hcopy x ?_) (freeBlock_agrees hlayout hc) (Nat.le_refl _)
  obtain ⟨hge, hstop⟩ := h.laid.bounds adjacency_le hb
  unfold Block.stop at hstop
  unfold Block.Holds
  omega

end Frame

/-! ## Section 2: Calls -/

section Calls

variable {heap heap' : UserHeap} {bs : List Block} {live : List (Nat × Nat)}
  {size granted pointer : Nat}

/-- Between the heaps before and after a call only bytes of the heap differ. -/
def InHeap (heap heap' : UserHeap) : Prop :=
  heap.heapCurrentPointer ≤ heap'.heapCurrentPointer ∧
    AgreeOutside kOSHeapStart heap'.heapCurrentPointer heap.memory heap'.memory

/-- The pages of a call, and zeros in them. -/
theorem osServiceMemoryAllocate_inHeap (heap : UserHeap) (size : Nat)
    (hroom : heap.heapCurrentPointer + granted * kVMPageSize < 2 ^ 64)
    (hstart : kOSHeapStart ≤ heap.heapCurrentPointer) :
    InHeap heap (heap.osServiceMemoryAllocate size granted).2 := by
  unfold UserHeap.osServiceMemoryAllocate
  split
  · exact ⟨Nat.le_refl _, .rfl⟩
  · have hmin := Nat.min_le_right (wrap64 (size + (kVMPageSize - 1)) / kVMPageSize) granted
    have hmapped := Nat.mul_le_mul_right kVMPageSize hmin
    dsimp only
    rw [wrap64_of_lt (Nat.lt_of_le_of_lt (Nat.add_le_add_left hmapped _) hroom)]
    refine ⟨Nat.le_add_right _ _, fun x hx => Memory.fill_outside _ _ ?_⟩
    dsimp only at hx
    omega

/-- A region of zeros with a header, linked behind the last block. -/
theorem regionBy_inHeap (h : heap.Layout bs live) {length : Nat} (hlarge : sizeofHeader ≤ length) :
    InHeap heap (heap.regionBy bs length) := by
  have hstart := h.laid.le adjacency_le
  have hlast : lastAddress 0 bs = 0 ∨ ∃ b ∈ bs, lastAddress 0 bs = b.address := by
    rcases List.eq_nil_or_concat' bs with rfl | ⟨front, last, rfl⟩
    · exact .inl rfl
    · exact .inr ⟨last, by simp, by rw [lastAddress_append]; rfl⟩
  have hlt : lastAddress 0 bs < 2 ^ 64 := by
    rcases hlast with hzero | ⟨b, hb, heq⟩
    · omega
    · rw [heq]
      exact (h.arena adjacency_le).address_lt hb
  have hheader := (UserHeap.newHeader_spec (heap.grownBy length).memory heap.heapCurrentPointer
    (Nat.mod_lt (length + 2 ^ 64 - sizeofHeader) (Nat.two_pow_pos 64)) hlt).2
  have hgrown : ∀ x, x < kOSHeapStart ∨ heap.heapCurrentPointer + length ≤ x →
      UserHeap.newHeader (heap.grownBy length).memory heap.heapCurrentPointer
        ((length + 2 ^ 64 - sizeofHeader) % 2 ^ 64) (lastAddress 0 bs) x = heap.memory x := by
    intro x hx
    rw [hheader x (by omega)]
    exact Memory.fill_outside _ _ (by omega)
  unfold UserHeap.regionBy UserHeap.appendBlock
  split
  · next hne =>
    refine ⟨Nat.le_add_right _ _, fun x hx => ?_⟩
    obtain ⟨b, hb, heq⟩ := hlast.resolve_left hne
    obtain ⟨hge, hstop⟩ := h.laid.bounds adjacency_le hb
    unfold Block.stop at hstop
    have hx' : x < kOSHeapStart ∨ heap.heapCurrentPointer + length ≤ x := hx
    rw [heq] at hgrown ⊢
    dsimp only
    rw [headerOnly_setNext _ _ _ x (by omega)]
    exact hgrown x hx'
  · exact ⟨Nat.le_add_right _ _, fun x hx => hgrown x hx⟩

theorem memoryAllocate_inHeap (h : heap.Layout bs live) (hround : UserHeap.Roundable size)
    (hroom : heap.heapCurrentPointer + granted * kVMPageSize < 2 ^ 64)
    (hcall : UserHeap.memoryAllocate size [granted] heap = some (pointer, heap')) :
    InHeap heap heap' := by
  -- a block that is found is taken
  have hfound : ∀ {heap : UserHeap} {bs : List Block} {grants : List Nat} {heap' : UserHeap},
      heap.Layout bs live → (firstFit (alignSize size) bs).isSome →
      UserHeap.memoryAllocate size grants heap = some (pointer, heap') → InHeap heap heap' := by
    intro heap bs grants heap' h hsome hcall
    obtain ⟨⟨xs, c, ys⟩, hfit⟩ := Option.isSome_iff_exists.mp hsome
    by_cases hzero : size = 0
    · rw [UserHeap.memoryAllocate.eq_def, if_pos hzero] at hcall
      obtain ⟨-, rfl⟩ := Prod.mk.inj (Option.some.inj hcall)
      exact ⟨Nat.le_refl _, .rfl⟩
    have harena := h.arena adjacency_le
    obtain ⟨rfl, -, hle⟩ := firstFit_eq_some hfit
    have hc : c ∈ xs ++ c :: ys := List.mem_append_right _ List.mem_cons_self
    rw [UserHeap.memoryAllocate.eq_def, if_neg hzero, h.head,
      findBlock_some h.linked harena h.turns hfit] at hcall
    dsimp only at hcall
    rw [if_pos (harena.address_pos hc).ne'] at hcall
    obtain ⟨-, rfl⟩ := Prod.mk.inj (Option.some.inj hcall)
    exact ⟨Nat.le_refl _, takeBlock_agrees h (by decide) hle⟩
  by_cases hzero : size = 0
  · rw [UserHeap.memoryAllocate.eq_def, if_pos hzero] at hcall
    obtain ⟨-, rfl⟩ := Prod.mk.inj (Option.some.inj hcall)
    exact ⟨Nat.le_refl _, .rfl⟩
  cases hfit : firstFit (alignSize size) bs with
  | some found => exact hfound h (by rw [hfit]; rfl) hcall
  | none =>
    obtain ⟨hlarge, hlt, -⟩ := hround.pageAlign
    by_cases hgranted : UserHeap.pageAlign (alignSize size) ≤ granted * kVMPageSize
    · -- the region, and then the block in it
      have hpages : UserHeap.pageAlign (alignSize size) ≠ 0 := by
        unfold sizeofHeader at hlarge
        omega
      rw [h.allocate_again hzero hfit hpages hgranted hroom] at hcall
      have hroom' : heap.heapCurrentPointer + UserHeap.pageAlign (alignSize size) < 2 ^ 64 :=
        Nat.lt_of_le_of_lt (Nat.add_le_add_left hgranted _) hroom
      obtain ⟨hlayout, -, hpointer⟩ :=
        h.append_region (Nat.le_trans (Nat.le_add_left _ _) hlarge) hroom'
      have hfits : alignSize size ≤ UserHeap.pageAlign (alignSize size) - sizeofHeader := by omega
      obtain ⟨hle, hagree⟩ :=
        hfound hlayout (by rw [firstFit_concat hfit rfl hfits]; rfl) hcall
      obtain ⟨hle', hregion⟩ :=
        regionBy_inHeap h (Nat.le_trans (Nat.le_add_left _ _) hlarge)
      exact ⟨Nat.le_trans hle' hle, hregion.trans hagree hle⟩
    · -- refused, with the pages that were there
      rw [h.allocate_refused hzero hfit (.inr (Nat.lt_of_not_le hgranted)) []] at hcall
      obtain ⟨-, rfl⟩ := Prod.mk.inj (Option.some.inj hcall)
      exact osServiceMemoryAllocate_inHeap heap _ hroom (h.laid.le adjacency_le)

/-- Whatever a process calls, with the pointers that it holds. -/
theorem call_inHeap (h : heap.Layout bs live) {a : HeapAction} (ha : a.Permitted heap.memory live)
    (hround : UserHeap.Roundable (requested a))
    (hroom : heap.heapCurrentPointer + granted * kVMPageSize < 2 ^ 64)
    (hcall : MemoryClients.call heap granted a = some (pointer, heap')) : InHeap heap heap' := by
  cases a with
  | allocate size => exact memoryAllocate_inHeap h hround hroom hcall
  | free p =>
    obtain ⟨-, rfl⟩ := Prod.mk.inj (Option.some.inj hcall)
    obtain ⟨c, hc, -, rfl, -⟩ := HeapLayout.exists_block_of_held adjacency_le h ha
    exact ⟨Nat.le_refl _, freeBlock_agrees h hc⟩
  | write p offset byte =>
    obtain ⟨-, rfl⟩ := Prod.mk.inj (Option.some.inj hcall)
    obtain ⟨c, hc, -, rfl, hsize⟩ := HeapLayout.exists_block_of_held adjacency_le h ha.1
    have hoffset := ha.2
    rw [hsize] at hoffset
    refine ⟨Nat.le_refl _, fun x hx => Memory.setByte_ne _ _ ?_⟩
    obtain ⟨hge, hstop⟩ := h.laid.bounds adjacency_le hc
    unfold Block.stop at hstop
    dsimp only at hx
    omega
  | resize p newSize =>
    obtain ⟨c, hc, hused, rfl, -⟩ := HeapLayout.exists_block_of_held adjacency_le h ha.1
    have harena := h.arena adjacency_le
    have hpointer : c.address + sizeofHeader ≠ 0 := by
      unfold sizeofHeader
      omega
    unfold MemoryClients.call UserHeap.memoryReallocate at hcall
    dsimp only at hcall
    rw [if_neg hpointer, headerOf_payload harena hc] at hcall
    split at hcall
    · -- a free
      obtain ⟨-, rfl⟩ := Prod.mk.inj (Option.some.inj hcall)
      exact ⟨Nat.le_refl _, freeBlock_agrees h hc⟩
    · cases hplace : resizeInPlace heap.memory c.address newSize with
      | some memory =>
        rw [hplace] at hcall
        obtain ⟨-, rfl⟩ := Prod.mk.inj (Option.some.inj hcall)
        exact ⟨Nat.le_refl _, resizeInPlace_agrees h hc hplace⟩
      | none =>
        rw [hplace] at hcall
        obtain ⟨⟨newPointer, heap₁⟩, hsome, hrest⟩ := Option.map_eq_some_iff.mp hcall
        obtain ⟨hle, hagree⟩ := memoryAllocate_inHeap h hround hroom hsome
        obtain ⟨pointer₁, heap₁', hsome', -, hcases⟩ := h.allocate hround hroom
        obtain ⟨rfl, rfl⟩ := Prod.mk.inj (Option.some.inj (hsome.symm.trans hsome'))
        dsimp only at hrest
        rcases hcases with ⟨rfl, -, -⟩ | ⟨bs₁, halloc⟩
        · rw [if_pos rfl] at hrest
          obtain ⟨-, rfl⟩ := Prod.mk.inj hrest
          exact ⟨hle, hagree⟩
        · -- the payload is moved to the new block, and the old one given back
          rw [if_neg halloc.pointer_ne] at hrest
          obtain ⟨-, rfl⟩ := Prod.mk.inj hrest
          obtain ⟨b, hb, -, rfl, hfits⟩ := halloc.layout.held _ _ List.mem_cons_self
          have hsmall := h.lt_of_resizeInPlace hc hplace
          have hlarge : c.size ≤ b.size := Nat.le_of_lt (Nat.lt_of_lt_of_le hsmall hfits)
          have hmoved := moveBlock_agrees halloc.layout hb (halloc.used c hc hused) hlarge
          exact ⟨hle, hagree.trans hmoved (Nat.le_refl _)⟩

end Calls

/-! ## Section 3: What the kernel is asked for -/

/-- The size with which `MemoryAllocate` calls the kernel, if no free block is large enough. -/
def allocateRequest (heap : UserHeap) (size : Nat) : Option Nat :=
  if size = 0 then none
  else
    match findBlock heap.memory (alignSize size) heap.heapCurrentPointer heap.listHead 0 with
    | none => none
    | some (current, _) => if current ≠ 0 then none else some (UserHeap.pageAlign (alignSize size))

/-- The same for every call. -/
def kernelRequest (heap : UserHeap) : HeapAction → Option Nat
  | .allocate size => allocateRequest heap size
  | .free _ => none
  | .resize pointer newSize =>
    if pointer = 0 then allocateRequest heap newSize
    else if newSize = 0 then none
    else
      match resizeInPlace heap.memory (headerOf pointer) newSize with
      | some _ => none
      | none => allocateRequest heap newSize
  | .write _ _ _ => none

/-- The heap after the kernel has granted so many pages for a request. -/
def UserHeap.served (heap : UserHeap) (request : Option Nat) (granted : Nat) : UserHeap :=
  match request with
  | none => heap
  | some size => (heap.osServiceMemoryAllocate size granted).2

section Requests

variable {heap heap' : UserHeap} {bs : List Block} {live : List (Nat × Nat)}
  {size granted pointer : Nat}

theorem served_inHeap (heap : UserHeap) (request : Option Nat)
    (hroom : heap.heapCurrentPointer + granted * kVMPageSize < 2 ^ 64)
    (hstart : kOSHeapStart ≤ heap.heapCurrentPointer) : InHeap heap (heap.served request granted) := by
  cases request with
  | none => exact ⟨Nat.le_refl _, .rfl⟩
  | some size => exact osServiceMemoryAllocate_inHeap heap size hroom hstart

/-- The heap pointer moves in the kernel only. -/
theorem memoryAllocate_served (h : heap.Layout bs live) (hround : UserHeap.Roundable size)
    (hroom : heap.heapCurrentPointer + granted * kVMPageSize < 2 ^ 64)
    (hcall : UserHeap.memoryAllocate size [granted] heap = some (pointer, heap')) :
    heap'.heapCurrentPointer =
      (heap.served (allocateRequest heap size) granted).heapCurrentPointer := by
  have harena := h.arena adjacency_le
  unfold allocateRequest
  by_cases hzero : size = 0
  · rw [UserHeap.memoryAllocate.eq_def, if_pos hzero] at hcall
    obtain ⟨-, rfl⟩ := Prod.mk.inj (Option.some.inj hcall)
    rw [if_pos hzero]
    rfl
  rw [if_neg hzero, h.head]
  cases hfit : firstFit (alignSize size) bs with
  | some found =>
    obtain ⟨xs, c, ys⟩ := found
    obtain ⟨rfl, -, -⟩ := firstFit_eq_some hfit
    have hc : c ∈ xs ++ c :: ys := List.mem_append_right _ List.mem_cons_self
    obtain ⟨heap₁, hsome, hpointer, -⟩ :=
      h.allocate_carve hzero hfit (Nat.le_refl (alignSize size)) [granted]
    obtain ⟨-, rfl⟩ := Prod.mk.inj (Option.some.inj (hcall.symm.trans hsome))
    rw [findBlock_some h.linked harena h.turns hfit]
    dsimp only
    rw [if_pos (harena.address_pos hc).ne']
    exact hpointer
  | none =>
    rw [findBlock_none h.linked harena h.turns hfit]
    dsimp only
    rw [if_neg (by simp)]
    obtain ⟨hlarge, hlt, -⟩ := hround.pageAlign
    by_cases hgranted : UserHeap.pageAlign (alignSize size) ≤ granted * kVMPageSize
    · -- the region of the request
      have hpages : UserHeap.pageAlign (alignSize size) ≠ 0 := by
        unfold sizeofHeader at hlarge
        omega
      obtain ⟨heap₁, hsome, hpointer, -⟩ :=
        h.allocate_region hzero hfit (Nat.le_refl _) hlarge hgranted hroom []
      obtain ⟨-, rfl⟩ := Prod.mk.inj (Option.some.inj (hcall.symm.trans hsome))
      unfold UserHeap.served
      dsimp only
      rw [heap.osServiceMemoryAllocate_enough hpages hgranted hroom]
      exact hpointer
    · rw [h.allocate_refused hzero hfit (.inr (Nat.lt_of_not_le hgranted)) []] at hcall
      obtain ⟨-, rfl⟩ := Prod.mk.inj (Option.some.inj hcall)
      rfl

theorem call_served (h : heap.Layout bs live) {a : HeapAction}
    (hround : UserHeap.Roundable (requested a))
    (hroom : heap.heapCurrentPointer + granted * kVMPageSize < 2 ^ 64)
    (hcall : MemoryClients.call heap granted a = some (pointer, heap')) :
    heap'.heapCurrentPointer = (heap.served (kernelRequest heap a) granted).heapCurrentPointer := by
  cases a with
  | allocate size => exact memoryAllocate_served h hround hroom hcall
  | free p =>
    obtain ⟨-, rfl⟩ := Prod.mk.inj (Option.some.inj hcall)
    rfl
  | write p offset byte =>
    obtain ⟨-, rfl⟩ := Prod.mk.inj (Option.some.inj hcall)
    rfl
  | resize p newSize =>
    unfold MemoryClients.call UserHeap.memoryReallocate at hcall
    unfold kernelRequest
    dsimp only at hcall ⊢
    split at hcall
    · next hnull =>
      rw [if_pos hnull]
      exact memoryAllocate_served h hround hroom hcall
    · next hnull =>
      rw [if_neg hnull]
      split at hcall
      · next hzero =>
        obtain ⟨-, rfl⟩ := Prod.mk.inj (Option.some.inj hcall)
        rw [if_pos hzero]
        rfl
      · next hzero =>
        rw [if_neg hzero]
        cases hplace : resizeInPlace heap.memory (headerOf p) newSize with
        | some memory =>
          rw [hplace] at hcall
          obtain ⟨-, rfl⟩ := Prod.mk.inj (Option.some.inj hcall)
          rfl
        | none =>
          rw [hplace] at hcall
          obtain ⟨⟨newPointer, heap₁⟩, hsome, hrest⟩ := Option.map_eq_some_iff.mp hcall
          have hserved := memoryAllocate_served h hround hroom hsome
          -- moving the payload leaves the pointer
          dsimp only at hrest ⊢
          split at hrest
          · obtain ⟨-, rfl⟩ := Prod.mk.inj hrest
            exact hserved
          · obtain ⟨-, rfl⟩ := Prod.mk.inj hrest
            exact hserved

end Requests

end TermOS.Libterm
