import TermOS.Lib.Coalesced
import TermOS.VM.HeapRun

/-!
# Free memory of the kernel heap

`VMHeapFree` looks at the two neighbours of a block only, an allocation leaves a free
block behind, and a resize may take one. Still no two free blocks are neighbours in any
state that the clients can reach, so that free memory is never cut up.

## Main Theorems

* `heap_coalesced` - neighbours are not both free, an unused heap is one block again, and
  an allocation fails only if no free stretch is large enough
-/

namespace TermOS.VM

open TermOS.Lib TermOS.Kernel

namespace HeapClients

variable {s s' : HeapClients} {bs xs ys : List Block} {b c : Block} {p n : Nat}

/-! ## Section 1: The invariant -/

/-- The blocks in use are those that are held, and no two free ones are neighbours. -/
structure Coalesces (s : HeapClients) (bs : List Block) : Prop where
  layout : s.heap.Layout bs s.live
  coalesced : Coalesced bs
  all_held : ∀ b ∈ bs, b.isFree = false → Held s.live (b.address + sizeofHeader)

theorem coalesces_start (m : Memory) : (start m).Coalesces [VMHeap.wholeArena] where
  layout := VMHeap.layout_initialize m
  coalesced := coalesced_singleton _
  all_held := by
    intro b hb hused
    rw [List.mem_singleton.mp hb] at hused
    cases hused

theorem held_cons {live : List (Nat × Nat)} {q k : Nat} (h : q = p ∨ Held live q) :
    Held ((p, k) :: live) q := by
  unfold Held
  rw [List.map_cons, List.mem_cons]
  exact h

theorem held_withoutPayload {live : List (Nat × Nat)} {q : Nat} (h : Held live q) (hne : q ≠ p) :
    Held (withoutPayload live p) q := by
  obtain ⟨⟨q', k⟩, hmem, rfl⟩ := List.mem_map.mp h
  exact List.mem_map.mpr ⟨(q', k), mem_withoutPayload.mpr ⟨hmem, hne⟩, rfl⟩

/-- The blocks before and behind a block begin elsewhere. -/
theorem payload_ne (h : Laid (· = ·) sizeofHeader p (xs ++ c :: ys) n) (hb : b ∈ xs ∨ b ∈ ys) :
    b.address + sizeofHeader ≠ c.address + sizeofHeader := by
  rcases hb with hb | hb
  · have hbefore := h.before adjacency_eq hb (List.mem_cons_self (a := c) (l := ys))
    unfold Block.stop sizeofHeader at hbefore
    omega
  · rw [← List.singleton_append, ← List.append_assoc] at h
    have hbehind := h.before adjacency_eq (b := c) (by simp) hb
    unfold Block.stop sizeofHeader at hbehind
    omega

/-! ## Section 2: One action -/

/-- A block was carved up for a new payload. -/
theorem Coalesces.carved (h : s.Coalesces bs) {size : Nat}
    (hfit : firstFit size bs = some (xs, c, ys)) :
    Coalesced (xs ++ (carve sizeofHeader 16 size c ++ ys)) ∧
      ∀ b ∈ xs ++ (carve sizeofHeader 16 size c ++ ys), b.isFree = false →
        b.address + sizeofHeader = c.address + sizeofHeader ∨
          Held s.live (b.address + sizeofHeader) := by
  obtain ⟨rfl, hfree, -⟩ := firstFit_eq_some hfit
  refine ⟨coalesced_carve hfree h.coalesced, ?_⟩
  intro b hb hused
  rcases used_carve hb hused with haddress | hb
  · exact .inl (congrArg (· + sizeofHeader) haddress)
  · exact .inr (h.all_held b hb hused)

theorem Coalesces.allocate (h : s.Coalesces bs) {size : Nat} (hsize : size + 15 < 2 ^ 64)
    {heap : VMHeap} (hcall : call s.heap (.allocate size) = some (p, heap)) :
    ∃ bs', Coalesces ⟨heap, HeapAction.holdings s.live p (.allocate size)⟩ bs' := by
  have hnull : s.heap.sVMHeapAllocateInternal size = some (0, s.heap) →
      ∃ bs', Coalesces ⟨heap, HeapAction.holdings s.live p (.allocate size)⟩ bs' := by
    intro hnone
    obtain ⟨rfl, rfl⟩ := Prod.mk.inj (Option.some.inj (hnone.symm.trans hcall))
    exact ⟨bs, h⟩
  by_cases hzero : size = 0
  · rw [hzero] at hnull
    rw [hzero]
    exact hnull (VMHeap.Layout.allocateInternal_zero s.heap)
  cases hfit : firstFit (alignSize size) bs with
  | none => exact hnull (h.layout.allocateInternal_none hfit)
  | some found =>
    obtain ⟨xs, c, ys⟩ := found
    obtain ⟨heap', hsome, halloc⟩ := h.layout.allocateInternal_some hzero hfit (le_alignSize hsize)
    obtain ⟨rfl, rfl⟩ := Prod.mk.inj (Option.some.inj (hsome.symm.trans hcall))
    obtain ⟨hcoalesced, hheld⟩ := h.carved hfit
    rw [HeapAction.holdings, if_neg halloc.pointer_ne]
    exact ⟨_, halloc.layout, hcoalesced, fun b hb hused => held_cons (hheld b hb hused)⟩

/-- What is left of the blocks in use when one is given back. -/
theorem held_giveBack (hlaid : Laid (· = ·) sizeofHeader p (xs ++ c :: ys) n)
    {live : List (Nat × Nat)}
    (hheld : ∀ b ∈ xs ++ c :: ys, b.isFree = false → Held live (b.address + sizeofHeader))
    (hb : b ∈ giveBack sizeofHeader xs c ys) (hused : b.isFree = false) :
    Held (withoutPayload live (c.address + sizeofHeader)) (b.address + sizeofHeader) := by
  have hrest := used_giveBack hb hused
  apply held_withoutPayload _ (payload_ne hlaid hrest)
  apply hheld b _ hused
  rcases hrest with hb | hb
  · exact List.mem_append_left _ hb
  · exact List.mem_append_right _ (List.mem_cons_of_mem _ hb)

theorem Coalesces.free (h : s.Coalesces bs) (hp : Held s.live p) :
    ∃ bs', Coalesces ⟨s.heap.vmHeapFree p, withoutPayload s.live p⟩ bs' := by
  obtain ⟨c, hc, -, rfl, -⟩ := h.layout.exists_block_of_held adjacency_eq hp
  obtain ⟨xs, ys, rfl⟩ := List.append_of_mem hc
  obtain ⟨hlayout, -⟩ := HeapLayout.free adjacency_eq h.layout
  exact ⟨_, hlayout, coalesced_giveBack h.coalesced,
    fun b hb hused => held_giveBack h.layout.laid h.all_held hb hused⟩

theorem Coalesces.resize (h : s.Coalesces bs) (hp : Held s.live p) (hsize : n + 15 < 2 ^ 64)
    {heap : VMHeap} {pointer : Nat} (hcall : call s.heap (.resize p n) = some (pointer, heap)) :
    ∃ bs', Coalesces ⟨heap, HeapAction.holdings s.live pointer (.resize p n)⟩ bs' := by
  obtain ⟨c, hc, hused, rfl, -⟩ := h.layout.exists_block_of_held adjacency_eq hp
  unfold HeapAction.holdings
  by_cases hn : n = 0
  · -- a free
    have hne : c.address + sizeofHeader ≠ 0 := by
      unfold sizeofHeader
      omega
    rw [call, VMHeap.vmHeapResize, if_neg hne, if_pos hn] at hcall
    obtain ⟨rfl, rfl⟩ := Prod.mk.inj (Option.some.inj hcall)
    simp only [if_pos hn]
    exact h.free hp
  simp only [if_neg hn]
  rcases h.layout.resize_turn hc hused hn hsize with
    ⟨hnone, -⟩ | ⟨pointer', heap', bs', hsome, hturn, hresized⟩
  · obtain ⟨rfl, rfl⟩ := Prod.mk.inj (Option.some.inj (hnone.symm.trans hcall))
    exact ⟨bs, h⟩
  obtain ⟨rfl, rfl⟩ := Prod.mk.inj (Option.some.inj (hsome.symm.trans hcall))
  rw [if_neg hresized.pointer_ne]
  have hlaid := h.layout.laid
  suffices hparts : Coalesced bs' ∧ ∀ b ∈ bs', b.isFree = false →
      Held ((pointer', n) :: withoutPayload s.live (c.address + sizeofHeader))
        (b.address + sizeofHeader) from ⟨bs', hresized.layout, hparts.1, hparts.2⟩
  cases hturn with
  | stay =>
    refine ⟨h.coalesced, fun b hb hbused => held_cons ?_⟩
    exact or_iff_not_imp_left.mpr fun hne => held_withoutPayload (h.all_held b hb hbused) hne
  | absorb hbs =>
    subst hbs
    refine ⟨coalesced_absorb hused h.coalesced, fun b hb hbused => held_cons ?_⟩
    rcases address_absorbNext hb with haddress | hrest
    · exact .inl (congrArg (· + sizeofHeader) haddress)
    · right
      apply held_withoutPayload _ (payload_ne hlaid hrest)
      apply h.all_held b _ hbused
      rcases hrest with hb | hb
      · exact List.mem_append_left _ hb
      · exact List.mem_append_right _ (List.mem_cons_of_mem _ hb)
  | @move front back xs ys d hfit hcarved =>
    -- first the new payload is there as well, then the old block is given back
    obtain ⟨hcoalesced, hheld⟩ := h.carved hfit
    rw [hcarved] at hcoalesced hheld
    obtain ⟨heap₁, -, halloc⟩ := h.layout.allocateInternal_some hn hfit (le_alignSize hsize)
    have hlaid₁ := halloc.layout.laid
    rw [hcarved] at hlaid₁
    refine ⟨coalesced_giveBack hcoalesced, fun b hb hbused => held_cons ?_⟩
    have hall : ∀ b ∈ xs ++ c :: ys, b.isFree = false →
        Held ((d.address + sizeofHeader, n) :: s.live) (b.address + sizeofHeader) :=
      fun b hb hbused => held_cons (hheld b hb hbused)
    have hrest := held_giveBack hlaid₁ hall hb hbused
    obtain ⟨⟨q, k⟩, hmem, hq⟩ := List.mem_map.mp hrest
    obtain ⟨hmem, hne⟩ := mem_withoutPayload.mp hmem
    rcases List.mem_cons.mp hmem with heq | hmem
    · left
      exact hq.symm.trans (Prod.mk.inj heq).1
    · right
      exact List.mem_map.mpr ⟨(q, k), mem_withoutPayload.mpr ⟨hmem, hne⟩, hq⟩

/-- Every permitted action keeps the heap coalesced. -/
theorem Coalesces.next {a : HeapAction} (h : s.Coalesces bs) (hnext : s.Next a s') :
    ∃ bs', s'.Coalesces bs' := by
  obtain ⟨hpermitted, pointer, hstep⟩ := hnext
  obtain ⟨⟨p, heap⟩, hcall, heq⟩ := Option.map_eq_some_iff.mp hstep
  obtain ⟨-, rfl⟩ := Prod.mk.inj heq
  cases a with
  | allocate size => exact h.allocate hpermitted hcall
  | free p =>
    obtain ⟨rfl, rfl⟩ := Prod.mk.inj (Option.some.inj hcall)
    exact h.free hpermitted
  | resize p n => exact h.resize hpermitted.1 hpermitted.2 hcall
  | write p offset byte =>
    obtain ⟨rfl, rfl⟩ := Prod.mk.inj (Option.some.inj hcall)
    obtain ⟨hlayout, -⟩ :=
      HeapLayout.write_held adjacency_eq h.layout hpermitted.1 hpermitted.2 byte
    exact ⟨bs, hlayout, h.coalesced, h.all_held⟩

/-! ## Section 3: Whole runs -/

/-- When nothing is held, the arena is one free block again. -/
theorem Coalesces.eq_wholeArena (h : s.Coalesces bs) (hlive : s.live = []) :
    bs = [VMHeap.wholeArena] := by
  have hfree : ∀ b ∈ bs, b.isFree = true := by
    intro b hb
    by_contra hused
    have hheld := h.all_held b hb (Bool.eq_false_iff.mpr hused)
    rw [hlive] at hheld
    cases hheld
  have hlaid := h.layout.laid
  rcases h.coalesced.eq_single hfree with rfl | ⟨⟨address, size, isFree⟩, rfl⟩
  · have hend : kVMKernelHeapStart = kVMKernelHeapStart + heapArenaSize := hlaid
    exact absurd hend (by decide)
  · obtain ⟨hstart, hstop⟩ := hlaid
    have hfirst : isFree = true := hfree _ List.mem_cons_self
    have haddress : kVMKernelHeapStart = address := hstart
    have hend : address + sizeofHeader + size = kVMKernelHeapStart + heapArenaSize := hstop
    have hsize : size = heapArenaSize - sizeofHeader := by omega
    rw [hfirst, ← haddress, hsize]
    rfl

/-- An allocation that fails finds no free block that is large enough. -/
theorem Coalesces.null_stretch (h : s.Coalesces bs) {size : Nat} (hne : size ≠ 0)
    {heap' : VMHeap} (hnull : s.heap.vmHeapAllocate size = some (0, heap')) {low high : Nat}
    (hstretch : FreeStretch sizeofHeader kVMKernelHeapStart bs (kVMKernelHeapStart + heapArenaSize)
      low high) : high - low - sizeofHeader < alignSize size := by
  obtain ⟨b, hb, hfree, hlow, hhigh⟩ := h.coalesced.stretch h.layout.laid hstretch
  have hlt := hstretch.nonempty
  cases hfit : firstFit (alignSize size) bs with
  | none =>
    have hsmall := firstFit_eq_none hfit hb hfree
    unfold Block.stop at hhigh
    omega
  | some found =>
    obtain ⟨xs, c, ys⟩ := found
    obtain ⟨heap₁, hsome, halloc⟩ := h.layout.allocateInternal_some hne hfit (Nat.le_refl _)
    exact absurd (Prod.mk.inj (Option.some.inj (hsome.symm.trans hnull))).1 halloc.pointer_ne

/-- In every state that a run reaches no two neighbouring blocks are free; if everything
has been freed, the arena is the one block it was at the start; and an allocation
returns null only if no stretch without blocks in use would take a header and the
rounded size. -/
theorem heap_coalesced {m : Memory} {actions : List HeapAction} {s : HeapClients}
    (hrun : Trace Next (start m) actions s) :
    ∃ bs, s.heap.Layout bs s.live ∧ Coalesced bs ∧ (s.live = [] → bs = [VMHeap.wholeArena]) ∧
      ∀ size heap', size ≠ 0 → s.heap.vmHeapAllocate size = some (0, heap') →
        ∀ low high, FreeStretch sizeofHeader kVMKernelHeapStart bs
            (kVMKernelHeapStart + heapArenaSize) low high →
          high - low - sizeofHeader < alignSize size := by
  have hkeep : ∀ (s : HeapClients) a s', (∃ bs, s.Coalesces bs) → s.Next a s' →
      ∃ bs', s'.Coalesces bs' := by
    rintro s a s' ⟨bs, h⟩ hnext
    exact h.next hnext
  obtain ⟨bs, h⟩ := hrun.invariant hkeep ⟨_, coalesces_start m⟩
  exact ⟨bs, h.layout, h.coalesced, h.eq_wholeArena, fun _ _ hne hnull _ _ => h.null_stretch hne hnull⟩

/-- Three payloads, freed from the outside to the inside. -/
def exampleFreeRun : List HeapAction :=
  [.allocate 100, .allocate 40, .allocate 7, .free 0xFFFFFFFFC0000028, .free 0xFFFFFFFFC0000118,
    .free 0xFFFFFFFFC00000C0]

theorem heap_coalesced_emptied : ∃ s, Trace Next (start fun _ => 0) exampleFreeRun s ∧
    ∃ bs, s.heap.Layout bs s.live ∧ bs = [VMHeap.wholeArena] := by
  have hrun : (Trace.perform (Trace.permittedStep Permitted step) (start fun _ => 0) exampleFreeRun).any
      (fun s => s.live = []) = true := by
    decide +kernel
  obtain ⟨s, htrace, hlive⟩ := Trace.exists_of_perform Trace.next_of_permittedStep hrun
  obtain ⟨bs, hlayout, -, hwhole, -⟩ := heap_coalesced htrace
  exact ⟨s, htrace, bs, hlayout, hwhole (of_decide_eq_true hlive)⟩

end HeapClients

end TermOS.VM
