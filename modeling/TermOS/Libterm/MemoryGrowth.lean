import TermOS.Libterm.Memory

/-!
# Growing the heap of a process

An allocation that finds no block asks the kernel for a region and starts over. The size
is rounded to 16 bytes, a header is added and the sum is rounded to pages, and each of the
three additions may wrap. If adding the header does, the region is a single page however
large the size is, and the allocation starts over for as long as the kernel has frames.

## Main Theorems

* `UserHeap.memoryAllocate_once_iff` - exactly the sizes for which the header does not wrap
  are served, or refused, with one region
-/

namespace TermOS.Libterm

open TermOS.Lib TermOS.Kernel TermOS.VM
open TermOS.OS (kOSHeapStart)

namespace UserHeap

variable {heap heap' : UserHeap} {bs : List Block} {live : List (Nat × Nat)} {c : Block}
  {size newSize granted pointer n : Nat} {grants : List Nat}

/-! ## Section 1: The size of the region -/

/-- The size can be rounded, but the sum with a header wraps. -/
def HeaderWraps (size : Nat) : Prop :=
  size + 15 < 2 ^ 64 ∧ 2 ^ 64 ≤ alignSize size + sizeofHeader

instance (size : Nat) : Decidable (HeaderWraps size) := inferInstanceAs (Decidable (_ ∧ _))

/-- These are the sizes from 47 to 16 below the top. -/
theorem headerWraps_iff : HeaderWraps size ↔ 2 ^ 64 - 47 ≤ size ∧ size ≤ 2 ^ 64 - 16 := by
  unfold HeaderWraps alignSize sizeofHeader
  omega

theorem alignSize_of_wraps (hwraps : 2 ^ 64 ≤ size + 15) (hsize : size < 2 ^ 64) :
    alignSize size = 0 := by
  unfold alignSize
  omega

/-- What is left of the sum is rounded to one page. -/
theorem HeaderWraps.pageAlign (h : HeaderWraps size) :
    pageAlign (alignSize size) = kMemoryPageSize := by
  obtain ⟨hlow, hhigh⟩ := headerWraps_iff.mp h
  unfold UserHeap.pageAlign alignSize sizeofHeader kMemoryPageSize
  omega

/-- Otherwise the kernel is asked for nothing, or for enough. -/
theorem pageAlign_large (hwraps : ¬ HeaderWraps size) (hsize : size < 2 ^ 64) :
    pageAlign (alignSize size) = 0 ∨
      alignSize size + sizeofHeader ≤ pageAlign (alignSize size) := by
  rw [headerWraps_iff] at hwraps
  unfold pageAlign alignSize sizeofHeader kMemoryPageSize
  omega

/-- No block is as large as such a size. -/
theorem Layout.firstFit_wraps (h : heap.Layout bs live) (hwraps : HeaderWraps size) :
    firstFit (alignSize size) bs = none := by
  cases hfit : firstFit (alignSize size) bs with
  | none => rfl
  | some found =>
    obtain ⟨xs, c, ys⟩ := found
    obtain ⟨rfl, -, hfits⟩ := firstFit_eq_some hfit
    have hstop := (h.arena adjacency_le).stop_le (c := c) (by simp)
    unfold Block.stop at hstop
    have hwide := hwraps.2
    have hlt := h.stop_lt
    omega

/-! ## Section 2: How often the kernel is asked -/

/-- However often the kernel grants what it is asked for, the allocation does not end. -/
theorem Layout.allocate_wraps (h : heap.Layout bs live) (hwraps : HeaderWraps size)
    (hgrants : ∀ granted ∈ grants, 0 < granted)
    (hroom : heap.heapCurrentPointer + grants.sum * kVMPageSize < 2 ^ 64) :
    memoryAllocate size grants heap = none := by
  have hlow := (headerWraps_iff.mp hwraps).1
  have hne : size ≠ 0 := by omega
  induction grants generalizing heap bs with
  | nil =>
    rw [memoryAllocate.eq_def, if_neg hne, h.head,
      findBlock_none h.linked (h.arena adjacency_le) h.turns (h.firstFit_wraps hwraps)]
    simp
  | cons granted grants ih =>
    have hpos : 0 < granted := hgrants granted List.mem_cons_self
    have hpage : pageAlign (alignSize size) = kMemoryPageSize := hwraps.pageAlign
    have hpages : pageAlign (alignSize size) ≠ 0 := by
      rw [hpage]
      decide
    have hgranted : pageAlign (alignSize size) ≤ granted * kVMPageSize := by
      rw [hpage]
      exact Nat.le_mul_of_pos_left _ hpos
    have hlarge : sizeofHeader ≤ pageAlign (alignSize size) := by
      rw [hpage]
      decide
    rw [List.sum_cons, Nat.add_mul] at hroom
    -- the page becomes a block, and the search is where it was
    rw [h.allocate_again hne (h.firstFit_wraps hwraps) hpages hgranted (by omega)]
    obtain ⟨hlayout, -, hpointer⟩ := h.append_region hlarge (by omega)
    apply ih hlayout
    · intro g hg
      exact hgrants g (List.mem_cons_of_mem _ hg)
    · rw [hpointer]
      omega

/-- The call ends, and asks the kernel for one region at most. -/
def EndsAtOnce (heap : UserHeap) (size granted : Nat) : Prop :=
  ∃ pointer heap', memoryAllocate size [granted] heap = some (pointer, heap')

/-- A size for which the header does not wrap needs one region at most. -/
theorem Layout.endsAtOnce (h : heap.Layout bs live) (hwraps : ¬ HeaderWraps size)
    (hsize : size < 2 ^ 64) (hroom : heap.heapCurrentPointer + granted * kVMPageSize < 2 ^ 64) :
    heap.EndsAtOnce size granted := by
  by_cases hne : size = 0
  · refine ⟨0, heap, ?_⟩
    rw [memoryAllocate.eq_def, if_pos hne]
  cases hfit : firstFit (alignSize size) bs with
  | some found =>
    obtain ⟨heap', hsome, -⟩ := h.allocate_carve hne hfit (Nat.zero_le _) [granted]
    exact ⟨_, heap', hsome⟩
  | none =>
    by_cases hshort : pageAlign (alignSize size) = 0 ∨
        granted * kVMPageSize < pageAlign (alignSize size)
    · exact ⟨_, _, h.allocate_refused hne hfit hshort []⟩
    · rw [not_or, Nat.not_lt] at hshort
      have hlarge := (pageAlign_large hwraps hsize).resolve_left hshort.1
      obtain ⟨heap', hsome, -⟩ :=
        h.allocate_region hne hfit (Nat.zero_le _) hlarge hshort.2 hroom []
      exact ⟨_, heap', hsome⟩

/-- An allocation asks the kernel for one region at most, whatever blocks there are and
whether or not it is granted all it asks for, exactly if the sum of the rounded size and a
header does not wrap; if it does, the allocation takes all the kernel grants. -/
theorem memoryAllocate_once_iff (h : heap.Layout bs live) (hsize : size < 2 ^ 64)
    (hgranted : 0 < granted) (hroom : heap.heapCurrentPointer + granted * kVMPageSize < 2 ^ 64) :
    (heap.EndsAtOnce size granted ↔ ¬ HeaderWraps size) ∧
      (HeaderWraps size → ∀ grants : List Nat, (∀ granted ∈ grants, 0 < granted) →
        heap.heapCurrentPointer + grants.sum * kVMPageSize < 2 ^ 64 →
        memoryAllocate size grants heap = none) := by
  refine ⟨⟨?_, fun hwraps => h.endsAtOnce hwraps hsize hroom⟩,
    fun hwraps grants hgrants hroom => h.allocate_wraps hwraps hgrants hroom⟩
  rintro ⟨pointer, heap', hsome⟩ hwraps
  have hnone : memoryAllocate size [granted] heap = none := by
    apply h.allocate_wraps hwraps
    · intro g hg
      rw [List.mem_singleton.mp hg]
      exact hgranted
    · rw [List.sum_singleton]
      exact hroom
  rw [hnone] at hsome
  cases hsome

/-- A process that has not allocated anything. -/
def empty : UserHeap := ⟨fun _ => 0, 0, kOSHeapStart⟩

theorem layout_empty : empty.Layout [] [] where
  head := rfl
  linked := trivial
  laid := Nat.le_refl _
  start_ge := by decide
  stop_lt := by decide
  held := by simp
  nodup := by simp

/-- A process that has allocated 100 bytes: what is left of its page is too small for 5000. -/
theorem memoryAllocate_once_iff_used : ∃ heap live,
    memoryAllocate 100 [1] empty = some (kOSHeapStart + sizeofHeader, heap) ∧
      firstFit (alignSize 5000) (carve sizeofHeader 16 (alignSize 100)
        (empty.regionBlock kMemoryPageSize)) = none ∧
      heap.Layout (carve sizeofHeader 16 (alignSize 100) (empty.regionBlock kMemoryPageSize)) live ∧
      (heap.EndsAtOnce 5000 2 ↔ ¬ HeaderWraps 5000) ∧ ¬ HeaderWraps 5000 := by
  obtain ⟨heap, hsome, hpointer, hallocated⟩ := @Layout.allocate_region empty [] [] 100 1 layout_empty
    (by decide) rfl 100 (by decide) (by decide) (by decide) (by decide) []
  have hpage : pageAlign (alignSize 100) = kMemoryPageSize := by decide
  have hnext : heap.heapCurrentPointer = kOSHeapStart + kMemoryPageSize := by
    rw [hpointer, hpage]
    rfl
  rw [hpage, List.nil_append] at hallocated
  refine ⟨heap, _, hsome, by decide, hallocated.layout, ?_, by decide⟩
  exact (memoryAllocate_once_iff hallocated.layout (by decide) (by decide) (by rw [hnext]; decide)).1

theorem not_memoryAllocate_once :
    ¬ ∀ (heap : UserHeap) bs live size granted, heap.Layout bs live → size < 2 ^ 64 →
      0 < granted → heap.heapCurrentPointer + granted * kVMPageSize < 2 ^ 64 →
      heap.EndsAtOnce size granted := by
  intro h
  obtain ⟨pointer, heap', hsome⟩ := h empty [] [] (2 ^ 64 - 16) 1 layout_empty (by decide)
    (by decide) (by decide)
  have hnone : (memoryAllocate (2 ^ 64 - 16) [1] empty).isNone = true := by decide +kernel
  rw [hsome] at hnone
  cases hnone

end UserHeap

end TermOS.Libterm
