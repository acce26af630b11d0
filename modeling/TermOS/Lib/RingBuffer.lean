import Mathlib.Data.List.Basic
import Mathlib.Logic.Function.Basic

/-!
# Ring buffers

A ring of cells with two indices: values are put in at `head` and taken out at
`tail`, and one cell is left unused so that equal indices mean an empty ring. The
contents are the cells from `tail` up to `head`; putting in and taking out act on
them as on the two ends of a list.
-/

namespace TermOS.Lib

/-- A ring of `capacity` cells. -/
structure RingBuffer (α : Type*) (capacity : Nat) where
  cells : Nat → α
  head : Nat
  tail : Nat
  head_lt : head < capacity
  tail_lt : tail < capacity

namespace RingBuffer

variable {α : Type*} {capacity : Nat}

/-! ## Section 1: Operations -/

/-- The index behind another one. -/
def advance (capacity index : Nat) : Nat := (index + 1) % capacity

theorem advance_lt {index : Nat} (h : index < capacity) : advance capacity index < capacity :=
  Nat.mod_lt _ (Nat.zero_lt_of_lt h)

/-- Put a value in at `head`. -/
def put (b : RingBuffer α capacity) (value : α) : RingBuffer α capacity where
  cells := Function.update b.cells b.head value
  head := advance capacity b.head
  tail := b.tail
  head_lt := advance_lt b.head_lt
  tail_lt := b.tail_lt

/-- Leave out the value at `tail`. -/
def drop (b : RingBuffer α capacity) : RingBuffer α capacity where
  cells := b.cells
  head := b.head
  tail := advance capacity b.tail
  head_lt := b.head_lt
  tail_lt := advance_lt b.tail_lt

@[simp] theorem put_head (b : RingBuffer α capacity) (value : α) :
    (b.put value).head = advance capacity b.head := rfl

@[simp] theorem put_tail (b : RingBuffer α capacity) (value : α) : (b.put value).tail = b.tail := rfl

@[simp] theorem drop_head (b : RingBuffer α capacity) : b.drop.head = b.head := rfl

@[simp] theorem drop_tail (b : RingBuffer α capacity) : b.drop.tail = advance capacity b.tail := rfl

/-- How many cells are in use. -/
def count (b : RingBuffer α capacity) : Nat := (b.head + capacity - b.tail) % capacity

/-- The index of the `i`-th value. -/
def index (b : RingBuffer α capacity) (i : Nat) : Nat := (b.tail + i) % capacity

/-- The values in the order in which they are taken out. -/
def contents (b : RingBuffer α capacity) : List α :=
  (List.range b.count).map fun i => b.cells (b.index i)

/-! ## Section 2: Indices -/

variable {b : RingBuffer α capacity}

/-- Without division: the indices wrap at most once. -/
theorem count_eq (b : RingBuffer α capacity) :
    b.count = if b.tail ≤ b.head then b.head - b.tail else b.head + capacity - b.tail := by
  have hhead := b.head_lt
  have htail := b.tail_lt
  unfold count
  split
  · rw [show b.head + capacity - b.tail = b.head - b.tail + capacity by omega, Nat.add_mod_right,
      Nat.mod_eq_of_lt (by omega)]
  · rw [Nat.mod_eq_of_lt (by omega)]

theorem index_eq (b : RingBuffer α capacity) {i : Nat} (hi : i < capacity) :
    b.index i = if b.tail + i < capacity then b.tail + i else b.tail + i - capacity := by
  have htail := b.tail_lt
  unfold index
  split
  · rw [Nat.mod_eq_of_lt ‹_›]
  · rw [Nat.mod_eq_sub_mod (by omega), Nat.mod_eq_of_lt (by omega)]

theorem advance_eq {index : Nat} (h : index < capacity) :
    advance capacity index = if index + 1 < capacity then index + 1 else 0 := by
  unfold advance
  split
  · rw [Nat.mod_eq_of_lt ‹_›]
  · rw [show index + 1 = capacity by omega, Nat.mod_self]

theorem count_lt (b : RingBuffer α capacity) : b.count < capacity :=
  Nat.mod_lt _ (Nat.zero_lt_of_lt b.head_lt)

/-- The ring is full when `head` would reach `tail`. -/
theorem full_iff (b : RingBuffer α capacity) :
    advance capacity b.head = b.tail ↔ b.count + 1 = capacity := by
  have hhead := b.head_lt
  have htail := b.tail_lt
  rw [count_eq, advance_eq hhead]
  split <;> split <;> omega

theorem count_put (hroom : advance capacity b.head ≠ b.tail) (value : α) :
    (b.put value).count = b.count + 1 := by
  have hhead := b.head_lt
  have htail := b.tail_lt
  rw [advance_eq hhead] at hroom
  rw [count_eq, count_eq, put_head, put_tail, advance_eq hhead]
  split_ifs at hroom ⊢ <;> omega

theorem count_drop (hsome : b.head ≠ b.tail) : b.drop.count + 1 = b.count := by
  have hhead := b.head_lt
  have htail := b.tail_lt
  rw [count_eq, count_eq, drop_head, drop_tail, advance_eq htail]
  split_ifs <;> omega

/-- The cells in use are not the one at `head`. -/
theorem index_ne_head {i : Nat} (hi : i < b.count) : b.index i ≠ b.head := by
  have hhead := b.head_lt
  have htail := b.tail_lt
  have hcount := b.count_lt
  rw [b.index_eq (by omega)]
  rw [count_eq] at hi
  split_ifs at hi ⊢ <;> omega

/-- The cell at `head` comes behind those in use. -/
theorem index_count (b : RingBuffer α capacity) : b.index b.count = b.head := by
  have hhead := b.head_lt
  have htail := b.tail_lt
  rw [b.index_eq b.count_lt, count_eq]
  split_ifs <;> omega

theorem index_drop {i : Nat} (hi : i + 1 < capacity) : b.drop.index i = b.index (i + 1) := by
  have htail := b.tail_lt
  rw [b.drop.index_eq (by omega), b.index_eq hi, drop_tail, advance_eq htail]
  split_ifs <;> omega

/-! ## Section 3: Contents -/

/-- What is put in comes last. -/
theorem contents_put (hroom : advance capacity b.head ≠ b.tail) (value : α) :
    (b.put value).contents = b.contents ++ [value] := by
  have hkeep : ∀ i ∈ List.range b.count, (b.put value).cells ((b.put value).index i) =
      b.cells (b.index i) := by
    intro i hi
    exact Function.update_of_ne (index_ne_head (List.mem_range.mp hi)) _ _
  have hnew : (b.put value).cells ((b.put value).index b.count) = value := by
    show Function.update b.cells b.head value (b.index b.count) = value
    rw [index_count, Function.update_self]
  rw [contents, count_put hroom, List.range_succ, List.map_append, List.map_congr_left hkeep,
    List.map_singleton, hnew]
  rfl

/-- What is taken out comes first. -/
theorem contents_drop (hsome : b.head ≠ b.tail) :
    b.contents = b.cells b.tail :: b.drop.contents := by
  have hrest : ∀ i ∈ List.range b.drop.count, b.cells (b.index (i + 1)) =
      b.drop.cells (b.drop.index i) := by
    intro i hi
    have hcount := b.count_lt
    have hdrop := count_drop hsome
    rw [index_drop (by rw [List.mem_range] at hi; omega)]
    rfl
  have hfirst : b.index 0 = b.tail := Nat.mod_eq_of_lt b.tail_lt
  rw [contents, ← count_drop hsome, List.range_succ_eq_map, List.map_cons, List.map_map, hfirst]
  exact congrArg _ (List.map_congr_left hrest)

end RingBuffer

end TermOS.Lib
