import TermOS.Lib.Bytes

/-!
# Packed records

A record without padding, as the list of its fields' widths and values: where each field lies in
memory, and what the whole record is as one little-endian number.
-/

namespace TermOS.Lib

/-- A field's width in bytes, and its value. -/
abbrev PackedField := Nat × Nat

/-- The bytes of the fields, one after the other. -/
def packed (fields : List PackedField) : List UInt8 := fields.flatMap fun f => encodeLE f.1 f.2

/-- The bytes that the fields take. -/
def packedSize (fields : List PackedField) : Nat := (fields.map Prod.fst).sum

/-- The record as one number; a field keeps the digits that it has room for. -/
def packedValue : List PackedField → Nat
  | [] => 0
  | (n, v) :: fields => v % 256 ^ n + 256 ^ n * packedValue fields

section Packed

variable {fields after : List PackedField} {m : Memory} {a n k v : Nat}

@[simp] theorem packed_cons (f : PackedField) (fields : List PackedField) :
    packed (f :: fields) = encodeLE f.1 f.2 ++ packed fields := List.flatMap_cons

@[simp] theorem packedSize_cons (f : PackedField) (fields : List PackedField) :
    packedSize (f :: fields) = f.1 + packedSize fields := List.sum_cons

@[simp] theorem length_packed (fields : List PackedField) :
    (packed fields).length = packedSize fields := by
  induction fields with
  | nil => rfl
  | cons f fields ih => rw [packed_cons, packedSize_cons, List.length_append, length_encodeLE, ih]

/-- A number that is read in two parts. -/
theorem Memory.readLE_add (m : Memory) (a n k : Nat) :
    m.readLE a (n + k) = m.readLE a n + 256 ^ n * m.readLE (a + n) k := by
  induction n generalizing a with
  | zero => simp [Memory.readLE]
  | succ n ih =>
    -- the first byte, and then the induction hypothesis one byte further
    have hnext := ih (a + 1)
    rw [Nat.add_assoc a 1 n, Nat.add_comm 1 n] at hnext
    rw [Nat.add_right_comm, Memory.readLE, Memory.readLE, hnext, Nat.pow_succ]
    ring

theorem Memory.Holds.readLE_encodeLE (h : m.Holds a (encodeLE n v)) : m.readLE a n = v % 256 ^ n := by
  induction n generalizing a v with
  | zero => simp [Memory.readLE, Nat.mod_one]
  | succ n ih =>
    rw [encodeLE, Holds.cons_iff] at h
    have hdigit : (UInt8.ofNat v).toNat = v % 256 := UInt8.toNat_ofNat'
    rw [Memory.readLE, h.1, ih h.2, hdigit, Nat.pow_succ, Nat.mul_comm (256 ^ n) 256, Nat.mod_mul]

/-- The record as it is read at once. -/
theorem Memory.Holds.readLE_packed (h : m.Holds a (packed fields)) :
    m.readLE a (packedSize fields) = packedValue fields := by
  induction fields generalizing a with
  | nil => rfl
  | cons f fields ih =>
    rw [packed_cons, Holds.append_iff, length_encodeLE] at h
    rw [packedSize_cons, readLE_add, h.1.readLE_encodeLE, ih h.2]
    rfl

/-- A field of the record. -/
theorem Memory.Holds.readLE_field (before : List PackedField)
    (h : m.Holds a (packed (before ++ (n, v) :: after))) :
    m.readLE (a + packedSize before) n = v % 256 ^ n := by
  rw [packed, List.flatMap_append, Holds.append_iff] at h
  have hrest : m.Holds (a + (packed before).length) (packed ((n, v) :: after)) := h.2
  rw [packed_cons, Holds.append_iff, length_packed] at hrest
  exact hrest.1.readLE_encodeLE

/-- An entry of a table whose entries have the same size. -/
theorem Memory.Holds.entry {α : Type*} {table : List α} {bytes : α → List UInt8} {size : Nat}
    (h : m.Holds a (table.flatMap bytes)) (hsize : ∀ x, (bytes x).length = size) {i : Nat} {x : α}
    (hx : table[i]? = some x) : m.Holds (a + size * i) (bytes x) := by
  induction table generalizing a i with
  | nil => simp at hx
  | cons y table ih =>
    rw [List.flatMap_cons, Holds.append_iff, hsize] at h
    cases i with
    | zero =>
      obtain rfl : y = x := by simpa using hx
      exact h.1
    | succ i =>
      have hnext := ih h.2 (by simpa using hx)
      rwa [Nat.add_assoc, Nat.add_comm size, ← Nat.mul_succ] at hnext

end Packed

end TermOS.Lib
