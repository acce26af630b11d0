import TermOS.Lib.Memory

/-!
# Byte strings in memory

Little-endian encodings of numbers as lists of bytes, and memories that start
with a given list of bytes or hold it at some address. A field that was encoded
at some place of the list is read back there.
-/

namespace TermOS.Lib

/-- The `n` low bytes of `v`, the lowest first. -/
def encodeLE : Nat → Nat → List UInt8
  | 0, _ => []
  | n + 1, v => UInt8.ofNat v :: encodeLE n (v / 256)

@[simp] theorem length_encodeLE (n v : Nat) : (encodeLE n v).length = n := by
  induction n generalizing v with
  | zero => rfl
  | succ n ih => rw [encodeLE, List.length_cons, ih]

namespace Memory

/-- The memory that starts with `bytes` and continues with `rest`. -/
def ofBytes (bytes : List UInt8) (rest : Memory) : Memory := fun i => bytes[i]?.getD (rest i)

theorem ofBytes_eq_of_getElem? {bytes : List UInt8} (rest : Memory) {i : Nat} {b : UInt8}
    (h : bytes[i]? = some b) : ofBytes bytes rest i = b := by
  rw [ofBytes, h, Option.getD_some]

theorem ofBytes_append_right (xs ys : List UInt8) (rest : Memory) (i : Nat) :
    ofBytes (xs ++ ys) rest (xs.length + i) =
      ofBytes ys (fun j => rest (xs.length + j)) i := by
  rw [ofBytes, ofBytes, List.getElem?_append_right (Nat.le_add_right _ _), Nat.add_sub_cancel_left]

/-- Reads at two places see the same bytes. -/
theorem readLE_shift {m m' : Memory} {a b n : Nat} (h : ∀ i, i < n → m (a + i) = m' (b + i)) :
    m.readLE a n = m'.readLE b n := by
  induction n generalizing a b with
  | zero => rfl
  | succ n ih =>
    have hhead : m a = m' b := h 0 (by omega)
    have htail : m.readLE (a + 1) n = m'.readLE (b + 1) n := by
      apply ih
      intro i hi
      rw [Nat.add_assoc, Nat.add_assoc, Nat.add_comm 1 i]
      exact h (i + 1) (by omega)
    rw [readLE, readLE, hhead, htail]

/-- A read behind a prefix is a read in what follows the prefix. -/
theorem readLE_ofBytes_append (xs ys : List UInt8) (rest : Memory) {a : Nat}
    (n : Nat) (h : xs.length ≤ a) : (ofBytes (xs ++ ys) rest).readLE a n =
      (ofBytes ys fun j => rest (xs.length + j)).readLE (a - xs.length) n := by
  apply readLE_shift
  intro i _
  rw [← ofBytes_append_right]
  congr 1
  omega

/-- An encoded number is read back. -/
theorem readLE_ofBytes_encodeLE (n v : Nat) (ys : List UInt8) (rest : Memory) :
    (ofBytes (encodeLE n v ++ ys) rest).readLE 0 n = v % 256 ^ n := by
  induction n generalizing v rest with
  | zero => rw [readLE, Nat.pow_zero, Nat.mod_one]
  | succ n ih =>
    have hhead : ofBytes (encodeLE (n + 1) v ++ ys) rest 0 = UInt8.ofNat v :=
      ofBytes_eq_of_getElem? rest rfl
    have htail : (ofBytes (encodeLE (n + 1) v ++ ys) rest).readLE 1 n = v / 256 % 256 ^ n := by
      rw [← ih (v / 256) fun j => rest (1 + j)]
      exact readLE_ofBytes_append [UInt8.ofNat v] (encodeLE n (v / 256) ++ ys) rest n
        (Nat.le_refl 1)
    have hdigit : (UInt8.ofNat v).toNat = v % 256 := UInt8.toNat_ofNat'
    rw [readLE, hhead, htail, hdigit, Nat.pow_succ, Nat.mul_comm (256 ^ n) 256, Nat.mod_mul]

/-- The memory as seen from a pointer. -/
def advance (m : Memory) (p : Nat) : Memory := fun i => m (p + i)

@[simp] theorem advance_apply (m : Memory) (p i : Nat) : m.advance p i = m (p + i) := rfl

@[simp] theorem advance_zero (m : Memory) : m.advance 0 = m := by
  funext i
  rw [advance_apply, Nat.zero_add]

theorem advance_advance (m : Memory) (p q : Nat) : (m.advance p).advance q = m.advance (p + q) := by
  funext i
  simp only [advance_apply, Nat.add_assoc]

/-- `bytes` lie at `a`. -/
def Holds (m : Memory) (a : Nat) (bytes : List UInt8) : Prop :=
  ∀ i b, bytes[i]? = some b → m (a + i) = b

theorem Holds.append_iff {m : Memory} {a : Nat} {xs ys : List UInt8} :
    m.Holds a (xs ++ ys) ↔ m.Holds a xs ∧ m.Holds (a + xs.length) ys := by
  constructor
  · intro h
    constructor
    · intro i b hb
      apply h i b
      rw [List.getElem?_append_left (List.getElem?_eq_some_iff.mp hb).1, hb]
    · intro i b hb
      rw [Nat.add_assoc]
      apply h
      rw [List.getElem?_append_right (Nat.le_add_right _ _), Nat.add_sub_cancel_left, hb]
  · rintro ⟨hxs, hys⟩ i b hb
    by_cases hi : i < xs.length
    · rw [List.getElem?_append_left hi] at hb
      exact hxs i b hb
    · rw [List.getElem?_append_right (Nat.le_of_not_lt hi)] at hb
      have := hys _ b hb
      rwa [Nat.add_assoc, Nat.add_sub_cancel' (Nat.le_of_not_lt hi)] at this

theorem Holds.cons_iff {m : Memory} {a : Nat} {b : UInt8} {bs : List UInt8} :
    m.Holds a (b :: bs) ↔ m a = b ∧ m.Holds (a + 1) bs := by
  rw [← List.singleton_append, append_iff]
  have hone : m.Holds a [b] ↔ m a = b := by
    constructor
    · intro h
      exact h 0 b rfl
    · rintro rfl i c hc
      cases i with
      | zero => simpa using hc
      | succ i => simp at hc
  rw [hone, List.length_singleton]

/-- It only matters what the memory holds there. -/
theorem Holds.congr {m m' : Memory} {a : Nat} {bytes : List UInt8} (h : m.Holds a bytes)
    (hsame : ∀ i, i < bytes.length → m' (a + i) = m (a + i)) : m'.Holds a bytes := by
  intro i b hb
  rw [hsame i (List.getElem?_eq_some_iff.mp hb).1]
  exact h i b hb

theorem Holds.advance {m : Memory} {a : Nat} {bytes : List UInt8} (h : m.Holds a bytes) :
    (m.advance a).Holds 0 bytes := by
  intro i b hb
  rw [advance_apply, Nat.zero_add]
  exact h i b hb

/-- The memory that holds `bytes` from address 0 on and zeros behind them. -/
def zeroPadded (bytes : List UInt8) : Memory := fun i => bytes[i]?.getD 0

theorem holds_zeroPadded (a : Nat) (bytes : List UInt8) :
    Holds (fun x => zeroPadded bytes (x - a)) a bytes := by
  intro i b hb
  simp only [Nat.add_sub_cancel_left, zeroPadded, hb, Option.getD_some]

end Memory

end TermOS.Lib
