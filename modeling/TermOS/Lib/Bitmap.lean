import Mathlib.Data.Nat.Bitwise
import Mathlib.Data.List.GetD
import Mathlib.Tactic.IntervalCases

/-!
# Bit sets stored in byte arrays

Bit `i` of a byte array is bit `i % 8` of byte `i / 8`. Bits past the end of
the array read as set, so the clear bits of an array are always finitely many.
-/

namespace TermOS.Lib.Bitmap

/-! ## Section 1: Single bytes -/

theorem testBit_or_bit (b : UInt8) {j k : Nat} (hk : k < 8) :
    (b ||| (1 <<< UInt8.ofNat k)).toNat.testBit j = (b.toNat.testBit j || decide (j = k)) := by
  have hshift : ((1 : UInt8) <<< UInt8.ofNat k).toNat = 2 ^ k := by
    interval_cases k <;> rfl
  rw [UInt8.toNat_or, hshift, Nat.testBit_or, Nat.testBit_two_pow]
  simp only [eq_comm]

theorem testBit_and_not_bit (b : UInt8) {j k : Nat} (hj : j < 8) (hk : k < 8) :
    (b &&& ~~~(1 <<< UInt8.ofNat k)).toNat.testBit j = (b.toNat.testBit j && decide (j ≠ k)) := by
  have hshift : (~~~((1 : UInt8) <<< UInt8.ofNat k)).toNat.testBit j = decide (j ≠ k) := by
    interval_cases k <;> interval_cases j <;> rfl
  rw [UInt8.toNat_and, Nat.testBit_and, hshift]

/-- Masking with a single bit tests that bit. -/
theorem and_bit_eq_zero_iff (b : UInt8) {k : Nat} (hk : k < 8) :
    b &&& (1 <<< UInt8.ofNat k) = 0 ↔ b.toNat.testBit k = false := by
  have hshift : ((1 : UInt8) <<< UInt8.ofNat k).toNat = 2 ^ k := by
    interval_cases k <;> rfl
  rw [← UInt8.toNat_inj, UInt8.toNat_and, hshift, Nat.and_two_pow]
  cases b.toNat.testBit k <;> simp

/-- A byte other than `0xFF` has a clear bit. -/
theorem exists_clear_bit {b : UInt8} (h : b ≠ 0xFF) : ∃ k, k < 8 ∧ b.toNat.testBit k = false := by
  by_contra hall
  push Not at hall
  apply h
  rw [← UInt8.toNat_inj]
  apply Nat.eq_of_testBit_eq
  intro i
  by_cases hi : i < 8
  · have hbit := hall i hi
    simp only [ne_eq, Bool.not_eq_false] at hbit
    rw [hbit]
    interval_cases i <;> rfl
  · have hpow : 2 ^ 8 ≤ 2 ^ i := Nat.pow_le_pow_right (by omega) (by omega)
    have hb : b.toNat < 2 ^ i := lt_of_lt_of_le b.toNat_lt hpow
    rw [Nat.testBit_lt_two_pow hb, Nat.testBit_lt_two_pow]
    exact lt_of_lt_of_le (by decide) hpow

/-! ## Section 2: Byte arrays -/

/-- Bit `i` of the array. -/
def test (bm : List UInt8) (i : Nat) : Bool :=
  (bm.getD (i / 8) 0xFF).toNat.testBit (i % 8)

/-- Set bit `i`. -/
def set (bm : List UInt8) (i : Nat) : List UInt8 :=
  bm.modify (i / 8) fun b => b ||| (1 <<< UInt8.ofNat (i % 8))

/-- Clear bit `i`. -/
def clear (bm : List UInt8) (i : Nat) : List UInt8 :=
  bm.modify (i / 8) fun b => b &&& ~~~(1 <<< UInt8.ofNat (i % 8))

@[simp] theorem length_set (bm : List UInt8) (i : Nat) : (set bm i).length = bm.length := by
  simp [set]

@[simp] theorem length_clear (bm : List UInt8) (i : Nat) : (clear bm i).length = bm.length := by
  simp [clear]

private theorem getD_modify (bm : List UInt8) (f : UInt8 → UInt8) {i j : Nat}
    (hi : i < bm.length) :
    (bm.modify i f).getD j 0xFF = if i = j then f (bm.getD j 0xFF) else bm.getD j 0xFF := by
  simp only [List.getD_eq_getElem?_getD, List.getElem?_modify]
  split
  · next h =>
    subst h
    simp [hi]
  · next h => simp

theorem test_of_length_le {bm : List UInt8} {i : Nat} (h : bm.length ≤ i / 8) :
    test bm i = true := by
  have hlt : i % 8 < 8 := Nat.mod_lt _ (by omega)
  rw [test, List.getD_eq_default _ _ h]
  interval_cases i % 8 <;> rfl

theorem test_set {bm : List UInt8} {i : Nat} (hi : i / 8 < bm.length) (j : Nat) :
    test (set bm i) j = (test bm j || decide (j = i)) := by
  simp only [test, set, getD_modify bm _ hi]
  by_cases h : i / 8 = j / 8
  · rw [if_pos h, testBit_or_bit _ (Nat.mod_lt _ (by omega))]
    congr 1
    simp only [decide_eq_decide]
    omega
  · have hne : j ≠ i := by
      rintro rfl
      exact h rfl
    simp [h, hne]

theorem test_clear {bm : List UInt8} {i : Nat} (hi : i / 8 < bm.length) (j : Nat) :
    test (clear bm i) j = (test bm j && decide (j ≠ i)) := by
  simp only [test, clear, getD_modify bm _ hi]
  by_cases h : i / 8 = j / 8
  · rw [if_pos h, testBit_and_not_bit _ (Nat.mod_lt _ (by omega)) (Nat.mod_lt _ (by omega))]
    congr 1
    simp only [decide_eq_decide]
    omega
  · have hne : j ≠ i := by
      rintro rfl
      exact h rfl
    simp [h, hne]

theorem test_cons (b : UInt8) (bm : List UInt8) (i : Nat) :
    test (b :: bm) i = if i < 8 then b.toNat.testBit i else test bm (i - 8) := by
  by_cases h : i < 8
  · rw [if_pos h, test, Nat.div_eq_of_lt h, Nat.mod_eq_of_lt h, List.getD_cons_zero]
  · have hdiv : i / 8 = (i - 8) / 8 + 1 := by omega
    have hmod : i % 8 = (i - 8) % 8 := by omega
    rw [if_neg h, test, hdiv, List.getD_cons_succ, hmod, test]

/-- The array with every bit set. -/
theorem test_replicate (n i : Nat) : test (List.replicate n 0xFF) i = true := by
  have hlt : i % 8 < 8 := Nat.mod_lt _ (by omega)
  have hbyte : (List.replicate n (0xFF : UInt8)).getD (i / 8) 0xFF = 0xFF := by
    by_cases h : i / 8 < n
    · simp [List.getD_eq_getElem?_getD, h]
    · rw [List.getD_eq_default]
      simpa using h
  rw [test, hbyte]
  interval_cases i % 8 <;> rfl

end TermOS.Lib.Bitmap
