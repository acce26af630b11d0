import Mathlib.Data.Nat.Digits.Lemmas

/-!
# Numerals

The numeral of a number in a base, as the list of its digits with the first one in
front. It is the only list of digits with the right value and without a leading zero.
-/

namespace TermOS.Lib

/-- The digits have the value, and none of them is a leading zero. -/
structure Numeral (base : Nat) (digits : List Nat) (value : Nat) : Prop where
  digit_lt : ∀ digit ∈ digits, digit < base
  value_eq : Nat.ofDigits base digits.reverse = value
  not_leading_zero : digits.head? = some 0 → digits = [0]
  ne_nil : digits ≠ []

/-- The digits of a number in the order in which division finds them. Zero has one. -/
def lastDigits (base n : Nat) : List Nat := if n = 0 then [0] else Nat.digits base n

@[simp] theorem lastDigits_zero (base : Nat) : lastDigits base 0 = [0] := if_pos rfl

theorem lastDigits_of_ne_zero (base : Nat) {n : Nat} (h : n ≠ 0) :
    lastDigits base n = Nat.digits base n := if_neg h

theorem lastDigits_ne_nil (base n : Nat) : lastDigits base n ≠ [] := by
  by_cases h : n = 0
  · simp [h]
  · rw [lastDigits_of_ne_zero base h]
    exact Nat.digits_ne_nil_iff_ne_zero.mpr h

/-- One division. -/
theorem lastDigits_eq_cons {base : Nat} (hbase : 1 < base) (n : Nat) :
    lastDigits base n =
      n % base :: if n / base > 0 then lastDigits base (n / base) else [] := by
  by_cases hzero : n = 0
  · simp [hzero]
  · rw [lastDigits_of_ne_zero base hzero, Nat.digits_def' hbase (Nat.pos_of_ne_zero hzero)]
    by_cases hquotient : n / base > 0
    · rw [if_pos hquotient, lastDigits_of_ne_zero base (Nat.ne_of_gt hquotient)]
    · rw [if_neg hquotient, Nat.eq_zero_of_not_pos hquotient, Nat.digits_zero]

theorem length_lastDigits_le {base n room : Nat} (hbase : 1 < base) (hroom : 0 < room)
    (h : n < base ^ room) : (lastDigits base n).length ≤ room := by
  by_cases hzero : n = 0
  · rw [hzero, lastDigits_zero, List.length_singleton]
    exact hroom
  · rw [lastDigits_of_ne_zero base hzero]
    exact (Nat.digits_length_le_iff hbase n).mpr h

theorem ofDigits_lastDigits (base n : Nat) : Nat.ofDigits base (lastDigits base n) = n := by
  by_cases h : n = 0
  · simp [h]
  · rw [lastDigits_of_ne_zero base h, Nat.ofDigits_digits]

theorem numeral_lastDigits {base : Nat} (hbase : 1 < base) (n : Nat) :
    Numeral base (lastDigits base n).reverse n where
  digit_lt := by
    intro digit hdigit
    rw [List.mem_reverse] at hdigit
    by_cases h : n = 0
    · rw [h, lastDigits_zero, List.mem_singleton] at hdigit
      omega
    · rw [lastDigits_of_ne_zero base h] at hdigit
      exact Nat.digits_lt_base hbase hdigit
  value_eq := by rw [List.reverse_reverse, ofDigits_lastDigits]
  not_leading_zero := by
    intro hhead
    by_cases h : n = 0
    · simp [h]
    · rw [List.head?_reverse, lastDigits_of_ne_zero base h] at hhead
      have hlast := Nat.getLast_digit_ne_zero base h
      rw [List.getLast?_eq_some_getLast (Nat.digits_ne_nil_iff_ne_zero.mpr h)] at hhead
      exact absurd (Option.some.inj hhead) hlast
  ne_nil := by
    rw [ne_eq, List.reverse_eq_nil_iff]
    exact lastDigits_ne_nil base n

/-- A number has one numeral. -/
theorem Numeral.eq_lastDigits {base value : Nat} {digits : List Nat} (hbase : 1 < base)
    (h : Numeral base digits value) : digits = (lastDigits base value).reverse := by
  by_cases hzero : digits.head? = some 0
  · have hdigits := h.not_leading_zero hzero
    have hvalue := h.value_eq
    rw [hdigits] at hvalue ⊢
    rw [← hvalue]
    simp
  · have hlast : ∀ hne : digits.reverse ≠ [], digits.reverse.getLast hne ≠ 0 := by
      intro hne heq
      rw [List.getLast_reverse] at heq
      apply hzero
      rw [List.head?_eq_some_head h.ne_nil, heq]
    have hdigits := Nat.digits_ofDigits base hbase digits.reverse
      (fun digit hdigit => h.digit_lt digit (List.mem_reverse.mp hdigit)) hlast
    rw [h.value_eq] at hdigits
    have hvalue : value ≠ 0 := by
      intro hvalue
      rw [hvalue, Nat.digits_zero] at hdigits
      exact h.ne_nil (List.reverse_eq_nil_iff.mp hdigits.symm)
    rw [lastDigits_of_ne_zero base hvalue, hdigits, List.reverse_reverse]

end TermOS.Lib
