import Mathlib.Tactic.NormNum.Prime
import TermOS.Kernel.Bootinfo
import TermOS.Lib.XorLinear

/-!
# The kernel's random numbers

`RandInitialize` seeds a 64-bit state from the time stamp counter. `Rand` asks
the processor first, where it has `RDRAND`, and falls back on an xorshift step
of the state. The fallback walks through every nonzero value before it repeats,
from whatever seed and whichever calls the processor answers itself.
-/

namespace TermOS.Kernel

open Lib

/-! ## Section 1: The generator -/

/-- `kCPUFeatureRDRAND`. -/
def kCPUFeatureRDRAND : BitVec 64 := 1#64 <<< 22

/-- `OSCPUHasFeature`, over the features of the boot processor. -/
def osCPUHasFeature (features feature : BitVec 64) : Bool := features &&& feature != 0#64

/-- `RDTSC`: the two halves of the time stamp counter. -/
def rdtsc (lo hi : BitVec 32) : BitVec 64 := hi.setWidth 64 <<< 32 ||| lo.setWidth 64

/-- `RandInitialize`: the state it leaves. -/
def randInitialize (lo hi : BitVec 32) : BitVec 64 :=
  if rdtsc lo hi = 0#64 then BitVec.ofNat 64 bootinfoMagic else rdtsc lo hi

/-- `RandXorshift`: the new state, which is also what it returns. -/
def randXorshift (state : BitVec 64) : BitVec 64 :=
  let x := state ^^^ (state <<< 13)
  let x := x ^^^ (x >>> 7)
  x ^^^ (x <<< 17)

/-- What `rdrand` leaves in its register, and the carry flag. -/
structure RandHardware where
  value : BitVec 64
  ok : Bool

/-- `Rand`: what it returns, and the state after it. -/
def rand (features : BitVec 64) (hardware : RandHardware) (state : BitVec 64) : BitVec 64 × BitVec 64 :=
  if osCPUHasFeature features kCPUFeatureRDRAND && hardware.ok then (hardware.value, state)
  else (randXorshift state, randXorshift state)

/-- The call falls back on the state. -/
def FallsBack (features : BitVec 64) (hardware : RandHardware) : Prop :=
  (osCPUHasFeature features kCPUFeatureRDRAND && hardware.ok) = false

instance (features : BitVec 64) (hardware : RandHardware) : Decidable (FallsBack features hardware) :=
  inferInstanceAs (Decidable (_ = false))

/-- The state after the first `n` calls, with what the processor does in each. -/
def randState (features : BitVec 64) (hardware : Nat → RandHardware) (seed : BitVec 64) : Nat → BitVec 64
  | 0 => seed
  | n + 1 => (rand features (hardware n) (randState features hardware seed n)).2

/-- What call `n` returns. -/
def randResult (features : BitVec 64) (hardware : Nat → RandHardware) (seed : BitVec 64) (n : Nat) :
    BitVec 64 :=
  (rand features (hardware n) (randState features hardware seed n)).1

/-- How many of the first `n` calls fall back. -/
def fallbacks (features : BitVec 64) (hardware : Nat → RandHardware) : Nat → Nat
  | 0 => 0
  | n + 1 => fallbacks features hardware n + if FallsBack features (hardware n) then 1 else 0

/-! ## Section 2: The period of the fallback -/

theorem randXorshift_linear : XorLinear randXorshift :=
  (XorLinear.xor_shiftLeft 17).comp ((XorLinear.xor_ushiftRight 7).comp (XorLinear.xor_shiftLeft 13))

/-- The polynomial of the step, without its top bit. -/
def randPolynomial : Nat := 0x13ed4a358913201

/-- The number of nonzero states. -/
def randPeriod : Nat := 2 ^ 64 - 1

theorem randXorshift_satisfies (state : BitVec 64) :
    randXorshift^[64] state = XorLinear.eval randXorshift 64 randPolynomial state := by
  have hbits : ((List.range 64).all fun i => decide (randXorshift^[64] (BitVec.twoPow 64 i) =
      XorLinear.eval randXorshift 64 randPolynomial (BitVec.twoPow 64 i))) = true := by
    decide +kernel
  apply XorLinear.ext (randXorshift_linear.iterate 64) (XorLinear.eval_linear randXorshift_linear 64 _)
  intro i hi
  exact of_decide_eq_true (List.all_eq_true.mp hbits i (List.mem_range.mpr hi))

/-- The primes of the period. -/
theorem eq_of_prime_dvd_randPeriod {p : Nat} (hp : p.Prime) (hdvd : p ∣ randPeriod) :
    p = 3 ∨ p = 5 ∨ p = 17 ∨ p = 257 ∨ p = 641 ∨ p = 65537 ∨ p = 6700417 := by
  have hfactors : randPeriod = 3 * (5 * (17 * (257 * (641 * (65537 * 6700417))))) := by decide
  rw [hfactors] at hdvd
  simp only [hp.dvd_mul] at hdvd
  rcases hdvd with h | h | h | h | h | h | h
  · exact .inl ((Nat.prime_dvd_prime_iff_eq hp (by norm_num)).mp h)
  · exact .inr (.inl ((Nat.prime_dvd_prime_iff_eq hp (by norm_num)).mp h))
  · exact .inr (.inr (.inl ((Nat.prime_dvd_prime_iff_eq hp (by norm_num)).mp h)))
  · exact .inr (.inr (.inr (.inl ((Nat.prime_dvd_prime_iff_eq hp (by norm_num)).mp h))))
  · exact .inr (.inr (.inr (.inr (.inl ((Nat.prime_dvd_prime_iff_eq hp (by norm_num)).mp h)))))
  · exact .inr (.inr (.inr (.inr (.inr (.inl ((Nat.prime_dvd_prime_iff_eq hp (by norm_num)).mp h))))))
  · exact .inr (.inr (.inr (.inr (.inr (.inr ((Nat.prime_dvd_prime_iff_eq hp (by norm_num)).mp h))))))

/-- An inverse of the power at the period's part without the prime, minus one. -/
theorem exists_inverse {p : Nat} (hp : p.Prime) (hdvd : p ∣ randPeriod) :
    ∃ u, XorLinear.mul 64 randPolynomial 64 u
      (XorLinear.pow 64 randPolynomial 64 (randPeriod / p) 2 ^^^ 1) = 1 := by
  rcases eq_of_prime_dvd_randPeriod hp hdvd with rfl | rfl | rfl | rfl | rfl | rfl | rfl
  · exact ⟨0xd742ca58f5d785e2, by decide +kernel⟩
  · exact ⟨0xa3f64d1fb612f669, by decide +kernel⟩
  · exact ⟨0x63f43995a1b49645, by decide +kernel⟩
  · exact ⟨0x7d573a75b5260c4d, by decide +kernel⟩
  · exact ⟨0x1ead61508d13286, by decide +kernel⟩
  · exact ⟨0xed7248a2317d33b1, by decide +kernel⟩
  · exact ⟨0x483b08aa5d3741b5, by decide +kernel⟩

theorem randXorshift_hasPeriod : XorLinear.HasPeriod randXorshift 64 randPolynomial randPeriod where
  linear := randXorshift_linear
  two_le := by decide
  low_lt := by decide
  satisfies := randXorshift_satisfies
  lt := by decide
  pow_eq := by decide +kernel
  inverse := fun _ hp hdvd => exists_inverse hp hdvd

/-! ## Section 3: Runs of calls -/

theorem randInitialize_ne_zero (lo hi : BitVec 32) : randInitialize lo hi ≠ 0#64 := by
  rw [randInitialize]
  split
  · decide
  · assumption

section Calls

variable {features : BitVec 64} {hardware : Nat → RandHardware} {seed : BitVec 64}

theorem rand_of_fallsBack {h : RandHardware} (hback : FallsBack features h) (state : BitVec 64) :
    rand features h state = (randXorshift state, randXorshift state) := by
  rw [rand, hback]
  rfl

theorem rand_of_not_fallsBack {h : RandHardware} (hback : ¬ FallsBack features h) (state : BitVec 64) :
    rand features h state = (h.value, state) := by
  rw [rand, if_pos (Bool.eq_true_of_not_eq_false hback)]

/-- The state has taken one step for each call that fell back. -/
theorem randState_eq (n : Nat) :
    randState features hardware seed n = randXorshift^[fallbacks features hardware n] seed := by
  induction n with
  | zero => rfl
  | succ n ih =>
    by_cases hback : FallsBack features (hardware n)
    · simp only [randState, fallbacks, rand_of_fallsBack hback, if_pos hback, ih,
        Function.iterate_succ_apply']
    · simp only [randState, fallbacks, rand_of_not_fallsBack hback, if_neg hback, ih, Nat.add_zero]

theorem randResult_of_fallsBack {n : Nat} (hback : FallsBack features (hardware n)) :
    randResult features hardware seed n =
      randXorshift^[fallbacks features hardware n + 1] seed := by
  rw [randResult, rand_of_fallsBack hback, randState_eq, Function.iterate_succ_apply']

/-- Between two counts of fallbacks lies a call for every count. -/
theorem exists_fallback {n k i : Nat} (hnk : n ≤ k) (hlow : fallbacks features hardware n ≤ i)
    (hhigh : i < fallbacks features hardware k) :
    ∃ m, n ≤ m ∧ m < k ∧ FallsBack features (hardware m) ∧ fallbacks features hardware m = i := by
  induction k, hnk using Nat.le_induction with
  | base => omega
  | succ k hnk ih =>
    by_cases hi : i < fallbacks features hardware k
    · obtain ⟨m, hnm, hmk, hm⟩ := ih hi
      exact ⟨m, hnm, Nat.lt_succ_of_lt hmk, hm⟩
    · rw [fallbacks] at hhigh
      -- the call that passes the count is the one that falls back
      split at hhigh
      · next hback => exact ⟨k, hnk, Nat.lt_succ_self k, hback, by omega⟩
      · omega

end Calls

/-- From the seed `RandInitialize` leaves, whichever calls the processor answers: a call that falls
back returns the next value of the xorshift sequence, two of them return the same value only a whole
number of periods of `2 ^ 64 - 1` apart, and any stretch of calls with that many fallbacks returns
every nonzero value and zero in none of them. -/
theorem rand_full_period (features : BitVec 64) (hardware : Nat → RandHardware) (lo hi : BitVec 32) :
    let seed := randInitialize lo hi
    (∀ n, ¬ FallsBack features (hardware n) →
      randResult features hardware seed n = (hardware n).value) ∧
    (∀ m n, FallsBack features (hardware m) → FallsBack features (hardware n) →
      (randResult features hardware seed m = randResult features hardware seed n ↔
        fallbacks features hardware m ≡ fallbacks features hardware n [MOD 2 ^ 64 - 1])) ∧
    (∀ n k x, n ≤ k → fallbacks features hardware n + (2 ^ 64 - 1) ≤ fallbacks features hardware k →
      ((∃ m, n ≤ m ∧ m < k ∧ FallsBack features (hardware m) ∧
        randResult features hardware seed m = x) ↔ x ≠ 0#64)) := by
  intro seed
  have hseed : seed ≠ 0#64 := randInitialize_ne_zero lo hi
  have hperiod := randXorshift_hasPeriod
  refine ⟨fun n hback => ?_, fun m n hm hn => ?_, fun n k x hnk hcount => ⟨?_, fun hx => ?_⟩⟩
  · rw [randResult, rand_of_not_fallsBack hback]
  · rw [randResult_of_fallsBack hm, randResult_of_fallsBack hn,
      hperiod.iterate_eq_iff hseed (by decide)]
    exact ⟨Nat.ModEq.add_right_cancel' 1, Nat.ModEq.add_right 1⟩
  · rintro ⟨m, -, -, hback, rfl⟩
    rw [randResult_of_fallsBack hback]
    exact hperiod.iterate_ne_zero hseed _
  · -- the state at call `n` reaches the value within one period
    obtain ⟨i, hi, hix⟩ := hperiod.exists_iterate_eq rfl
      (hperiod.iterate_ne_zero hseed (fallbacks features hardware n + 1)) hx
    rw [← Function.iterate_add_apply] at hix
    have hlow : fallbacks features hardware n ≤ fallbacks features hardware n + i :=
      Nat.le_add_right _ _
    have hhigh : fallbacks features hardware n + i < fallbacks features hardware k :=
      (Nat.add_lt_add_left hi _).trans_le hcount
    obtain ⟨m, hnm, hmk, hback, hm⟩ := exists_fallback hnk hlow hhigh
    refine ⟨m, hnm, hmk, hback, ?_⟩
    rw [randResult_of_fallsBack hback, hm, ← hix]
    congr 1
    omega

end TermOS.Kernel
