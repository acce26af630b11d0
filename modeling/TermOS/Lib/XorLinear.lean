import Mathlib.Data.Nat.ModEq
import Mathlib.Data.Nat.Prime.Basic
import Mathlib.Dynamics.PeriodicPts.Defs
import Mathlib.Order.Interval.Finset.Nat

/-!
# Maps of bit vectors that respect exclusive or

Shift-register generators step a bit vector by a map that respects exclusive
or. Polynomials in such a map are numbers, bit `i` for the `i`-th power. Modulo
a polynomial that the map satisfies they are multiplied in as many steps as they
have bits, so that the period of a map on `2 ^ 64` states is decided by a few
thousand exclusive ors.
-/

namespace TermOS.Lib

/-- The map respects exclusive or. -/
def XorLinear {w : Nat} (T : BitVec w → BitVec w) : Prop := ∀ x y, T (x ^^^ y) = T x ^^^ T y

namespace XorLinear

variable {w : Nat} {T S : BitVec w → BitVec w}

/-! ## Section 1: Linear maps -/

theorem map_zero (hT : XorLinear T) : T 0#w = 0#w := by
  have h := hT 0#w 0#w
  rwa [BitVec.xor_self, BitVec.xor_self] at h

theorem comp (hT : XorLinear T) (hS : XorLinear S) : XorLinear (T ∘ S) := by
  intro x y
  simp only [Function.comp_apply, hS x y, hT (S x) (S y)]

theorem iterate (hT : XorLinear T) (n : Nat) : XorLinear T^[n] := by
  induction n with
  | zero => exact fun _ _ => rfl
  | succ n ih =>
    rw [Function.iterate_succ]
    exact ih.comp hT

/-- A shift to the left, added to what was shifted. -/
theorem xor_shiftLeft (k : Nat) : XorLinear fun x : BitVec w => x ^^^ x <<< k := by
  intro x y
  simp only [BitVec.shiftLeft_xor_distrib]
  ac_rfl

/-- A shift to the right, added to what was shifted. -/
theorem xor_ushiftRight (k : Nat) : XorLinear fun x : BitVec w => x ^^^ x >>> k := by
  intro x y
  simp only [BitVec.ushiftRight_xor_distrib]
  ac_rfl

/-- A linear map is determined by what it does to single bits. -/
theorem ext (hT : XorLinear T) (hS : XorLinear S)
    (h : ∀ i, i < w → T (BitVec.twoPow w i) = S (BitVec.twoPow w i)) (x : BitVec w) : T x = S x := by
  have hlow : ∀ k, k ≤ w → ∀ x : BitVec w, (∀ i, k ≤ i → x.getLsbD i = false) → T x = S x := by
    intro k
    induction k with
    | zero =>
      intro _ x hx
      have hzero : x = 0#w := BitVec.eq_of_getLsbD_eq fun i _ => by simpa using hx i (Nat.zero_le i)
      rw [hzero, hT.map_zero, hS.map_zero]
    | succ k ih =>
      intro hk x hx
      cases hbit : x.getLsbD k with
      | false =>
        apply ih (by omega) x
        intro i hi
        rcases Nat.eq_or_lt_of_le hi with rfl | hi
        · exact hbit
        · exact hx i hi
      | true =>
        -- without bit `k` the vector is covered by the induction
        have hrest : ∀ i, k ≤ i → (x ^^^ BitVec.twoPow w k).getLsbD i = false := by
          intro i hi
          rw [BitVec.getLsbD_xor, BitVec.getLsbD_twoPow]
          rcases Nat.eq_or_lt_of_le hi with rfl | hi
          · simp [hbit, Nat.lt_of_succ_le hk]
          · simp [hx i hi, Nat.ne_of_lt hi]
        have hback : x = (x ^^^ BitVec.twoPow w k) ^^^ BitVec.twoPow w k := by
          rw [BitVec.xor_assoc, BitVec.xor_self, BitVec.xor_zero]
        rw [hback, hT, hS, ih (by omega) _ hrest, h k hk]
  exact hlow w (Nat.le_refl w) x fun i hi => BitVec.getLsbD_of_ge x i hi

/-! ## Section 2: Polynomials in a map -/

/-- The polynomial with the low `k` bits of `q` as coefficients. -/
def eval (T : BitVec w → BitVec w) : Nat → Nat → BitVec w → BitVec w
  | 0, _, _ => 0#w
  | k + 1, q, v => (if q % 2 = 1 then v else 0#w) ^^^ T (eval T k (q / 2) v)

theorem eval_linear (hT : XorLinear T) (k : Nat) : ∀ q, XorLinear (eval T k q) := by
  induction k with
  | zero =>
    intro q x y
    exact (BitVec.xor_self).symm
  | succ k ih =>
    intro q x y
    simp only [eval, ih (q / 2) x y, hT (eval T k (q / 2) x)]
    split
    · ac_rfl
    · simp

theorem eval_xor (hT : XorLinear T) (k : Nat) :
    ∀ p q v, eval T k (p ^^^ q) v = eval T k p v ^^^ eval T k q v := by
  induction k with
  | zero => exact fun _ _ _ => (BitVec.xor_self).symm
  | succ k ih =>
    intro p q v
    rw [eval, eval, eval, Nat.xor_div_two, ih, hT]
    have hbit : (if (p ^^^ q) % 2 = 1 then v else 0#w) =
        (if p % 2 = 1 then v else 0#w) ^^^ (if q % 2 = 1 then v else 0#w) := by
      simp only [Nat.xor_mod_two_eq_one]
      by_cases hp : p % 2 = 1 <;> by_cases hq : q % 2 = 1 <;> simp [hp, hq]
    rw [hbit]
    ac_rfl

theorem eval_double (k q : Nat) (v : BitVec w) : eval T (k + 1) (2 * q) v = T (eval T k q v) := by
  rw [eval, if_neg (by omega), Nat.mul_div_cancel_left q (by omega), BitVec.zero_xor]

theorem eval_of_lt (hT : XorLinear T) (k : Nat) :
    ∀ {q}, q < 2 ^ k → ∀ v, eval T (k + 1) q v = eval T k q v := by
  induction k with
  | zero =>
    intro q hq v
    obtain rfl : q = 0 := by omega
    simp [eval, hT.map_zero]
  | succ k ih =>
    intro q hq v
    rw [eval.eq_def T (k + 1 + 1), eval.eq_def T (k + 1)]
    simp only [ih (show q / 2 < 2 ^ k by omega)]

theorem eval_one (hT : XorLinear T) (k : Nat) (v : BitVec w) : eval T (k + 1) 1 v = v := by
  have hzero : ∀ k, eval T k 0 v = 0#w := by
    intro k
    induction k with
    | zero => rfl
    | succ k ih => simp [eval, ih, hT.map_zero]
  rw [eval, if_pos rfl, show 1 / 2 = 0 from rfl, hzero, hT.map_zero, BitVec.xor_zero]

theorem eval_two_pow (hT : XorLinear T) (k : Nat) (v : BitVec w) :
    eval T (k + 1) (2 ^ k) v = T^[k] v := by
  induction k with
  | zero => exact eval_one hT 0 v
  | succ k ih => rw [Nat.pow_succ', eval_double, ih, Function.iterate_succ_apply']

/-! ## Section 3: Multiplication modulo a polynomial -/

/-- Times `T`, modulo the polynomial `2 ^ n + f`. -/
def xtime (n f q : Nat) : Nat := if 2 * q < 2 ^ n then 2 * q else 2 * q ^^^ (2 ^ n ^^^ f)

/-- The product of the low `k` bits of `p` with `q`, modulo the same polynomial. -/
def mul (n f : Nat) : Nat → Nat → Nat → Nat
  | 0, _, _ => 0
  | k + 1, p, q => (if p % 2 = 1 then q else 0) ^^^ xtime n f (mul n f k (p / 2) q)

/-- The `e`-th power, for an exponent of `k` bits. -/
def pow (n f : Nat) : Nat → Nat → Nat → Nat
  | 0, _, _ => 1
  | k + 1, e, q =>
    let half := pow n f k (e / 2) q
    let square := mul n f n half half
    if e % 2 = 1 then mul n f n square q else square

variable {n f : Nat}

theorem xtime_lt (hf : f < 2 ^ n) {q : Nat} (hq : q < 2 ^ n) : xtime n f q < 2 ^ n := by
  rw [xtime]
  split
  · assumption
  · next hge =>
    apply Nat.lt_pow_two_of_testBit
    intro i hi
    rw [Nat.testBit_xor, Nat.testBit_xor, Nat.testBit_lt_two_pow (hf.trans_le (Nat.pow_le_pow_right (by omega) hi)),
      Bool.xor_false, Nat.testBit_two_pow]
    rcases Nat.eq_or_lt_of_le hi with rfl | hi
    · -- bit `n` is set in both
      have hset : (2 * q).testBit n = true := by
        rw [Nat.testBit_eq_decide_div_mod_eq, decide_eq_true_eq]
        have hdiv : 2 * q / 2 ^ n = 1 := by
          apply Nat.div_eq_of_lt_le <;> omega
        rw [hdiv]
      simp [hset]
    · have hclear : (2 * q).testBit i = false := by
        apply Nat.testBit_lt_two_pow
        calc 2 * q < 2 ^ (n + 1) := by rw [Nat.pow_succ]; omega
          _ ≤ 2 ^ i := Nat.pow_le_pow_right (by omega) hi
      simp [hclear, Nat.ne_of_lt hi]

theorem eval_xtime (hT : XorLinear T) (hf : f < 2 ^ n) (hsat : ∀ v, T^[n] v = eval T n f v) {q : Nat}
    (hq : q < 2 ^ n) (v : BitVec w) : eval T n (xtime n f q) v = T (eval T n q v) := by
  rw [← eval_of_lt hT n (xtime_lt hf hq), xtime]
  split
  · exact eval_double n q v
  · rw [eval_xor hT, eval_xor hT, eval_double, eval_two_pow hT, eval_of_lt hT n hf, hsat,
      BitVec.xor_self, BitVec.xor_zero]

theorem mul_lt (hf : f < 2 ^ n) (k : Nat) : ∀ p {q}, q < 2 ^ n → mul n f k p q < 2 ^ n := by
  induction k with
  | zero => exact fun _ _ _ => Nat.two_pow_pos n
  | succ k ih =>
    intro p q hq
    rw [mul]
    apply Nat.xor_lt_two_pow
    · split
      · exact hq
      · exact Nat.two_pow_pos n
    · exact xtime_lt hf (ih (p / 2) hq)

/-- The product acts like one polynomial after the other. -/
theorem eval_mul (hT : XorLinear T) (hf : f < 2 ^ n) (hsat : ∀ v, T^[n] v = eval T n f v) (k : Nat) :
    ∀ p {q}, q < 2 ^ n → ∀ v, eval T n (mul n f k p q) v = eval T k p (eval T n q v) := by
  induction k with
  | zero =>
    intro p q _ v
    have h := eval_xor hT n 0 0 v
    rwa [Nat.xor_self, BitVec.xor_self] at h
  | succ k ih =>
    intro p q hq v
    rw [mul, eval_xor hT, eval_xtime hT hf hsat (mul_lt hf k _ hq), ih _ hq, eval]
    congr 1
    split
    · rfl
    · have h := eval_xor hT n 0 0 v
      rwa [Nat.xor_self, BitVec.xor_self] at h

theorem pow_lt (hf : f < 2 ^ n) (hn : 0 < n) (k : Nat) : ∀ e {q}, q < 2 ^ n → pow n f k e q < 2 ^ n := by
  induction k with
  | zero => exact fun _ _ _ => Nat.one_lt_two_pow (by omega)
  | succ k ih =>
    intro e q hq
    simp only [pow]
    split
    · exact mul_lt hf n _ hq
    · exact mul_lt hf n _ (ih (e / 2) hq)

/-- The power acts like the iterated polynomial. -/
theorem eval_pow (hT : XorLinear T) (hf : f < 2 ^ n) (hn : 0 < n)
    (hsat : ∀ v, T^[n] v = eval T n f v) (k : Nat) :
    ∀ {e q}, e < 2 ^ k → q < 2 ^ n → ∀ v, eval T n (pow n f k e q) v = (eval T n q)^[e] v := by
  induction k with
  | zero =>
    intro e q he _ v
    obtain rfl : e = 0 := by omega
    obtain ⟨m, rfl⟩ : ∃ m, n = m + 1 := ⟨n - 1, by omega⟩
    exact eval_one hT m v
  | succ k ih =>
    intro e q he hq v
    have hhalf := ih (e := e / 2) (q := q) (by omega) hq
    have hlt := pow_lt hf hn k (e / 2) hq
    have hsquare : ∀ v, eval T n (mul n f n (pow n f k (e / 2) q) (pow n f k (e / 2) q)) v =
        (eval T n q)^[e / 2 + e / 2] v := by
      intro v
      rw [eval_mul hT hf hsat n _ hlt, hhalf, hhalf, Function.iterate_add_apply]
    simp only [pow]
    split
    · next hodd =>
      rw [eval_mul hT hf hsat n _ hq, hsquare, ← Function.iterate_succ_apply]
      congr 1
      omega
    · next heven =>
      rw [hsquare]
      congr 1
      omega

/-! ## Section 4: The period of a map -/

theorem eval_of_le (hT : XorLinear T) {k q : Nat} (hq : q < 2 ^ k) (hk : k ≤ n) (v : BitVec w) :
    eval T n q v = eval T k q v := by
  induction n, hk using Nat.le_induction with
  | base => rfl
  | succ m hm ih =>
    rw [eval_of_lt hT m (hq.trans_le (Nat.pow_le_pow_right (by omega) hm)), ih]

theorem eval_two (hT : XorLinear T) (hn : 2 ≤ n) : eval T n 2 = T := by
  funext v
  rw [eval_of_le hT (k := 2) (by omega) hn]
  exact eval_two_pow hT 1 v

theorem eval_one_of_pos (hT : XorLinear T) (hn : 2 ≤ n) (v : BitVec w) : eval T n 1 v = v := by
  rw [eval_of_le hT (k := 1) (by omega) (by omega)]
  exact eval_one hT 0 v

/-- What decides that the map has period `N` on every nonzero vector: the map satisfies the
polynomial `2 ^ n + f`, modulo it the power `N` is one, and for every prime divisor `p` of `N` the
power `N / p` minus one has an inverse. -/
structure HasPeriod (T : BitVec w → BitVec w) (n f N : Nat) : Prop where
  linear : XorLinear T
  two_le : 2 ≤ n
  low_lt : f < 2 ^ n
  satisfies : ∀ v, T^[n] v = eval T n f v
  lt : N < 2 ^ n
  pow_eq : pow n f n N 2 = 1
  inverse : ∀ p, p.Prime → p ∣ N → ∃ u, mul n f n u (pow n f n (N / p) 2 ^^^ 1) = 1

namespace HasPeriod

variable {N : Nat}

theorem two_lt (h : HasPeriod T n f N) : 2 < 2 ^ n :=
  calc 2 < 2 ^ 2 := by omega
    _ ≤ 2 ^ n := Nat.pow_le_pow_right (by omega) h.two_le

theorem eval_pow_two (h : HasPeriod T n f N) {e : Nat} (he : e < 2 ^ n) (v : BitVec w) :
    eval T n (pow n f n e 2) v = T^[e] v := by
  have hpow := XorLinear.eval_pow h.linear h.low_lt (Nat.lt_of_lt_of_le (by omega) h.two_le)
    h.satisfies n he h.two_lt v
  rwa [eval_two h.linear h.two_le] at hpow

theorem isPeriodicPt (h : HasPeriod T n f N) (v : BitVec w) : Function.IsPeriodicPt T N v := by
  have hpow := h.eval_pow_two h.lt v
  rw [h.pow_eq, eval_one_of_pos h.linear h.two_le] at hpow
  exact hpow.symm

/-- No proper divisor of `N` that leaves out a prime is a period. -/
theorem eq_zero_of_iterate_div (h : HasPeriod T n f N) {p : Nat} (hp : p.Prime) (hdvd : p ∣ N)
    {v : BitVec w} (hv : T^[N / p] v = v) : v = 0#w := by
  obtain ⟨u, hu⟩ := h.inverse p hp hdvd
  have hlt : N / p < 2 ^ n := (Nat.div_le_self N p).trans_lt h.lt
  have hminus : pow n f n (N / p) 2 ^^^ 1 < 2 ^ n :=
    Nat.xor_lt_two_pow (pow_lt h.low_lt (Nat.lt_of_lt_of_le (by omega) h.two_le) n _ h.two_lt)
      (Nat.lt_trans (by omega) h.two_lt)
  -- the power minus one sends the vector to zero, and the inverse undoes it
  have hzero : eval T n (pow n f n (N / p) 2 ^^^ 1) v = 0#w := by
    rw [eval_xor h.linear, h.eval_pow_two hlt, eval_one_of_pos h.linear h.two_le, hv, BitVec.xor_self]
  calc v = eval T n 1 v := (eval_one_of_pos h.linear h.two_le v).symm
    _ = eval T n u (eval T n (pow n f n (N / p) 2 ^^^ 1) v) := by
        rw [← eval_mul h.linear h.low_lt h.satisfies n u hminus, hu]
    _ = 0#w := by rw [hzero, (eval_linear h.linear n u).map_zero]

/-- The period of every nonzero vector. -/
theorem minimalPeriod_eq (h : HasPeriod T n f N) {v : BitVec w} (hv : v ≠ 0#w) :
    Function.minimalPeriod T v = N := by
  obtain ⟨k, hk⟩ := (h.isPeriodicPt v).minimalPeriod_dvd
  by_contra hne
  have hk1 : k ≠ 1 := by
    rintro rfl
    exact hne (by rw [hk, Nat.mul_one])
  -- a prime of the quotient can be taken out of `N`
  obtain ⟨p, hp, j, rfl⟩ := Nat.exists_prime_and_dvd hk1
  have hdvd : p ∣ N := ⟨Function.minimalPeriod T v * j, by rw [hk]; ac_rfl⟩
  apply hv
  apply h.eq_zero_of_iterate_div hp hdvd
  have hdiv : N / p = Function.minimalPeriod T v * j := by
    rw [hk]
    exact Nat.div_eq_of_eq_mul_right hp.pos (by ac_rfl)
  rw [hdiv]
  exact (Function.isPeriodicPt_minimalPeriod T v).mul_const j

theorem iterate_ne_zero (h : HasPeriod T n f N) {v : BitVec w} (hv : v ≠ 0#w) (i : Nat) :
    T^[i] v ≠ 0#w := by
  intro hzero
  apply hv
  -- from zero the map never leaves zero, yet some multiple of the period comes back
  have hback : T^[i * N] v = v := (h.isPeriodicPt v).const_mul i
  rcases Nat.eq_zero_or_pos N with rfl | hN
  · exact h.eq_zero_of_iterate_div Nat.prime_two (dvd_zero 2) (by simp)
  · have hsplit : i * N = (i * N - i) + i := by
      have := Nat.le_mul_of_pos_right i hN
      omega
    rw [hsplit, Function.iterate_add_apply, hzero, (h.linear.iterate _).map_zero] at hback
    exact hback.symm

/-- Two iterates agree a whole number of periods apart, and only there. -/
theorem iterate_eq_iff (h : HasPeriod T n f N) {v : BitVec w} (hv : v ≠ 0#w) (hN : 0 < N) (i j : Nat) :
    T^[i] v = T^[j] v ↔ i ≡ j [MOD N] := by
  have hperiod := h.minimalPeriod_eq hv
  rw [← Function.iterate_mod_minimalPeriod_eq (n := i), ← Function.iterate_mod_minimalPeriod_eq (n := j),
    hperiod, Nat.ModEq]
  apply Function.iterate_eq_iterate_iff_of_lt_minimalPeriod
  · rw [hperiod]
    exact Nat.mod_lt i hN
  · rw [hperiod]
    exact Nat.mod_lt j hN

/-- A map whose period is the number of nonzero vectors takes each of them to every other. -/
theorem exists_iterate_eq (h : HasPeriod T n f N) (hN : N = 2 ^ w - 1) {v x : BitVec w}
    (hv : v ≠ 0#w) (hx : x ≠ 0#w) : ∃ i < N, T^[i] v = x := by
  let orbit := (Finset.range N).image fun i => (T^[i] v).toNat
  have hinj : Set.InjOn (fun i => (T^[i] v).toNat) (Finset.range N) := by
    intro i hi j hj hij
    have hperiod := h.minimalPeriod_eq hv
    refine Function.iterate_injOn_Iio_minimalPeriod (f := T) (x := v) ?_ ?_ (BitVec.eq_of_toNat_eq hij)
    · simpa [hperiod] using hi
    · simpa [hperiod] using hj
  have hsub : orbit ⊆ Finset.Ico 1 (2 ^ w) := by
    intro y hy
    obtain ⟨i, -, rfl⟩ := Finset.mem_image.mp hy
    have hne := h.iterate_ne_zero hv i
    rw [Finset.mem_Ico]
    refine ⟨?_, (T^[i] v).isLt⟩
    have : (T^[i] v).toNat ≠ 0 := fun h0 => hne (BitVec.eq_of_toNat_eq (by simpa using h0))
    omega
  have hall : orbit = Finset.Ico 1 (2 ^ w) := by
    apply Finset.eq_of_subset_of_card_le hsub
    rw [Nat.card_Ico, Finset.card_image_of_injOn hinj, Finset.card_range, hN]
  have hmem : x.toNat ∈ orbit := by
    rw [hall, Finset.mem_Ico]
    refine ⟨?_, x.isLt⟩
    have : x.toNat ≠ 0 := fun h0 => hx (BitVec.eq_of_toNat_eq (by simpa using h0))
    omega
  obtain ⟨i, hi, hix⟩ := Finset.mem_image.mp hmem
  exact ⟨i, Finset.mem_range.mp hi, BitVec.eq_of_toNat_eq hix⟩

end HasPeriod

end XorLinear

end TermOS.Lib
