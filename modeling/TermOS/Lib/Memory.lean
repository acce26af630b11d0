import Mathlib.Data.Nat.Basic
import Mathlib.Tactic.Ring

/-!
# Byte-addressed memory

A memory is a total function from addresses to bytes. Multi-byte values are
little-endian. Every write comes with two facts: what a read at the written
place returns, and that a read at a disjoint place is unchanged. Proofs about
programs use these two facts only and never look at single bytes again.
-/

namespace TermOS.Lib

/-- A byte-addressed memory. -/
abbrev Memory := Nat → UInt8

namespace Memory

/-! ## Section 1: Blocks -/

/-- Write one byte. -/
def setByte (m : Memory) (a : Nat) (b : UInt8) : Memory :=
  fun x => if x = a then b else m x

/-- Fill `n` bytes from `a` with `b`. -/
def fill (m : Memory) (a n : Nat) (b : UInt8) : Memory :=
  fun x => if a ≤ x ∧ x < a + n then b else m x

/-- Overwrite `n` bytes from `a` with the first `n` bytes of `src`. -/
def blit (m : Memory) (a n : Nat) (src : Nat → UInt8) : Memory :=
  fun x => if a ≤ x ∧ x < a + n then src (x - a) else m x

@[simp] theorem setByte_same (m : Memory) (a : Nat) (b : UInt8) : m.setByte a b a = b := by
  simp [setByte]

theorem setByte_ne (m : Memory) {a x : Nat} (b : UInt8) (h : x ≠ a) : m.setByte a b x = m x := by
  simp [setByte, h]

theorem fill_inside (m : Memory) {a n x : Nat} (b : UInt8) (h₁ : a ≤ x) (h₂ : x < a + n) :
    m.fill a n b x = b := by
  simp [fill, h₁, h₂]

theorem fill_outside (m : Memory) {a n x : Nat} (b : UInt8) (h : x < a ∨ a + n ≤ x) :
    m.fill a n b x = m x := by
  have : ¬ (a ≤ x ∧ x < a + n) := by omega
  simp [fill, this]

theorem blit_inside (m : Memory) {a n x : Nat} (src : Nat → UInt8) (h₁ : a ≤ x) (h₂ : x < a + n) :
    m.blit a n src x = src (x - a) := by
  simp [blit, h₁, h₂]

theorem blit_outside (m : Memory) {a n x : Nat} (src : Nat → UInt8) (h : x < a ∨ a + n ≤ x) :
    m.blit a n src x = m x := by
  have : ¬ (a ≤ x ∧ x < a + n) := by omega
  simp [blit, this]

theorem blit_zero (m : Memory) (a : Nat) (src : Nat → UInt8) : m.blit a 0 src = m := by
  funext x
  exact blit_outside m src (by omega)

theorem setByte_eq_blit (m m' : Memory) (destination source : Nat) :
    m.setByte destination (m' source) = m.blit destination 1 fun i => m' (source + i) := by
  funext x
  by_cases hx : x = destination
  · subst hx
    rw [setByte_same, blit_inside m _ (by omega) (by omega), Nat.sub_self, Nat.add_zero]
  · rw [setByte_ne m _ hx, blit_outside m _ (by omega)]

theorem blit_congr (m : Memory) (a : Nat) {n : Nat} {src src' : Nat → UInt8}
    (h : ∀ i, i < n → src i = src' i) : m.blit a n src = m.blit a n src' := by
  funext x
  by_cases hx : a ≤ x ∧ x < a + n
  · rw [blit_inside m src hx.1 hx.2, blit_inside m src' hx.1 hx.2, h (x - a) (by omega)]
  · rw [blit_outside m src (by omega), blit_outside m src' (by omega)]

/-- Two adjacent blocks are one block. -/
theorem blit_append (m : Memory) (a n k : Nat) (src : Nat → UInt8) :
    (m.blit a n src).blit (a + n) k (fun i => src (n + i)) = m.blit a (n + k) src := by
  funext x
  by_cases hhead : a ≤ x ∧ x < a + n
  · rw [blit_outside _ _ (by omega), blit_inside m src hhead.1 hhead.2,
      blit_inside m src (by omega) (by omega)]
  · by_cases htail : a + n ≤ x ∧ x < a + (n + k)
    · rw [blit_inside _ _ htail.1 (by omega), blit_inside m src (by omega) (by omega)]
      congr 1
      omega
    · rw [blit_outside _ _ (by omega), blit_outside m src (by omega),
        blit_outside m src (by omega)]

/-! ## Section 2: Little-endian values -/

/-- Read an `n`-byte little-endian value at `a`. -/
def readLE (m : Memory) : Nat → Nat → Nat
  | _, 0 => 0
  | a, n + 1 => (m a).toNat + 256 * readLE m (a + 1) n

/-- Write the `n` low bytes of `v` at `a`, little-endian. -/
def writeLE (m : Memory) (a n v : Nat) : Memory :=
  fun x => if a ≤ x ∧ x < a + n then UInt8.ofNat (v / 256 ^ (x - a)) else m x

theorem readLE_congr {m m' : Memory} {a n : Nat}
    (h : ∀ x, a ≤ x → x < a + n → m x = m' x) : readLE m a n = readLE m' a n := by
  induction n generalizing a with
  | zero => rfl
  | succ n ih =>
    have hhead : m a = m' a := h a (Nat.le_refl _) (by omega)
    have htail : readLE m (a + 1) n = readLE m' (a + 1) n :=
      ih fun x hx₁ hx₂ => h x (by omega) (by omega)
    simp only [readLE, hhead, htail]

theorem readLE_lt (m : Memory) (a n : Nat) : readLE m a n < 256 ^ n := by
  induction n generalizing a with
  | zero => simp [readLE]
  | succ n ih =>
    have hb : (m a).toNat < 256 := (m a).toNat_lt
    have ht := ih (a + 1)
    simp only [readLE, Nat.pow_succ]
    omega

/-- A byte of the block is a base-256 digit of the value read from it. -/
theorem byte_readLE (m : Memory) {a n i : Nat} (hi : i < n) :
    UInt8.ofNat (readLE m a n / 256 ^ i) = m (a + i) := by
  induction n generalizing a i with
  | zero => omega
  | succ n ih =>
    have hb : (m a).toNat < 256 := (m a).toNat_lt
    cases i with
    | zero =>
      rw [readLE, Nat.pow_zero, Nat.div_one, Nat.add_zero, ← UInt8.toNat_inj]
      simp
    | succ i =>
      have hdiv : readLE m a (n + 1) / 256 ^ (i + 1) = readLE m (a + 1) n / 256 ^ i := by
        rw [Nat.pow_succ, Nat.mul_comm, ← Nat.div_div_eq_div_mul, readLE]
        congr 1
        omega
      rw [hdiv, ih (by omega)]
      congr 1
      omega

/-- A run of bytes that are the base-256 digits of `v` reads as `v`. -/
theorem readLE_of_digits {m : Memory} {a n v : Nat}
    (h : ∀ i, i < n → m (a + i) = UInt8.ofNat (v / 256 ^ i)) :
    readLE m a n = v % 256 ^ n := by
  induction n generalizing a v with
  | zero => simp [readLE, Nat.mod_one]
  | succ n ih =>
    have hhead : (m a).toNat = v % 256 := by
      have := h 0 (by omega)
      simp only [Nat.add_zero, Nat.pow_zero, Nat.div_one] at this
      simp [this]
    have htail : readLE m (a + 1) n = (v / 256) % 256 ^ n := by
      refine ih fun i hi => ?_
      have := h (i + 1) (by omega)
      rw [Nat.add_assoc, Nat.add_comm 1 i, this, Nat.div_div_eq_div_mul, Nat.pow_succ,
        Nat.mul_comm]
    rw [readLE, hhead, htail, Nat.pow_succ, Nat.mul_comm (256 ^ n) 256, Nat.mod_mul]

theorem readLE_writeLE_same (m : Memory) (a n : Nat) {v : Nat} (hv : v < 256 ^ n) :
    readLE (m.writeLE a n v) a n = v := by
  rw [readLE_of_digits (v := v), Nat.mod_eq_of_lt hv]
  intro i hi
  simp [writeLE, hi]

theorem writeLE_outside (m : Memory) {a n x : Nat} (v : Nat) (h : x < a ∨ a + n ≤ x) :
    m.writeLE a n v x = m x := by
  have : ¬ (a ≤ x ∧ x < a + n) := by omega
  simp [writeLE, this]

theorem readLE_writeLE_disjoint (m : Memory) {a n b k : Nat} (v : Nat)
    (h : b + k ≤ a ∨ a + n ≤ b) : readLE (m.writeLE a n v) b k = readLE m b k :=
  readLE_congr fun _ _ _ => writeLE_outside m v (by omega)

theorem readLE_fill_disjoint (m : Memory) {a n b k : Nat} (v : UInt8)
    (h : b + k ≤ a ∨ a + n ≤ b) : readLE (m.fill a n v) b k = readLE m b k :=
  readLE_congr fun _ _ _ => fill_outside m v (by omega)

theorem readLE_setByte_disjoint (m : Memory) {a b k : Nat} (v : UInt8)
    (h : b + k ≤ a ∨ a + 1 ≤ b) : readLE (m.setByte a v) b k = readLE m b k :=
  readLE_congr fun _ _ _ => setByte_ne m v (by omega)

theorem readLE_fill_zero (m : Memory) {a n b k : Nat} (h₁ : a ≤ b) (h₂ : b + k ≤ a + n) :
    readLE (m.fill a n 0) b k = 0 := by
  rw [readLE_of_digits (v := 0), Nat.zero_mod]
  intro i hi
  rw [fill_inside m 0 (by omega) (by omega)]
  simp

/-! ## Section 3: 64-bit words -/

/-- The 64-bit word at `a`. -/
abbrev word (m : Memory) (a : Nat) : Nat := readLE m a 8

/-- Store a 64-bit word at `a`. -/
abbrev setWord (m : Memory) (a v : Nat) : Memory := m.writeLE a 8 v

theorem word_lt (m : Memory) (a : Nat) : m.word a < 2 ^ 64 := by
  have := readLE_lt m a 8
  norm_num at this ⊢
  exact this

theorem word_setWord_same (m : Memory) (a : Nat) {v : Nat} (hv : v < 2 ^ 64) :
    (m.setWord a v).word a = v :=
  readLE_writeLE_same m a 8 (by norm_num at hv ⊢; exact hv)

/-- A word keeps the low 64 bits of what is stored in it. -/
theorem word_setWord (m : Memory) (a v : Nat) : (m.setWord a v).word a = v % 2 ^ 64 := by
  have hdigits : (m.setWord a v).word a = v % 256 ^ 8 := by
    apply readLE_of_digits
    intro i hi
    simp [writeLE, hi]
  rw [hdigits]
  norm_num

theorem word_setWord_disjoint (m : Memory) {a b : Nat} (v : Nat) (h : b + 8 ≤ a ∨ a + 8 ≤ b) :
    (m.setWord a v).word b = m.word b :=
  readLE_writeLE_disjoint m v h

/-- Storing a word that was read elsewhere copies its eight bytes. -/
theorem setWord_word_eq_blit (m m' : Memory) (destination source : Nat) :
    m.setWord destination (m'.word source) = m.blit destination 8 fun i => m' (source + i) := by
  funext x
  by_cases hx : destination ≤ x ∧ x < destination + 8
  · rw [blit_inside _ _ hx.1 hx.2]
    simp only [setWord, writeLE, hx, and_self, if_true]
    exact byte_readLE m' (by omega)
  · rw [blit_outside _ _ (by omega)]
    exact writeLE_outside m _ (by omega)

end Memory

end TermOS.Lib
