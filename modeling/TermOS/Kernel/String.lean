import TermOS.Lib.Memory

/-!
# Memory routines of the kernel

Model of `MemorySet` and `MemoryCopy` in `kernel/src/lib/String.c`, loop by
loop, and the block operations they amount to.
-/

namespace TermOS.Kernel

open TermOS.Lib

/-! ## Section 1: `MemorySet` -/

/-- `MemorySet`: `count` turns of `*bytePointer++ = value`. -/
def memorySet (m : Memory) (destination : Nat) (value : UInt8) : Nat → Memory
  | 0 => m
  | count + 1 => memorySet (m.setByte destination value) (destination + 1) value count

theorem memorySet_eq_fill (m : Memory) (destination : Nat) (value : UInt8) (count : Nat) :
    memorySet m destination value count = m.fill destination count value := by
  induction count generalizing m destination with
  | zero =>
    funext x
    simp only [memorySet]
    rw [Memory.fill_outside _ _ (by omega)]
  | succ count ih =>
    rw [memorySet, ih]
    funext x
    by_cases hx : x = destination
    · subst hx
      rw [Memory.fill_outside _ _ (by omega), Memory.setByte_same,
        Memory.fill_inside _ _ (by omega) (by omega)]
    · by_cases hin : destination + 1 ≤ x ∧ x < destination + 1 + count
      · rw [Memory.fill_inside _ _ hin.1 hin.2, Memory.fill_inside _ _ (by omega) (by omega)]
      · rw [Memory.fill_outside _ _ (by omega), Memory.fill_outside _ _ (by omega),
          Memory.setByte_ne _ _ hx]

-- Callers use `memorySet_eq_fill`; the loop itself is never unrolled.
attribute [irreducible] memorySet

/-! ## Section 2: `MemoryCopy` inside one memory -/

/-- The loop `while (count >= 8)`, `words` turns of it. -/
def copyWords (m : Memory) (destination source : Nat) : Nat → Memory
  | 0 => m
  | words + 1 =>
    copyWords (m.setWord destination (m.word source)) (destination + 8) (source + 8) words

/-- The loop `while (count > 0)`. -/
def copyBytes (m : Memory) (destination source : Nat) : Nat → Memory
  | 0 => m
  | count + 1 => copyBytes (m.setByte destination (m source)) (destination + 1) (source + 1) count

/-- `MemoryCopy` -/
def memoryCopy (m : Memory) (destination source count : Nat) : Memory :=
  copyBytes (copyWords m destination source (count / 8))
    (destination + 8 * (count / 8)) (source + 8 * (count / 8)) (count % 8)

/-- The source lies at or above the destination, or wholly below it, so that
no byte is overwritten before it is read. -/
def CopySafe (destination source count : Nat) : Prop :=
  destination ≤ source ∨ source + count ≤ destination

theorem copyWords_eq_blit {m : Memory} {destination source words : Nat}
    (h : CopySafe destination source (8 * words)) :
    copyWords m destination source words =
      m.blit destination (8 * words) fun i => m (source + i) := by
  induction words generalizing m destination source with
  | zero => rw [copyWords, Nat.mul_zero, Memory.blit_zero]
  | succ words ih =>
    unfold CopySafe at h
    rw [copyWords, ih (by unfold CopySafe; omega), Memory.setWord_word_eq_blit]
    -- the rest of the source was not overwritten by the first word
    have hsource : ∀ i, i < 8 * words →
        (m.blit destination 8 fun i => m (source + i)) (source + 8 + i) = m (source + (8 + i)) := by
      intro i hi
      rw [Memory.blit_outside _ _ (by omega), Nat.add_assoc]
    rw [Memory.blit_congr _ _ hsource, Memory.blit_append, Nat.mul_succ, Nat.add_comm 8]

theorem copyBytes_eq_blit {m : Memory} {destination source count : Nat}
    (h : CopySafe destination source count) :
    copyBytes m destination source count =
      m.blit destination count fun i => m (source + i) := by
  induction count generalizing m destination source with
  | zero => rw [copyBytes, Memory.blit_zero]
  | succ count ih =>
    unfold CopySafe at h
    rw [copyBytes, ih (by unfold CopySafe; omega), Memory.setByte_eq_blit]
    have hsource : ∀ i, i < count →
        (m.blit destination 1 fun i => m (source + i)) (source + 1 + i) = m (source + (1 + i)) := by
      intro i hi
      rw [Memory.blit_outside _ _ (by omega), Nat.add_assoc]
    rw [Memory.blit_congr _ _ hsource, Memory.blit_append, Nat.add_comm 1]

/-- `MemoryCopy` moves the source block as a whole. -/
theorem memoryCopy_eq_blit {m : Memory} {destination source count : Nat}
    (h : CopySafe destination source count) :
    memoryCopy m destination source count =
      m.blit destination count fun i => m (source + i) := by
  unfold CopySafe at h
  have hwords : CopySafe destination source (8 * (count / 8)) := by
    unfold CopySafe
    omega
  have hbytes : CopySafe (destination + 8 * (count / 8)) (source + 8 * (count / 8)) (count % 8) := by
    unfold CopySafe
    omega
  have hsource : ∀ i, i < count % 8 →
      (m.blit destination (8 * (count / 8)) fun i => m (source + i)) (source + 8 * (count / 8) + i) =
        m (source + (8 * (count / 8) + i)) := by
    intro i hi
    rw [Memory.blit_outside _ _ (by omega), Nat.add_assoc]
  rw [memoryCopy, copyWords_eq_blit hwords, copyBytes_eq_blit hbytes, Memory.blit_congr _ _ hsource,
    Memory.blit_append, Nat.div_add_mod]

theorem copyWords_outside (m : Memory) {destination words x : Nat} (source : Nat)
    (hx : x < destination ∨ destination + 8 * words ≤ x) :
    copyWords m destination source words x = m x := by
  induction words generalizing m destination source with
  | zero => rfl
  | succ words ih =>
    rw [copyWords, ih _ _ (by omega)]
    exact Memory.writeLE_outside _ _ (by omega)

theorem copyBytes_outside (m : Memory) {destination count x : Nat} (source : Nat)
    (hx : x < destination ∨ destination + count ≤ x) :
    copyBytes m destination source count x = m x := by
  induction count generalizing m destination source with
  | zero => rfl
  | succ count ih =>
    rw [copyBytes, ih _ _ (by omega), Memory.setByte_ne _ _ (by omega)]

/-- `MemoryCopy` writes to its destination only, also when the blocks overlap. -/
theorem memoryCopy_outside (m : Memory) {destination count x : Nat} (source : Nat)
    (hx : x < destination ∨ destination + count ≤ x) :
    memoryCopy m destination source count x = m x := by
  have hsplit := Nat.div_add_mod count 8
  rw [memoryCopy, copyBytes_outside _ _ (by omega), copyWords_outside _ _ (by omega)]

/-! ## Section 3: What `MemoryCopy` reads -/

/-- The addresses that the loop `while (count >= 8)` reads. -/
def copyWordsReads (source : Nat) : Nat → List Nat
  | 0 => []
  | words + 1 => List.range' source 8 ++ copyWordsReads (source + 8) words

/-- The addresses that the loop `while (count > 0)` reads. -/
def copyBytesReads (source : Nat) : Nat → List Nat
  | 0 => []
  | count + 1 => source :: copyBytesReads (source + 1) count

/-- The addresses that `MemoryCopy` reads, in order. -/
def memoryCopyReads (source count : Nat) : List Nat :=
  copyWordsReads source (count / 8) ++ copyBytesReads (source + 8 * (count / 8)) (count % 8)

theorem copyWordsReads_eq (source words : Nat) :
    copyWordsReads source words = List.range' source (8 * words) := by
  induction words generalizing source with
  | zero => rfl
  | succ words ih =>
    rw [copyWordsReads, ih, Nat.mul_succ, Nat.add_comm (8 * words), ← List.range'_append_1]

theorem copyBytesReads_eq (source count : Nat) :
    copyBytesReads source count = List.range' source count := by
  induction count generalizing source with
  | zero => rfl
  | succ count ih => rw [copyBytesReads, ih, List.range'_succ]

/-- `MemoryCopy` reads its source block once. -/
theorem memoryCopyReads_eq (source count : Nat) :
    memoryCopyReads source count = List.range' source count := by
  rw [memoryCopyReads, copyWordsReads_eq, copyBytesReads_eq, List.range'_append_1, Nat.div_add_mod]

/-! ## Section 4: `MemoryCopy` from outside -/

/-- The word loop when the source lies outside the memory that is written. -/
def copyWordsFrom (image : Memory) (m : Memory) (destination source : Nat) : Nat → Memory
  | 0 => m
  | words + 1 => copyWordsFrom image (m.setWord destination (image.word source)) (destination + 8)
      (source + 8) words

/-- The byte loop when the source lies outside the memory that is written. -/
def copyBytesFrom (image : Memory) (m : Memory) (destination source : Nat) : Nat → Memory
  | 0 => m
  | count + 1 => copyBytesFrom image (m.setByte destination (image source)) (destination + 1)
      (source + 1) count

/-- `MemoryCopy` with a source outside the memory that is written. -/
def memoryCopyFrom (image : Memory) (m : Memory) (destination source count : Nat) : Memory :=
  copyBytesFrom image (copyWordsFrom image m destination source (count / 8))
    (destination + 8 * (count / 8)) (source + 8 * (count / 8)) (count % 8)

theorem copyWordsFrom_eq_blit (image m : Memory) (destination source words : Nat) :
    copyWordsFrom image m destination source words =
      m.blit destination (8 * words) fun i => image (source + i) := by
  induction words generalizing m destination source with
  | zero => rw [copyWordsFrom, Nat.mul_zero, Memory.blit_zero]
  | succ words ih =>
    rw [copyWordsFrom, ih, Memory.setWord_word_eq_blit, Nat.mul_succ, Nat.add_comm (8 * words),
      ← Memory.blit_append]
    simp only [Nat.add_assoc]

theorem copyBytesFrom_eq_blit (image m : Memory) (destination source count : Nat) :
    copyBytesFrom image m destination source count =
      m.blit destination count fun i => image (source + i) := by
  induction count generalizing m destination source with
  | zero => rw [copyBytesFrom, Memory.blit_zero]
  | succ count ih =>
    rw [copyBytesFrom, ih, Memory.setByte_eq_blit, Nat.add_comm count, ← Memory.blit_append]
    simp only [Nat.add_assoc]

theorem memoryCopyFrom_eq_blit (image m : Memory) (destination source count : Nat) :
    memoryCopyFrom image m destination source count =
      m.blit destination count fun i => image (source + i) := by
  rw [memoryCopyFrom, copyWordsFrom_eq_blit, copyBytesFrom_eq_blit]
  simp only [Nat.add_assoc]
  rw [Memory.blit_append m destination (8 * (count / 8)) (count % 8) fun i => image (source + i),
    Nat.div_add_mod]

end TermOS.Kernel
