import TermOS.Lib.Bytes

/-!
# String routines of the kernel

Model of the routines of `kernel/src/lib/String.c` that work on NUL-terminated
strings. A pointer to characters is the memory from that place on. An argument
that is a string literal or a path is the list of its characters, with the NUL
that follows them left out.
-/

namespace TermOS.Kernel

open TermOS.Lib

/-- The characters at a pointer are `s` and then a NUL. -/
def CString (p : Memory) (s : List UInt8) : Prop := 0 ∉ s ∧ p.Holds 0 (s ++ [0])

theorem CString.nil_iff {p : Memory} : CString p [] ↔ p 0 = 0 := by
  rw [CString, List.nil_append, Memory.Holds.cons_iff]
  constructor
  · rintro ⟨-, h, -⟩
    exact h
  · intro h
    exact ⟨List.not_mem_nil, h, fun i b hb => by simp at hb⟩

theorem CString.cons_iff {p : Memory} {c : UInt8} {cs : List UInt8} :
    CString p (c :: cs) ↔ c ≠ 0 ∧ p 0 = c ∧ CString (p.advance 1) cs := by
  have hshift : p.Holds (0 + 1) (cs ++ [0]) ↔ (p.advance 1).Holds 0 (cs ++ [0]) := by
    simp only [Memory.Holds, Memory.advance_apply, Nat.zero_add]
  rw [CString, List.cons_append, Memory.Holds.cons_iff, hshift, CString, List.mem_cons, not_or]
  tauto

theorem cString_zeroPadded {s : List UInt8} (h : 0 ∉ s) : CString (Memory.zeroPadded s) s := by
  refine ⟨h, fun i b hb => ?_⟩
  rw [Nat.zero_add, Memory.zeroPadded]
  by_cases hi : i < s.length
  · rw [List.getElem?_append_left hi] at hb
    rw [hb, Option.getD_some]
  · have hnone : s[i]? = none := List.getElem?_eq_none_iff.mpr (Nat.le_of_not_lt hi)
    rw [List.getElem?_append_right (Nat.le_of_not_lt hi)] at hb
    have hzero : b = 0 := by
      have := List.mem_of_getElem? hb
      simpa using this
    rw [hnone, hzero, Option.getD_none]

/-! ## Section 1: Comparison -/

/-- `StringCompare` -/
def stringCompare (firstString : Memory) : List UInt8 → Int
  | [] => (firstString 0).toNat
  | c :: cs =>
    if firstString 0 ≠ 0 ∧ firstString 0 = c then stringCompare (firstString.advance 1) cs
    else (firstString 0).toNat - c.toNat

/-- `StringCompareWithLimit` -/
def stringCompareWithLimit (firstString : Memory) : List UInt8 → Nat → Int
  | _, 0 => 0
  -- the second string is at its NUL
  | [], _ + 1 => (firstString 0).toNat
  | c :: cs, limit + 1 =>
    if firstString 0 ≠ c then (firstString 0).toNat - c.toNat
    else if firstString 0 = 0 then 0
    else stringCompareWithLimit (firstString.advance 1) cs limit

theorem toNat_sub_eq_zero_iff {a b : UInt8} : ((a.toNat : Int) - b.toNat = 0) ↔ a = b := by
  rw [← UInt8.toNat_inj]
  omega

/-- `StringCompare` returns 0 for equal strings only. -/
theorem stringCompare_eq_zero_iff {p : Memory} {s t : List UInt8} (h : CString p s) (ht : 0 ∉ t) :
    stringCompare p t = 0 ↔ s = t := by
  induction t generalizing p s with
  | nil =>
    rw [stringCompare]
    cases s with
    | nil =>
      rw [CString.nil_iff.mp h]
      simp
    | cons c cs =>
      obtain ⟨hc, hp, -⟩ := CString.cons_iff.mp h
      have hne : c.toNat ≠ 0 := fun heq => hc (UInt8.toNat_inj.mp heq)
      rw [hp]
      simp only [Int.natCast_eq_zero, hne, reduceCtorEq]
  | cons d ds ih =>
    rw [List.mem_cons, not_or] at ht
    rw [stringCompare]
    cases s with
    | nil =>
      have hzero := CString.nil_iff.mp h
      rw [if_neg (fun hne => hne.1 hzero), toNat_sub_eq_zero_iff, hzero]
      simp [ht.1]
    | cons c cs =>
      obtain ⟨hc, hp, htail⟩ := CString.cons_iff.mp h
      rw [hp]
      by_cases heq : c = d
      · rw [if_pos ⟨hc, heq⟩, ih htail ht.2, heq]
        simp
      · rw [if_neg (fun hand => heq hand.2), toNat_sub_eq_zero_iff]
        simp [heq]

/-- `StringCompareWithLimit` with the length of the second string as the limit. -/
theorem stringCompareWithLimit_of_holds {p : Memory} {s : List UInt8} (h : p.Holds 0 s) (hs : 0 ∉ s) :
    stringCompareWithLimit p s s.length = 0 := by
  induction s generalizing p with
  | nil => rfl
  | cons c cs ih =>
    rw [List.mem_cons, not_or] at hs
    obtain ⟨hp, htail⟩ := Memory.Holds.cons_iff.mp h
    have hshift : (p.advance 1).Holds 0 cs := htail.advance
    rw [List.length_cons, stringCompareWithLimit, hp, if_neg (fun hne => hne rfl),
      if_neg (Ne.symm hs.1)]
    exact ih hshift hs.2

/-! ## Section 2: Copying -/

/-- `StringCopy` -/
def stringCopy (m : Memory) (destination : Nat) : List UInt8 → Memory
  | [] => m.setByte destination 0
  | c :: cs => stringCopy (m.setByte destination c) (destination + 1) cs

/-- The second loop of `StringCopyWithLimit`: NULs up to the limit. -/
def stringPad (m : Memory) (destination : Nat) : Nat → Memory
  | 0 => m
  | limit + 1 => stringPad (m.setByte destination 0) (destination + 1) limit

/-- `StringCopyWithLimit` -/
def stringCopyWithLimit (m : Memory) (destination : Nat) (source : Memory) : Nat → Memory
  | 0 => m
  | limit + 1 =>
    if source 0 ≠ 0 then
      stringCopyWithLimit (m.setByte destination (source 0)) (destination + 1) (source.advance 1) limit
    else stringPad m destination (limit + 1)

theorem stringPad_below (m : Memory) {destination x : Nat} (limit : Nat) (h : x < destination) :
    stringPad m destination limit x = m x := by
  induction limit generalizing m destination with
  | zero => rfl
  | succ limit ih =>
    rw [stringPad, ih _ (by omega), Memory.setByte_ne _ _ (by omega)]

theorem stringCopyWithLimit_below (m source : Memory) {destination x : Nat} (limit : Nat)
    (h : x < destination) : stringCopyWithLimit m destination source limit x = m x := by
  induction limit generalizing m destination source with
  | zero => rfl
  | succ limit ih =>
    rw [stringCopyWithLimit]
    split
    · rw [ih _ _ (by omega), Memory.setByte_ne _ _ (by omega)]
    · exact stringPad_below _ _ h

/-- A string no longer than the limit arrives whole, provided a NUL stands
behind the limit. -/
theorem cString_stringCopyWithLimit {m source : Memory} {destination limit : Nat} {s : List UInt8}
    (h : CString source s) (hlength : s.length ≤ limit) (hnul : m (destination + limit) = 0) :
    CString ((stringCopyWithLimit m destination source limit).advance destination) s := by
  induction s generalizing m source destination limit with
  | nil =>
    rw [CString.nil_iff, Memory.advance_apply, Nat.add_zero]
    cases limit with
    | zero => simpa [stringCopyWithLimit] using hnul
    | succ limit =>
      rw [stringCopyWithLimit, if_neg (fun hne => hne (CString.nil_iff.mp h)), stringPad,
        stringPad_below _ _ (by omega), Memory.setByte_same]
  | cons c cs ih =>
    obtain ⟨hc, hp, htail⟩ := CString.cons_iff.mp h
    cases limit with
    | zero => simp at hlength
    | succ limit =>
      rw [stringCopyWithLimit, hp, if_pos hc, CString.cons_iff]
      refine ⟨hc, ?_, ?_⟩
      · rw [Memory.advance_apply, Nat.add_zero, stringCopyWithLimit_below _ _ _ (by omega)]
        exact Memory.setByte_same m destination c
      · have hcopy := @ih (m.setByte destination c) (source.advance 1) (destination + 1) limit htail
          (by simpa using hlength)
          (by rw [Memory.setByte_ne _ _ (by omega), Nat.add_assoc, Nat.add_comm 1]; exact hnul)
        rwa [Memory.advance_advance]

end TermOS.Kernel
