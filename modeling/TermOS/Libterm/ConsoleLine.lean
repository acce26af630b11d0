import TermOS.Libterm.ConsoleReadLine
import TermOS.Libterm.String

/-!
# The console as its callers see it

What `ConsolePrint`, `StringFormat` and `ConsoleReadLine` of `userspace/libterm/src/Console.c` do for
a program that calls them one after the other: a text is printed, a string is left in a buffer, and a
line is taken off the characters that are typed.

## Main Results

* `consolePrint_eq` - a text that fits into the buffer is printed as it is
* `stringFormat_cString` - the beginning of a text as a string
* `consoleReadLine_reads` - the line, its echo and the characters behind it
-/

namespace TermOS.Libterm

open TermOS.Lib TermOS.Device

/-! ## Section 1: Strings -/

/-- The string at an address, when it ends within so many characters. -/
def stringAt (m : Memory) : Nat → Nat → Option Libterm.CString
  | 0, _ => none
  | turns + 1, string =>
    if h : m string = 0 then some ⟨[], List.not_mem_nil⟩
    else (stringAt m turns (string + 1)).map fun rest =>
      ⟨m string :: rest.chars, List.not_mem_cons_of_ne_of_not_mem (Ne.symm h) rest.nul_not_mem⟩

section Strings

variable {m m' stack : Memory} {string size turns : Nat} {chars text : List UInt8} {result : Int32}
  {format : Libterm.CString} {args : List VaArg}

theorem stringAt_eq (h : Kernel.CString (m.advance string) chars) (hturns : chars.length < turns) :
    stringAt m turns string = some ⟨chars, h.1⟩ := by
  induction chars generalizing string turns with
  | nil =>
    obtain ⟨turns, rfl⟩ := Nat.exists_eq_add_of_lt hturns
    have hend : m string = 0 := Kernel.CString.nil_iff.mp h
    simp [stringAt, hend]
  | cons c chars ih =>
    obtain ⟨turns, rfl⟩ := Nat.exists_eq_add_of_lt (Nat.zero_lt_of_lt hturns)
    obtain ⟨hc, hfirst, hrest⟩ := Kernel.CString.cons_iff.mp h
    rw [Memory.advance_advance] at hrest
    have hat : m string = c := hfirst
    have htail : stringAt m (0 + turns) (string + 1) = some ⟨chars, hrest.1⟩ :=
      ih hrest (by simpa using hturns)
    rw [Nat.zero_add] at htail
    simpa [stringAt, hat, hc] using ⟨_, htail, rfl⟩

/-- The beginning of the text is the string in the buffer. -/
theorem BoundedFormat.cString (h : BoundedFormat m string size text result m') (hsize : 0 < size)
    (hnul : 0 ∉ text) : Kernel.CString (m'.advance string) (text.take (size - 1)) := by
  apply cString_advance_iff.mpr
  refine ⟨fun hmem => hnul (List.mem_of_mem_take hmem), ?_, ?_⟩
  · intro i b hb
    rw [← h.stored_eq hsize, storedText, List.getElem?_map] at hb
    obtain ⟨j, hj, rfl⟩ := Option.map_eq_some_iff.mp hb
    obtain ⟨hi, rfl⟩ := List.getElem?_eq_some_iff.mp hj
    simp
  · rw [List.length_take]
    exact h.nul_eq hsize

/-- What `StringFormat` leaves in its buffer, when it has enough turns for its format. -/
theorem stringFormat_returns (hlength : format.chars.length < 2 ^ 32)
    (htext : expansion format.chars args = some text) (hshort : text.length < 2 ^ 31)
    (hsize : size < 2 ^ 64) (hturns : format.chars.length < turns) :
    ∃ result m', stringFormat string size format args m turns = some (result, m') ∧
      BoundedFormat m string size text result m' := by
  have hloop := @formatLoop_eq string size format ⟨m, 0⟩ hlength turns 0 args text (Nat.zero_le _) htext
    (Nat.lt_of_le_of_lt (Nat.sub_le _ _) hturns)
  refine ⟨_, _, ?_, boundedFormat_addAll hsize hshort⟩
  rw [stringFormat, hloop, Option.map_some]

/-- A length that is not negative comes through the conversions as it was. -/
theorem toNat_toUInt64_toInt64 {n : Nat} (h : result.toInt = n) : result.toInt64.toUInt64.toNat = n := by
  have hwide : result.toInt64.toInt = n := (Int32.toInt_toInt64 result).trans h
  have hpos : (0 : Int64) ≤ result.toInt64 := by
    rw [Int64.le_iff_toInt_le, hwide]
    exact Int.natCast_nonneg n
  rw [Int64.toNat_toUInt64_of_le hpos]
  show result.toInt64.toInt.toNat = n
  rw [hwide, Int.toNat_natCast]

/-- `ConsolePrint` writes a text that its buffer can hold. -/
theorem consolePrint_eq (hlength : format.chars.length < 2 ^ 32)
    (htext : expansion format.chars args = some text) (hfits : text.length < kConsoleDefaultBufferSize)
    (hturns : format.chars.length < turns) : consolePrint stack format args turns = some text := by
  have hshort : text.length < 2 ^ 31 := lt_trans hfits (by decide)
  obtain ⟨result, m', hformat, h⟩ := @stringFormat_returns stack 0 kConsoleDefaultBufferSize turns text
    format args hlength htext hshort (by decide) hturns
  have hstored := h.stored_eq (by decide)
  rw [storedText, Nat.min_eq_right (Nat.le_sub_one_of_lt hfits),
    List.take_of_length_le (Nat.le_sub_one_of_lt hfits)] at hstored
  rw [consolePrint, hformat, Option.map_some]
  simp only [toNat_toUInt64_toInt64 h.result_eq, if_pos hfits]
  simpa using hstored

end Strings

/-! ## Section 2: A line -/

section Line

variable {m stack : Memory} {string turns : Nat} {size : UInt64} {output keys : List UInt8}

/-- What `ConsoleReadLine` has written and left, and what it has left in the buffer. -/
theorem consoleReadLine_reads (hsize : 1 ≤ size) (hturns : 3 < turns) (hkeys : 0 ∉ keys) :
    ∃ result, consoleReadLine string size stack turns keys m output = some result ∧
      result.1.output = output ++ (consoleLine size.toNat [] keys).1 ++
        (if (consoleLine size.toNat [] keys).2.isSome then literal ['\n'] else []) ∧
      result.2 = (consoleLine size.toNat [] keys).2.map Prod.snd ∧
      (∀ x, x < string ∨ string + size.toNat ≤ x → result.1.memory x = m x) ∧
      ∀ line rest, (consoleLine size.toNat [] keys).2 = some (line, rest) →
        line.length < size.toNat ∧ Kernel.CString (result.1.memory.advance string) line := by
  have hne : size ≠ 0 := by
    rintro rfl
    exact absurd hsize (by decide)
  have hpos : 0 < size.toNat := UInt64.le_iff_toNat_le.mp hsize
  obtain ⟨result, hrun, houtput, hleft, hi, hediting⟩ := @consoleReadLineLoop_reads m stack string
    turns size output [] keys ⟨m, 0, output⟩ hsize hturns hkeys rfl (editing_start hpos)
  have houtside := hediting.outside
  rw [consoleReadLine, if_neg hne, hrun, Option.map_some, finishLine]
  cases h : (consoleLine size.toNat [] keys).2 with
  | none =>
    have hwaits : result.2 = none := by
      rw [hleft, h]
      rfl
    refine ⟨_, rfl, ?_⟩
    simpa [hwaits, houtput] using houtside
  | some found =>
    obtain ⟨line, rest⟩ := found
    have hleaves : result.2 = some rest := by
      rw [hleft, h]
      rfl
    have hkept : line = consoleKept size.toNat [] keys := (lineRead_returns h).1
    rw [← hkept] at hi hediting
    obtain ⟨hstring, hclosed⟩ := hediting.close
    refine ⟨_, rfl, ?_⟩
    simp only [hleaves]
    refine ⟨?_, rfl, ?_, ?_⟩
    · simp [houtput, literal]
    · rwa [hi]
    · intro line' rest' hsame
      obtain ⟨rfl, rfl⟩ := Prod.mk.inj (Option.some.inj hsame)
      rw [hi]
      exact ⟨hediting.fits, hstring⟩

end Line

end TermOS.Libterm
