import TermOS.Device.IOConsole

/-!
# Numbers on the console

What the kernel prints for a number, beside what `StringFormat` writes for it in user
space.

## Main Theorems

* `decimal_agrees_iff` - the smallest 32-bit number is the only one that the kernel prints
  in another way
* `hexadecimal_agrees` - hexadecimal numbers are the same, behind the kernel's `0x`
-/

namespace TermOS.Device

open TermOS.Lib TermOS.Libterm

/-! ## Section 1: What the two formatters print -/

/-- `IOConsoleLog` prints the text for these arguments, on every console. -/
def Emits (fmt : Libterm.CString) (args : List VaArg) (text : List UInt8) : Prop :=
  ∀ console : IOConsole, ∃ turns console', ioConsoleLog fmt args turns console = some console' ∧
    console'.serial = console.serial ++ text

/-- `StringFormat` writes the text for these arguments, to every buffer. -/
def Writes (fmt : Libterm.CString) (args : List VaArg) (text : List UInt8) : Prop :=
  ∀ (m : Memory) (string size : Nat), size < 2 ^ 64 → ∃ turns result m',
    stringFormat string size fmt args m turns = some (result, m') ∧
      BoundedFormat m string size text result m'

/-- The canonical numeral of a number: a sign if it is negative, and its digits. -/
def DecimalText (n : Int) (text : List UInt8) : Prop :=
  ∃ digits, Numeral 10 digits n.natAbs ∧
    text = (if n < 0 then literal ['-'] else []) ++ digits.map decimalDigit

/-- The canonical hexadecimal numeral. -/
def HexadecimalText (n : Nat) (text : List UInt8) : Prop :=
  ∃ digits, Numeral 16 digits n ∧ text = digits.map hexDigit

/-- The hexadecimal digits of a number and zeros in front of them, sixteen in all. -/
def PaddedHexadecimalText (n : Nat) (text : List UInt8) : Prop :=
  ∃ digits : List Nat, (∀ digit ∈ digits, digit < 16) ∧ Nat.ofDigits 16 digits.reverse = n ∧
    digits.length = 16 ∧ text = digits.map hexDigit

section Formatters

variable {fmt : Libterm.CString} {args : List VaArg} {text : List UInt8}

/-- A short format whose characters print one text emits that text and no other. -/
theorem emits_iff {printed : List UInt8} (hshort : fmt.chars.length < 2 ^ 31)
    (h : ∀ turns console, logCharacters turns fmt.chars args console = some (console.putAll printed)) :
    Emits fmt args text ↔ text = printed := by
  constructor
  · intro hemits
    obtain ⟨turns, console', hlog, hserial⟩ := hemits serialConsole
    have hmore := ioConsoleLogLoop_mono hlog (Nat.le_max_left turns (fmt.chars.length + 1))
    rw [ioConsoleLogLoop_eq hshort List.drop_zero (Nat.zero_le _) (by omega), h] at hmore
    rw [← Option.some.inj hmore, IOConsole.putAll_serial] at hserial
    exact (List.append_cancel_left hserial).symm
  · rintro rfl console
    refine ⟨fmt.chars.length + 1, console.putAll text, ?_, IOConsole.putAll_serial _ _⟩
    rw [ioConsoleLog, ioConsoleLogLoop_eq hshort List.drop_zero (Nat.zero_le _) (Nat.lt_succ_self _), h]

theorem writes_of_expansion (hlength : fmt.chars.length < 2 ^ 32)
    (h : expansion fmt.chars args = some text) (hshort : text.length < 2 ^ 31) :
    Writes fmt args text := by
  intro m string size hsize
  have hloop := @formatLoop_eq string size fmt ⟨m, 0⟩ hlength (fmt.chars.length + 1) 0 args text
    (Nat.zero_le _) h (by omega)
  have hreturn : stringFormat string size fmt args m (fmt.chars.length + 1) = _ :=
    congrArg (Option.map _) hloop
  exact ⟨_, _, _, hreturn, boundedFormat_addAll hsize hshort⟩

/-- The digits of a text decide the number. -/
theorem decimalDigit_inj {a b : Nat} (ha : a < 10) (hb : b < 10) (h : decimalDigit a = decimalDigit b) :
    a = b := by
  have heq := congrArg UInt8.toNat h
  rw [decimalDigit, decimalDigit, UInt8.toNat_ofNat', UInt8.toNat_ofNat'] at heq
  have : '0'.toNat = 48 := rfl
  omega

theorem map_decimalDigit_inj {first second : List Nat} (hfirst : ∀ digit ∈ first, digit < 10)
    (hsecond : ∀ digit ∈ second, digit < 10)
    (h : first.map decimalDigit = second.map decimalDigit) : first = second := by
  induction first generalizing second with
  | nil =>
    rw [List.map_nil] at h
    exact (List.map_eq_nil_iff.mp h.symm).symm
  | cons digit first ih =>
    cases second with
    | nil => simp at h
    | cons digit' second =>
      rw [List.map_cons, List.map_cons, List.cons.injEq] at h
      rw [List.forall_mem_cons] at hfirst hsecond
      rw [decimalDigit_inj hfirst.1 hsecond.1 h.1, ih hfirst.2 hsecond.2 h.2]

end Formatters

/-! ## Section 2: Decimal numbers -/

/-- `"%d"` -/
def decimalFormat : Libterm.CString := ⟨literal ['%', 'd'], by decide⟩

theorem kernelDecimal_emits_iff (n : Int32) (text : List UInt8) :
    Emits decimalFormat [.int n] text ↔ text = kernelDecimal n.toInt64 := by
  apply emits_iff (by decide)
  intro turns console
  show (logConversion turns 'd'.toUInt8 [.int n] console).bind _ = _
  unfold logConversion
  rw [if_neg (by decide), if_neg (by decide), if_pos rfl]
  simp only [sIOConsolePrintDecimal_eq, Option.map_some, Option.bind_some]
  rfl

/-- What `StringFormat` writes is the canonical numeral. -/
theorem decimal_eq (n : Nat) : decimal n = (lastDigits 10 n).reverse.map decimalDigit := by
  unfold decimal
  by_cases h : n = 0
  · rw [if_pos h, h, lastDigits_zero]
    rfl
  · rw [if_neg h, lastDigits_of_ne_zero 10 h, List.map_reverse]

theorem decimal_writes (n : Int32) : Writes decimalFormat [.int n]
    ((if n.toInt < 0 then literal ['-'] else []) ++
      (lastDigits 10 n.toInt.natAbs).reverse.map decimalDigit) := by
  have hlength : (lastDigits 10 n.toInt.natAbs).length ≤ 10 := by
    apply length_lastDigits_le (by decide) (by decide)
    have := n.toInt_lt
    have := n.le_toInt
    omega
  apply writes_of_expansion (by decide)
  · rw [← decimal_eq]
    have hchars : decimalFormat.chars = ['%'.toUInt8, 'd'.toUInt8] := rfl
    rw [hchars, expansion, if_pos rfl]
    unfold conversionText
    rw [if_neg (by decide), if_neg (by decide), if_pos rfl]
    simp [expansion]
  · have hsign : (if n.toInt < 0 then literal ['-'] else []).length ≤ 1 := by
      split
      · exact Nat.le_refl 1
      · exact Nat.zero_le 1
    rw [List.length_append, List.length_map, List.length_reverse]
    omega

/-- The absolute value of an `int` is right but for the smallest one. -/
theorem toInt_abs {n : Int32} (h : n ≠ Int32.minValue) : (abs n).toInt = n.toInt.natAbs := by
  have hlt := n.toInt_lt
  have hle := n.le_toInt
  have hne : n.toInt ≠ -2 ^ 31 := fun heq => h (Int32.toInt_inj.mp heq)
  unfold abs
  split
  · next hneg =>
    have hneg' : n.toInt < 0 := Int32.lt_iff_toInt_lt.mp hneg
    rw [Int32.toInt_neg, Int.bmod_eq_of_le (by omega) (by omega)]
    omega
  · next hpos =>
    have hpos' : ¬ n.toInt < 0 := fun hneg => hpos (Int32.lt_iff_toInt_lt.mpr hneg)
    omega

theorem kernelDecimal_eq {n : Int32} (h : n ≠ Int32.minValue) :
    kernelDecimal n.toInt64 = (if n.toInt < 0 then literal ['-'] else []) ++
      (lastDigits 10 n.toInt.natAbs).reverse.map decimalDigit := by
  have habs := toInt_abs h
  have hpos : 0 ≤ (abs n).toInt64 := by
    rw [Int64.le_iff_toInt_le, Int32.toInt_toInt64, habs]
    exact Int.natCast_nonneg _
  have hunsigned : (abs n).toInt64.toUInt64.toNat = n.toInt.natAbs := by
    rw [Int64.toNat_toUInt64_of_le hpos, ← Int64.toNat_toInt, Int32.toInt_toInt64, habs,
      Int.toNat_natCast]
  have hsign : n.toInt64 < 0 ↔ n.toInt < 0 := by
    rw [Int64.lt_iff_toInt_lt, Int32.toInt_toInt64]
    rfl
  unfold kernelDecimal
  rw [Int32.toInt32_toInt64, hunsigned, List.map_reverse]
  simp only [hsign]

/-- The smallest number is printed as another one. -/
theorem kernelDecimal_minValue : kernelDecimal Int32.minValue.toInt64 =
    literal ['-'] ++ (lastDigits 10 18446744071562067968).reverse.map decimalDigit := by
  have hunsigned : (abs Int32.minValue.toInt64.toInt32).toInt64.toUInt64.toNat =
      18446744071562067968 := by decide
  unfold kernelDecimal
  rw [hunsigned, if_pos (by decide), List.map_reverse]

/-- A number has one canonical numeral. -/
theorem DecimalText.eq {n : Int} {text : List UInt8} (h : DecimalText n text) :
    text = (if n < 0 then literal ['-'] else []) ++
      (lastDigits 10 n.natAbs).reverse.map decimalDigit := by
  obtain ⟨digits, hdigits, rfl⟩ := h
  rw [hdigits.eq_lastDigits (by decide)]

theorem not_decimalText_minValue :
    ¬ DecimalText Int32.minValue.toInt (kernelDecimal Int32.minValue.toInt64) := by
  intro htext
  have heq := htext.eq
  rw [kernelDecimal_minValue, if_pos (by decide)] at heq
  have hdigits := map_decimalDigit_inj
    (fun digit hdigit => (numeral_lastDigits (by decide) _).digit_lt digit hdigit)
    (fun digit hdigit => (numeral_lastDigits (by decide) _).digit_lt digit hdigit)
    (List.append_cancel_left heq)
  have hvalue := congrArg (fun digits => Nat.ofDigits 10 digits.reverse) hdigits
  simp only [List.reverse_reverse, ofDigits_lastDigits] at hvalue
  exact absurd hvalue (by decide)

/-- Kernel and user space print the canonical numeral of every `int` but the smallest. -/
theorem decimal_agrees_iff (n : Int32) :
    (∃ text, Emits decimalFormat [.int n] text ∧ Writes decimalFormat [.int n] text ∧
      DecimalText n.toInt text) ↔ n ≠ Int32.minValue := by
  constructor
  · rintro ⟨text, hemits, -, htext⟩ rfl
    rw [(kernelDecimal_emits_iff _ _).mp hemits] at htext
    exact not_decimalText_minValue htext
  · intro hn
    refine ⟨_, (kernelDecimal_emits_iff n _).mpr rfl, ?_, ?_⟩
    · rw [kernelDecimal_eq hn]
      exact decimal_writes n
    · rw [kernelDecimal_eq hn]
      exact ⟨_, numeral_lastDigits (by decide) _, rfl⟩

/-- The smallest number comes out with ten digits too many. -/
theorem decimal_minValue : ¬ ∃ text, Emits decimalFormat [.int Int32.minValue] text ∧
    Writes decimalFormat [.int Int32.minValue] text ∧ DecimalText Int32.minValue.toInt text := by
  rintro ⟨text, hemits, -, htext⟩
  rw [(kernelDecimal_emits_iff _ _).mp hemits] at htext
  exact not_decimalText_minValue htext

/-! ## Section 3: Hexadecimal numbers -/

/-- `"%x"` -/
def hexadecimalFormat : Libterm.CString := ⟨literal ['%', 'x'], by decide⟩

/-- `"%X"` -/
def paddedHexadecimalFormat : Libterm.CString := ⟨literal ['%', 'X'], by decide⟩

theorem kernelHexadecimal_emits_iff (n : UInt64) (text : List UInt8) :
    Emits hexadecimalFormat [.unsignedLongLong n] text ↔ text = kernelHexadecimal 0 n.toNat := by
  apply emits_iff (by decide)
  intro turns console
  show (logConversion turns 'x'.toUInt8 [.unsignedLongLong n] console).bind _ = _
  unfold logConversion
  rw [if_neg (by decide), if_neg (by decide), if_neg (by decide), if_pos rfl]
  simp only [sIOConsolePrintHexadecimal_eq, Option.map_some, Option.bind_some]
  rfl

theorem kernelPaddedHexadecimal_emits_iff (n : UInt64) (text : List UInt8) :
    Emits paddedHexadecimalFormat [.unsignedLongLong n] text ↔ text = kernelHexadecimal 16 n.toNat := by
  apply emits_iff (by decide)
  intro turns console
  show (logConversion turns 'X'.toUInt8 [.unsignedLongLong n] console).bind _ = _
  unfold logConversion
  rw [if_neg (by decide), if_neg (by decide), if_neg (by decide), if_neg (by decide), if_pos rfl]
  simp only [sIOConsolePrintHexadecimal_eq, Option.map_some, Option.bind_some]
  rfl

/-- The two formatters have the same digits. -/
theorem hexadecimalDigit_eq {digit : Nat} (h : digit < 16) : hexadecimalDigit digit = hexDigit digit := by
  interval_cases digit <;> rfl

theorem map_hexadecimalDigit (n : Nat) :
    (lastDigits 16 n).map hexadecimalDigit = (lastDigits 16 n).map hexDigit := by
  apply List.map_congr_left
  intro digit hdigit
  exact hexadecimalDigit_eq ((numeral_lastDigits (by decide) n).digit_lt digit (List.mem_reverse.mpr hdigit))

theorem hexadecimal_eq (n : Nat) : hexadecimal n = (lastDigits 16 n).reverse.map hexDigit := by
  unfold hexadecimal
  by_cases h : n = 0
  · rw [if_pos h, h, lastDigits_zero]
    rfl
  · rw [if_neg h, lastDigits_of_ne_zero 16 h, List.map_reverse]

/-- Sixteen digits, whether the digit of 0 counts as one or as padding. -/
theorem paddedHexadecimal_eq (n : Nat) : paddedHexadecimal n =
    List.replicate (16 - (lastDigits 16 n).length) '0'.toUInt8 ++ (lastDigits 16 n).reverse.map hexDigit := by
  unfold paddedHexadecimal
  by_cases h : n = 0
  · rw [h, lastDigits_zero]
    rfl
  · rw [lastDigits_of_ne_zero 16 h, List.map_reverse]

theorem kernelHexadecimal_zero (n : Nat) : kernelHexadecimal 0 n = literal ['0', 'x'] ++ hexadecimal n := by
  unfold kernelHexadecimal
  rw [Nat.zero_sub, List.replicate_zero, List.append_nil, map_hexadecimalDigit, hexadecimal_eq,
    List.map_reverse]

theorem kernelHexadecimal_sixteen (n : Nat) :
    kernelHexadecimal 16 n = literal ['0', 'x'] ++ paddedHexadecimal n := by
  unfold kernelHexadecimal
  rw [map_hexadecimalDigit, paddedHexadecimal_eq, List.map_reverse, List.append_assoc]

theorem paddedHexadecimalText (n : UInt64) : PaddedHexadecimalText n.toNat (paddedHexadecimal n.toNat) := by
  have hlength : (lastDigits 16 n.toNat).length ≤ 16 :=
    length_lastDigits_le (by decide) (by decide) n.toNat_lt
  refine ⟨List.replicate (16 - (lastDigits 16 n.toNat).length) 0 ++ (lastDigits 16 n.toNat).reverse,
    ?_, ?_, ?_, ?_⟩
  · intro digit hdigit
    rcases List.mem_append.mp hdigit with hzero | hdigit
    · rw [List.eq_of_mem_replicate hzero]
      decide
    · exact (numeral_lastDigits (by decide) _).digit_lt digit hdigit
  · rw [List.reverse_append, List.reverse_reverse, List.reverse_replicate, Nat.ofDigits_append,
      ofDigits_lastDigits, Nat.ofDigits_replicate_zero, Nat.mul_zero, Nat.add_zero]
  · rw [List.length_append, List.length_replicate, List.length_reverse]
    omega
  · rw [paddedHexadecimal_eq, List.map_append, List.map_replicate]
    rfl

theorem length_paddedHexadecimal (n : UInt64) : (paddedHexadecimal n.toNat).length = 16 := by
  obtain ⟨digits, -, -, hlength, htext⟩ := paddedHexadecimalText n
  rw [htext, List.length_map, hlength]

theorem hexadecimal_writes (n : UInt64) :
    Writes hexadecimalFormat [.unsignedLongLong n] (hexadecimal n.toNat) := by
  have hlength : (lastDigits 16 n.toNat).length ≤ 16 :=
    length_lastDigits_le (by decide) (by decide) n.toNat_lt
  apply writes_of_expansion (by decide)
  · have hchars : hexadecimalFormat.chars = ['%'.toUInt8, 'x'.toUInt8] := rfl
    rw [hchars, expansion, if_pos rfl]
    unfold conversionText
    rw [if_neg (by decide), if_neg (by decide), if_neg (by decide), if_pos rfl]
    simp [expansion]
  · rw [hexadecimal_eq, List.length_map, List.length_reverse]
    omega

theorem paddedHexadecimal_writes (n : UInt64) :
    Writes paddedHexadecimalFormat [.unsignedLongLong n] (paddedHexadecimal n.toNat) := by
  apply writes_of_expansion (by decide)
  · have hchars : paddedHexadecimalFormat.chars = ['%'.toUInt8, 'X'.toUInt8] := rfl
    rw [hchars, expansion, if_pos rfl]
    unfold conversionText
    rw [if_neg (by decide), if_neg (by decide), if_neg (by decide), if_neg (by decide), if_pos rfl]
    simp [expansion]
  · rw [length_paddedHexadecimal]
    decide

/-- `tempBuffer` of `sStringFormatVariadic` has 32 characters. -/
theorem tempBuffer_length (n : UInt64) {padding : Nat} (h : padding ≤ 16) :
    (digitLoop 16 hexDigit 64 n.toNat ++
      List.replicate (padding - (digitLoop 16 hexDigit 64 n.toNat).length) '0'.toUInt8).length ≤ 32 := by
  have hdigits := (tempBuffer_fits n.toNat n.toNat_lt).2
  rw [digitLoop_eq (by decide) _ (Nat.lt_of_lt_of_le n.toNat_lt (by decide)), List.length_append,
    List.length_replicate, List.length_map]
  omega

/-- The kernel prints `0x` and then what `StringFormat` writes: the digits of the number,
without leading zeros for `%x` and sixteen of them for `%X`. No digit is stored behind
the end of a buffer: the kernel's model would not have returned. -/
theorem hexadecimal_agrees (n : UInt64) :
    (∃ text, Emits hexadecimalFormat [.unsignedLongLong n] (literal ['0', 'x'] ++ text) ∧
      Writes hexadecimalFormat [.unsignedLongLong n] text ∧ HexadecimalText n.toNat text) ∧
    (∃ text, Emits paddedHexadecimalFormat [.unsignedLongLong n] (literal ['0', 'x'] ++ text) ∧
      Writes paddedHexadecimalFormat [.unsignedLongLong n] text ∧ PaddedHexadecimalText n.toNat text) ∧
    ∀ padding ≤ 16, (digitLoop 16 hexDigit 64 n.toNat ++
      List.replicate (padding - (digitLoop 16 hexDigit 64 n.toNat).length) '0'.toUInt8).length ≤ 32 := by
  refine ⟨⟨hexadecimal n.toNat, ?_, hexadecimal_writes n, ?_⟩,
    ⟨paddedHexadecimal n.toNat, ?_, paddedHexadecimal_writes n, paddedHexadecimalText n⟩,
    fun padding hpadding => tempBuffer_length n hpadding⟩
  · rw [kernelHexadecimal_emits_iff, kernelHexadecimal_zero]
  · exact ⟨_, numeral_lastDigits (by decide) _, hexadecimal_eq _⟩
  · rw [kernelPaddedHexadecimal_emits_iff, kernelHexadecimal_sixteen]

end TermOS.Device
