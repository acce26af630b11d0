import Mathlib.Data.Nat.Digits.Lemmas
import TermOS.Lib.Memory

/-!
# Formatted output

Model of `sConsoleBufferAdd`, `sStringFormatVariadic` and `StringFormat` in
`userspace/libterm/src/Console.c`. The characters of a format are followed by a
NUL, and nothing behind it may be read. Beside the code stands what a format
expands to when there is no bound.

## Main Definitions

* `stringFormat` - the code; `none` when it has not finished, or has read behind
  the NUL, or found an argument of another type
* `expansion` - the unbounded expansion
* `BoundedFormat` - what the caller of a bounded formatter relies on
-/

namespace TermOS.Libterm

open TermOS.Lib

/-! ## Section 1: Arguments -/

/-- The characters of a string, without the NUL that follows them. -/
structure CString where
  chars : List UInt8
  nul_not_mem : 0 ∉ chars

/-- `string[i]`; behind the NUL there is nothing to read. -/
def CString.get (string : CString) (i : Nat) : Option UInt8 :=
  if i < string.chars.length then some (string.chars.getD i 0)
  else if i = string.chars.length then some 0
  else none

/-- What `va_arg` can find. A null pointer is `none`. -/
inductive VaArg
  | string (string : Option CString)
  | int (value : Int32)
  | unsignedLongLong (value : UInt64)

/-- The characters of a string literal. -/
def literal (chars : List Char) : List UInt8 := chars.map Char.toUInt8

/-! ## Section 2: The buffer -/

/-- The memory with the buffer, and `written`. -/
structure FormatOutput where
  memory : Memory
  written : Nat

section Code

variable (string size : Nat)

/-- `sConsoleBufferAdd` -/
def FormatOutput.add (o : FormatOutput) (character : UInt8) : FormatOutput where
  memory :=
    if o.written < (size + 2 ^ 64 - 1) % 2 ^ 64 ∧ 0 < size then
      o.memory.setByte (string + o.written) character
    else o.memory
  written := (o.written + 1) % 2 ^ 64

/-- `sConsoleBufferAdd` for one character after the other. -/
def FormatOutput.addAll (o : FormatOutput) (characters : List UInt8) : FormatOutput :=
  characters.foldl (FormatOutput.add string size) o

/-- What `while (unsignedNumber > 0)` puts into `tempBuffer`, the last digit first. A
64-bit number has gone to 0 after 64 divisions. -/
def digitLoop (base : Nat) (digit : Nat → UInt8) : Nat → Nat → List UInt8
  | 0, _ => []
  | turns + 1, unsignedNumber =>
    if unsignedNumber = 0 then []
    else digit (unsignedNumber % base) :: digitLoop base digit turns (unsignedNumber / base)

/-- `(unsignedNumber % 10) + '0'` -/
def decimalDigit (digit : Nat) : UInt8 := UInt8.ofNat (digit + '0'.toNat)

/-- `hex[unsignedNumber % 16]` -/
def hexDigit (digit : Nat) : UInt8 :=
  (literal ['0', '1', '2', '3', '4', '5', '6', '7', '8', '9', 'A', 'B', 'C', 'D', 'E', 'F']).getD digit 0

/-- The `switch` of `sStringFormatVariadic`: the arguments that are left, and the output. -/
def formatConversion (conversion : UInt8) (args : List VaArg) (o : FormatOutput) :
    Option (List VaArg × FormatOutput) :=
  if conversion = 's'.toUInt8 then
    match args with
    | .string vaArgString :: args =>
      let characters := match vaArgString with
        | none => literal ['(', 'n', 'u', 'l', 'l', ')']
        | some vaArgString => vaArgString.chars
      some (args, o.addAll string size characters)
    | _ => none
  else if conversion = 'c'.toUInt8 then
    match args with
    | .int character :: args => some (args, o.add string size character.toUInt32.toUInt8)
    | _ => none
  else if conversion = 'd'.toUInt8 then
    match args with
    | .int value :: args =>
      -- the sign first, then the digits of the absolute value
      let o := if value.toInt < 0 then o.add string size '-'.toUInt8 else o
      let unsignedNumber := value.toInt.natAbs
      let tempBuffer :=
        if unsignedNumber = 0 then ['0'.toUInt8] else digitLoop 10 decimalDigit 64 unsignedNumber
      some (args, o.addAll string size tempBuffer.reverse)
    | _ => none
  else if conversion = 'x'.toUInt8 ∨ conversion = 'X'.toUInt8 then
    match args with
    | .unsignedLongLong value :: args =>
      let padding := if conversion = 'X'.toUInt8 then 16 else 0
      let tempBuffer :=
        if value.toNat = 0 ∧ padding = 0 then ['0'.toUInt8] else digitLoop 16 hexDigit 64 value.toNat
      let tempBuffer := tempBuffer ++ List.replicate (padding - tempBuffer.length) '0'.toUInt8
      some (args, o.addAll string size tempBuffer.reverse)
    | _ => none
  else if conversion = '%'.toUInt8 then some (args, o.add string size '%'.toUInt8)
  -- an unknown conversion is copied with its percent sign
  else some (args, (o.add string size '%'.toUInt8).add string size conversion)

/-- The loop over the format; `i` is a `UInt32`. -/
def formatLoop (format : CString) : Nat → Nat → List VaArg → FormatOutput → Option FormatOutput
  | 0, _, _, _ => none
  | turns + 1, i, args, o =>
    (format.get i).bind fun character =>
      if character = 0 then some o
      else if character = '%'.toUInt8 then
        (format.get ((i + 1) % 2 ^ 32)).bind fun conversion =>
          -- a percent sign at the end prints nothing
          if conversion = 0 then some o
          else (formatConversion string size conversion args o).bind fun next =>
            formatLoop format turns (((i + 1) % 2 ^ 32 + 1) % 2 ^ 32) next.1 next.2
      else formatLoop format turns ((i + 1) % 2 ^ 32) args (o.add string size character)

/-- The NUL behind what was written. -/
def FormatOutput.close (o : FormatOutput) : Memory :=
  if 0 < size then
    if o.written < size then o.memory.setByte (string + o.written) 0
    else o.memory.setByte (string + (size - 1)) 0
  else o.memory

/-- `StringFormat`, with at most `turns` turns of the loop over the format. -/
def stringFormat (format : CString) (args : List VaArg) (m : Memory) (turns : Nat) :
    Option (Int32 × Memory) :=
  (formatLoop string size format turns 0 args ⟨m, 0⟩).map fun o =>
    (Int32.ofNat o.written, o.close string size)

end Code

/-! ## Section 3: The unbounded expansion -/

/-- The decimal digits of a number. -/
def decimal (n : Nat) : List UInt8 :=
  if n = 0 then literal ['0'] else ((Nat.digits 10 n).map decimalDigit).reverse

/-- The hexadecimal digits of a number. -/
def hexadecimal (n : Nat) : List UInt8 :=
  if n = 0 then literal ['0'] else ((Nat.digits 16 n).map hexDigit).reverse

/-- The sixteen hexadecimal digits of a 64-bit number. -/
def paddedHexadecimal (n : Nat) : List UInt8 :=
  List.replicate (16 - (Nat.digits 16 n).length) '0'.toUInt8 ++ ((Nat.digits 16 n).map hexDigit).reverse

/-- What a conversion stands for, and the arguments that are left. -/
def conversionText (conversion : UInt8) (args : List VaArg) : Option (List UInt8 × List VaArg) :=
  if conversion = 's'.toUInt8 then
    match args with
    | .string none :: args => some (literal ['(', 'n', 'u', 'l', 'l', ')'], args)
    | .string (some string) :: args => some (string.chars, args)
    | _ => none
  else if conversion = 'c'.toUInt8 then
    match args with
    | .int value :: args => some ([value.toUInt32.toUInt8], args)
    | _ => none
  else if conversion = 'd'.toUInt8 then
    match args with
    | .int value :: args =>
      some ((if value.toInt < 0 then literal ['-'] else []) ++ decimal value.toInt.natAbs, args)
    | _ => none
  else if conversion = 'x'.toUInt8 then
    match args with
    | .unsignedLongLong value :: args => some (hexadecimal value.toNat, args)
    | _ => none
  else if conversion = 'X'.toUInt8 then
    match args with
    | .unsignedLongLong value :: args => some (paddedHexadecimal value.toNat, args)
    | _ => none
  else if conversion = '%'.toUInt8 then some (literal ['%'], args)
  else some (['%'.toUInt8, conversion], args)

/-- What the characters of a format expand to; `none` when an argument is missing or
of another type. A lone `%` at the end stands for nothing. -/
def expansion : List UInt8 → List VaArg → Option (List UInt8)
  | [], _ => some []
  | [character], _ => some (if character = '%'.toUInt8 then [] else [character])
  | character :: next :: rest, args =>
    if character = '%'.toUInt8 then
      (conversionText next args).bind fun found => (expansion rest found.2).map (found.1 ++ ·)
    else (expansion (next :: rest) args).map (character :: ·)

/-- What a buffer of `size` bytes holds before its NUL when `length` characters
were to be written. -/
def storedText (m : Memory) (string size length : Nat) : List UInt8 :=
  (List.range (min (size - 1) length)).map fun i => m (string + i)

/-- The call has returned the length of the text, the buffer holds as much of it as
fits and a NUL, and the bytes behind the buffer and before it are as they were. -/
structure BoundedFormat (m : Memory) (string size : Nat) (text : List UInt8) (result : Int32)
    (m' : Memory) : Prop where
  result_eq : result.toInt = text.length
  stored_eq : 0 < size → storedText m' string size text.length = text.take (size - 1)
  nul_eq : 0 < size → m' (string + min (size - 1) text.length) = 0
  outside : ∀ x, x < string ∨ string + size ≤ x → m' x = m x

/-- What callers rely on for a format, its arguments and the text they expand to: for
every buffer the call returns, and a smaller buffer holds the beginning of what a
larger one holds. -/
structure FormatContract (format : CString) (args : List VaArg) (text : List UInt8) : Prop where
  returns : ∀ (m : Memory) (string size : Nat), size < 2 ^ 64 → ∃ turns result m',
    stringFormat string size format args m turns = some (result, m') ∧
      BoundedFormat m string size text result m'
  prefixes : ∀ (m₁ m₂ : Memory) (string₁ string₂ size₁ size₂ turns₁ turns₂ : Nat)
    (result₁ result₂ : Int32) (m₁' m₂' : Memory), 0 < size₁ → size₁ ≤ size₂ → size₂ < 2 ^ 64 →
    stringFormat string₁ size₁ format args m₁ turns₁ = some (result₁, m₁') →
    stringFormat string₂ size₂ format args m₂ turns₂ = some (result₂, m₂') →
    storedText m₁' string₁ size₁ text.length <+: storedText m₂' string₂ size₂ text.length

/-! ## Section 4: Appending -/

section Append

variable {string size : Nat} {o : FormatOutput}

theorem FormatOutput.addAll_append (o : FormatOutput) (first second : List UInt8) :
    o.addAll string size (first ++ second) = (o.addAll string size first).addAll string size second :=
  List.foldl_append

theorem FormatOutput.addAll_cons (o : FormatOutput) (character : UInt8) (characters : List UInt8) :
    o.addAll string size (character :: characters) =
      (o.add string size character).addAll string size characters := List.foldl_cons ..

/-- The counter runs on behind the end of the buffer. -/
theorem FormatOutput.addAll_written {characters : List UInt8}
    (h : o.written + characters.length < 2 ^ 64) :
    (o.addAll string size characters).written = o.written + characters.length := by
  induction characters generalizing o with
  | nil => rfl
  | cons character characters ih =>
    rw [List.length_cons] at h ⊢
    have hadd : (o.add string size character).written = o.written + 1 := Nat.mod_eq_of_lt (by omega)
    rw [addAll_cons, ih (by omega), hadd]
    omega

/-- The guard lets a character through when a place for the NUL is left behind it. -/
theorem FormatOutput.add_memory (hsize : size < 2 ^ 64) (character : UInt8) :
    (o.add string size character).memory =
      if o.written + 1 < size then o.memory.setByte (string + o.written) character
      else o.memory := by
  have hguard : (o.written < (size + 2 ^ 64 - 1) % 2 ^ 64 ∧ 0 < size) ↔ o.written + 1 < size := by
    omega
  rw [FormatOutput.add]
  simp only [hguard]

/-- Bytes that no character goes to are left alone. -/
theorem FormatOutput.addAll_memory_other (hsize : size < 2 ^ 64) {characters : List UInt8} {x : Nat}
    (h : o.written + characters.length < 2 ^ 64)
    (hx : ∀ k, o.written ≤ k → k + 1 < size → x ≠ string + k) :
    (o.addAll string size characters).memory x = o.memory x := by
  induction characters generalizing o with
  | nil => rfl
  | cons character characters ih =>
    rw [List.length_cons] at h
    have hadd : (o.add string size character).written = o.written + 1 := Nat.mod_eq_of_lt (by omega)
    rw [addAll_cons, ih (by omega) (fun k hk => hx k (by omega)), add_memory hsize]
    split
    · exact Memory.setByte_ne _ _ (hx _ (Nat.le_refl _) ‹_›)
    · rfl

/-- Each character that has a place is at its place. -/
theorem FormatOutput.addAll_memory (hsize : size < 2 ^ 64) {characters : List UInt8} {k : Nat}
    (h : o.written + characters.length < 2 ^ 64) (hk : k < characters.length)
    (hroom : o.written + k + 1 < size) :
    (o.addAll string size characters).memory (string + (o.written + k)) = characters.getD k 0 := by
  induction characters generalizing o k with
  | nil => exact absurd hk (Nat.not_lt_zero k)
  | cons character characters ih =>
    rw [List.length_cons] at h hk
    have hadd : (o.add string size character).written = o.written + 1 := Nat.mod_eq_of_lt (by omega)
    rw [addAll_cons]
    cases k with
    | zero =>
      rw [addAll_memory_other hsize (by omega) (fun j hj _ => by omega), add_memory hsize,
        if_pos (by omega), Nat.add_zero, Memory.setByte_same]
      rfl
    | succ k =>
      have hplace : o.written + (k + 1) = (o.add string size character).written + k := by omega
      rw [hplace, ih (by omega) (by omega) (by omega)]
      rfl

end Append

/-! ## Section 5: Conversions -/

section Conversions

variable {string size : Nat} {o : FormatOutput}

theorem digitLoop_eq {base : Nat} (hbase : 1 < base) (digit : Nat → UInt8) {turns n : Nat}
    (h : n < base ^ turns) : digitLoop base digit turns n = (Nat.digits base n).map digit := by
  induction turns generalizing n with
  | zero =>
    rw [Nat.pow_zero] at h
    obtain rfl : n = 0 := by omega
    simp [digitLoop]
  | succ turns ih =>
    rw [digitLoop]
    split
    · next hzero => simp [hzero]
    · next hne =>
      have hquotient : n / base < base ^ turns := by
        rw [Nat.div_lt_iff_lt_mul (by omega), ← Nat.pow_succ]
        exact h
      rw [ih hquotient, Nat.digits_def' hbase (Nat.pos_of_ne_zero hne), List.map_cons]

/-- `tempBuffer` has 32 characters. -/
theorem tempBuffer_fits (n : Nat) (h : n < 2 ^ 64) :
    (Nat.digits 10 n).length ≤ 20 ∧ (Nat.digits 16 n).length ≤ 16 := by
  constructor
  · exact (Nat.digits_length_le_iff (by decide) n).mpr (Nat.lt_trans h (by decide))
  · exact (Nat.digits_length_le_iff (by decide) n).mpr h

theorem addAll_singleton (o : FormatOutput) (character : UInt8) :
    o.addAll string size [character] = o.add string size character := by
  rw [FormatOutput.addAll_cons]
  rfl

/-- The digits of a number that is not 0, in the order in which they are printed. -/
theorem reverse_digitLoop {base n : Nat} (hbase : 1 < base) (digit : Nat → UInt8) (h : n < 2 ^ 64) :
    (digitLoop base digit 64 n).reverse = ((Nat.digits base n).map digit).reverse := by
  have hpow : 2 ^ 64 ≤ base ^ 64 := Nat.pow_le_pow_left hbase 64
  rw [digitLoop_eq hbase digit (Nat.lt_of_lt_of_le h hpow)]

theorem reverse_decimal {n : Nat} (h : n < 2 ^ 64) :
    (if n = 0 then ['0'.toUInt8] else digitLoop 10 decimalDigit 64 n).reverse = decimal n := by
  unfold decimal
  split
  · rfl
  · exact reverse_digitLoop (by decide) _ h

theorem reverse_hexadecimal {n : Nat} (h : n < 2 ^ 64) :
    (if n = 0 ∧ 0 = 0 then ['0'.toUInt8] else digitLoop 16 hexDigit 64 n).reverse =
      hexadecimal n := by
  unfold hexadecimal
  simp only [and_true]
  split
  · rfl
  · exact reverse_digitLoop (by decide) _ h

theorem reverse_paddedHexadecimal {n : Nat} (h : n < 2 ^ 64) :
    (digitLoop 16 hexDigit 64 n ++
      List.replicate (16 - (digitLoop 16 hexDigit 64 n).length) '0'.toUInt8).reverse =
      paddedHexadecimal n := by
  rw [List.reverse_append, List.reverse_replicate, reverse_digitLoop (by decide) _ h,
    digitLoop_eq (by decide) _ (Nat.lt_of_lt_of_le h (by decide)), List.length_map]
  rfl

/-- Every branch of the `switch` appends the text of its conversion. -/
theorem formatConversion_eq {conversion : UInt8} {args rest : List VaArg} {text : List UInt8}
    (h : conversionText conversion args = some (text, rest)) :
    formatConversion string size conversion args o = some (rest, o.addAll string size text) := by
  unfold conversionText at h
  unfold formatConversion
  by_cases hs : conversion = 's'.toUInt8
  · rw [if_pos hs] at h ⊢
    split at h <;> cases h <;> rfl
  rw [if_neg hs] at h ⊢
  by_cases hc : conversion = 'c'.toUInt8
  · rw [if_pos hc] at h ⊢
    split at h <;> cases h
    rw [addAll_singleton]
  rw [if_neg hc] at h ⊢
  by_cases hd : conversion = 'd'.toUInt8
  · rw [if_pos hd] at h ⊢
    split at h <;> cases h
    -- A negative value loses its sign before the digits are taken, which `natAbs` says at once.
    next value =>
    have hvalue : value.toInt.natAbs < 2 ^ 64 := by
      have := value.toInt_lt
      have := value.le_toInt
      omega
    dsimp only
    rw [reverse_decimal hvalue, FormatOutput.addAll_append]
    split
    -- The sign stands in front of the digits.
    · exact congrArg (fun o => some (rest, FormatOutput.addAll string size o _)) (addAll_singleton o _).symm
    · rfl
  rw [if_neg hd] at h ⊢
  by_cases hx : conversion = 'x'.toUInt8
  · rw [if_pos hx] at h
    rw [if_pos (Or.inl hx)]
    split at h <;> cases h
    next value =>
    have hX : conversion ≠ 'X'.toUInt8 := by
      rw [hx]
      decide
    dsimp only
    -- `x` asks for no padding.
    rw [if_neg hX, Nat.zero_sub, List.replicate_zero, List.append_nil,
      reverse_hexadecimal value.toNat_lt]
  rw [if_neg hx] at h
  by_cases hX : conversion = 'X'.toUInt8
  · rw [if_pos hX] at h
    rw [if_pos (Or.inr hX)]
    split at h <;> cases h
    next value =>
    dsimp only
    have hpadding : ¬ (value.toNat = 0 ∧ 16 = 0) := fun h => absurd h.2 (by decide)
    rw [if_pos hX, if_neg hpadding, reverse_paddedHexadecimal value.toNat_lt]
  rw [if_neg hX] at h
  rw [if_neg (not_or.mpr ⟨hx, hX⟩)]
  by_cases hpercent : conversion = '%'.toUInt8
  · rw [if_pos hpercent] at h ⊢
    cases h
    exact congrArg (fun o => some (args, o)) (addAll_singleton o _).symm
  -- The default branch prints the percent sign and the character behind it.
  · rw [if_neg hpercent] at h ⊢
    cases h
    rw [FormatOutput.addAll_cons, addAll_singleton]

end Conversions

/-! ## Section 6: The loop -/

section Loop

variable {string size : Nat} {format : CString} {o : FormatOutput}

theorem CString.get_of_drop {i : Nat} {character : UInt8} {rest : List UInt8}
    (h : format.chars.drop i = character :: rest) :
    i < format.chars.length ∧ format.get i = some character ∧ character ≠ 0 := by
  have hi : i < format.chars.length := by
    by_contra hno
    rw [List.drop_eq_nil_of_le (Nat.not_lt.mp hno)] at h
    cases h
  have hcharacter : format.chars[i] = character := by
    rw [List.drop_eq_getElem_cons hi] at h
    exact (List.cons.inj h).1
  refine ⟨hi, ?_, ?_⟩
  · rw [CString.get, if_pos hi, ← List.getElem_eq_getD (h := hi), hcharacter]
  · rintro rfl
    exact format.nul_not_mem (hcharacter ▸ List.getElem_mem hi)

theorem CString.get_length (format : CString) : format.get format.chars.length = some 0 := by
  rw [CString.get, if_neg (Nat.lt_irrefl _), if_pos rfl]

theorem drop_succ_of_drop {i : Nat} {character : UInt8} {chars rest : List UInt8}
    (h : chars.drop i = character :: rest) : chars.drop (i + 1) = rest := by
  rw [← List.drop_drop, h, List.drop_one, List.tail_cons]

/-- One turn at the NUL. -/
theorem formatLoop_nul (format : CString) (turns : Nat) (args : List VaArg) (o : FormatOutput) :
    formatLoop string size format (turns + 1) format.chars.length args o = some o := by
  rw [formatLoop, CString.get_length]
  rfl

/-- One turn at a character that is copied. -/
theorem formatLoop_character {turns i : Nat} {args : List VaArg} {character : UInt8}
    {rest : List UInt8} (hlength : format.chars.length < 2 ^ 32)
    (h : format.chars.drop i = character :: rest) (hplain : character ≠ '%'.toUInt8) :
    formatLoop string size format (turns + 1) i args o =
      formatLoop string size format turns (i + 1) args (o.add string size character) := by
  obtain ⟨hi, hget, hne⟩ := CString.get_of_drop h
  rw [formatLoop, hget, Option.bind_some, if_neg hne, if_neg hplain, Nat.mod_eq_of_lt (by omega)]

/-- One turn at a lone `%` in front of the NUL. -/
theorem formatLoop_lonePercent {turns i : Nat} {args : List VaArg}
    (hlength : format.chars.length < 2 ^ 32) (h : format.chars.drop i = ['%'.toUInt8]) :
    formatLoop string size format (turns + 1) i args o = some o := by
  obtain ⟨hi, hget, hne⟩ := CString.get_of_drop h
  have hend : i + 1 = format.chars.length := by
    have hdrop := congrArg List.length h
    rw [List.length_drop, List.length_singleton] at hdrop
    omega
  rw [formatLoop, hget, Option.bind_some, if_neg hne, if_pos rfl, Nat.mod_eq_of_lt (by omega), hend,
    CString.get_length]
  rfl

/-- One turn at a conversion. -/
theorem formatLoop_conversion {turns i : Nat} {args args' : List VaArg} {conversion : UInt8}
    {rest text : List UInt8} (hlength : format.chars.length < 2 ^ 32)
    (h : format.chars.drop i = '%'.toUInt8 :: conversion :: rest)
    (htext : conversionText conversion args = some (text, args')) :
    formatLoop string size format (turns + 1) i args o =
      formatLoop string size format turns (i + 2) args' (o.addAll string size text) := by
  obtain ⟨hi, hget, hne⟩ := CString.get_of_drop h
  obtain ⟨hi', hget', hne'⟩ := CString.get_of_drop (drop_succ_of_drop h)
  rw [formatLoop, hget, Option.bind_some, if_neg hne, if_pos rfl, Nat.mod_eq_of_lt (by omega), hget',
    Option.bind_some, if_neg hne', formatConversion_eq htext, Option.bind_some,
    Nat.mod_eq_of_lt (by omega)]

/-- A format that the index can count through is expanded. -/
theorem formatLoop_eq (hlength : format.chars.length < 2 ^ 32) {turns i : Nat}
    {args : List VaArg} {text : List UInt8} (hi : i ≤ format.chars.length)
    (h : expansion (format.chars.drop i) args = some text)
    (hturns : format.chars.length - i < turns) :
    formatLoop string size format turns i args o = some (o.addAll string size text) := by
  -- Induction on the turns left; one turn takes a character, or two of a conversion.
  induction turns generalizing i args text o with
  | zero => exact absurd hturns (Nat.not_lt_zero _)
  | succ turns ih =>
    cases hchars : format.chars.drop i with
    | nil =>
      have hend : i = format.chars.length := by
        have hdrop := congrArg List.length hchars
        rw [List.length_drop, List.length_nil] at hdrop
        omega
      rw [hchars, expansion] at h
      cases h
      rw [hend, formatLoop_nul]
      rfl
    | cons character rest =>
      have hlt := (CString.get_of_drop hchars).1
      by_cases hpercent : character = '%'.toUInt8
      · rw [hpercent] at hchars
        -- A percent sign at the very end has nothing behind it to convert.
        cases rest with
        | nil =>
          rw [hchars, expansion, if_pos rfl] at h
          cases h
          rw [formatLoop_lonePercent hlength hchars]
          rfl
        | cons conversion rest =>
          rw [hchars, expansion, if_pos rfl] at h
          obtain ⟨⟨first, args'⟩, htext, h⟩ := Option.bind_eq_some_iff.mp h
          obtain ⟨second, hsecond, rfl⟩ := Option.map_eq_some_iff.mp h
          have hdrop := drop_succ_of_drop (drop_succ_of_drop hchars)
          have hlt' := (CString.get_of_drop (drop_succ_of_drop hchars)).1
          rw [formatLoop_conversion hlength hchars htext, FormatOutput.addAll_append]
          exact ih (by omega) (by rw [hdrop]; exact hsecond) (by omega)
      -- The character is copied, whether or not it is the last one.
      · have hdrop := drop_succ_of_drop hchars
        have hrest : ∃ second, expansion rest args = some second ∧ text = character :: second := by
          rw [hchars] at h
          cases rest with
          | nil =>
            rw [expansion, if_neg hpercent] at h
            cases h
            exact ⟨[], rfl, rfl⟩
          | cons next rest =>
            rw [expansion, if_neg hpercent] at h
            obtain ⟨second, hsecond, rfl⟩ := Option.map_eq_some_iff.mp h
            exact ⟨second, hsecond, rfl⟩
        obtain ⟨second, hsecond, rfl⟩ := hrest
        rw [formatLoop_character hlength hchars hpercent, FormatOutput.addAll_cons]
        exact ih (by omega) (by rw [hdrop]; exact hsecond) (by omega)

/-- More turns change nothing. -/
theorem formatLoop_mono {turns i : Nat} {args : List VaArg} {o' : FormatOutput}
    (h : formatLoop string size format turns i args o = some o') {more : Nat} (hmore : turns ≤ more) :
    formatLoop string size format more i args o = some o' := by
  induction turns generalizing i args o more with
  | zero => cases h
  | succ turns ih =>
    obtain ⟨more, rfl⟩ := Nat.exists_eq_succ_of_ne_zero (n := more) (by omega)
    replace hmore := Nat.le_of_succ_le_succ hmore
    rw [formatLoop] at h ⊢
    obtain ⟨character, hget, h⟩ := Option.bind_eq_some_iff.mp h
    rw [hget, Option.bind_some]
    split
    · next hnul => rwa [if_pos hnul] at h
    next hnul =>
    rw [if_neg hnul] at h
    split
    · next hpercent =>
      rw [if_pos hpercent] at h
      obtain ⟨conversion, hget', h⟩ := Option.bind_eq_some_iff.mp h
      rw [hget', Option.bind_some]
      split
      · next hnul' => rwa [if_pos hnul'] at h
      · next hnul' =>
        rw [if_neg hnul'] at h
        obtain ⟨next, hnext, h⟩ := Option.bind_eq_some_iff.mp h
        rw [hnext, Option.bind_some]
        exact ih h hmore
    · next hpercent =>
      rw [if_neg hpercent] at h
      exact ih h hmore

/-- With 2^32 characters or more, the index wraps before it reaches the NUL. -/
theorem formatLoop_of_long (hlength : 2 ^ 32 ≤ format.chars.length) {turns i : Nat}
    (hi : i < 2 ^ 32) (args : List VaArg) :
    formatLoop string size format turns i args o = none := by
  have hget : ∀ i < 2 ^ 32, ∃ character, format.get i = some character ∧ character ≠ 0 := by
    intro i hi
    have hdrop : format.chars.drop i = format.chars[i] :: format.chars.drop (i + 1) :=
      List.drop_eq_getElem_cons (by omega)
    exact ⟨_, (CString.get_of_drop hdrop).2⟩
  induction turns generalizing i args o with
  | zero => rfl
  | succ turns ih =>
    obtain ⟨character, hcharacter, hne⟩ := hget i hi
    obtain ⟨conversion, hconversion, hne'⟩ := hget ((i + 1) % 2 ^ 32) (Nat.mod_lt _ (by decide))
    rw [formatLoop, hcharacter, Option.bind_some, if_neg hne]
    split
    · rw [hconversion, Option.bind_some, if_neg hne']
      cases formatConversion string size conversion args o with
      | none => rfl
      | some next =>
        rw [Option.bind_some]
        exact ih (Nat.mod_lt _ (by decide)) _
    · exact ih (Nat.mod_lt _ (by decide)) _

end Loop

/-! ## Section 7: The contract -/

section Contract

variable {string size : Nat} {m : Memory} {format : CString} {args : List VaArg}
  {text : List UInt8}

/-- The NUL goes behind the text, or to the last byte of the buffer. -/
theorem FormatOutput.close_eq (o : FormatOutput) (hpos : 0 < size) :
    o.close string size = o.memory.setByte (string + min (size - 1) o.written) 0 := by
  rw [FormatOutput.close, if_pos hpos]
  split
  · rw [Nat.min_eq_right (by omega)]
  · rw [Nat.min_eq_left (by omega)]

/-- What the buffer holds when the text has been appended and closed. -/
theorem boundedFormat_addAll (hsize : size < 2 ^ 64) (hshort : text.length < 2 ^ 31) :
    BoundedFormat m string size text
      (Int32.ofNat (FormatOutput.addAll string size ⟨m, 0⟩ text).written)
      ((FormatOutput.addAll string size ⟨m, 0⟩ text).close string size) := by
  have hfit : (0 : Nat) + text.length < 2 ^ 64 := by omega
  have hwritten := @FormatOutput.addAll_written string size ⟨m, 0⟩ text hfit
  rw [Nat.zero_add] at hwritten
  constructor
  · rw [hwritten]
    exact Int32.toInt_ofNat_of_lt hshort
  · intro hpos
    have hlength : (storedText ((FormatOutput.addAll string size ⟨m, 0⟩ text).close string size) string
        size text.length).length = (text.take (size - 1)).length := by
      simp [storedText]
    apply List.ext_getElem hlength
    intro k hk hk'
    simp only [storedText, List.length_map, List.length_range, Nat.lt_min] at hk
    have hchar := @FormatOutput.addAll_memory string size ⟨m, 0⟩ hsize text k hfit hk.2
      (by show 0 + k + 1 < size; omega)
    simp only [storedText, List.getElem_map, List.getElem_range, List.getElem_take]
    rw [FormatOutput.close_eq _ hpos, hwritten, Memory.setByte_ne _ _ (by omega),
      List.getElem_eq_getD 0, ← hchar]
    simp only [Nat.zero_add]
  · intro hpos
    rw [FormatOutput.close_eq _ hpos, hwritten, Memory.setByte_same]
  · intro x hx
    have hother := @FormatOutput.addAll_memory_other string size ⟨m, 0⟩ hsize text x hfit
      (fun k _ hk => by omega)
    refine Eq.trans ?_ hother
    by_cases hpos : 0 < size
    · rw [FormatOutput.close_eq _ hpos, Memory.setByte_ne _ _ (by omega)]
    · rw [FormatOutput.close, if_neg hpos]

/-- A call that returns has appended the whole text. -/
theorem boundedFormat_of_some (hlength : format.chars.length < 2 ^ 32)
    (htext : expansion format.chars args = some text) (hshort : text.length < 2 ^ 31)
    (hsize : size < 2 ^ 64) {turns : Nat} {result : Int32} {m' : Memory}
    (h : stringFormat string size format args m turns = some (result, m')) :
    BoundedFormat m string size text result m' := by
  obtain ⟨o, hloop, heq⟩ := Option.map_eq_some_iff.mp h
  obtain ⟨rfl, rfl⟩ := Prod.mk.inj heq
  have henough := @formatLoop_eq string size format ⟨m, 0⟩ hlength (max turns (format.chars.length + 1))
    0 args text (Nat.zero_le _) htext (by omega)
  have hsame := formatLoop_mono hloop (Nat.le_max_left turns (format.chars.length + 1))
  obtain rfl := Option.some.inj (hsame.symm.trans henough)
  exact boundedFormat_addAll hsize hshort

/-- `StringFormat` keeps to the contract of a bounded formatter for the formats that
its 32-bit index can count through, and for no other ones. -/
theorem stringFormat_contract_iff (format : CString) (args : List VaArg) (text : List UInt8)
    (htext : expansion format.chars args = some text) (hshort : text.length < 2 ^ 31) :
    FormatContract format args text ↔ format.chars.length < 2 ^ 32 := by
  constructor
  · intro hcontract
    by_contra hlong
    obtain ⟨turns, result, m', hreturn, -⟩ := hcontract.returns (fun _ => 0) 0 0 (by decide)
    rw [stringFormat, formatLoop_of_long (Nat.not_lt.mp hlong) (by decide)] at hreturn
    cases hreturn
  · intro hlength
    constructor
    · intro m string size hsize
      have hloop := @formatLoop_eq string size format ⟨m, 0⟩ hlength (format.chars.length + 1) 0 args
        text (Nat.zero_le _) htext (by omega)
      have hreturn : stringFormat string size format args m (format.chars.length + 1) = _ :=
        congrArg (Option.map _) hloop
      exact ⟨_, _, _, hreturn, boundedFormat_of_some hlength htext hshort hsize hreturn⟩
    · intro m₁ m₂ string₁ string₂ size₁ size₂ turns₁ turns₂ result₁ result₂ m₁' m₂' hpos hle hsize h₁ h₂
      have hbounded₁ := boundedFormat_of_some hlength htext hshort (by omega) h₁
      have hbounded₂ := boundedFormat_of_some hlength htext hshort hsize h₂
      rw [hbounded₁.stored_eq hpos, hbounded₂.stored_eq (by omega)]
      exact List.take_prefix_take_left (by omega)

/-- A name behind a slash; the format ends in a lone `%`. -/
def pathFormat : CString := ⟨literal ['/', '%', 's', '%'], by decide⟩

def initName : CString := ⟨literal ['i', 'n', 'i', 't'], by decide⟩

theorem stringFormat_contract_pathFormat :
    FormatContract pathFormat [.string (some initName)] (literal ['/', 'i', 'n', 'i', 't']) ↔
      pathFormat.chars.length < 2 ^ 32 :=
  stringFormat_contract_iff _ _ _ (by decide) (by decide)

/-- `%s`, and then `%%` again and again. -/
def percentSigns (count : Nat) : List UInt8 :=
  literal ['%', 's'] ++ (List.replicate count (literal ['%', '%'])).flatten

theorem percentSigns_length (count : Nat) : (percentSigns count).length = 2 * count + 2 := by
  rw [percentSigns, List.length_append, List.length_flatten, List.map_replicate, List.sum_replicate]
  exact (Nat.add_comm 2 _).trans (congrArg (· + 2) (Nat.mul_comm count 2))

theorem expansion_percents (count : Nat) (args : List VaArg) :
    expansion (List.replicate count (literal ['%', '%'])).flatten args =
      some (List.replicate count '%'.toUInt8) := by
  induction count with
  | zero => rfl
  | succ count ih =>
    show expansion ('%'.toUInt8 :: '%'.toUInt8 ::
      (List.replicate count (literal ['%', '%'])).flatten) args = _
    have htext : conversionText '%'.toUInt8 args = some (literal ['%'], args) := rfl
    rw [expansion, if_pos rfl, htext, Option.bind_some, ih]
    rfl

/-- With an empty string for its `%s`. -/
theorem expansion_percentSigns (count : Nat) :
    expansion (percentSigns count) [.string (some ⟨[], by simp⟩)] =
      some (List.replicate count '%'.toUInt8) := by
  show expansion ('%'.toUInt8 :: 's'.toUInt8 ::
    (List.replicate count (literal ['%', '%'])).flatten) _ = _
  rw [expansion, if_pos rfl, conversionText, if_pos rfl]
  simp only [Option.bind_some]
  rw [expansion_percents]
  rfl

/-- 2^31 conversions: the text is short, the format is not. -/
def longFormat : CString where
  chars := percentSigns (2 ^ 31 - 1)
  nul_not_mem := by
    intro hmem
    rcases List.mem_append.mp hmem with hmem | hmem
    · exact absurd hmem (by decide)
    · obtain ⟨chars, hchars, hmem⟩ := List.mem_flatten.mp hmem
      rw [List.eq_of_mem_replicate hchars] at hmem
      exact absurd hmem (by decide)

theorem stringFormat_longFormat :
    expansion longFormat.chars [.string (some ⟨[], by simp⟩)] =
      some (List.replicate (2 ^ 31 - 1) '%'.toUInt8) ∧
    (List.replicate (2 ^ 31 - 1) '%'.toUInt8).length < 2 ^ 31 ∧
    ¬ FormatContract longFormat [.string (some ⟨[], by simp⟩)]
      (List.replicate (2 ^ 31 - 1) '%'.toUInt8) := by
  refine ⟨expansion_percentSigns _, ?_, ?_⟩
  · rw [List.length_replicate]
    decide
  · intro hcontract
    obtain ⟨turns, result, m', hreturn, -⟩ := hcontract.returns (fun _ => 0) 0 0 (by decide)
    have hlong : 2 ^ 32 ≤ longFormat.chars.length := by
      rw [longFormat, percentSigns_length]
      decide
    rw [stringFormat, formatLoop_of_long hlong (by decide)] at hreturn
    cases hreturn

end Contract

end TermOS.Libterm
