import TermOS.Device.IOGraphics
import TermOS.Lib.Numeral
import TermOS.Libterm.Console

/-!
# The kernel's console

Model of `kernel/src/IO/IOConsole.c`, up to `IOConsoleReadLine`. Every character goes
to the serial line first and then to the screen. The indices of the loops over
strings are `Int32`, so that behind 2^31 - 1 they would be negative.

## Main Definitions

* `ioConsolePutcharacter` - one character
* `ioConsoleLog` - formatted output; `none` when it has not finished, has read
  outside a string, or has not found the argument that it asks for

## Main Theorem

* `ioConsoleLog_reads_iff` - formatted output keeps to its format and its strings
  exactly when no lone escape ends the format and no string is too long
-/

namespace TermOS.Device

open TermOS.Lib TermOS.Libterm

/-! ## Section 1: Characters -/

/-- The static variables of `IOConsole.c`, and the characters that `IOSerialWriteChar` has
sent. A null pointer to the context is `none`. -/
structure IOConsole where
  serial : List UInt8
  context : Option IOGraphicsContext
  cursorPosition : IOGraphicsPoint
  font : IOGraphicsFont
  foregroundColor : UInt32
  defaultForegroundColor : UInt32
  backgroundColor : UInt32

/-- `IOConsoleInit` -/
def ioConsoleInit (vgaFont : Nat → UInt8) (context : IOGraphicsContext) (console : IOConsole) :
    IOConsole :=
  { console with
    context := some context
    cursorPosition := ⟨0, 0⟩
    font := ⟨⟨8, 16⟩, vgaFont⟩ }

/-- `IOConsoleClear` -/
def ioConsoleClear (color : UInt32) (console : IOConsole) : IOConsole :=
  match console.context with
  | none => console
  | some context =>
    { console with
      context := some (context.store (ioGraphicsDrawRectangle context ⟨0, 0⟩ context.dimensions color))
      cursorPosition := ⟨0, 0⟩
      backgroundColor := color }

/-- What the branches on the character do to the cursor in `IOConsolePutcharacter`. -/
def cursorAdvance (cell : IOGraphicsSize) (character : UInt8) (cursor : IOGraphicsPoint) :
    IOGraphicsPoint :=
  if character = '\n'.toUInt8 then ⟨0, cursor.y + cell.height⟩
  else if character = '\t'.toUInt8 then ⟨cursor.x + cell.width * 4, cursor.y⟩
  else if character = '\x08'.toUInt8 then ⟨cursor.x - cell.width, cursor.y⟩
  else ⟨cursor.x + cell.width, cursor.y⟩

/-- What these branches draw; a backspace has moved the cursor before. -/
def characterStores (console : IOConsole) (context : IOGraphicsContext) (character : UInt8) :
    List PixelStore :=
  if character = '\n'.toUInt8 ∨ character = '\t'.toUInt8 then []
  else if character = '\x08'.toUInt8 then
    ioGraphicsDrawRectangle context
      (cursorAdvance console.font.size character console.cursorPosition) console.font.size
      console.backgroundColor
  else
    ioGraphicsDrawCharacter context console.cursorPosition character console.foregroundColor
      console.font

/-- A cursor that has left the screen on the right goes to the next line. -/
def cursorWrap (cell dimensions : IOGraphicsSize) (cursor : IOGraphicsPoint) : IOGraphicsPoint :=
  if cursor.x ≥ dimensions.width then ⟨0, cursor.y + cell.height⟩ else cursor

/-- Where the cursor is before `IOConsolePutcharacter` looks at its row. -/
def cursorNext (cell dimensions : IOGraphicsSize) (character : UInt8) (cursor : IOGraphicsPoint) :
    IOGraphicsPoint :=
  cursorWrap cell dimensions (cursorAdvance cell character cursor)

/-- `IOConsolePutcharacter` -/
def ioConsolePutcharacter (console : IOConsole) (character : UInt8) : IOConsole :=
  let console := { console with serial := console.serial ++ [character] }
  match console.context with
  | none => console
  | some context =>
    let cursor := cursorNext console.font.size context.dimensions character console.cursorPosition
    let console := { console with
      context := some (context.store (characterStores console context character))
      cursorPosition := cursor }
    if cursor.y ≥ context.dimensions.height then ioConsoleClear console.backgroundColor console
    else console

/-- One character after the other. -/
def IOConsole.putAll (console : IOConsole) (characters : List UInt8) : IOConsole :=
  characters.foldl ioConsolePutcharacter console

/-! ## Section 2: Strings and numbers -/

/-- `string[i]` with an `Int32` for the index, which is negative from 2^31 on. -/
def getInt32 (string : Libterm.CString) (i : Nat) : Option UInt8 :=
  if i < 2 ^ 31 then string.get i else none

/-- The loop of `IOConsolePrint`. -/
def ioConsolePrintLoop (string : Libterm.CString) : Nat → Nat → IOConsole → Option IOConsole
  | 0, _, _ => none
  | turns + 1, i, console =>
    (getInt32 string i).bind fun character =>
      if character = 0 then some console
      else ioConsolePrintLoop string turns (i + 1) (ioConsolePutcharacter console character)

/-- `IOConsolePrint` -/
def ioConsolePrint (string : Libterm.CString) (turns : Nat) (console : IOConsole) : Option IOConsole :=
  ioConsolePrintLoop string turns 0 console

/-- The digits that a `do`-`while` loop leaves in a buffer, the last one first; `none` when
it goes on behind the end of the buffer, of which `room` characters are left. -/
def storeDigits (base : Nat) (digit : Nat → UInt8) : Nat → Nat → Option (List UInt8)
  | 0, _ => none
  | room + 1, unsignedNumber =>
    (if unsignedNumber / base > 0 then storeDigits base digit room (unsignedNumber / base)
      else some []).map (digit (unsignedNumber % base) :: ·)

/-- `abs`, on an `int`. -/
def abs (n : Int32) : Int32 := if n < 0 then -n else n

/-- `sIOConsolePrintDecimal` -/
def sIOConsolePrintDecimal (number : Int64) (console : IOConsole) : Option IOConsole :=
  let console := if number < 0 then ioConsolePutcharacter console '-'.toUInt8 else console
  let unsignedNumber := (abs number.toInt32).toInt64.toUInt64
  (storeDigits 10 decimalDigit 32 unsignedNumber.toNat).map fun buffer =>
    console.putAll buffer.reverse

/-- `digit + '0'` or `digit - 10 + 'A'` -/
def hexadecimalDigit (digit : Nat) : UInt8 :=
  if digit < 10 then UInt8.ofNat (digit + '0'.toNat) else UInt8.ofNat (digit - 10 + 'A'.toNat)

/-- `while (i < padding)`, where the padding goes down. -/
def printPadding (i : Nat) : Nat → IOConsole → IOConsole
  | 0, console => console
  | padding + 1, console =>
    if i < padding + 1 then printPadding i padding (ioConsolePutcharacter console '0'.toUInt8)
    else console

/-- `sIOConsolePrintHexadecimal` -/
def sIOConsolePrintHexadecimal (unsignedNumber : UInt64) (padding : Nat) (console : IOConsole) :
    Option IOConsole :=
  let console := ioConsolePutcharacter (ioConsolePutcharacter console '0'.toUInt8) 'x'.toUInt8
  if unsignedNumber = 0 then
    -- from 1 on
    some ((ioConsolePutcharacter console '0'.toUInt8).putAll
      (List.replicate (padding - 1) '0'.toUInt8))
  else
    (storeDigits 16 hexadecimalDigit 16 unsignedNumber.toNat).map fun buffer =>
      (printPadding buffer.length padding console).putAll buffer.reverse

/-! ## Section 3: Formats -/

/-- `IOConsoleSetForegroundColor` -/
def ioConsoleSetForegroundColor (console : IOConsole) (color : UInt32) : IOConsole :=
  { console with foregroundColor := color }

/-- The colours of `IOConsoleLog` by their letters. -/
def kIOConsoleColor (letter : UInt8) : Option UInt32 :=
  if letter = 'r'.toUInt8 then some 0xFF5555
  else if letter = 'R'.toUInt8 then some 0xFF0000
  else if letter = 'g'.toUInt8 then some 0x08bf39
  else if letter = 'G'.toUInt8 then some 0x00FF00
  else if letter = 't'.toUInt8 then some 0x5effaf
  else if letter = 'b'.toUInt8 then some 0x5555FF
  else if letter = 'B'.toUInt8 then some 0x0000FF
  else if letter = 'l'.toUInt8 then some 0x3890e8
  else if letter = 'y'.toUInt8 then some 0xFFFF55
  else if letter = 'c'.toUInt8 then some 0x55FFFF
  else if letter = 'm'.toUInt8 then some 0xFF55FF
  else if letter = 'p'.toUInt8 then some 0xFFA3B1
  else if letter = '0'.toUInt8 then some 0x000000
  else if letter = 'w'.toUInt8 then some 0xFFFFFF
  else none

/-- The `switch` behind a `^`. -/
def logColor (letter : UInt8) (console : IOConsole) : IOConsole :=
  match kIOConsoleColor letter with
  | some color => ioConsoleSetForegroundColor console color
  | none =>
    if letter = '!'.toUInt8 then ioConsoleSetForegroundColor console console.defaultForegroundColor
    else if letter = '~'.toUInt8 then ioConsoleSetForegroundColor console (~~~console.backgroundColor)
    else if letter = '^'.toUInt8 then ioConsolePutcharacter console '^'.toUInt8
    else ioConsolePutcharacter (ioConsolePutcharacter console '^'.toUInt8) letter

/-- `"undefined"` -/
def undefinedString : Libterm.CString :=
  ⟨literal ['u', 'n', 'd', 'e', 'f', 'i', 'n', 'e', 'd'], by decide⟩

/-- The `switch` behind a `%`: the arguments that are left, and the console. -/
def logConversion (turns : Nat) (conversion : UInt8) (args : List VaArg) (console : IOConsole) :
    Option (List VaArg × IOConsole) :=
  if conversion = 's'.toUInt8 then
    match args with
    | .string string :: args =>
      (ioConsolePrint (string.getD undefinedString) turns console).map fun console => (args, console)
    | _ => none
  else if conversion = 'c'.toUInt8 then
    match args with
    | .int character :: args =>
      some (args, ioConsolePutcharacter console character.toUInt32.toUInt8)
    | _ => none
  else if conversion = 'd'.toUInt8 then
    match args with
    | .int number :: args =>
      (sIOConsolePrintDecimal number.toInt64 console).map fun console => (args, console)
    | _ => none
  else if conversion = 'x'.toUInt8 then
    match args with
    | .unsignedLongLong number :: args =>
      (sIOConsolePrintHexadecimal number 0 console).map fun console => (args, console)
    | _ => none
  else if conversion = 'X'.toUInt8 then
    match args with
    | .unsignedLongLong number :: args =>
      (sIOConsolePrintHexadecimal number 16 console).map fun console => (args, console)
    | _ => none
  else some (args, ioConsolePutcharacter console conversion)

/-- The loop of `IOConsoleLog`; `printTurns` is for the strings that it prints. -/
def ioConsoleLogLoop (fmt : Libterm.CString) (printTurns : Nat) :
    Nat → Nat → List VaArg → IOConsole → Option IOConsole
  | 0, _, _, _ => none
  | turns + 1, i, args, console =>
    (getInt32 fmt i).bind fun character =>
      if character = 0 then some console
      else if character = '%'.toUInt8 then
        (getInt32 fmt (i + 1)).bind fun conversion =>
          (logConversion printTurns conversion args console).bind fun next =>
            ioConsoleLogLoop fmt printTurns turns (i + 2) next.1 next.2
      else if character = '^'.toUInt8 then
        (getInt32 fmt (i + 1)).bind fun letter =>
          ioConsoleLogLoop fmt printTurns turns (i + 2) args (logColor letter console)
      else ioConsoleLogLoop fmt printTurns turns (i + 1) args (ioConsolePutcharacter console character)

/-- `IOConsoleLog`, with at most `turns` turns of each of its loops. -/
def ioConsoleLog (fmt : Libterm.CString) (args : List VaArg) (turns : Nat) (console : IOConsole) :
    Option IOConsole :=
  ioConsoleLogLoop fmt turns turns 0 args console

/-! ## Section 4: What a format stands for -/

@[simp] theorem IOConsole.putAll_nil (console : IOConsole) : console.putAll [] = console := rfl

@[simp] theorem IOConsole.putAll_cons (console : IOConsole) (character : UInt8)
    (characters : List UInt8) : console.putAll (character :: characters) =
      (ioConsolePutcharacter console character).putAll characters := rfl

theorem IOConsole.putAll_append (console : IOConsole) (first second : List UInt8) :
    console.putAll (first ++ second) = (console.putAll first).putAll second := List.foldl_append

@[simp] theorem ioConsoleClear_serial (color : UInt32) (console : IOConsole) :
    (ioConsoleClear color console).serial = console.serial := by
  unfold ioConsoleClear
  split <;> rfl

@[simp] theorem ioConsolePutcharacter_serial (console : IOConsole) (character : UInt8) :
    (ioConsolePutcharacter console character).serial = console.serial ++ [character] := by
  unfold ioConsolePutcharacter
  dsimp only
  split
  · rfl
  · split
    · rw [ioConsoleClear_serial]
    · rfl

/-- The serial line has received every character. -/
@[simp] theorem IOConsole.putAll_serial (console : IOConsole) (characters : List UInt8) :
    (console.putAll characters).serial = console.serial ++ characters := by
  induction characters generalizing console with
  | nil => simp
  | cons character characters ih => simp [ih]

/-- The arguments behind those that a conversion takes; `none` when it does not find the one
that it asks for. -/
def argsBehind (conversion : UInt8) (args : List VaArg) : Option (List VaArg) :=
  if conversion = 's'.toUInt8 then
    match args with
    | .string _ :: args => some args
    | _ => none
  else if conversion = 'c'.toUInt8 ∨ conversion = 'd'.toUInt8 then
    match args with
    | .int _ :: args => some args
    | _ => none
  else if conversion = 'x'.toUInt8 ∨ conversion = 'X'.toUInt8 then
    match args with
    | .unsignedLongLong _ :: args => some args
    | _ => none
  else some args

/-- A character that changes the meaning of the one behind it. -/
def IsEscape (character : UInt8) : Prop := character = '%'.toUInt8 ∨ character = '^'.toUInt8

instance (character : UInt8) : Decidable (IsEscape character) :=
  inferInstanceAs (Decidable (_ ∨ _))

theorem isEscape_percent : IsEscape '%'.toUInt8 := Or.inl rfl

theorem isEscape_caret : IsEscape '^'.toUInt8 := Or.inr rfl

/-- The arguments are those that the conversions of a format ask for. -/
def Matches : List UInt8 → List VaArg → Prop
  | [], args => args = []
  | [_], args => args = []
  | character :: next :: rest, args =>
    if character = '%'.toUInt8 then ∃ args', argsBehind next args = some args' ∧ Matches rest args'
    else if character = '^'.toUInt8 then Matches rest args
    else Matches (next :: rest) args

/-- A format ends in an escape with nothing behind it. -/
def EndsInEscape : List UInt8 → Prop
  | [] => False
  | [character] => IsEscape character
  | character :: next :: rest =>
    if IsEscape character then EndsInEscape rest else EndsInEscape (next :: rest)

/-- What the characters of a format do, one after the other; `none` for a lone escape. -/
def logCharacters (turns : Nat) : List UInt8 → List VaArg → IOConsole → Option IOConsole
  | [], _, console => some console
  | [character], _, console =>
    if IsEscape character then none else some (ioConsolePutcharacter console character)
  | character :: next :: rest, args, console =>
    if character = '%'.toUInt8 then
      (logConversion turns next args console).bind fun found => logCharacters turns rest found.1 found.2
    else if character = '^'.toUInt8 then logCharacters turns rest args (logColor next console)
    else logCharacters turns (next :: rest) args (ioConsolePutcharacter console character)

section Print

variable {string : Libterm.CString} {turns : Nat} {console : IOConsole}

theorem getInt32_of_drop {i : Nat} {character : UInt8} {rest : List UInt8}
    (hshort : string.chars.length < 2 ^ 31) (h : string.chars.drop i = character :: rest) :
    getInt32 string i = some character ∧ character ≠ 0 := by
  obtain ⟨hi, hget, hne⟩ := CString.get_of_drop h
  rw [getInt32, if_pos (by omega)]
  exact ⟨hget, hne⟩

theorem getInt32_length (hshort : string.chars.length < 2 ^ 31) :
    getInt32 string string.chars.length = some 0 := by
  rw [getInt32, if_pos hshort, CString.get_length]

/-- What is in front of the index limit is not the NUL of a longer string. -/
theorem getInt32_of_long {i : Nat} (hlong : 2 ^ 31 ≤ string.chars.length) :
    getInt32 string i ≠ some 0 := by
  unfold getInt32
  split
  · next hi =>
    have hdrop : string.chars.drop i = string.chars[i] :: string.chars.drop (i + 1) :=
      List.drop_eq_getElem_cons (by omega)
    obtain ⟨-, hget, hne⟩ := CString.get_of_drop hdrop
    rw [hget]
    exact fun h => hne (Option.some.inj h)
  · simp

theorem ioConsolePrintLoop_eq (hshort : string.chars.length < 2 ^ 31) {i : Nat} {rest : List UInt8}
    (h : string.chars.drop i = rest) (hturns : rest.length < turns) (hi : i ≤ string.chars.length) :
    ioConsolePrintLoop string turns i console = some (console.putAll rest) := by
  induction rest generalizing turns i console with
  | nil =>
    obtain ⟨turns, rfl⟩ := Nat.exists_eq_succ_of_ne_zero (Nat.ne_of_gt hturns)
    have hend : i = string.chars.length := Nat.le_antisymm hi (List.drop_eq_nil_iff.mp h)
    rw [ioConsolePrintLoop, hend, getInt32_length hshort]
    rfl
  | cons character rest ih =>
    obtain ⟨turns, rfl⟩ := Nat.exists_eq_succ_of_ne_zero (Nat.ne_of_gt (Nat.zero_lt_of_lt hturns))
    obtain ⟨hget, hne⟩ := getInt32_of_drop hshort h
    have hlt := (CString.get_of_drop h).1
    rw [ioConsolePrintLoop, hget, Option.bind_some, if_neg hne]
    exact ih (drop_succ_of_drop h) (Nat.lt_of_succ_lt_succ hturns) hlt

/-- A loop that has ended has seen the NUL. -/
theorem ioConsolePrintLoop_some {i : Nat} {console' : IOConsole}
    (h : ioConsolePrintLoop string turns i console = some console') :
    string.chars.length < 2 ^ 31 ∧ string.chars.length < i + turns := by
  induction turns generalizing i console with
  | zero => cases h
  | succ turns ih =>
    rw [ioConsolePrintLoop] at h
    obtain ⟨character, hget, h⟩ := Option.bind_eq_some_iff.mp h
    by_cases hnul : character = 0
    · rw [hnul] at hget
      have hshort : string.chars.length < 2 ^ 31 := by
        by_contra hlong
        exact getInt32_of_long (Nat.le_of_not_lt hlong) hget
      refine ⟨hshort, ?_⟩
      by_contra hi
      have hdrop : string.chars.drop i = string.chars[i] :: string.chars.drop (i + 1) :=
        List.drop_eq_getElem_cons (by omega)
      obtain ⟨hget', hne⟩ := getInt32_of_drop hshort hdrop
      rw [hget] at hget'
      exact hne (Option.some.inj hget').symm
    · rw [if_neg hnul] at h
      have := ih h
      omega

/-- `IOConsolePrint` prints the characters of its string, provided that an `Int32` can
count them. -/
theorem ioConsolePrint_eq (hshort : string.chars.length < 2 ^ 31) (hturns : string.chars.length < turns) :
    ioConsolePrint string turns console = some (console.putAll string.chars) :=
  ioConsolePrintLoop_eq hshort rfl hturns (Nat.zero_le _)

theorem ioConsolePrint_isSome_iff : (ioConsolePrint string turns console).isSome ↔
    string.chars.length < 2 ^ 31 ∧ string.chars.length < turns := by
  constructor
  · intro h
    obtain ⟨console', h⟩ := Option.isSome_iff_exists.mp h
    simpa using ioConsolePrintLoop_some h
  · rintro ⟨hshort, hturns⟩
    rw [ioConsolePrint_eq hshort hturns]
    rfl

end Print

/-! ## Section 5: Numbers -/

/-- A buffer that is large enough holds the digits. -/
theorem storeDigits_eq {base : Nat} (hbase : 1 < base) (digit : Nat → UInt8) {room n : Nat}
    (hroom : 0 < room) (h : n < base ^ room) :
    storeDigits base digit room n = some ((lastDigits base n).map digit) := by
  induction room generalizing n with
  | zero => exact absurd hroom (Nat.lt_irrefl 0)
  | succ room ih =>
    rw [storeDigits, lastDigits_eq_cons hbase n]
    by_cases hquotient : n / base > 0
    · have hlt : n / base < base ^ room := by
        rw [Nat.div_lt_iff_lt_mul (by omega), ← Nat.pow_succ]
        exact h
      have hroom' : 0 < room := by
        apply Nat.pos_of_ne_zero
        rintro rfl
        rw [Nat.pow_zero] at hlt
        omega
      rw [if_pos hquotient, if_pos hquotient, ih hroom' hlt]
      rfl
    · rw [if_neg hquotient, if_neg hquotient]
      rfl

/-- What `sIOConsolePrintDecimal` prints. -/
def kernelDecimal (number : Int64) : List UInt8 :=
  (if number < 0 then literal ['-'] else []) ++
    ((lastDigits 10 (abs number.toInt32).toInt64.toUInt64.toNat).map decimalDigit).reverse

theorem sIOConsolePrintDecimal_eq (number : Int64) (console : IOConsole) :
    sIOConsolePrintDecimal number console = some (console.putAll (kernelDecimal number)) := by
  have hroom : (abs number.toInt32).toInt64.toUInt64.toNat < 10 ^ 32 :=
    Nat.lt_trans (UInt64.toNat_lt _) (by decide)
  unfold sIOConsolePrintDecimal kernelDecimal
  dsimp only
  rw [storeDigits_eq (by decide) _ (by decide) hroom, IOConsole.putAll_append]
  split <;> rfl

/-- The padding that is printed. -/
theorem printPadding_eq (i padding : Nat) (console : IOConsole) :
    printPadding i padding console =
      console.putAll (List.replicate (padding - i) '0'.toUInt8) := by
  induction padding generalizing console with
  | zero => simp [printPadding]
  | succ padding ih =>
    rw [printPadding]
    split
    · next hlt =>
      rw [ih, Nat.sub_add_comm (Nat.le_of_lt_succ hlt), List.replicate_succ, IOConsole.putAll_cons]
    · next hle =>
      rw [Nat.sub_eq_zero_of_le (Nat.le_of_not_lt hle)]
      rfl

/-- What `sIOConsolePrintHexadecimal` prints. -/
def kernelHexadecimal (padding n : Nat) : List UInt8 :=
  literal ['0', 'x'] ++ List.replicate (padding - (lastDigits 16 n).length) '0'.toUInt8 ++
    ((lastDigits 16 n).map hexadecimalDigit).reverse

theorem sIOConsolePrintHexadecimal_eq (unsignedNumber : UInt64) (padding : Nat) (console : IOConsole) :
    sIOConsolePrintHexadecimal unsignedNumber padding console =
      some (console.putAll (kernelHexadecimal padding unsignedNumber.toNat)) := by
  have hroom : unsignedNumber.toNat < 16 ^ 16 := unsignedNumber.toNat_lt
  unfold sIOConsolePrintHexadecimal kernelHexadecimal
  dsimp only
  rw [IOConsole.putAll_append, IOConsole.putAll_append]
  by_cases hzero : unsignedNumber = 0
  · -- one digit is printed before the padding instead of behind it
    rw [if_pos hzero, hzero]
    have hswap : ∀ console : IOConsole,
        (console.putAll (List.replicate (padding - 1) '0'.toUInt8)).putAll ['0'.toUInt8] =
          (ioConsolePutcharacter console '0'.toUInt8).putAll
            (List.replicate (padding - 1) '0'.toUInt8) := by
      intro console
      rw [← IOConsole.putAll_append, ← List.replicate_succ', List.replicate_succ,
        IOConsole.putAll_cons]
    exact congrArg some (hswap _).symm
  · rw [if_neg hzero, storeDigits_eq (by decide) _ (by decide) hroom, Option.map_some,
      List.length_map, printPadding_eq]
    rfl

/-! ## Section 6: Reading a format -/

section Log

variable {fmt : Libterm.CString} {turns : Nat} {console : IOConsole} {args : List VaArg}

/-- `IOConsolePrint` ends for this argument. -/
def Prints (turns : Nat) (string : Option Libterm.CString) : Prop :=
  (string.getD undefinedString).chars.length < 2 ^ 31 ∧
    (string.getD undefinedString).chars.length < turns

/-- A conversion prints a string, or a text that depends on its argument only. -/
theorem logConversion_cases {conversion : UInt8} {args' : List VaArg}
    (h : argsBehind conversion args = some args') :
    (∃ string, args = .string string :: args' ∧ ∀ console, logConversion turns conversion args console =
      (ioConsolePrint (string.getD undefinedString) turns console).map (args', ·)) ∨
    ∃ taken, args = taken ++ args' ∧ (∀ string, VaArg.string string ∉ taken) ∧ ∃ text, ∀ console,
      logConversion turns conversion args console = some (args', console.putAll text) := by
  unfold argsBehind at h
  unfold logConversion
  -- only `%s` can fail to end
  by_cases hs : conversion = 's'.toUInt8
  · left
    rw [if_pos hs] at h
    split at h <;> cases h
    next string => exact ⟨string, rfl, fun console => by rw [if_pos hs]⟩
  right
  rw [if_neg hs] at h
  simp only [if_neg hs]
  by_cases hcd : conversion = 'c'.toUInt8 ∨ conversion = 'd'.toUInt8
  · rw [if_pos hcd] at h
    split at h <;> cases h
    next value =>
    refine ⟨[.int value], rfl, by simp, ?_⟩
    by_cases hc : conversion = 'c'.toUInt8
    · simp only [if_pos hc]
      exact ⟨[value.toUInt32.toUInt8], fun console => rfl⟩
    · simp only [if_neg hc, if_pos (hcd.resolve_left hc), sIOConsolePrintDecimal_eq]
      exact ⟨kernelDecimal value.toInt64, fun console => rfl⟩
  rw [if_neg hcd] at h
  rw [not_or] at hcd
  simp only [if_neg hcd.1, if_neg hcd.2]
  by_cases hxX : conversion = 'x'.toUInt8 ∨ conversion = 'X'.toUInt8
  · rw [if_pos hxX] at h
    split at h <;> cases h
    next value =>
    refine ⟨[.unsignedLongLong value], rfl, by simp, ?_⟩
    by_cases hx : conversion = 'x'.toUInt8
    · simp only [if_pos hx, sIOConsolePrintHexadecimal_eq]
      exact ⟨kernelHexadecimal 0 value.toNat, fun console => rfl⟩
    · simp only [if_neg hx, if_pos (hxX.resolve_left hx), sIOConsolePrintHexadecimal_eq]
      exact ⟨kernelHexadecimal 16 value.toNat, fun console => rfl⟩
  rw [if_neg hxX] at h
  rw [not_or] at hxX
  cases h
  simp only [if_neg hxX.1, if_neg hxX.2]
  exact ⟨[], rfl, by simp, [conversion], fun console => rfl⟩

/-- A format with its arguments ends unless a lone escape is left or a string is too long. -/
theorem logCharacters_isSome_iff {chars : List UInt8} (h : Matches chars args) :
    (logCharacters turns chars args console).isSome ↔
      ¬ EndsInEscape chars ∧ ∀ string, VaArg.string string ∈ args → Prints turns string := by
  -- the induction follows the format; an escape takes the character behind it along
  induction chars, args, console using logCharacters.induct with
  | case1 args console =>
    obtain rfl : args = [] := h
    simp [logCharacters, EndsInEscape]
  | case2 character args console hescape =>
    simp [logCharacters, EndsInEscape, hescape]
  | case3 character args console hescape =>
    obtain rfl : args = [] := h
    simp [logCharacters, EndsInEscape, hescape]
  | case4 next rest args console ih =>
    rw [Matches, if_pos rfl] at h
    obtain ⟨args', htaken, hrest⟩ := h
    rw [logCharacters, if_pos rfl, EndsInEscape, if_pos isEscape_percent]
    rcases logConversion_cases htaken with ⟨string, rfl, hlog⟩ | ⟨taken, rfl, hnone, text, hlog⟩
    · rw [hlog]
      by_cases hprints : Prints turns string
      · rw [ioConsolePrint_eq hprints.1 hprints.2, Option.map_some, Option.bind_some, ih _ hrest]
        simp [hprints]
      · have hstuck : ioConsolePrint (string.getD undefinedString) turns console = none := by
          rw [← Option.not_isSome_iff_eq_none, ioConsolePrint_isSome_iff]
          exact hprints
        rw [hstuck]
        simp [hprints]
    · rw [hlog, Option.bind_some, ih _ hrest]
      simp [hnone]
  | case5 next rest args console hpercent ih =>
    rw [Matches, if_neg hpercent, if_pos rfl] at h
    rw [logCharacters, if_neg hpercent, if_pos rfl, EndsInEscape, if_pos isEscape_caret]
    exact ih h
  | case6 character next rest args console hpercent hcaret ih =>
    have hplain : ¬ IsEscape character := not_or.mpr ⟨hpercent, hcaret⟩
    rw [Matches, if_neg hpercent, if_neg hcaret] at h
    rw [logCharacters, if_neg hpercent, if_neg hcaret, EndsInEscape, if_neg hplain]
    exact ih h

/-- Behind the NUL there is nothing to read. -/
theorem ioConsoleLogLoop_behind (printTurns i : Nat) (h : fmt.chars.length < i) :
    ioConsoleLogLoop fmt printTurns turns i args console = none := by
  cases turns with
  | zero => rfl
  | succ turns =>
    have hget : getInt32 fmt i = none := by
      unfold getInt32 CString.get
      rw [if_neg (show ¬ i < fmt.chars.length by omega), if_neg (show ¬ i = fmt.chars.length by omega),
        ite_self]
    rw [ioConsoleLogLoop, hget]
    rfl

/-- From a place in the format on, the loop does what the characters stand for. -/
theorem ioConsoleLogLoop_eq {printTurns i : Nat} {rest : List UInt8}
    (hshort : fmt.chars.length < 2 ^ 31) (h : fmt.chars.drop i = rest) (hi : i ≤ fmt.chars.length)
    (hturns : rest.length < turns) : ioConsoleLogLoop fmt printTurns turns i args console =
      logCharacters printTurns rest args console := by
  induction rest, args, console using logCharacters.induct generalizing turns i with
  | case1 args console =>
    obtain ⟨turns, rfl⟩ := Nat.exists_eq_succ_of_ne_zero (Nat.ne_of_gt hturns)
    have hend : i = fmt.chars.length := Nat.le_antisymm hi (List.drop_eq_nil_iff.mp h)
    rw [ioConsoleLogLoop, hend, getInt32_length hshort]
    rfl
  | case2 character args console hescape =>
    obtain ⟨turns, rfl⟩ := Nat.exists_eq_succ_of_ne_zero (Nat.ne_of_gt (Nat.zero_lt_of_lt hturns))
    obtain ⟨hget, hne⟩ := getInt32_of_drop hshort h
    have hend : i + 1 = fmt.chars.length :=
      Nat.le_antisymm (CString.get_of_drop h).1 (List.drop_eq_nil_iff.mp (drop_succ_of_drop h))
    have hnul : getInt32 fmt (i + 1) = some 0 := hend ▸ getInt32_length hshort
    rw [logCharacters, if_pos hescape, ioConsoleLogLoop, hget, Option.bind_some, if_neg hne]
    rcases hescape with rfl | rfl
    · rw [if_pos rfl, hnul, Option.bind_some]
      -- the NUL is printed, and the loop goes on behind it
      cases logConversion printTurns 0 args console with
      | none => rfl
      | some next => exact ioConsoleLogLoop_behind _ _ (by omega)
    · rw [if_neg (by decide), if_pos rfl, hnul, Option.bind_some]
      exact ioConsoleLogLoop_behind _ _ (by omega)
  | case3 character args console hescape =>
    obtain ⟨turns, rfl⟩ := Nat.exists_eq_succ_of_ne_zero (Nat.ne_of_gt (Nat.zero_lt_of_lt hturns))
    obtain ⟨hget, hne⟩ := getInt32_of_drop hshort h
    obtain ⟨hpercent, hcaret⟩ := not_or.mp hescape
    have hend : i + 1 = fmt.chars.length :=
      Nat.le_antisymm (CString.get_of_drop h).1 (List.drop_eq_nil_iff.mp (drop_succ_of_drop h))
    obtain ⟨turns, rfl⟩ := Nat.exists_eq_succ_of_ne_zero
      (Nat.ne_of_gt (Nat.lt_of_succ_lt_succ hturns))
    rw [logCharacters, if_neg hescape, ioConsoleLogLoop, hget, Option.bind_some, if_neg hne,
      if_neg hpercent, if_neg hcaret, ioConsoleLogLoop, hend, getInt32_length hshort]
    rfl
  | case4 next rest args console ih =>
    obtain ⟨turns, rfl⟩ := Nat.exists_eq_succ_of_ne_zero (Nat.ne_of_gt (Nat.zero_lt_of_lt hturns))
    obtain ⟨hget, hne⟩ := getInt32_of_drop hshort h
    have hdrop := drop_succ_of_drop h
    rw [logCharacters, if_pos rfl, ioConsoleLogLoop, hget, Option.bind_some, if_neg hne, if_pos rfl,
      (getInt32_of_drop hshort hdrop).1, Option.bind_some]
    refine congrArg (Option.bind _) (funext fun found => ?_)
    rw [List.length_cons, List.length_cons] at hturns
    exact ih found (drop_succ_of_drop hdrop) (CString.get_of_drop hdrop).1 (by omega)
  | case5 next rest args console hpercent ih =>
    obtain ⟨turns, rfl⟩ := Nat.exists_eq_succ_of_ne_zero (Nat.ne_of_gt (Nat.zero_lt_of_lt hturns))
    obtain ⟨hget, hne⟩ := getInt32_of_drop hshort h
    have hdrop := drop_succ_of_drop h
    rw [logCharacters, if_neg hpercent, if_pos rfl, ioConsoleLogLoop, hget, Option.bind_some,
      if_neg hne, if_neg hpercent, if_pos rfl, (getInt32_of_drop hshort hdrop).1, Option.bind_some]
    rw [List.length_cons, List.length_cons] at hturns
    exact ih (drop_succ_of_drop hdrop) (CString.get_of_drop hdrop).1 (by omega)
  | case6 character next rest args console hpercent hcaret ih =>
    obtain ⟨turns, rfl⟩ := Nat.exists_eq_succ_of_ne_zero (Nat.ne_of_gt (Nat.zero_lt_of_lt hturns))
    obtain ⟨hget, hne⟩ := getInt32_of_drop hshort h
    rw [logCharacters, if_neg hpercent, if_neg hcaret, ioConsoleLogLoop, hget, Option.bind_some,
      if_neg hne, if_neg hpercent, if_neg hcaret]
    rw [List.length_cons] at hturns
    exact ih (drop_succ_of_drop h) (CString.get_of_drop h).1 (by omega)

/-- More turns change nothing. -/
theorem ioConsoleLogLoop_mono {printTurns i : Nat} {console' : IOConsole}
    (h : ioConsoleLogLoop fmt printTurns turns i args console = some console') {more : Nat}
    (hmore : turns ≤ more) : ioConsoleLogLoop fmt printTurns more i args console = some console' := by
  induction turns generalizing i args console more with
  | zero => cases h
  | succ turns ih =>
    obtain ⟨more, rfl⟩ := Nat.exists_eq_succ_of_ne_zero (n := more) (by omega)
    replace hmore := Nat.le_of_succ_le_succ hmore
    -- each turn is the same, and the rest of the format has one turn less
    rw [ioConsoleLogLoop] at h ⊢
    obtain ⟨character, hget, h⟩ := Option.bind_eq_some_iff.mp h
    rw [hget, Option.bind_some]
    split
    · next hnul => rwa [if_pos hnul] at h
    next hnul =>
    rw [if_neg hnul] at h
    split
    · next hpercent =>
      rw [if_pos hpercent] at h
      obtain ⟨conversion, hget', h⟩ := Option.bind_eq_some_iff.mp h
      obtain ⟨found, hfound, h⟩ := Option.bind_eq_some_iff.mp h
      rw [hget', Option.bind_some, hfound, Option.bind_some]
      exact ih h hmore
    next hpercent =>
    rw [if_neg hpercent] at h
    split
    · next hcaret =>
      rw [if_pos hcaret] at h
      obtain ⟨letter, hget', h⟩ := Option.bind_eq_some_iff.mp h
      rw [hget', Option.bind_some]
      exact ih h hmore
    · next hcaret =>
      rw [if_neg hcaret] at h
      exact ih h hmore

/-- A loop that has ended has seen the NUL of its format. -/
theorem ioConsoleLogLoop_short {printTurns i : Nat} {console' : IOConsole}
    (h : ioConsoleLogLoop fmt printTurns turns i args console = some console') :
    fmt.chars.length < 2 ^ 31 := by
  induction turns generalizing i args console with
  | zero => cases h
  | succ turns ih =>
    rw [ioConsoleLogLoop] at h
    obtain ⟨character, hget, h⟩ := Option.bind_eq_some_iff.mp h
    by_cases hnul : character = 0
    · rw [hnul] at hget
      by_contra hlong
      exact getInt32_of_long (Nat.le_of_not_lt hlong) hget
    rw [if_neg hnul] at h
    by_cases hpercent : character = '%'.toUInt8
    · rw [if_pos hpercent] at h
      obtain ⟨conversion, -, h⟩ := Option.bind_eq_some_iff.mp h
      obtain ⟨found, -, h⟩ := Option.bind_eq_some_iff.mp h
      exact ih h
    rw [if_neg hpercent] at h
    by_cases hcaret : character = '^'.toUInt8
    · rw [if_pos hcaret] at h
      obtain ⟨letter, -, h⟩ := Option.bind_eq_some_iff.mp h
      exact ih h
    · rw [if_neg hcaret] at h
      exact ih h

/-- The strings among some arguments are shorter than some number of turns. -/
theorem exists_turns (args : List VaArg) :
    ∃ turns, ∀ string, VaArg.string (some string) ∈ args → string.chars.length < turns := by
  induction args with
  | nil => exact ⟨0, by simp⟩
  | cons arg args ih =>
    obtain ⟨turns, hturns⟩ := ih
    cases arg with
    | string string =>
      refine ⟨max turns ((string.getD undefinedString).chars.length + 1), ?_⟩
      intro found hfound
      rw [List.mem_cons] at hfound
      rcases hfound with heq | hfound
      · cases heq
        exact Nat.lt_of_lt_of_le (Nat.lt_succ_self _) (Nat.le_max_right _ _)
      · exact Nat.lt_of_lt_of_le (hturns found hfound) (Nat.le_max_left _ _)
    | int value => exact ⟨turns, by simpa using hturns⟩
    | unsignedLongLong value => exact ⟨turns, by simpa using hturns⟩

/-- A call with the arguments that its format asks for ends, and has read nothing but the
format and the strings, unless the format ends in a lone escape, or it or one of the strings
is too long for the index. -/
theorem ioConsoleLog_reads_iff (fmt : Libterm.CString) (args : List VaArg) (console : IOConsole)
    (hmatches : Matches fmt.chars args) :
    (∃ turns, (ioConsoleLog fmt args turns console).isSome) ↔
      ¬ EndsInEscape fmt.chars ∧ fmt.chars.length < 2 ^ 31 ∧
        ∀ string, VaArg.string (some string) ∈ args → string.chars.length < 2 ^ 31 := by
  constructor
  · rintro ⟨turns, hsome⟩
    obtain ⟨console', hloop⟩ := Option.isSome_iff_exists.mp hsome
    have hshort := ioConsoleLogLoop_short hloop
    have hmore := ioConsoleLogLoop_mono hloop (Nat.le_max_left turns (fmt.chars.length + 1))
    rw [ioConsoleLogLoop_eq hshort List.drop_zero (Nat.zero_le _)
      (Nat.lt_of_lt_of_le (Nat.lt_succ_self _) (Nat.le_max_right _ _))] at hmore
    obtain ⟨hends, hprints⟩ := (logCharacters_isSome_iff hmatches).mp
      (Option.isSome_iff_exists.mpr ⟨console', hmore⟩)
    exact ⟨hends, hshort, fun string hstring => (hprints (some string) hstring).1⟩
  · rintro ⟨hends, hshort, hstrings⟩
    obtain ⟨turns, hturns⟩ := exists_turns args
    refine ⟨max turns (max (fmt.chars.length + 1) 10), ?_⟩
    rw [ioConsoleLog, ioConsoleLogLoop_eq hshort List.drop_zero (Nat.zero_le _) (by omega),
      logCharacters_isSome_iff hmatches]
    refine ⟨hends, fun string hstring => ?_⟩
    cases string with
    | none => exact ⟨by decide, Nat.lt_of_lt_of_le (by decide : 9 < 10) (by omega)⟩
    | some string =>
      have := hturns string hstring
      exact ⟨hstrings string hstring, by rw [Option.getD_some]; omega⟩

end Log

/-- The console of a machine without a screen. -/
def serialConsole : IOConsole := ⟨[], none, ⟨0, 0⟩, ⟨⟨8, 16⟩, fun _ => 0⟩, 0xFFFFFF, 0xFFFFFF, 0⟩

/-- A size in percent, without its second escape. -/
def percentFormat : Libterm.CString := ⟨literal ['%', 'd', '%'], by decide⟩

/-- The same in colour. -/
def colorFormat : Libterm.CString := ⟨literal ['^', 'y', '%', 'd', '^', '!'], by decide⟩

/-- A format whose last escape has its letter. -/
theorem ioConsoleLog_reads_colorFormat :
    (∃ turns, (ioConsoleLog colorFormat [.int 5] turns serialConsole).isSome) ↔
      ¬ EndsInEscape colorFormat.chars ∧ colorFormat.chars.length < 2 ^ 31 ∧
        ∀ string, VaArg.string (some string) ∈ [VaArg.int 5] → string.chars.length < 2 ^ 31 :=
  ioConsoleLog_reads_iff colorFormat [.int 5] serialConsole ⟨[], rfl, rfl⟩

/-- Behind a lone `%` the loop steps over the NUL. -/
theorem ioConsoleLog_percentFormat : Matches percentFormat.chars [.int 5] ∧
    ¬ ∃ turns, (ioConsoleLog percentFormat [.int 5] turns serialConsole).isSome := by
  have hmatches : Matches percentFormat.chars [.int 5] := ⟨[], rfl, rfl⟩
  refine ⟨hmatches, ?_⟩
  rintro ⟨turns, hsome⟩
  obtain ⟨console', hloop⟩ := Option.isSome_iff_exists.mp hsome
  have hmore := ioConsoleLogLoop_mono hloop (Nat.le_max_left turns 4)
  rw [ioConsoleLogLoop_eq (by decide) List.drop_zero (Nat.zero_le _)
    (Nat.lt_of_lt_of_le (by decide : 3 < 4) (Nat.le_max_right _ _))] at hmore
  have hends := ((logCharacters_isSome_iff hmatches).mp
    (Option.isSome_iff_exists.mpr ⟨console', hmore⟩)).1
  exact hends isEscape_percent

end TermOS.Device
