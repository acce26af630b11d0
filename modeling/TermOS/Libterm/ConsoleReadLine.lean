import TermOS.Device.IOConsoleReadLine
import TermOS.Lib.LineSession

/-!
# Reading a line in user space

Model of `ConsolePrint`, `ConsoleGetCharacter` and `ConsoleReadLine` in
`userspace/libterm/src/Console.c`. The characters that `OSServiceIORead` delivers are a
list, one for each call, and those that are handed to `OSServiceIOWrite` are appended to
the output.

## Main Theorems

* `consoleReadLineLoop_reads` - the loop reads a line of the characters that come
* `readLine_edits` - both routines that read a line edit it alike
-/

namespace TermOS.Libterm

open TermOS.Lib TermOS.Device

/-! ## Section 1: The code -/

/-- `kConsoleDefaultBufferSize` -/
def kConsoleDefaultBufferSize : Nat := 1024

/-- `kConsoleEOF` -/
def kConsoleEOF : Int32 := -1

/-- `ConsolePrint`: what it hands to `OSServiceIOWrite`. Its buffer is at the beginning of its
stack frame. -/
def consolePrint (stack : Memory) (format : Libterm.CString) (args : List VaArg) (turns : Nat) :
    Option (List UInt8) :=
  (stringFormat 0 kConsoleDefaultBufferSize format args stack turns).map fun formatted =>
    let length := formatted.1.toInt64.toUInt64.toNat
    let writeLength :=
      if length < kConsoleDefaultBufferSize then length else kConsoleDefaultBufferSize - 1
    (List.range writeLength).map fun i => formatted.2 i

/-- `ConsoleGetCharacter`, when `OSServiceIORead` has returned. -/
def consoleGetCharacter (serviceCallResult : UInt64) (character : UInt8) : Int32 :=
  if serviceCallResult ≤ 0 then kConsoleEOF else character.toUInt32.toInt32

/-- A character literal. -/
def charLiteral (character : Char) : Int32 := character.toUInt8.toUInt32.toInt32

/-- The memory with the buffer, `i`, and the output. -/
structure ConsoleReadLineState where
  memory : Memory
  i : UInt64
  output : List UInt8

/-- The loop of `ConsoleReadLine`. A call that waits for another character has none left. -/
def consoleReadLineLoop (string : Nat) (size : UInt64) (stack : Memory) (turns : Nat) :
    List UInt8 → ConsoleReadLineState → Option (ConsoleReadLineState × Option (List UInt8))
  | [], s => some (s, if s.i < size - 1 then none else some [])
  | key :: keys, s =>
    if s.i < size - 1 then
      let character := consoleGetCharacter 1 key
      if character = kConsoleEOF ∨ character = charLiteral '\n' ∨ character = charLiteral '\r' then
        some (s, some keys)
      else if character = charLiteral '\x08' then
        if s.i > 0 then
          (consolePrint stack eraseFormat [] turns).bind fun printed =>
            consoleReadLineLoop string size stack turns keys ⟨s.memory, s.i - 1, s.output ++ printed⟩
        else consoleReadLineLoop string size stack turns keys s
      else
        let memory := s.memory.setByte (string + s.i.toNat) character.toUInt32.toUInt8
        consoleReadLineLoop string size stack turns keys
          ⟨memory, s.i + 1, s.output ++ [character.toUInt32.toUInt8]⟩
    else some (s, some (key :: keys))

/-- What `ConsoleReadLine` does when its loop has been left. -/
def finishLine (string : Nat) (result : ConsoleReadLineState × Option (List UInt8)) :
    ConsoleReadLineState × Option (List UInt8) :=
  match result.2 with
  | none => result
  | some keys =>
    let memory := result.1.memory.setByte (string + result.1.i.toNat) 0
    (⟨memory, result.1.i, result.1.output ++ ['\n'.toUInt8]⟩, some keys)

/-- `ConsoleReadLine`: the state when it has returned, with the characters that are left, or when
it waits for another one. -/
def consoleReadLine (string : Nat) (size : UInt64) (stack : Memory) (turns : Nat) (keys : List UInt8)
    (m : Memory) (output : List UInt8) : Option (ConsoleReadLineState × Option (List UInt8)) :=
  if size = 0 then some (⟨m, 0, output⟩, some keys)
  else
    (consoleReadLineLoop string size stack turns keys ⟨m, 0, output⟩).map (finishLine string)

/-! ## Section 2: The run -/

/-- A character that ends a line. -/
def EndsLine (character : UInt8) : Prop := character = '\n'.toUInt8 ∨ character = '\r'.toUInt8

instance : DecidablePred EndsLine := fun _ => inferInstanceAs (Decidable (_ ∨ _))

/-- Some characters are edited without filling the buffer before the last of them. -/
def NotFullBefore (n : Nat) (kept typed : List UInt8) : Prop :=
  ∀ before, before <+: typed → before ≠ typed →
    (before.foldl (editStep '\x08'.toUInt8 (n - 1)) kept).length < n - 1

/-- What a loop has done when it ends or waits: `typed` are the characters that it has consumed
in front of the end of the line, or until the buffer was full. -/
structure LibraryLine (m : Memory) (string n : Nat) (output kept keys : List UInt8)
    (result : ConsoleReadLineState × Option (List UInt8)) : Prop where
  waits : result.2 = none → (∀ character ∈ keys, ¬ EndsLine character) ∧
    NotFullBefore n kept keys ∧
    (keys.foldl (editStep '\x08'.toUInt8 (n - 1)) kept).length < n - 1 ∧
    Editing m string n output (keys.foldl (editStep '\x08'.toUInt8 (n - 1)) kept) result.1.memory
      result.1.output
  returns : ∀ rest, result.2 = some rest → ∃ typed, (∀ character ∈ typed, ¬ EndsLine character) ∧
    NotFullBefore n kept typed ∧
    ((∃ character, EndsLine character ∧ keys = typed ++ character :: rest ∧
        (typed.foldl (editStep '\x08'.toUInt8 (n - 1)) kept).length < n - 1) ∨
      (keys = typed ++ rest ∧
        (typed.foldl (editStep '\x08'.toUInt8 (n - 1)) kept).length = n - 1)) ∧
    LineRead m string n output (typed.foldl (editStep '\x08'.toUInt8 (n - 1)) kept) result.1.memory
      result.1.output

/-- What is echoed for a character: a backspace wipes a character out, if there is one. -/
def echoed (kept : List UInt8) (character : UInt8) : List UInt8 :=
  if character = '\x08'.toUInt8 then (if kept = [] then [] else eraseFormat.chars) else [character]

/-- A line of the console. -/
def consoleLine (size : Nat) (kept keys : List UInt8) : List UInt8 × Option (List UInt8 × List UInt8) :=
  lineRead EndsLine (fun kept => size - 1 ≤ kept.length) (editStep '\x08'.toUInt8 (size - 1)) echoed
    kept keys

/-- What its buffer holds in the end. -/
def consoleKept (size : Nat) (kept keys : List UInt8) : List UInt8 :=
  lineKept EndsLine (fun kept => size - 1 ≤ kept.length) (editStep '\x08'.toUInt8 (size - 1)) kept keys

/-- What the loop has written and left: the buffer holds the line, up to the index. -/
structure LoopReads (m : Memory) (string n : Nat) (output before kept keys : List UInt8)
    (result : ConsoleReadLineState × Option (List UInt8)) : Prop where
  output_eq : result.1.output = before ++ (consoleLine n kept keys).1
  left_eq : result.2 = (consoleLine n kept keys).2.map Prod.snd
  i_eq : result.1.i.toNat = (consoleKept n kept keys).length
  editing : Editing m string n output (consoleKept n kept keys) result.1.memory result.1.output

section Run

variable {m stack : Memory} {string n turns : Nat} {size : UInt64} {output kept keys : List UInt8}
  {s : ConsoleReadLineState} {character : UInt8}
  {result : ConsoleReadLineState × Option (List UInt8)}

theorem echoed_plain (h : character ≠ '\x08'.toUInt8) : echoed kept character = [character] := if_neg h

theorem echoed_erase (h : kept ≠ []) : echoed kept '\x08'.toUInt8 = eraseFormat.chars := by
  rw [echoed, if_pos rfl, if_neg h]

/-- One character that neither ends the line nor finds the buffer full. -/
theorem LoopReads.cons {before : List UInt8} (hopen : ¬ n - 1 ≤ kept.length)
    (hends : ¬ EndsLine character)
    (h : LoopReads m string n output (before ++ echoed kept character)
      (editStep '\x08'.toUInt8 (n - 1) kept character) keys result) :
    LoopReads m string n output before kept (character :: keys) result := by
  have hline := @lineRead_cons UInt8 EndsLine _ (fun kept => n - 1 ≤ kept.length) _
    (editStep '\x08'.toUInt8 (n - 1)) echoed kept keys character hopen hends
  have hkept := @lineKept_cons UInt8 EndsLine _ (fun kept => n - 1 ≤ kept.length) _
    (editStep '\x08'.toUInt8 (n - 1)) kept keys character hopen hends
  obtain ⟨houtput, hleft, hi, hediting⟩ := h
  constructor
  · rw [houtput, List.append_assoc, consoleLine, consoleLine, hline]
  · rw [hleft, consoleLine, consoleLine, hline]
  · rw [hi, consoleKept, consoleKept, hkept]
  · rw [consoleKept, hkept]
    exact hediting

/-- The loop stops here: at the end of a line, with a full buffer, or for another character. -/
theorem loopReads_stop {left : Option (List UInt8)} (hi : s.i.toNat = kept.length)
    (h : Editing m string n output kept s.memory s.output)
    (hline : consoleLine n kept keys = ([], left.map fun rest => (kept, rest)))
    (hkept : consoleKept n kept keys = kept) :
    LoopReads m string n output s.output kept keys (s, left) := by
  constructor
  · simp [hline]
  · cases left with
    | none => simp [hline]
    | some rest => simp [hline]
  · rw [hkept, hi]
  · rwa [hkept]

/-- `ConsolePrint` prints the erase sequence as it is. -/
theorem consolePrint_erase (hturns : 3 < turns) :
    consolePrint stack eraseFormat [] turns = some eraseFormat.chars := by
  have hloop := @formatLoop_eq 0 kConsoleDefaultBufferSize eraseFormat ⟨stack, 0⟩ (by decide) turns 0 []
    eraseFormat.chars (Nat.zero_le _) (by decide) hturns
  have hbounded := @boundedFormat_addAll 0 kConsoleDefaultBufferSize stack eraseFormat.chars (by decide)
    (by decide)
  have hstored := hbounded.stored_eq (by decide)
  have hwritten : (FormatOutput.addAll 0 kConsoleDefaultBufferSize ⟨stack, 0⟩
      eraseFormat.chars).written = 3 :=
    FormatOutput.addAll_written (show 0 + eraseFormat.chars.length < 2 ^ 64 by decide)
  have hlength : (Int32.ofNat 3).toInt64.toUInt64.toNat = 3 := by decide
  unfold consolePrint stringFormat
  rw [hloop]
  simp only [Option.map_some, hwritten, hlength]
  have htext : storedText (FormatOutput.close 0 kConsoleDefaultBufferSize
      (FormatOutput.addAll 0 kConsoleDefaultBufferSize ⟨stack, 0⟩ eraseFormat.chars)) 0
      kConsoleDefaultBufferSize 3 = eraseFormat.chars := hstored
  refine congrArg some (Eq.trans ?_ htext)
  simp only [storedText, Nat.zero_add]
  rfl

/-- A character comes through an `int` as it was. -/
theorem toUInt8_toInt32 (character : UInt8) :
    character.toUInt32.toInt32.toUInt32.toUInt8 = character := by
  show character.toUInt32.toUInt8 = character
  simp

theorem consoleGetCharacter_eq (character : UInt8) :
    consoleGetCharacter 1 character = character.toUInt32.toInt32 := if_neg (by decide)

theorem consoleGetCharacter_eq_iff (character : UInt8) (c : Char) :
    consoleGetCharacter 1 character = charLiteral c ↔ character = c.toUInt8 := by
  rw [consoleGetCharacter_eq, charLiteral]
  constructor
  · intro heq
    rw [← toUInt8_toInt32 character, heq, toUInt8_toInt32]
  · rintro rfl
    rfl

/-- The end of the file is no character. -/
theorem consoleGetCharacter_ne_eof (character : UInt8) : consoleGetCharacter 1 character ≠ kConsoleEOF := by
  rw [consoleGetCharacter_eq]
  intro heq
  have hvalue : character.toUInt32.toNat = 2 ^ 32 - 1 :=
    congrArg (fun c : Int32 => c.toUInt32.toNat) heq
  rw [UInt8.toNat_toUInt32] at hvalue
  have := character.toNat_lt
  omega

/-- From one state of the editor on, the loop reads the line of the characters that come. -/
theorem consoleReadLineLoop_reads (hsize : 1 ≤ size) (hturns : 3 < turns) (hkeys : 0 ∉ keys)
    (hi : s.i.toNat = kept.length) (h : Editing m string size.toNat output kept s.memory s.output) :
    ∃ result, consoleReadLineLoop string size stack turns keys s = some result ∧
      LoopReads m string size.toNat output s.output kept keys result := by
  have hroom : (size - 1).toNat = size.toNat - 1 := UInt64.toNat_sub_of_le _ _ hsize
  -- Induction on the characters to come; `Editing` says that the buffer holds `kept`.
  induction keys generalizing s kept with
  | nil =>
    have hlt : s.i < size - 1 ↔ ¬ size.toNat - 1 ≤ kept.length := by
      rw [UInt64.lt_iff_toNat_lt, hi, hroom, Nat.not_le]
    rw [consoleReadLineLoop]
    by_cases hopen : s.i < size - 1
    · rw [if_pos hopen]
      -- With no key left and room in the buffer the loop waits for the next key.
      exact ⟨_, rfl, loopReads_stop hi h (lineRead_nil (hlt.mp hopen)) rfl⟩
    · rw [if_neg hopen]
      have hfull := not_not.mp (mt hlt.mpr hopen)
      exact ⟨_, rfl, loopReads_stop hi h (lineRead_full hfull) (lineKept_full hfull)⟩
  | cons key keys ih =>
    have hlt : s.i < size - 1 ↔ ¬ size.toNat - 1 ≤ kept.length := by
      rw [UInt64.lt_iff_toNat_lt, hi, hroom, Nat.not_le]
    obtain ⟨hnul, hrest⟩ := not_or.mp (mt List.mem_cons.mpr hkeys)
    rw [consoleReadLineLoop]
    by_cases hopen : s.i < size - 1
    · have hopen' := hlt.mp hopen
      rw [if_pos hopen]
      simp only [consoleGetCharacter_eq_iff, consoleGetCharacter_ne_eof, false_or]
      by_cases hends : key = '\n'.toUInt8 ∨ key = '\r'.toUInt8
      · rw [if_pos hends]
        exact ⟨_, rfl, loopReads_stop hi h (lineRead_end hopen' hends) (lineKept_end hopen' hends)⟩
      rw [if_neg hends]
      by_cases herase : key = '\x08'.toUInt8
      · rw [if_pos herase]
        subst herase
        -- A backspace takes the last character back, if there is one.
        by_cases hpos : s.i > 0
        · have hone : (1 : UInt64).toNat ≤ s.i.toNat := UInt64.lt_iff_toNat_lt.mp hpos
          have hkept : kept ≠ [] := by
            rw [← List.length_pos_iff, ← hi]
            exact hone
          have hi' : (s.i - 1).toNat = kept.dropLast.length := by
            rw [UInt64.toNat_sub_of_le _ _ (UInt64.le_iff_toNat_le.mpr hone), hi, List.length_dropLast]
            rfl
          rw [if_pos hpos, consolePrint_erase hturns, Option.bind_some]
          obtain ⟨result, hrun, hreads⟩ := @ih kept.dropLast
            ⟨s.memory, s.i - 1, s.output ++ eraseFormat.chars⟩ hrest hi' (h.undo hkept)
          refine ⟨result, hrun, LoopReads.cons hopen' hends ?_⟩
          rwa [editStep_erase, echoed_erase hkept]
        -- At the start of the line it does nothing.
        · rw [if_neg hpos]
          have hkept : kept = [] := by
            rw [← List.length_eq_zero_iff, ← hi]
            exact UInt64.toNat_inj.mpr (UInt64.le_zero_iff.mp (UInt64.not_lt.mp hpos))
          subst hkept
          obtain ⟨result, hrun, hreads⟩ := ih hrest hi h
          refine ⟨result, hrun, LoopReads.cons hopen' hends ?_⟩
          simpa [editStep_erase, echoed] using hreads
      · rw [if_neg herase, consoleGetCharacter_eq, toUInt8_toInt32, hi]
        have hroom' : kept.length < size.toNat - 1 := Nat.not_le.mp hopen'
        -- The index does not wrap, because there is room for one more character.
        have hi' : (s.i + 1).toNat = (kept ++ [key]).length := by
          have := size.toNat_lt
          have hone : (1 : UInt64).toNat = 1 := rfl
          rw [UInt64.toNat_add, hone, hi, Nat.mod_eq_of_lt (by omega), List.length_append]
          rfl
        obtain ⟨result, hrun, hreads⟩ := @ih (kept ++ [key])
          ⟨s.memory.setByte (string + kept.length) key, s.i + 1, s.output ++ [key]⟩ hrest hi'
          (h.append (by omega) herase (Ne.symm hnul))
        refine ⟨result, hrun, LoopReads.cons hopen' hends ?_⟩
        rwa [editStep_append herase hroom', echoed_plain herase]
    -- The buffer is full, so the line is over and the key stays unread.
    · rw [if_neg hopen]
      have hfull := not_not.mp (mt hlt.mpr hopen)
      exact ⟨_, rfl, loopReads_stop hi h (lineRead_full hfull) (lineKept_full hfull)⟩

/-- What it has read is what is kept of the characters that it has consumed. -/
theorem LoopReads.libraryLine {before : List UInt8}
    (h : LoopReads m string n output before kept keys result) :
    LibraryLine m string n output kept keys (finishLine string result) := by
  obtain ⟨s, left⟩ := result
  obtain ⟨-, hleft, hi, hediting⟩ := h
  simp only at hleft hi hediting
  have hnotFull : ∀ {typed}, OpenBefore (fun kept => n - 1 ≤ kept.length)
      (editStep '\x08'.toUInt8 (n - 1)) kept typed → NotFullBefore n kept typed :=
    fun hopen before hbefore hne => Nat.not_le.mp (hopen before hbefore hne)
  cases hline : (consoleLine n kept keys).2 with
  | none =>
    obtain ⟨hkeys, hopen, hroom, hkept⟩ := lineRead_waits hline
    rw [hleft, hline]
    refine ⟨fun _ => ⟨hkeys, hnotFull hopen, Nat.not_le.mp hroom, ?_⟩, ?_⟩
    · rw [← hkept]
      exact hediting
    · intro rest hresult
      cases hresult
  | some found =>
    obtain ⟨line, rest⟩ := found
    obtain ⟨hkept, typed, htyped, hopen, hfold, hstop⟩ := lineRead_returns hline
    rw [hleft, hline]
    refine ⟨nofun, fun rest' hresult => ?_⟩
    cases hresult
    have hlineRead := hediting.lineRead
    rw [← hi, show consoleKept n kept keys = line from hkept.symm, hfold] at hlineRead
    refine ⟨typed, htyped, hnotFull hopen, ?_, hlineRead⟩
    rw [← hfold]
    rcases hstop with ⟨character, hends, hkeys, hroom⟩ | ⟨hkeys, hfull⟩
    · exact .inl ⟨character, hends, hkeys, Nat.not_le.mp hroom⟩
    · refine .inr ⟨hkeys, Nat.le_antisymm ?_ hfull⟩
      have hfits := hediting.fits
      rw [show consoleKept n kept keys = line from hkept.symm] at hfits
      exact Nat.le_sub_one_of_lt hfits

end Run

/-! ## Section 3: Both routines -/

/-- The kernel's routine and the library's leave in their buffers what is kept of the characters
that they consume, and nothing outside; their echo shows the same. -/
theorem readLine_edits (m : Memory) (buffer : Nat) (keys : List UInt8) (hkeys : 0 ∉ keys) :
    (∀ (limit : UInt32) (console : IOConsole) (turns : Nat), 1 ≤ limit → 3 < turns → ∃ result,
      ioConsoleReadLine buffer limit turns keys ⟨m, 0, console⟩ = some result ∧
        KernelLine m buffer limit.toNat console.serial [] keys result) ∧
    ∀ (size : UInt64) (stack : Memory) (output : List UInt8) (turns : Nat), 1 ≤ size → 3 < turns →
      ∃ result, consoleReadLine buffer size stack turns keys m output = some result ∧
        LibraryLine m buffer size.toNat output [] keys result := by
  constructor
  · intro limit console turns hlimit hturns
    have hpos : 0 < limit.toNat := UInt32.le_iff_toNat_le.mp hlimit
    exact ioConsoleReadLine_edits hlimit hturns hkeys rfl (editing_start hpos)
  · intro size stack output turns hsize hturns
    have hpos : 0 < size.toNat := UInt64.le_iff_toNat_le.mp hsize
    have hne : size ≠ 0 := by
      rintro rfl
      exact absurd hpos (by decide)
    obtain ⟨result, hrun, hreads⟩ := @consoleReadLineLoop_reads m stack buffer turns size output [] keys
      ⟨m, 0, output⟩ hsize hturns hkeys rfl (editing_start hpos)
    refine ⟨finishLine buffer result, ?_, hreads.libraryLine⟩
    rw [consoleReadLine, if_neg hne, hrun, Option.map_some]

/-- `"ab\bc\n"`, with room for three characters. -/
theorem readLine_edits_abc :
    (∃ result, ioConsoleReadLine 0 4 4 (literal ['a', 'b', '\x08', 'c', '\n'])
        ⟨fun _ => 0, 0, serialConsole⟩ = some result ∧
      KernelLine (fun _ => 0) 0 4 [] [] (literal ['a', 'b', '\x08', 'c', '\n']) result) ∧
    ∃ result, consoleReadLine 0 4 (fun _ => 0) 4 (literal ['a', 'b', '\x08', 'c', '\n']) (fun _ => 0) [] =
        some result ∧
      LibraryLine (fun _ => 0) 0 4 [] [] (literal ['a', 'b', '\x08', 'c', '\n']) result := by
  have hedits := readLine_edits (fun _ => 0) 0 (literal ['a', 'b', '\x08', 'c', '\n']) (by decide)
  exact ⟨hedits.1 4 serialConsole 4 (by decide) (by decide),
    hedits.2 4 (fun _ => 0) [] 4 (by decide) (by decide)⟩

end TermOS.Libterm
