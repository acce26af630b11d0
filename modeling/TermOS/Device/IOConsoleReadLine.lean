import Mathlib.Data.Bool.AllAny
import TermOS.Device.IOConsole
import TermOS.Kernel.CString
import TermOS.Lib.LineEditor

/-!
# Reading a line in the kernel

Model of `IOConsoleReadLine` in `kernel/src/IO/IOConsole.c`. The characters that
`IOKeyboardGetCharacter` returns are a list; when it is used up, the call is waiting
for the next one.

## Main Definitions

* `ioConsoleReadLine` - the code
* `Editing` - what the buffer and the echo are after some characters

## Main Lemma

* `ioConsoleReadLine_edits` - from one state of the editor to the next
-/

namespace TermOS.Device

open TermOS.Lib TermOS.Libterm

/-! ## Section 1: The code -/

/-- The memory with the buffer, `i`, and the console. -/
structure ReadLineState where
  memory : Memory
  i : UInt32
  console : IOConsole

/-- `"\n"` -/
def newlineFormat : Libterm.CString := ⟨literal ['\n'], by decide⟩

/-- `"\b \b"` -/
def eraseFormat : Libterm.CString := ⟨literal ['\x08', ' ', '\x08'], by decide⟩

/-- `"%c"` -/
def characterFormat : Libterm.CString := ⟨literal ['%', 'c'], by decide⟩

/-- A `char` that is passed as an `int`. -/
def charArg (character : UInt8) : VaArg := .int character.toInt8.toInt32

/-- `IOConsoleReadLine`: the state when it has returned, with the characters that are left, or
when it waits for another one. -/
def ioConsoleReadLine (buffer : Nat) (limit : UInt32) (turns : Nat) :
    List UInt8 → ReadLineState → Option (ReadLineState × Option (List UInt8))
  | [], s => some (s, none)
  | character :: characters, s =>
    if character = '\n'.toUInt8 then
      let memory := s.memory.setByte (buffer + s.i.toNat) 0
      (ioConsoleLog newlineFormat [] turns s.console).map fun console =>
        (⟨memory, s.i, console⟩, some characters)
    else if character = '\x08'.toUInt8 then
      -- nothing is erased in front of the line
      if s.i > 0 then
        (ioConsoleLog eraseFormat [] turns s.console).bind fun console =>
          ioConsoleReadLine buffer limit turns characters ⟨s.memory, s.i - 1, console⟩
      else ioConsoleReadLine buffer limit turns characters s
    else
      -- a full line drops the character
      if s.i < limit - 1 then
        let memory := s.memory.setByte (buffer + s.i.toNat) character
        (ioConsoleLog characterFormat [charArg character] turns s.console).bind fun console =>
          ioConsoleReadLine buffer limit turns characters ⟨memory, s.i + 1, console⟩
      else ioConsoleReadLine buffer limit turns characters s

/-! ## Section 2: The echo -/

section Echo

variable {turns : Nat} {console : IOConsole}

/-- A format without escapes is printed as it is. -/
theorem logCharacters_plain {chars : List UInt8} (h : ∀ character ∈ chars, ¬ IsEscape character)
    (args : List VaArg) : logCharacters turns chars args console = some (console.putAll chars) := by
  induction chars, args, console using logCharacters.induct with
  | case1 args console => rfl
  | case2 character args console hescape => exact absurd hescape (h character (by simp))
  | case3 character args console hescape => rw [logCharacters, if_neg hescape]; rfl
  | case4 next rest args console ih => exact absurd isEscape_percent (h _ (by simp))
  | case5 next rest args console hpercent ih => exact absurd isEscape_caret (h _ (by simp))
  | case6 character next rest args console hpercent hcaret ih =>
    rw [logCharacters, if_neg hpercent, if_neg hcaret, IOConsole.putAll_cons]
    exact ih fun found hfound => h found (List.mem_cons_of_mem _ hfound)

theorem ioConsoleLog_plain {fmt : Libterm.CString} (hshort : fmt.chars.length < 2 ^ 31)
    (hturns : fmt.chars.length < turns) (h : ∀ character ∈ fmt.chars, ¬ IsEscape character)
    (args : List VaArg) : ioConsoleLog fmt args turns console = some (console.putAll fmt.chars) := by
  rw [ioConsoleLog, ioConsoleLogLoop_eq hshort List.drop_zero (Nat.zero_le _) hturns,
    logCharacters_plain h]

/-- The `char` arrives as it was. -/
theorem toUInt8_charArg (character : UInt8) : character.toInt8.toInt32.toUInt32.toUInt8 = character := by
  apply UInt8.toBitVec_inj.mp
  have hback := congrArg Int8.toBitVec (Int8.toInt8_toInt32 character.toInt8)
  rw [Int32.toBitVec_toInt8, BitVec.signExtend_eq_setWidth_of_le _ (by decide)] at hback
  rw [UInt32.toBitVec_toUInt8]
  exact hback

theorem ioConsoleLog_character (hturns : 2 < turns) (character : UInt8) :
    ioConsoleLog characterFormat [charArg character] turns console =
      some (ioConsolePutcharacter console character) := by
  have hchars : characterFormat.chars = ['%'.toUInt8, 'c'.toUInt8] := rfl
  rw [ioConsoleLog, ioConsoleLogLoop_eq (by decide) List.drop_zero (Nat.zero_le _) hturns, hchars,
    logCharacters, if_pos rfl]
  unfold logConversion charArg
  rw [if_neg (by decide), if_pos rfl]
  dsimp only
  rw [toUInt8_charArg]
  rfl

end Echo

/-! ## Section 3: The editor -/

/-- The buffer of `n` bytes and the echo of an editor that has kept some characters: the buffer
begins with them, no byte outside it has changed, and a terminal shows them. -/
structure Editing (m : Memory) (buffer n : Nat) (output kept : List UInt8) (m' : Memory)
    (output' : List UInt8) : Prop where
  fits : kept.length < n
  held : m'.Holds buffer kept
  nul_not_mem : 0 ∉ kept
  outside : ∀ x, x < buffer ∨ buffer + n ≤ x → m' x = m x
  echoed : ∃ echo, output' = output ++ echo ∧
    (played '\x08'.toUInt8 ' '.toUInt8 echo).Shows ' '.toUInt8 kept

section Editor

variable {m m' : Memory} {buffer n : Nat} {output output' kept : List UInt8} {character : UInt8}

theorem editing_start (hn : 0 < n) : Editing m buffer n output [] m output where
  fits := hn
  held := fun i b hb => by simp at hb
  nul_not_mem := List.not_mem_nil
  outside := fun _ _ => rfl
  echoed := ⟨[], by simp, shows_empty⟩

/-- A character is stored and echoed. -/
theorem Editing.append (h : Editing m buffer n output kept m' output') (hroom : kept.length + 1 < n)
    (herase : character ≠ '\x08'.toUInt8) (hnul : character ≠ 0) :
    Editing m buffer n output (kept ++ [character]) (m'.setByte (buffer + kept.length) character)
      (output' ++ [character]) where
  fits := by simpa using hroom
  held := by
    rw [Memory.Holds.append_iff, Memory.Holds.cons_iff]
    refine ⟨fun i b hb => ?_, Memory.setByte_same _ _ _, fun i b hb => by simp at hb⟩
    have hi := (List.getElem?_eq_some_iff.mp hb).1
    rw [Memory.setByte_ne _ _ (by omega)]
    exact h.held i b hb
  nul_not_mem := by
    rw [List.mem_append, List.mem_singleton, not_or]
    exact ⟨h.nul_not_mem, Ne.symm hnul⟩
  outside := by
    intro x hx
    rw [Memory.setByte_ne _ _ (by omega)]
    exact h.outside x hx
  echoed := by
    obtain ⟨echo, rfl, hshows⟩ := h.echoed
    refine ⟨echo ++ [character], List.append_assoc _ _ _, ?_⟩
    rw [played_append]
    exact hshows.append herase

/-- The last character is erased. -/
theorem Editing.undo (h : Editing m buffer n output kept m' output') (hkept : kept ≠ []) :
    Editing m buffer n output kept.dropLast m' (output' ++ literal ['\x08', ' ', '\x08']) where
  fits := by
    rw [List.length_dropLast]
    exact Nat.lt_of_le_of_lt (Nat.sub_le _ _) h.fits
  held := by
    have hheld := h.held
    rw [← List.dropLast_concat_getLast hkept, Memory.Holds.append_iff] at hheld
    exact hheld.1
  nul_not_mem := fun hmem => h.nul_not_mem (List.mem_of_mem_dropLast hmem)
  outside := h.outside
  echoed := by
    obtain ⟨echo, rfl, hshows⟩ := h.echoed
    refine ⟨echo ++ literal ['\x08', ' ', '\x08'], List.append_assoc _ _ _, ?_⟩
    rw [played_append]
    rw [← List.dropLast_concat_getLast hkept] at hshows
    have hblank : ' '.toUInt8 ≠ '\x08'.toUInt8 := by decide
    exact hshows.undo hblank

/-- The line is closed with a NUL. -/
theorem Editing.close (h : Editing m buffer n output kept m' output') :
    Kernel.CString ((m'.setByte (buffer + kept.length) 0).advance buffer) kept ∧
      ∀ x, x < buffer ∨ buffer + n ≤ x → (m'.setByte (buffer + kept.length) 0) x = m x := by
  have hfits := h.fits
  have hheld : (m'.setByte (buffer + kept.length) 0).Holds buffer (kept ++ [0]) := by
    rw [Memory.Holds.append_iff, Memory.Holds.cons_iff]
    refine ⟨fun i b hb => ?_, Memory.setByte_same _ _ _, fun i b hb => by simp at hb⟩
    have hi := (List.getElem?_eq_some_iff.mp hb).1
    rw [Memory.setByte_ne _ _ (by omega)]
    exact h.held i b hb
  refine ⟨⟨h.nul_not_mem, hheld.advance⟩, fun x hx => ?_⟩
  rw [Memory.setByte_ne _ _ (by omega)]
  exact h.outside x hx

/-- A line has been read: the buffer holds what was kept and a NUL, no byte outside it has
changed, and in front of its newline the echo shows what was kept. -/
structure LineRead (m : Memory) (buffer n : Nat) (output kept : List UInt8) (m' : Memory)
    (output' : List UInt8) : Prop where
  fits : kept.length < n
  string : Kernel.CString (m'.advance buffer) kept
  outside : ∀ x, x < buffer ∨ buffer + n ≤ x → m' x = m x
  echoed : ∃ echo, output' = output ++ echo ++ ['\n'.toUInt8] ∧
    (played '\x08'.toUInt8 ' '.toUInt8 echo).Shows ' '.toUInt8 kept

theorem Editing.lineRead (h : Editing m buffer n output kept m' output') :
    LineRead m buffer n output kept (m'.setByte (buffer + kept.length) 0)
      (output' ++ ['\n'.toUInt8]) where
  fits := h.fits
  string := h.close.1
  outside := h.close.2
  echoed := by
    obtain ⟨echo, rfl, hshows⟩ := h.echoed
    exact ⟨echo, rfl, hshows⟩

end Editor

/-! ## Section 4: The run -/

/-- What a call has done when it returns or waits: `typed` are the characters that it has
consumed in front of a newline. -/
structure KernelLine (m : Memory) (buffer n : Nat) (output kept keys : List UInt8)
    (result : ReadLineState × Option (List UInt8)) : Prop where
  waits : result.2 = none → '\n'.toUInt8 ∉ keys ∧
    Editing m buffer n output (keys.foldl (editStep '\x08'.toUInt8 (n - 1)) kept) result.1.memory
      result.1.console.serial
  returns : ∀ rest, result.2 = some rest → ∃ typed, keys = typed ++ '\n'.toUInt8 :: rest ∧
    '\n'.toUInt8 ∉ typed ∧
    LineRead m buffer n output (typed.foldl (editStep '\x08'.toUInt8 (n - 1)) kept) result.1.memory
      result.1.console.serial

section Run

variable {m : Memory} {buffer n turns : Nat} {limit : UInt32} {output kept keys : List UInt8}
  {s : ReadLineState} {character : UInt8} {result : ReadLineState × Option (List UInt8)}

/-- One more character in front of the others. -/
theorem KernelLine.cons (hcharacter : character ≠ '\n'.toUInt8)
    (h : KernelLine m buffer n output (editStep '\x08'.toUInt8 (n - 1) kept character) keys result) :
    KernelLine m buffer n output kept (character :: keys) result where
  waits := by
    intro hresult
    obtain ⟨hkeys, hediting⟩ := h.waits hresult
    exact ⟨by simp [hkeys, Ne.symm hcharacter], hediting⟩
  returns := by
    intro rest hresult
    obtain ⟨typed, rfl, htyped, hread⟩ := h.returns rest hresult
    exact ⟨character :: typed, rfl, by simp [htyped, Ne.symm hcharacter], hread⟩

/-- From one state of the editor on, the call edits the characters that come. -/
theorem ioConsoleReadLine_edits (hlimit : 1 ≤ limit) (hturns : 3 < turns) (hkeys : 0 ∉ keys)
    (hi : s.i.toNat = kept.length)
    (h : Editing m buffer limit.toNat output kept s.memory s.console.serial) :
    ∃ result, ioConsoleReadLine buffer limit turns keys s = some result ∧
      KernelLine m buffer limit.toNat output kept keys result := by
  have hroom : (limit - 1).toNat = limit.toNat - 1 := UInt32.toNat_sub_of_le _ _ hlimit
  induction keys generalizing s kept with
  | nil =>
    refine ⟨(s, none), rfl, fun _ => ⟨List.not_mem_nil, h⟩, ?_⟩
    intro rest hresult
    cases hresult
  | cons character keys ih =>
    rw [List.mem_cons, not_or] at hkeys
    obtain ⟨hnul, hkeys⟩ := hkeys
    rw [ioConsoleReadLine]
    by_cases hnewline : character = '\n'.toUInt8
    · rw [if_pos hnewline, ioConsoleLog_plain (by decide) (Nat.lt_trans (by decide) hturns)
        (List.all_iff_forall_prop.mp (by decide))]
      refine ⟨_, rfl, ?_, ?_⟩
      · intro hresult
        cases hresult
      · intro rest hresult
        cases hresult
        refine ⟨[], by rw [hnewline]; rfl, List.not_mem_nil, ?_⟩
        rw [hi, IOConsole.putAll_serial]
        exact h.lineRead
    rw [if_neg hnewline]
    by_cases herase : character = '\x08'.toUInt8
    · rw [if_pos herase]
      have hstep : editStep '\x08'.toUInt8 (limit.toNat - 1) kept character = kept.dropLast := by
        rw [herase, editStep_erase]
      by_cases hpos : s.i > 0
      · -- the last character goes, here and on the screen
        have hpos' : 0 < s.i.toNat := UInt32.lt_iff_toNat_lt.mp hpos
        have hkept : kept ≠ [] := by
          rw [← List.length_pos_iff]
          omega
        rw [if_pos hpos, ioConsoleLog_plain (by decide) hturns
          (List.all_iff_forall_prop.mp (by decide)), Option.bind_some]
        have hone : (1 : UInt32).toNat ≤ s.i.toNat := hpos'
        have hi' : (s.i - 1).toNat = kept.dropLast.length := by
          rw [UInt32.toNat_sub_of_le _ _ (UInt32.le_iff_toNat_le.mpr hone), hi, List.length_dropLast]
          rfl
        have hnext : Editing m buffer limit.toNat output kept.dropLast s.memory
            (s.console.putAll eraseFormat.chars).serial := by
          rw [IOConsole.putAll_serial]
          exact h.undo hkept
        obtain ⟨result, hrun, hline⟩ := @ih kept.dropLast ⟨s.memory, s.i - 1, _⟩ hkeys hi' hnext
        exact ⟨result, hrun, KernelLine.cons hnewline (hstep ▸ hline)⟩
      · rw [if_neg hpos]
        have hkept : kept = [] := by
          rw [← List.length_eq_zero_iff, ← hi]
          exact UInt32.toNat_inj.mpr (UInt32.le_zero_iff.mp (UInt32.not_lt.mp hpos))
        obtain ⟨result, hrun, hline⟩ := ih hkeys hi h
        refine ⟨result, hrun, KernelLine.cons hnewline ?_⟩
        rw [hstep, hkept]
        rwa [hkept] at hline
    · rw [if_neg herase]
      have hlt : s.i < limit - 1 ↔ kept.length < limit.toNat - 1 := by
        rw [UInt32.lt_iff_toNat_lt, hi, hroom]
      by_cases hfits : s.i < limit - 1
      · have hfits' := hlt.mp hfits
        rw [if_pos hfits, ioConsoleLog_character (Nat.lt_trans (by decide) hturns), Option.bind_some, hi]
        have hi' : (s.i + 1).toNat = (kept ++ [character]).length := by
          have := limit.toNat_lt
          have hone : (1 : UInt32).toNat = 1 := rfl
          rw [UInt32.toNat_add, hone, hi, Nat.mod_eq_of_lt (by omega), List.length_append]
          rfl
        have hnext : Editing m buffer limit.toNat output (kept ++ [character])
            (s.memory.setByte (buffer + kept.length) character)
            (ioConsolePutcharacter s.console character).serial := by
          rw [ioConsolePutcharacter_serial]
          exact h.append (by omega) herase (Ne.symm hnul)
        obtain ⟨result, hrun, hline⟩ := @ih (kept ++ [character])
          ⟨s.memory.setByte (buffer + kept.length) character, s.i + 1, _⟩ hkeys hi' hnext
        refine ⟨result, hrun, KernelLine.cons hnewline ?_⟩
        rw [editStep_append herase hfits']
        exact hline
      · rw [if_neg hfits]
        obtain ⟨result, hrun, hline⟩ := ih hkeys hi h
        refine ⟨result, hrun, KernelLine.cons hnewline ?_⟩
        rw [editStep_full herase (Nat.le_of_not_lt (fun hlt' => hfits (hlt.mpr hlt')))]
        exact hline

end Run

end TermOS.Device
