import TermOS.Kernel.CString
import TermOS.Kernel.String

/-!
# Strings of user programs

Model of `MemoryCopy` and `StringTokenize` in `userspace/libterm/src/String.c`, and of
`tokenize` in `userspace/termosh/src/modules/parser.c`. A set of characters is the list
of its members, with the NUL that follows them left out. The loops that look for a NUL
have a number of turns; `none` means that it was too small.

## Main Theorems

* `memoryCopy_copies` - both copies of `MemoryCopy` copy bytes
* `tokenize_exact` - the tokens of a line are its maximal runs
-/

namespace TermOS.Libterm

open TermOS.Lib TermOS.Kernel

/-! ## Section 1: `MemoryCopy` -/

/-- `MemoryCopy`, which has the text of the kernel's. -/
def memoryCopy (m : Memory) (destination source count : Nat) : Memory :=
  Kernel.memoryCopy m destination source count

/-- `m'` is `m` with the bytes from `source` on copied to `destination`. -/
structure CopiesBytes (m : Memory) (destination source count : Nat) (m' : Memory) : Prop where
  copied : ∀ i < count, m' (destination + i) = m (source + i)
  kept : ∀ x, x < destination ∨ destination + count ≤ x → m' x = m x

theorem copiesBytes_blit (m : Memory) (destination source count : Nat) :
    CopiesBytes m destination source count (m.blit destination count fun i => m (source + i)) where
  copied := by
    intro i hi
    rw [Memory.blit_inside _ _ (Nat.le_add_right _ _) (Nat.add_lt_add_left hi _),
      Nat.add_sub_cancel_left]
  kept := fun _ hx => Memory.blit_outside _ _ hx

/-- Eight bytes at a time or one at a time: blocks that do not overlap are copied, and so
are blocks that are moved down. -/
theorem memoryCopy_copies (m : Memory) (destination source count : Nat)
    (h : (destination + count ≤ source ∨ source + count ≤ destination) ∨ destination ≤ source) :
    CopiesBytes m destination source count (Kernel.memoryCopy m destination source count) ∧
      CopiesBytes m destination source count (memoryCopy m destination source count) := by
  have hsafe : CopySafe destination source count := by
    unfold CopySafe
    omega
  have hkernel : CopiesBytes m destination source count
      (Kernel.memoryCopy m destination source count) := by
    rw [memoryCopy_eq_blit hsafe]
    exact copiesBytes_blit m destination source count
  exact ⟨hkernel, hkernel⟩

/-- Twenty bytes are moved down by three. -/
theorem memoryCopy_copies_overlap :
    CopiesBytes (fun x => UInt8.ofNat x) 100 103 20
        (Kernel.memoryCopy (fun x => UInt8.ofNat x) 100 103 20) ∧
      CopiesBytes (fun x => UInt8.ofNat x) 100 103 20
        (memoryCopy (fun x => UInt8.ofNat x) 100 103 20) :=
  memoryCopy_copies _ 100 103 20 (by decide)

/-! ## Section 2: Scanning -/

/-- `sStringIsInSet` -/
def sStringIsInSet (character : UInt8) : List UInt8 → Bool
  | [] => false
  | first :: set => if first = character then true else sStringIsInSet character set

/-- `StringGetInitialSpan` -/
def stringGetInitialSpan (m : Memory) (characterSet : List UInt8) : Nat → Nat → Option Nat
  | 0, _ => none
  | turns + 1, string =>
    if m string ≠ 0 ∧ sStringIsInSet (m string) characterSet = true then
      (stringGetInitialSpan m characterSet turns (string + 1)).map (· + 1)
    else some 0

/-- `StringFindFirstCharacterFromSet` -/
def stringFindFirstCharacterFromSet (m : Memory) (set : List UInt8) : Nat → Nat → Option Nat
  | 0, _ => none
  | turns + 1, string =>
    if m string ≠ 0 then
      if sStringIsInSet (m string) set = true then some string
      else stringFindFirstCharacterFromSet m set turns (string + 1)
    else some 0

/-- `StringGetLength` -/
def stringGetLength (m : Memory) : Nat → Nat → Option Nat
  | 0, _ => none
  | turns + 1, string =>
    if m string ≠ 0 then (stringGetLength m turns (string + 1)).map (· + 1) else some 0

section Scan

variable {m : Memory} {set chars : List UInt8} {turns string : Nat}

/-- The span ends at the first character that is not in the set, or at the NUL. -/
theorem stringGetInitialSpan_eq (hholds : m.Holds string chars) (hnul : 0 ∉ chars)
    (hin : ∀ c ∈ chars, sStringIsInSet c set = true)
    (hend : m (string + chars.length) = 0 ∨
      sStringIsInSet (m (string + chars.length)) set = false) (hturns : chars.length < turns) :
    stringGetInitialSpan m set turns string = some chars.length := by
  induction chars generalizing turns string with
  | nil =>
    obtain ⟨turns, rfl⟩ := Nat.exists_eq_succ_of_ne_zero (Nat.ne_of_gt hturns)
    rw [List.length_nil, Nat.add_zero] at hend
    rw [stringGetInitialSpan, if_neg]
    · rfl
    · rintro ⟨hne, hset⟩
      rcases hend with hzero | hout
      · exact hne hzero
      · rw [hset] at hout
        cases hout
  | cons c chars ih =>
    obtain ⟨turns, rfl⟩ := Nat.exists_eq_succ_of_ne_zero (Nat.ne_of_gt (Nat.zero_lt_of_lt hturns))
    obtain ⟨hc, hrest⟩ := Memory.Holds.cons_iff.mp hholds
    rw [List.mem_cons, not_or] at hnul
    rw [List.forall_mem_cons] at hin
    rw [List.length_cons] at hend hturns ⊢
    rw [Nat.add_comm chars.length, ← Nat.add_assoc] at hend
    rw [stringGetInitialSpan, hc, if_pos ⟨Ne.symm hnul.1, hin.1⟩,
      ih hrest hnul.2 hin.2 hend (by omega)]
    rfl

/-- The search passes the characters that are not in the set. -/
theorem stringFindFirstCharacterFromSet_eq (hholds : m.Holds string chars) (hnul : 0 ∉ chars)
    (hout : ∀ c ∈ chars, sStringIsInSet c set = false) (hturns : chars.length < turns)
    {found : Nat} (hfound : (m (string + chars.length) = 0 ∧ found = 0) ∨
      (m (string + chars.length) ≠ 0 ∧ sStringIsInSet (m (string + chars.length)) set = true ∧
        found = string + chars.length)) :
    stringFindFirstCharacterFromSet m set turns string = some found := by
  induction chars generalizing turns string with
  | nil =>
    obtain ⟨turns, rfl⟩ := Nat.exists_eq_succ_of_ne_zero (Nat.ne_of_gt hturns)
    rw [List.length_nil, Nat.add_zero] at hfound
    rw [stringFindFirstCharacterFromSet]
    rcases hfound with ⟨hzero, rfl⟩ | ⟨hne, hset, rfl⟩
    · rw [if_neg (not_not_intro hzero)]
    · rw [if_pos hne, if_pos hset]
  | cons c chars ih =>
    obtain ⟨turns, rfl⟩ := Nat.exists_eq_succ_of_ne_zero (Nat.ne_of_gt (Nat.zero_lt_of_lt hturns))
    obtain ⟨hc, hrest⟩ := Memory.Holds.cons_iff.mp hholds
    rw [List.mem_cons, not_or] at hnul
    rw [List.forall_mem_cons] at hout
    rw [List.length_cons] at hfound hturns
    rw [Nat.add_comm chars.length, ← Nat.add_assoc] at hfound
    have hnot : ¬ sStringIsInSet c set = true := by simp [hout.1]
    rw [stringFindFirstCharacterFromSet, hc, if_pos (Ne.symm hnul.1), if_neg hnot]
    exact ih hrest hnul.2 hout.2 (by omega) hfound

theorem stringGetLength_eq (hholds : m.Holds string chars) (hnul : 0 ∉ chars)
    (hend : m (string + chars.length) = 0) (hturns : chars.length < turns) :
    stringGetLength m turns string = some chars.length := by
  induction chars generalizing turns string with
  | nil =>
    obtain ⟨turns, rfl⟩ := Nat.exists_eq_succ_of_ne_zero (Nat.ne_of_gt hturns)
    rw [List.length_nil, Nat.add_zero] at hend
    rw [stringGetLength, if_neg (not_not_intro hend)]
    rfl
  | cons c chars ih =>
    obtain ⟨turns, rfl⟩ := Nat.exists_eq_succ_of_ne_zero (Nat.ne_of_gt (Nat.zero_lt_of_lt hturns))
    obtain ⟨hc, hrest⟩ := Memory.Holds.cons_iff.mp hholds
    rw [List.mem_cons, not_or] at hnul
    rw [List.length_cons] at hend hturns ⊢
    rw [Nat.add_comm chars.length, ← Nat.add_assoc] at hend
    rw [stringGetLength, hc, if_pos (Ne.symm hnul.1), ih hrest hnul.2 hend (by omega)]
    rfl

end Scan

/-! ## Section 3: `StringTokenize` -/

/-- The memory, and `olds`. -/
structure StringState where
  memory : Memory
  olds : Nat

/-- `StringTokenize`: the token, or null. -/
def stringTokenize (s : StringState) (string : Nat) (delimiters : List UInt8) (turns : Nat) :
    Option (Nat × StringState) :=
  let string := if string = 0 then s.olds else string
  (stringGetInitialSpan s.memory delimiters turns string).bind fun span =>
    let string := string + span
    if s.memory string = 0 then some (0, { s with olds := string })
    else
      let token := string
      (stringFindFirstCharacterFromSet s.memory delimiters turns token).bind fun string =>
        if string = 0 then
          (stringGetLength s.memory turns token).map fun length =>
            (token, { s with olds := token + length })
        else some (token, ⟨s.memory.setByte string 0, string + 1⟩)

/-- The character is a delimiter. -/
abbrev IsDelimiter (delimiters : List UInt8) (c : UInt8) : Prop := sStringIsInSet c delimiters = true

/-- What stands in front of the first delimiter behind the first other character. -/
inductive Scan (delimiters : List UInt8) : List UInt8 → Prop
  /-- Nothing but delimiters. -/
  | done {rest : List UInt8} : (∀ c ∈ rest, IsDelimiter delimiters c) → Scan delimiters rest
  /-- The last token is followed by the NUL. -/
  | last {gap token : List UInt8} : (∀ c ∈ gap, IsDelimiter delimiters c) → token ≠ [] →
      (∀ c ∈ token, ¬ IsDelimiter delimiters c) → Scan delimiters (gap ++ token)
  /-- A token is followed by a delimiter. -/
  | token {gap token after : List UInt8} {d : UInt8} : (∀ c ∈ gap, IsDelimiter delimiters c) →
      token ≠ [] → (∀ c ∈ token, ¬ IsDelimiter delimiters c) → IsDelimiter delimiters d →
      Scan delimiters (gap ++ token ++ d :: after)

theorem scan (delimiters rest : List UInt8) : Scan delimiters rest := by
  induction rest with
  | nil => exact .done (by simp)
  | cons c rest ih =>
    by_cases hc : IsDelimiter delimiters c
    · cases ih with
      | done h => exact .done (List.forall_mem_cons.mpr ⟨hc, h⟩)
      | last hgap hne htoken => exact .last (List.forall_mem_cons.mpr ⟨hc, hgap⟩) hne htoken
      | token hgap hne htoken hd =>
        exact .token (List.forall_mem_cons.mpr ⟨hc, hgap⟩) hne htoken hd
    · cases ih with
      | done h =>
        cases rest with
        | nil => exact @Scan.last delimiters [] [c] (by simp) (by simp) (by simpa using hc)
        | cons d rest =>
          exact @Scan.token delimiters [] [c] rest d (by simp) (by simp) (by simpa using hc)
            (h d List.mem_cons_self)
      | @last gap token hgap hne htoken =>
        cases gap with
        | nil =>
          exact @Scan.last delimiters [] (c :: token) (by simp) (by simp)
            (List.forall_mem_cons.mpr ⟨hc, htoken⟩)
        | cons d gap =>
          rw [List.cons_append]
          exact @Scan.token delimiters [] [c] (gap ++ token) d (by simp) (by simp) (by simpa using hc)
            (hgap d List.mem_cons_self)
      | @token gap token after d hgap hne htoken hd =>
        cases gap with
        | nil =>
          exact @Scan.token delimiters [] (c :: token) after d (by simp) (by simp)
            (List.forall_mem_cons.mpr ⟨hc, htoken⟩) hd
        | cons d' gap =>
          rw [List.cons_append, List.cons_append]
          exact @Scan.token delimiters [] [c] (gap ++ token ++ d :: after) d' (by simp) (by simp) (by simpa using hc)
            (hgap d' List.mem_cons_self)

section Tokenize

variable {s : StringState} {string p turns : Nat} {delimiters rest gap token after : List UInt8}
  {d : UInt8}

theorem cString_advance_iff {m : Memory} {chars : List UInt8} :
    Kernel.CString (m.advance p) chars ↔ 0 ∉ chars ∧ m.Holds p chars ∧ m (p + chars.length) = 0 := by
  have hshift : (m.advance p).Holds 0 (chars ++ [0]) ↔ m.Holds p (chars ++ [0]) := by
    simp only [Memory.Holds, Memory.advance_apply, Nat.zero_add]
  rw [Kernel.CString, hshift, Memory.Holds.append_iff]
  have hzero : m.Holds (p + chars.length) [0] ↔ m (p + chars.length) = 0 := by
    rw [Memory.Holds.cons_iff]
    simp [Memory.Holds]
  rw [hzero]

/-- Without another token the NUL is the place to go on from. -/
theorem stringTokenize_done (hp : (if string = 0 then s.olds else string) = p)
    (h : Kernel.CString (s.memory.advance p) rest) (hgap : ∀ c ∈ rest, IsDelimiter delimiters c)
    (hturns : rest.length < turns) :
    stringTokenize s string delimiters turns = some (0, { s with olds := p + rest.length }) := by
  obtain ⟨hnul, hholds, hend⟩ := cString_advance_iff.mp h
  have hspan := stringGetInitialSpan_eq hholds hnul hgap (.inl hend) hturns
  unfold stringTokenize
  rw [hp]
  simp only [hspan, Option.bind_some, hend, if_true]

/-- In front of the token only delimiters are passed. -/
theorem span_eq (h : Kernel.CString (s.memory.advance p) (gap ++ token ++ after))
    (hgap : ∀ c ∈ gap, IsDelimiter delimiters c) (hne : token ≠ [])
    (htoken : ∀ c ∈ token, ¬ IsDelimiter delimiters c)
    (hturns : (gap ++ token ++ after).length < turns) :
    stringGetInitialSpan s.memory delimiters turns p = some gap.length ∧
      s.memory (p + gap.length) ≠ 0 ∧ s.memory.Holds (p + gap.length) token := by
  obtain ⟨hnul, hholds, -⟩ := cString_advance_iff.mp h
  rw [List.append_assoc, Memory.Holds.append_iff, Memory.Holds.append_iff] at hholds
  simp only [List.mem_append, not_or] at hnul
  simp only [List.length_append] at hturns
  have hfirst : s.memory (p + gap.length) ∈ token := by
    cases token with
    | nil => exact absurd rfl hne
    | cons c token =>
      rw [(Memory.Holds.cons_iff.mp hholds.2.1).1]
      exact List.mem_cons_self
  refine ⟨stringGetInitialSpan_eq hholds.1 hnul.1.1 hgap (.inr ?_) (by omega), ?_, hholds.2.1⟩
  · exact Bool.eq_false_of_not_eq_true (htoken _ hfirst)
  · intro hzero
    rw [hzero] at hfirst
    exact hnul.1.2 hfirst

/-- The last token ends at the NUL. -/
theorem stringTokenize_last (hp : (if string = 0 then s.olds else string) = p)
    (h : Kernel.CString (s.memory.advance p) (gap ++ token))
    (hgap : ∀ c ∈ gap, IsDelimiter delimiters c) (hne : token ≠ [])
    (htoken : ∀ c ∈ token, ¬ IsDelimiter delimiters c) (hturns : (gap ++ token).length < turns) :
    stringTokenize s string delimiters turns =
      some (p + gap.length, { s with olds := p + gap.length + token.length }) := by
  have h' : Kernel.CString (s.memory.advance p) (gap ++ token ++ []) := by rwa [List.append_nil]
  obtain ⟨hspan, hstart, htokenAt⟩ := span_eq h' hgap hne htoken (by rwa [List.append_nil])
  obtain ⟨hnul, -, hend⟩ := cString_advance_iff.mp h
  rw [List.length_append, ← Nat.add_assoc] at hend
  rw [List.length_append] at hturns
  rw [List.mem_append, not_or] at hnul
  have hout : ∀ c ∈ token, sStringIsInSet c delimiters = false :=
    fun c hc => Bool.eq_false_of_not_eq_true (htoken c hc)
  have hfind := stringFindFirstCharacterFromSet_eq htokenAt hnul.2 hout
    (show token.length < turns by omega) (.inl ⟨hend, rfl⟩)
  have hlength := stringGetLength_eq htokenAt hnul.2 hend (show token.length < turns by omega)
  unfold stringTokenize
  rw [hp]
  simp only [hspan, Option.bind_some, if_neg hstart, hfind, if_true, hlength, Option.map_some]

/-- The delimiter behind a token becomes its NUL. -/
theorem stringTokenize_token (hp : (if string = 0 then s.olds else string) = p)
    (h : Kernel.CString (s.memory.advance p) (gap ++ token ++ d :: after))
    (hgap : ∀ c ∈ gap, IsDelimiter delimiters c) (hne : token ≠ [])
    (htoken : ∀ c ∈ token, ¬ IsDelimiter delimiters c) (hd : IsDelimiter delimiters d)
    (hturns : (gap ++ token ++ d :: after).length < turns) :
    stringTokenize s string delimiters turns =
      some (p + gap.length, ⟨s.memory.setByte (p + gap.length + token.length) 0,
        p + gap.length + token.length + 1⟩) := by
  obtain ⟨hspan, hstart, htokenAt⟩ := span_eq h hgap hne htoken hturns
  obtain ⟨hnul, hholds, -⟩ := cString_advance_iff.mp h
  rw [Memory.Holds.append_iff, Memory.Holds.cons_iff, List.length_append, ← Nat.add_assoc] at hholds
  simp only [List.mem_append, List.mem_cons, not_or] at hnul
  simp only [List.length_append, List.length_cons] at hturns
  have hout : ∀ c ∈ token, sStringIsInSet c delimiters = false :=
    fun c hc => Bool.eq_false_of_not_eq_true (htoken c hc)
  have hbehind : s.memory (p + gap.length + token.length) = d := hholds.2.1
  have hfind : stringFindFirstCharacterFromSet s.memory delimiters turns (p + gap.length) =
      some (p + gap.length + token.length) := by
    apply stringFindFirstCharacterFromSet_eq htokenAt hnul.1.2 hout (by omega)
    rw [hbehind]
    exact .inr ⟨Ne.symm hnul.2.1, hd, rfl⟩
  have hfound : p + gap.length + token.length ≠ 0 := by
    have := List.length_pos_iff.mpr hne
    omega
  unfold stringTokenize
  rw [hp]
  simp only [hspan, Option.bind_some, if_neg hstart, hfind, if_neg hfound]

/-- At the NUL there is no token, now and ever after. -/
theorem stringTokenize_null (h : s.memory s.olds = 0) (hturns : 0 < turns) :
    stringTokenize s 0 delimiters turns = some (0, s) := by
  have hempty : Kernel.CString (s.memory.advance s.olds) [] := by
    rw [Kernel.CString.nil_iff, Memory.advance_apply, Nat.add_zero]
    exact h
  exact stringTokenize_done (if_pos rfl) hempty (by simp) hturns

end Tokenize

/-! ## Section 4: `tokenize` -/

/-- `delim` -/
def delim : List UInt8 := [' ', '\t', '\r', '\n'].map Char.toUInt8

/-- The loop of `tokenize`, with places for `left` more tokens: the tokens that it stores. -/
def tokenizeLoop (turns : Nat) : Nat → StringState → Nat → Option (List Nat × StringState)
  | 0, s, _ => some ([], s)
  | left + 1, s, token =>
    if token = 0 then some ([], s)
    else
      (stringTokenize s 0 delim turns).bind fun next =>
        (tokenizeLoop turns left next.2 next.1).map fun rest => (token :: rest.1, rest.2)

/-- `tokenize`: the tokens that it stores, of which it returns the number. -/
def tokenize (s : StringState) (buffer maxTokens turns : Nat) : Option (List Nat × StringState) :=
  (stringTokenize s buffer delim turns).bind fun first =>
    tokenizeLoop turns maxTokens first.2 first.1

/-- The maximal runs of characters that are not delimiters. -/
def runs (delimiters line : List UInt8) : List (List UInt8) :=
  (line.splitOnP fun c => sStringIsInSet c delimiters).filter fun run => !run.isEmpty

/-- What `tokenize` does to a line at `p`. -/
structure Tokenizes (m : Memory) (p : Nat) (line : List UInt8) (maxTokens : Nat) (tokens : List Nat)
    (s : StringState) : Prop where
  length_eq : tokens.length = min maxTokens (runs delim line).length
  stored : ∀ (j token : Nat) (run : List UInt8), tokens[j]? = some token →
    (runs delim line)[j]? = some run → Kernel.CString (s.memory.advance token) run ∧
      ∃ before after, line = before ++ run ++ after ∧ token = p + before.length ∧
        runs delim before = (runs delim line).take j
  changed : ∀ x, s.memory x ≠ m x → s.memory x = 0 ∧ ∃ before after c d,
    line = before ++ c :: d :: after ∧ ¬ IsDelimiter delim c ∧ IsDelimiter delim d ∧
      x = p + before.length + 1
  exhausted : (runs delim line).length ≤ maxTokens → ∀ (delimiters : List UInt8) (turns : Nat),
    0 < turns → stringTokenize s 0 delimiters turns = some (0, s)

section Runs

variable {delimiters gap token after rest : List UInt8} {d : UInt8}

theorem runs_append_of_gap (hgap : ∀ c ∈ gap, IsDelimiter delimiters c) :
    runs delimiters (gap ++ rest) = runs delimiters rest := by
  induction gap with
  | nil => rfl
  | cons c gap ih =>
    rw [List.forall_mem_cons] at hgap
    rw [← ih hgap.2, List.cons_append, runs, List.splitOnP_cons_eq_if_modifyHead, if_pos hgap.1]
    rfl

theorem runs_of_token (hne : token ≠ []) (htoken : ∀ c ∈ token, ¬ IsDelimiter delimiters c) :
    runs delimiters token = [token] := by
  have hout : ∀ c ∈ token, sStringIsInSet c delimiters = false :=
    fun c hc => Bool.eq_false_of_not_eq_true (htoken c hc)
  rw [runs, List.splitOnP_eq_singleton hout]
  simpa using hne

theorem runs_token_cons (hne : token ≠ []) (htoken : ∀ c ∈ token, ¬ IsDelimiter delimiters c)
    (hd : IsDelimiter delimiters d) :
    runs delimiters (token ++ d :: after) = token :: runs delimiters after := by
  have hout : ∀ c ∈ token, sStringIsInSet c delimiters = false :=
    fun c hc => Bool.eq_false_of_not_eq_true (htoken c hc)
  rw [runs, List.splitOnP_append_cons_of_forall_mem hout d hd, List.filter_cons_of_pos (by simpa using hne)]
  rfl

end Runs

section Line

variable {m : Memory} {p turns maxTokens : Nat} {line gap token separator after : List UInt8}
  {s s' : StringState} {tokens : List Nat}

/-- The next token is looked for when this one is stored. -/
theorem tokenizeLoop_succ {token : Nat} (htoken : token ≠ 0) (left : Nat) :
    tokenizeLoop turns (left + 1) s token =
      ((stringTokenize s 0 delim turns).bind fun next =>
        tokenizeLoop turns left next.2 next.1).map fun rest => (token :: rest.1, rest.2) := by
  rw [tokenizeLoop, if_neg htoken]
  cases stringTokenize s 0 delim turns with
  | none => rfl
  | some next => rfl

/-- A line without tokens. -/
theorem tokenizes_of_no_run (hruns : runs delim line = []) (hmemory : s.memory = m)
    (hend : s.memory s.olds = 0) : Tokenizes m p line maxTokens [] s where
  length_eq := by simp [hruns]
  stored := fun j token run htoken => by simp at htoken
  changed := fun x hx => absurd (congrFun hmemory x) hx
  exhausted := fun _ _ _ hturns => stringTokenize_null hend hturns

/-- There is no place left for the token that was found last. -/
theorem tokenizes_of_no_place (hruns : runs delim line ≠ [])
    (hchanged : ∀ x, s.memory x ≠ m x → s.memory x = 0 ∧ ∃ before after c d,
      line = before ++ c :: d :: after ∧ ¬ IsDelimiter delim c ∧ IsDelimiter delim d ∧
        x = p + before.length + 1) : Tokenizes m p line 0 [] s where
  length_eq := by rw [List.length_nil, Nat.zero_min]
  stored := fun j token run htoken => by simp at htoken
  changed := hchanged
  exhausted := fun hle => absurd (List.length_eq_zero_iff.mp (Nat.le_zero.mp hle)) hruns

/-- One token more: what comes behind it does not touch it. -/
theorem Tokenizes.cons (h : Tokenizes s.memory (p + (gap ++ token ++ separator).length) after maxTokens
      tokens s')
    (hline : line = gap ++ token ++ separator ++ after) (hgap : runs delim gap = [])
    (hruns : ∀ behind, behind <+: after →
      runs delim (gap ++ token ++ separator ++ behind) = token :: runs delim behind)
    (htoken : Kernel.CString (s.memory.advance (p + gap.length)) token)
    (hchanged : ∀ x, s.memory x ≠ m x → s.memory x = 0 ∧ ∃ before after c d,
      line = before ++ c :: d :: after ∧ ¬ IsDelimiter delim c ∧ IsDelimiter delim d ∧
        x = p + before.length + 1) :
    Tokenizes m p line (maxTokens + 1) ((p + gap.length) :: tokens) s' where
  length_eq := by
    rw [List.length_cons, h.length_eq, hline, hruns after (List.prefix_refl after), List.length_cons]
    omega
  stored := by
    intro j q run hq hrun
    have hall := hruns after (List.prefix_refl after)
    rw [← hline] at hall
    rw [hall] at hrun ⊢
    cases j with
    | zero =>
      obtain rfl := Option.some.inj hq
      obtain rfl := Option.some.inj hrun
      refine ⟨?_, gap, separator ++ after, by rw [hline, List.append_assoc], rfl, hgap⟩
      obtain ⟨hnul, hholds, hend⟩ := cString_advance_iff.mp htoken
      -- later changes lie behind the next token
      have hkept : ∀ x, x ≤ p + gap.length + token.length → s'.memory x = s.memory x := by
        intro x hx
        by_contra hne
        obtain ⟨-, before, _, _, _, -, -, -, hx'⟩ := h.changed x hne
        simp only [List.length_append] at hx'
        omega
      refine cString_advance_iff.mpr ⟨hnul, fun i b hb => ?_, by rw [hkept _ (Nat.le_refl _), hend]⟩
      have hi := (List.getElem?_eq_some_iff.mp hb).1
      rw [hkept _ (by omega)]
      exact hholds i b hb
    | succ j =>
      obtain ⟨hstring, before, behind, hafter, rfl, hbefore⟩ := h.stored j q run hq hrun
      refine ⟨hstring, gap ++ token ++ separator ++ before, behind, ?_, ?_, ?_⟩
      · rw [hline, hafter]
        simp only [List.append_assoc]
      · simp only [List.length_append]
        omega
      · have hprefix : before <+: after := ⟨run ++ behind, by rw [hafter, List.append_assoc]⟩
        rw [hruns before hprefix, hbefore, List.take_succ_cons]
  changed := by
    intro x hx
    by_cases hsame : s'.memory x = s.memory x
    · rw [hsame] at hx ⊢
      exact hchanged x hx
    · obtain ⟨hzero, before, behind, c, d, hafter, hc, hd, hx'⟩ := h.changed x hsame
      refine ⟨hzero, gap ++ token ++ separator ++ before, behind, c, d, ?_, hc, hd, ?_⟩
      · rw [hline, hafter]
        simp only [List.append_assoc]
      · simp only [hx', List.length_append]
        omega
  exhausted := by
    intro hle
    rw [hline, hruns after (List.prefix_refl after), List.length_cons] at hle
    exact h.exhausted (Nat.le_of_succ_le_succ hle)

theorem runs_of_gap (hgap : ∀ c ∈ gap, IsDelimiter delim c) : runs delim gap = [] := by
  rw [← List.append_nil gap, runs_append_of_gap hgap]
  rfl

/-- A token that is found keeps its characters when a NUL is put behind it. -/
theorem cString_of_token {q : Nat} (hholds : m.Holds q token) (hnul : 0 ∉ token) :
    Kernel.CString ((m.setByte (q + token.length) 0).advance q) token := by
  refine cString_advance_iff.mpr ⟨hnul, fun i b hb => ?_, Memory.setByte_same _ _ _⟩
  have hi := (List.getElem?_eq_some_iff.mp hb).1
  rw [Memory.setByte_ne _ _ (by omega)]
  exact hholds i b hb

/-- The only change for a token is at the delimiter behind it. -/
theorem changed_of_token {d : UInt8} (hline : line = gap ++ token ++ d :: after) (hne : token ≠ [])
    (htoken : ∀ c ∈ token, ¬ IsDelimiter delim c) (hd : IsDelimiter delim d) :
    ∀ x, (m.setByte (p + gap.length + token.length) 0) x ≠ m x →
      (m.setByte (p + gap.length + token.length) 0) x = 0 ∧ ∃ before after c d,
        line = before ++ c :: d :: after ∧ ¬ IsDelimiter delim c ∧ IsDelimiter delim d ∧
          x = p + before.length + 1 := by
  intro x hx
  have hplace : x = p + gap.length + token.length := by
    by_contra hother
    exact hx (Memory.setByte_ne _ _ hother)
  have hlast : token.dropLast ++ [token.getLast hne] = token := List.dropLast_concat_getLast hne
  have hlength : token.dropLast.length + 1 = token.length := by
    have := congrArg List.length hlast
    rwa [List.length_append, List.length_singleton] at this
  refine ⟨by rw [hplace, Memory.setByte_same], gap ++ token.dropLast, after, token.getLast hne, d,
    ?_, htoken _ (List.getLast_mem hne), hd, ?_⟩
  · rw [hline]
    nth_rewrite 1 [← hlast]
    simp
  · rw [List.length_append]
    omega

/-- What `tokenize` does from a place on, by induction on the places for tokens. -/
theorem tokenizeLoop_exact (left : Nat) (holds : s.olds = p) (hp : p ≠ 0)
    (h : Kernel.CString (s.memory.advance p) line) (hturns : line.length < turns) :
    ∃ tokens s', ((stringTokenize s 0 delim turns).bind fun first =>
        tokenizeLoop turns left first.2 first.1) = some (tokens, s') ∧
      Tokenizes s.memory p line left tokens s' := by
  induction left generalizing s p line with
  | zero =>
    cases scan delim line with
    | done hgap =>
      rw [stringTokenize_done (holds ▸ if_pos rfl) h hgap hturns]
      refine ⟨_, _, rfl, tokenizes_of_no_run (runs_of_gap hgap) rfl ?_⟩
      exact (cString_advance_iff.mp h).2.2
    | @last gap token hgap hne htoken =>
      rw [stringTokenize_last (holds ▸ if_pos rfl) h hgap hne htoken hturns]
      refine ⟨_, _, rfl, tokenizes_of_no_place ?_ fun x hx => absurd rfl hx⟩
      rw [runs_append_of_gap hgap, runs_of_token hne htoken]
      simp
    | @token gap token after d hgap hne htoken hd =>
      rw [stringTokenize_token (holds ▸ if_pos rfl) h hgap hne htoken hd hturns]
      refine ⟨_, _, rfl, tokenizes_of_no_place ?_ (changed_of_token rfl hne htoken hd)⟩
      rw [List.append_assoc, runs_append_of_gap hgap, runs_token_cons hne htoken hd]
      simp
  | succ left ih =>
    obtain ⟨hnul, hholds, hend⟩ := cString_advance_iff.mp h
    cases scan delim line with
    | done hgap =>
      rw [stringTokenize_done (holds ▸ if_pos rfl) h hgap hturns]
      exact ⟨_, _, rfl, tokenizes_of_no_run (runs_of_gap hgap) rfl hend⟩
    | @last gap token hgap hne htoken =>
      rw [stringTokenize_last (holds ▸ if_pos rfl) h hgap hne htoken hturns]
      have hplace : p + gap.length ≠ 0 := by omega
      rw [List.length_append, ← Nat.add_assoc] at hend
      -- the NUL of the line is all that is left
      have hrest : Kernel.CString (s.memory.advance (p + gap.length + token.length)) [] := by
        rw [Kernel.CString.nil_iff, Memory.advance_apply]
        exact hend
      obtain ⟨tokens, s', hrun, hexact⟩ := ih (p := p + gap.length + token.length)
        (s := { s with olds := p + gap.length + token.length }) rfl (by omega) hrest
        (Nat.zero_lt_of_lt hturns)
      refine ⟨(p + gap.length) :: tokens, s', ?_, ?_⟩
      · rw [Option.bind_some, tokenizeLoop_succ hplace, hrun, Option.map_some]
      · apply @Tokenizes.cons _ _ _ _ _ _ [] [] { s with olds := p + gap.length + token.length }
        · rwa [List.append_nil, List.length_append, ← Nat.add_assoc]
        · simp
        · exact runs_of_gap hgap
        · intro behind hbehind
          rw [List.prefix_nil.mp hbehind, List.append_nil, List.append_nil, runs_append_of_gap hgap,
            runs_of_token hne htoken]
          rfl
        · rw [Memory.Holds.append_iff] at hholds
          rw [List.mem_append, not_or] at hnul
          exact cString_advance_iff.mpr ⟨hnul.2, hholds.2, hend⟩
        · exact fun x hx => absurd rfl hx
    | @token gap token after d hgap hne htoken hd =>
      rw [stringTokenize_token (holds ▸ if_pos rfl) h hgap hne htoken hd hturns]
      have hplace : p + gap.length ≠ 0 := by omega
      rw [Memory.Holds.append_iff, Memory.Holds.append_iff, Memory.Holds.cons_iff] at hholds
      simp only [List.mem_append, List.mem_cons, not_or] at hnul
      simp only [List.length_append, List.length_cons] at hend hholds hturns
      -- the rest of the line lies behind the new NUL
      have hrest : Kernel.CString ((s.memory.setByte (p + gap.length + token.length) 0).advance
          (p + gap.length + token.length + 1)) after := by
        refine cString_advance_iff.mpr ⟨hnul.2.2, fun i b hb => ?_, ?_⟩
        · rw [Memory.setByte_ne _ _ (by omega)]
          simpa only [Nat.add_assoc] using hholds.2.2 i b hb
        · rw [Memory.setByte_ne _ _ (by omega), ← hend]
          congr 1
          omega
      obtain ⟨tokens, s', hrun, hexact⟩ := ih (p := p + gap.length + token.length + 1)
        (s := ⟨s.memory.setByte (p + gap.length + token.length) 0,
          p + gap.length + token.length + 1⟩) rfl (by omega) hrest (by omega)
      refine ⟨(p + gap.length) :: tokens, s', ?_, ?_⟩
      · rw [Option.bind_some, tokenizeLoop_succ hplace, hrun, Option.map_some]
      · apply @Tokenizes.cons _ _ _ _ _ _ [d] after ⟨s.memory.setByte (p + gap.length + token.length) 0,
          p + gap.length + token.length + 1⟩
        · simpa only [List.length_append, List.length_singleton, ← Nat.add_assoc] using hexact
        · simp
        · exact runs_of_gap hgap
        · intro behind _
          rw [List.append_assoc, List.append_assoc, runs_append_of_gap hgap, List.singleton_append,
            runs_token_cons hne htoken hd]
        · exact cString_of_token hholds.1.2 hnul.1.2
        · exact changed_of_token rfl hne htoken hd

/-- The first call is given the line. -/
theorem stringTokenize_start {buffer : Nat} (hbuffer : buffer ≠ 0) (delimiters : List UInt8) :
    stringTokenize s buffer delimiters turns =
      stringTokenize { s with olds := buffer } 0 delimiters turns := by
  unfold stringTokenize
  rw [if_neg hbuffer, if_pos rfl]

/-- The tokens of a line are its maximal runs. -/
theorem tokenize_exact (s : StringState) (buffer : Nat) (hbuffer : buffer ≠ 0) (line : List UInt8)
    (hline : Kernel.CString (s.memory.advance buffer) line) (maxTokens turns : Nat)
    (hturns : line.length < turns) :
    ∃ tokens s', tokenize s buffer maxTokens turns = some (tokens, s') ∧
      Tokenizes s.memory buffer line maxTokens tokens s' := by
  unfold tokenize
  rw [stringTokenize_start hbuffer]
  exact tokenizeLoop_exact (s := { s with olds := buffer }) maxTokens rfl hbuffer hline hturns

/-- Two words, and a place for one. -/
theorem tokenize_exact_spawn :
    ∃ tokens s', tokenize ⟨Memory.zeroPadded [0, 32, 108, 115, 32, 97], 0⟩ 1 1 8 = some (tokens, s') ∧
      Tokenizes (Memory.zeroPadded [0, 32, 108, 115, 32, 97]) 1 [32, 108, 115, 32, 97] 1 tokens s' := by
  have hline : Kernel.CString ((Memory.zeroPadded [0, 32, 108, 115, 32, 97]).advance 1)
      [32, 108, 115, 32, 97] := by
    have hrest : (Memory.zeroPadded [0, 32, 108, 115, 32, 97]).advance 1 =
        Memory.zeroPadded [32, 108, 115, 32, 97] := by
      funext i
      simp [Memory.zeroPadded, Nat.add_comm 1 i]
    rw [hrest]
    exact cString_zeroPadded (by decide)
  exact tokenize_exact ⟨Memory.zeroPadded [0, 32, 108, 115, 32, 97], 0⟩ 1 (by decide) _ hline 1 8
    (by decide)

end Line

end TermOS.Libterm
