import Mathlib.Data.List.Infix

/-!
# Sessions of a line-oriented program

A shell prints a prompt, reads a line, executes it and starts over. The keys that are
typed are a list, and a line ends at a key of its own or when its buffer is full.

## Main Definitions

* `lineRead` - one line: its echo, its characters and the keys behind it
* `lineKept` - the characters that a line reader holds in the end
* `session` - the lines one after the other, until the program ends or waits for a key
-/

namespace TermOS.Lib

variable {α S : Type*}

section Open

variable (full : List α → Prop) (step : List α → α → List α)

/-- A line has room for each of these keys. -/
def OpenBefore (kept typed : List α) : Prop :=
  ∀ before, before <+: typed → before ≠ typed → ¬ full (before.foldl step kept)

variable {full step} {kept keys : List α} {key : α}

theorem openBefore_nil : OpenBefore full step kept [] :=
  fun _ hbefore hne => absurd (List.prefix_nil.mp hbefore) hne

theorem OpenBefore.cons (hopen : ¬ full kept) (h : OpenBefore full step (step kept key) keys) :
    OpenBefore full step kept (key :: keys) := by
  intro before hbefore hne
  cases before with
  | nil => exact hopen
  | cons first before =>
    obtain ⟨rfl, htail⟩ := List.cons_prefix_cons.mp hbefore
    exact h before htail fun heq => hne (heq ▸ rfl)

end Open

section Line

variable (isEnd : α → Prop) [DecidablePred isEnd] (full : List α → Prop) [DecidablePred full]
  (step : List α → α → List α) (echo : List α → α → List α)

/-- What a line reader that holds `kept` echoes, and its line with the keys behind it. Without a
line it waits for another key. -/
def lineRead : List α → List α → List α × Option (List α × List α)
  | kept, [] => ([], if full kept then some (kept, []) else none)
  | kept, key :: keys =>
    if full kept then ([], some (kept, key :: keys))
    else if isEnd key then ([], some (kept, keys))
    else
      let result := lineRead (step kept key) keys
      (echo kept key ++ result.1, result.2)

/-- What a line reader that holds `kept` holds when it has read a line or waits. -/
def lineKept : List α → List α → List α
  | kept, [] => kept
  | kept, key :: keys =>
    if full kept then kept
    else if isEnd key then kept
    else lineKept (step kept key) keys

variable {isEnd full step echo} {kept keys line rest : List α} {key : α}

@[simp] theorem lineRead_nil (hopen : ¬ full kept) :
    lineRead isEnd full step echo kept [] = ([], none) := by
  rw [lineRead, if_neg hopen]

@[simp] theorem lineRead_full (hfull : full kept) :
    lineRead isEnd full step echo kept keys = ([], some (kept, keys)) := by
  cases keys with
  | nil => rw [lineRead, if_pos hfull]
  | cons key keys => rw [lineRead, if_pos hfull]

@[simp] theorem lineRead_end (hopen : ¬ full kept) (hend : isEnd key) :
    lineRead isEnd full step echo kept (key :: keys) = ([], some (kept, keys)) := by
  rw [lineRead, if_neg hopen, if_pos hend]

theorem lineRead_cons (hopen : ¬ full kept) (hend : ¬ isEnd key) :
    lineRead isEnd full step echo kept (key :: keys) =
      (echo kept key ++ (lineRead isEnd full step echo (step kept key) keys).1,
        (lineRead isEnd full step echo (step kept key) keys).2) := by
  rw [lineRead, if_neg hopen, if_neg hend]

@[simp] theorem lineKept_full (hfull : full kept) : lineKept isEnd full step kept keys = kept := by
  cases keys with
  | nil => rfl
  | cons key keys => rw [lineKept, if_pos hfull]

@[simp] theorem lineKept_end (hopen : ¬ full kept) (hend : isEnd key) :
    lineKept isEnd full step kept (key :: keys) = kept := by
  rw [lineKept, if_neg hopen, if_pos hend]

theorem lineKept_cons (hopen : ¬ full kept) (hend : ¬ isEnd key) :
    lineKept isEnd full step kept (key :: keys) = lineKept isEnd full step (step kept key) keys := by
  rw [lineKept, if_neg hopen, if_neg hend]

/-- A reader that waits has taken all keys, and has room for another one. -/
theorem lineRead_waits (h : (lineRead isEnd full step echo kept keys).2 = none) :
    (∀ key ∈ keys, ¬ isEnd key) ∧ OpenBefore full step kept keys ∧ ¬ full (keys.foldl step kept) ∧
      lineKept isEnd full step kept keys = keys.foldl step kept := by
  induction keys generalizing kept with
  | nil =>
    by_cases hfull : full kept
    · simp [lineRead_full hfull] at h
    · exact ⟨by simp, openBefore_nil, hfull, rfl⟩
  | cons key keys ih =>
    by_cases hfull : full kept
    · simp [lineRead_full hfull] at h
    by_cases hend : isEnd key
    · simp [lineRead_end hfull hend] at h
    · rw [lineRead_cons hfull hend] at h
      obtain ⟨hkeys, hopen, hroom, hkept⟩ := ih h
      rw [lineKept_cons hfull hend]
      exact ⟨List.forall_mem_cons.mpr ⟨hend, hkeys⟩, hopen.cons hfull, hroom, hkept⟩

/-- A reader that returns has taken some keys, and the one that ends the line unless it is full. -/
theorem lineRead_returns (h : (lineRead isEnd full step echo kept keys).2 = some (line, rest)) :
    line = lineKept isEnd full step kept keys ∧ ∃ typed, (∀ key ∈ typed, ¬ isEnd key) ∧
      OpenBefore full step kept typed ∧ line = typed.foldl step kept ∧
      ((∃ key, isEnd key ∧ keys = typed ++ key :: rest ∧ ¬ full line) ∨
        (keys = typed ++ rest ∧ full line)) := by
  induction keys generalizing kept with
  | nil =>
    by_cases hfull : full kept
    · simp only [lineRead_full hfull, Option.some.injEq, Prod.mk.injEq] at h
      obtain ⟨rfl, rfl⟩ := h
      exact ⟨rfl, [], by simp, openBefore_nil, rfl, .inr ⟨rfl, hfull⟩⟩
    · simp [lineRead_nil hfull] at h
  | cons key keys ih =>
    by_cases hfull : full kept
    · simp only [lineRead_full hfull, Option.some.injEq, Prod.mk.injEq] at h
      obtain ⟨rfl, rfl⟩ := h
      exact ⟨(lineKept_full hfull).symm, [], by simp, openBefore_nil, rfl, .inr ⟨rfl, hfull⟩⟩
    by_cases hend : isEnd key
    · simp only [lineRead_end hfull hend, Option.some.injEq, Prod.mk.injEq] at h
      obtain ⟨rfl, rfl⟩ := h
      exact ⟨(lineKept_end hfull hend).symm, [], by simp, openBefore_nil, rfl,
        .inl ⟨key, hend, rfl, hfull⟩⟩
    · rw [lineRead_cons hfull hend] at h
      obtain ⟨hline, typed, htyped, hopen, hfold, hstop⟩ := ih h
      rw [lineKept_cons hfull hend]
      refine ⟨hline, key :: typed, List.forall_mem_cons.mpr ⟨hend, htyped⟩, hopen.cons hfull, hfold, ?_⟩
      rcases hstop with ⟨last, hlast, rfl, hroom⟩ | ⟨rfl, hroom⟩
      · exact .inl ⟨last, hlast, rfl, hroom⟩
      · exact .inr ⟨rfl, hroom⟩

/-- What is left is the end of what was typed. -/
theorem lineRead_suffix (h : (lineRead isEnd full step echo kept keys).2 = some (line, rest)) :
    rest <:+ keys := by
  induction keys generalizing kept with
  | nil =>
    by_cases hfull : full kept
    · simp only [lineRead_full hfull, Option.some.injEq, Prod.mk.injEq] at h
      exact h.2 ▸ List.suffix_refl _
    · simp [lineRead_nil hfull] at h
  | cons key keys ih =>
    by_cases hfull : full kept
    · simp only [lineRead_full hfull, Option.some.injEq, Prod.mk.injEq] at h
      exact h.2 ▸ List.suffix_refl _
    by_cases hend : isEnd key
    · simp only [lineRead_end hfull hend, Option.some.injEq, Prod.mk.injEq] at h
      exact h.2 ▸ List.suffix_cons key keys
    · rw [lineRead_cons hfull hend] at h
      exact (ih h).trans (List.suffix_cons key keys)

/-- A reader with room takes at least one key. -/
theorem lineRead_length (hopen : ¬ full kept)
    (h : (lineRead isEnd full step echo kept keys).2 = some (line, rest)) :
    rest.length < keys.length := by
  cases keys with
  | nil => simp [lineRead_nil hopen] at h
  | cons key keys =>
    refine Nat.lt_succ_of_le (List.IsSuffix.length_le ?_)
    by_cases hend : isEnd key
    · simp only [lineRead_end hopen hend, Option.some.injEq, Prod.mk.injEq] at h
      exact h.2 ▸ List.suffix_refl _
    · rw [lineRead_cons hopen hend] at h
      exact lineRead_suffix h

end Line

section Session

variable (read : S → List α → S × Option (List α × List α))
  (execute : S → List α → List α → S × List α × Bool)

/-- The program with so many turns left: its state and the keys that are left when it ends, or
when it waits for a key. `execute` has the line and the keys behind it, and says whether the program
goes on. -/
def session : Nat → S → List α → Option (S × List α × Bool)
  | 0, _, _ => none
  | turns + 1, s, keys =>
    match (read s keys).2 with
    | none => some ((read s keys).1, [], false)
    | some (line, rest) =>
      let result := execute (read s keys).1 line rest
      if result.2.2 then session turns result.1 result.2.1 else some (result.1, result.2.1, true)

variable {read execute} {s : S} {keys line rest : List α} {turns : Nat}

theorem session_waits (h : (read s keys).2 = none) :
    session read execute (turns + 1) s keys = some ((read s keys).1, [], false) := by
  rw [session, h]

theorem session_line (h : (read s keys).2 = some (line, rest)) :
    session read execute (turns + 1) s keys =
      if (execute (read s keys).1 line rest).2.2 then
        session read execute turns (execute (read s keys).1 line rest).1
          (execute (read s keys).1 line rest).2.1
      else some ((execute (read s keys).1 line rest).1, (execute (read s keys).1 line rest).2.1, true) := by
  rw [session, h]

end Session

end TermOS.Lib
