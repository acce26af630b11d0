import Mathlib.Computability.RegularExpressions

/-!
# Checking every path

The control flow of a program, with its branches and loops left open, is a
regular expression over its instructions. A deterministic automaton that can get
stuck runs along each path; one pass over the regular expression decides that no
path gets stuck and that all of them end in the same state.
-/

namespace TermOS.Lib

universe u v

variable {α : Type u} {σ : Type v}

/-- Run the automaton along a path; `none` if it gets stuck. -/
def runPath (step : α → σ → Option σ) : List α → σ → Option σ
  | [], s => some s
  | a :: as, s => (step a s).bind (runPath step as)

@[simp] theorem runPath_nil (step : α → σ → Option σ) (s : σ) : runPath step [] s = some s := rfl

/-- A path that does not get stuck passes a state after its first instruction. -/
theorem runPath_cons_eq_some {step : α → σ → Option σ} {a : α} {as : List α} {s s' : σ} :
    runPath step (a :: as) s = some s' ↔ ∃ t, step a s = some t ∧ runPath step as t = some s' := by
  rw [runPath]
  apply Option.bind_eq_some_iff

theorem runPath_append (step : α → σ → Option σ) (as bs : List α) (s : σ) :
    runPath step (as ++ bs) s = (runPath step as s).bind (runPath step bs) := by
  induction as generalizing s with
  | nil => rfl
  | cons a as ih =>
    simp only [List.cons_append, runPath, Option.bind_assoc]
    congr 1
    funext t
    exact ih t

/-- Run the automaton along all paths of a regular expression at once. Both
branches of an alternative must end in the same state, and a loop in the state
it begins in. -/
def checkPaths [DecidableEq σ] (step : α → σ → Option σ) : RegularExpression α → σ → Option σ
  | .zero, _ => none
  | .epsilon, s => some s
  | .char a, s => step a s
  | .plus P Q, s =>
    match checkPaths step P s, checkPaths step Q s with
    | some t, some t' => if t = t' then some t else none
    | _, _ => none
  | .comp P Q, s => (checkPaths step P s).bind (checkPaths step Q)
  | .star P, s => if checkPaths step P s = some s then some s else none

/-- What the check says holds of every path. -/
theorem runPath_of_checkPaths [DecidableEq σ] {step : α → σ → Option σ} {P : RegularExpression α}
    {s s' : σ} (h : checkPaths step P s = some s') {path : List α} (hpath : path ∈ P.matches') :
    runPath step path s = some s' := by
  induction P generalizing s s' path with
  | zero => simp [checkPaths] at h
  | epsilon =>
    -- the empty path
    have hnil : path = [] := hpath
    rw [hnil]
    exact h
  | char a =>
    have hsingle : path = [a] := hpath
    rw [hsingle, runPath_cons_eq_some]
    exact ⟨s', h, rfl⟩
  | plus P Q ihP ihQ =>
    unfold checkPaths at h
    split at h
    · rename_i t t' hP hQ
      split at h
      · rename_i heq
        cases h
        rcases hpath with hleft | hright
        · exact ihP hP hleft
        · apply ihQ ?_ hright
          rw [hQ, heq]
      · cases h
    · cases h
  | comp P Q ihP ihQ =>
    unfold checkPaths at h
    obtain ⟨t, hP, hQ⟩ := Option.bind_eq_some_iff.mp h
    obtain ⟨front, hfront, back, hback, rfl⟩ := hpath
    rw [runPath_append, ihP hP hfront]
    exact ihQ hQ hback
  | star P ih =>
    unfold checkPaths at h
    split at h
    · rename_i hloop
      cases h
      obtain ⟨turns, rfl, hturns⟩ := hpath
      -- every turn of the loop comes back to the state it begins in
      induction turns with
      | nil => rfl
      | cons turn turns ihTurns =>
        rw [List.flatten_cons, runPath_append, ih hloop (hturns turn List.mem_cons_self)]
        apply ihTurns
        intro other hother
        exact hturns other (List.mem_cons_of_mem _ hother)
    · cases h

/-! ## One path -/

/-- Turns of a loop, as long as the next choice is to go on. -/
def takeTurns (turn : List Bool → Option (List α × List Bool)) :
    Nat → List Bool → Option (List α × List Bool)
  | fuel + 1, true :: choices => do
    let (front, choices) ← turn choices
    let (back, choices) ← takeTurns turn fuel choices
    return (front ++ back, choices)
  | _ + 1, false :: choices => some ([], choices)
  | _ + 1, [] => some ([], [])
  | 0, choices => some ([], choices)

/-- The path that a list of choices picks, with the choices left over: `true`
takes the left branch, or goes round a loop once more. A loop ends where the
choices end. -/
def takePath : RegularExpression α → List Bool → Option (List α × List Bool)
  | .zero, _ => none
  | .epsilon, choices => some ([], choices)
  | .char a, choices => some ([a], choices)
  | .plus P _, true :: choices => takePath P choices
  | .plus _ Q, false :: choices => takePath Q choices
  | .plus _ _, [] => none
  | .comp P Q, choices => do
    let (front, choices) ← takePath P choices
    let (back, choices) ← takePath Q choices
    return (front ++ back, choices)
  | .star P, choices => takeTurns (takePath P) choices.length choices

theorem mem_of_takeTurns {P : RegularExpression α}
    {turn : List Bool → Option (List α × List Bool)}
    (hturn : ∀ choices path left, turn choices = some (path, left) → path ∈ P.matches')
    (fuel : Nat) {choices left : List Bool} {path : List α}
    (h : takeTurns turn fuel choices = some (path, left)) : path ∈ (P.star).matches' := by
  induction fuel, choices using takeTurns.induct generalizing path left with
  | case1 fuel choices ih =>
    unfold takeTurns at h
    simp only [Option.bind_eq_bind, Option.bind_eq_some_iff] at h
    obtain ⟨⟨front, between⟩, hfront, ⟨back, after⟩, hback, heq⟩ := h
    cases heq
    obtain ⟨turns, hturns, hall⟩ := ih between hback
    refine ⟨front :: turns, ?_, ?_⟩
    · rw [List.flatten_cons, ← hturns]
    · intro one hone
      rcases List.mem_cons.mp hone with rfl | hone
      · exact hturn choices one between hfront
      · exact hall one hone
  | case2 | case3 | case4 =>
    -- no further turn
    cases h
    exact ⟨[], rfl, by simp⟩

theorem mem_of_takePath {P : RegularExpression α} {choices left : List Bool} {path : List α}
    (h : takePath P choices = some (path, left)) : path ∈ P.matches' := by
  induction P generalizing choices left path with
  | zero => cases h
  | epsilon =>
    cases h
    rfl
  | char a =>
    cases h
    rfl
  | plus P Q ihP ihQ =>
    cases choices with
    | nil => cases h
    | cons choice choices =>
      cases choice with
      | true => exact .inl (ihP h)
      | false => exact .inr (ihQ h)
  | comp P Q ihP ihQ =>
    unfold takePath at h
    simp only [Option.bind_eq_bind, Option.bind_eq_some_iff] at h
    obtain ⟨⟨front, between⟩, hfront, ⟨back, after⟩, hback, heq⟩ := h
    cases heq
    exact ⟨front, ihP hfront, back, ihQ hback, rfl⟩
  | star P ih =>
    refine mem_of_takeTurns ?_ choices.length h
    intro choices path left hturn
    exact ih hturn

end TermOS.Lib
