import Mathlib.Logic.Basic

/-!
# Guarded runs

A system with states `S` takes actions `A`; `ok s a` says that action `a` may
be taken in state `s`, and `step s a` is the state after it. A run is a list
of actions each of which may be taken when it is. An inductive invariant holds
at the end of every run that starts in it.
-/

namespace TermOS.Lib

variable {S A : Type*} {ok : S → A → Prop} {step : S → A → S}

/-- The actions `as` lead from one state to another. -/
inductive Run (ok : S → A → Prop) (step : S → A → S) : S → List A → S → Prop where
  | nil (s : S) : Run ok step s [] s
  | cons {s s' : S} {a : A} {as : List A} (hok : ok s a) (hrest : Run ok step (step s a) as s') :
      Run ok step s (a :: as) s'

namespace Run

/-- What the initial state satisfies and every step keeps holds at the end of
every run. -/
theorem invariant {I : S → Prop} (hstep : ∀ s a, I s → ok s a → I (step s a)) {s s' : S}
    {as : List A} (h : Run ok step s as s') (hinit : I s) : I s' := by
  induction h with
  | nil => exact hinit
  | cons hok _ ih => exact ih (hstep _ _ hinit hok)

/-- Fewer actions are permitted. -/
theorem weaken {ok' : S → A → Prop} (hok : ∀ s a, ok s a → ok' s a) {s s' : S} {as : List A}
    (h : Run ok step s as s') : Run ok' step s as s' := by
  induction h with
  | nil => exact .nil _
  | cons hfirst _ ih => exact .cons (hok _ _ hfirst) ih

end Run

/-! ## Runs of a step relation -/

variable {next : S → A → S → Prop}

/-- The actions `as` can lead from one state to another. -/
inductive Trace (next : S → A → S → Prop) : S → List A → S → Prop where
  | nil (s : S) : Trace next s [] s
  | cons {s s' s'' : S} {a : A} {as : List A} (hstep : next s a s') (hrest : Trace next s' as s'') :
      Trace next s (a :: as) s''

namespace Trace

/-- What the first state satisfies and every step keeps holds in the last one. -/
theorem invariant {I : S → Prop} (hkeep : ∀ s a s', I s → next s a s' → I s') {s s' : S}
    {as : List A} (h : Trace next s as s') (hinit : I s) : I s' := by
  induction h with
  | nil => exact hinit
  | cons hstep _ ih => exact ih (hkeep _ _ _ hinit hstep)

theorem single {s s' : S} {a : A} (h : next s a s') : Trace next s [a] s' := .cons h (.nil _)

/-- As long as `ok` holds, actions are good and keep the invariant, and no other action is
good: then all actions of a run are good exactly if `ok` holds of each of its steps. -/
theorem forall_iff {I : S → Prop} {ok : S → A → Prop} {good : A → Prop} {s s' : S} {as : List A}
    (h : Trace next s as s') (hinit : I s)
    (hdet : ∀ s a s₁ s₂, next s a s₁ → next s a s₂ → s₁ = s₂)
    (hkeep : ∀ s a s', I s → next s a s' → ok s a → good a ∧ I s')
    (hbad : ∀ s a s', I s → next s a s' → good a → ok s a) :
    (∀ a ∈ as, good a) ↔ Trace (fun s a s' => next s a s' ∧ ok s a) s as s' := by
  induction h with
  | nil s => exact iff_of_true (by simp) (.nil s)
  | @cons s s₁ s' a as hstep hrest ih =>
    rw [List.forall_mem_cons]
    constructor
    · rintro ⟨hgood, hgoods⟩
      have hok := hbad s a s₁ hinit hstep hgood
      exact .cons ⟨hstep, hok⟩ ((ih (hkeep s a s₁ hinit hstep hok).2).mp hgoods)
    · rintro (_ | ⟨⟨hstep', hok⟩, hrest'⟩)
      obtain ⟨hgood, hinv⟩ := hkeep s a s₁ hinit hstep hok
      obtain rfl := hdet s a _ _ hstep hstep'
      exact ⟨hgood, (ih hinv).mpr hrest'⟩

/-- The actions one after the other, as long as each of them has a next state. -/
def perform (step : S → A → Option S) : S → List A → Option S
  | s, [] => some s
  | s, a :: as => (step s a).bind fun s' => perform step s' as

/-- A run that was computed. -/
theorem exists_of_perform {step : S → A → Option S} (hnext : ∀ s a s', step s a = some s' → next s a s')
    {p : S → Bool} {s : S} {as : List A} (h : (perform step s as).any p = true) :
    ∃ s', Trace next s as s' ∧ p s' = true := by
  induction as generalizing s with
  | nil => exact ⟨s, .nil s, h⟩
  | cons a as ih =>
    rw [perform] at h
    cases hstep : step s a with
    | none =>
      rw [hstep] at h
      cases h
    | some s₁ =>
      rw [hstep] at h
      obtain ⟨s', htrace, hp⟩ := ih h
      exact ⟨s', .cons (hnext s a s₁ hstep) htrace, hp⟩

/-- The next state, if the action is permitted and ends. -/
def permittedStep {R : Type*} (ok : S → A → Prop) [∀ s a, Decidable (ok s a)]
    (step : S → A → Option (R × S)) (s : S) (a : A) : Option S :=
  if ok s a then (step s a).map Prod.snd else none

theorem next_of_permittedStep {R : Type*} {ok : S → A → Prop} [∀ s a, Decidable (ok s a)]
    {step : S → A → Option (R × S)} (s : S) (a : A) (s' : S)
    (h : permittedStep ok step s a = some s') : ok s a ∧ ∃ r, step s a = some (r, s') := by
  unfold permittedStep at h
  split at h
  · next hok =>
    obtain ⟨⟨r, s₁⟩, hsome, rfl⟩ := Option.map_eq_some_iff.mp h
    exact ⟨hok, r, hsome⟩
  · cases h

/-- The next state, if the action is permitted and returns what its label says. -/
def labelledStep {R : Type*} [DecidableEq R] (ok : S → A → Prop) [∀ s a, Decidable (ok s a)]
    (step : S → A → Option (R × S)) (s : S) (l : A × R) : Option S :=
  if ok s l.1 then ((step s l.1).filter fun r => r.1 = l.2).map Prod.snd else none

theorem next_of_labelledStep {R : Type*} [DecidableEq R] {ok : S → A → Prop}
    [∀ s a, Decidable (ok s a)] {step : S → A → Option (R × S)} (s : S) (l : A × R) (s' : S)
    (h : labelledStep ok step s l = some s') : ok s l.1 ∧ step s l.1 = some (l.2, s') := by
  unfold labelledStep at h
  split at h
  · next hok =>
    obtain ⟨⟨r, s₁⟩, hsome, rfl⟩ := Option.map_eq_some_iff.mp h
    obtain ⟨hstep, hlabel⟩ := Option.filter_eq_some_iff.mp hsome
    obtain rfl : r = l.2 := of_decide_eq_true hlabel
    exact ⟨hok, hstep⟩
  · cases h

end Trace

end TermOS.Lib
