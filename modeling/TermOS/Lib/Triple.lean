import Mathlib.Logic.Basic

/-!
# Triples for programs that may stop

A program over a state returns a value or stops with an exception, and has a state in
either case. A triple says what holds of the state in both cases, so that it also covers
what a program has done before it stops.
-/

namespace TermOS.Lib

variable {ε σ α β : Type}

/-- From a state in `P`, a program that returns does so in `Q`, and one that stops does so
in `R`. -/
def Triple (P : σ → Prop) (program : EStateM ε σ α) (Q : α → σ → Prop) (R : σ → Prop) : Prop :=
  ∀ s, P s → match program s with
    | .ok a s' => Q a s'
    | .error _ s' => R s'

namespace Triple

variable {P P' : σ → Prop} {Q Q' : α → σ → Prop} {R R' : σ → Prop} {program : EStateM ε σ α}

/-- What a triple says of a run that returns. -/
theorem ok (h : Triple P program Q R) {s s' : σ} {a : α} (hs : P s)
    (hrun : program s = .ok a s') : Q a s' := by
  have hpost := h s hs
  rwa [hrun] at hpost

theorem weaken (h : Triple P program Q R) (hP : ∀ s, P' s → P s) (hQ : ∀ a s, Q a s → Q' a s)
    (hR : ∀ s, R s → R' s) : Triple P' program Q' R' := by
  intro s hs
  have hpost := h s (hP s hs)
  split at hpost
  · exact hQ _ _ hpost
  · exact hR _ hpost

theorem pure (a : α) (h : ∀ s, P s → Q a s) : Triple P (Pure.pure a : EStateM ε σ α) Q R :=
  fun s hs => h s hs

theorem throw (e : ε) (h : ∀ s, P s → R s) :
    Triple P (MonadExcept.throw e : EStateM ε σ α) Q R :=
  fun s hs => h s hs

theorem get {Q : σ → σ → Prop} (h : ∀ s, P s → Q s s) :
    Triple P (MonadState.get : EStateM ε σ σ) Q R :=
  fun s hs => h s hs

/-- One program after the other; the second one knows what the first one returned. -/
theorem bind {Q' : β → σ → Prop} {next : α → EStateM ε σ β} (h : Triple P program Q R)
    (hnext : ∀ a, Triple (Q a) (next a) Q' R) : Triple P (program >>= next) Q' R := by
  intro s hs
  have hpost := h s hs
  change match EStateM.bind program next s with
    | .ok b s' => Q' b s'
    | .error _ s' => R s'
  unfold EStateM.bind
  split at hpost
  · next a s' hrun =>
    rw [hrun]
    exact hnext a s' hpost
  · next e s' hrun =>
    rw [hrun]
    exact hpost

/-- A part of the precondition that does not depend on the state. -/
theorem assume {p : Prop} (h : p → Triple P program Q R) : Triple (fun s => p ∧ P s) program Q R :=
  fun s hs => h hs.1 s hs.2

end Triple

/-- A run of two programs whose first one returns. -/
theorem bind_of_ok {program : EStateM ε σ α} {next : α → EStateM ε σ β} {s s' : σ} {a : α}
    (h : program s = .ok a s') : (program >>= next) s = next a s' := by
  change EStateM.bind program next s = next a s'
  unfold EStateM.bind
  rw [h]

end TermOS.Lib
