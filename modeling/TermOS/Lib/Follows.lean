import Mathlib.Data.Option.Basic

/-!
# Programs that may fault

A program that may fault is given by an optional result. It follows a total
program if it has the same result whenever it does not fault, and if it does not
fault wherever an assumption `complete` holds.
-/

namespace TermOS.Lib

universe u

variable {α β : Type u} {complete : Prop} {o : Option α} {a : α}

/-- The result is `a`, if there is one; there is one where `complete` holds. -/
structure Follows (complete : Prop) (o : Option α) (a : α) : Prop where
  eq_of_eq_some : ∀ {x}, o = some x → x = a
  isSome : complete → o.isSome

namespace Follows

theorem some (a : α) : Follows complete (Option.some a) a where
  eq_of_eq_some := fun h => (Option.some.inj h).symm
  isSome := fun _ => rfl

theorem eq_some (h : Follows complete o a) (hcomplete : complete) : o = Option.some a := by
  obtain ⟨x, hx⟩ := Option.isSome_iff_exists.mp (h.isSome hcomplete)
  rw [hx, h.eq_of_eq_some hx]

/-- One program after the other. -/
theorem bind {f : α → Option β} {b : β} (h : Follows complete o a) (hf : Follows complete (f a) b) :
    Follows complete (o >>= f) b where
  eq_of_eq_some := by
    intro y hy
    obtain ⟨x, hx, hxy⟩ := Option.bind_eq_some_iff.mp hy
    rw [h.eq_of_eq_some hx] at hxy
    exact hf.eq_of_eq_some hxy
  isSome := by
    intro hcomplete
    rw [h.eq_some hcomplete]
    exact hf.isSome hcomplete

theorem map (h : Follows complete o a) (f : α → β) : Follows complete (o.map f) (f a) where
  eq_of_eq_some := by
    intro y hy
    obtain ⟨x, hx, rfl⟩ := Option.map_eq_some_iff.mp hy
    rw [h.eq_of_eq_some hx]
  isSome := by
    intro hcomplete
    rw [h.eq_some hcomplete]
    rfl

/-- A check that fails is a fault. -/
theorem guard {p : Prop} [Decidable p] (h : Follows complete o a) (hp : complete → p) :
    Follows complete (if p then o else none) a where
  eq_of_eq_some := by
    intro x hx
    split at hx
    · exact h.eq_of_eq_some hx
    · exact absurd hx (by simp)
  isSome := by
    intro hcomplete
    rw [if_pos (hp hcomplete)]
    exact h.isSome hcomplete

end Follows

end TermOS.Lib
