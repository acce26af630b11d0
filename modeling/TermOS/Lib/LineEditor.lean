import Mathlib.Data.List.GetD
import TermOS.Lib.Memory

/-!
# Line editing

What a line editor keeps of the characters that are typed, and a terminal of one line
without an end, on which its echo is shown. One character erases, all others take one
cell.
-/

namespace TermOS.Lib

variable {α : Type} [DecidableEq α] (erase blank : α)

/-- What is kept after one more character, with room for `room` of them. -/
def editStep (room : Nat) (kept : List α) (character : α) : List α :=
  if character = erase then kept.dropLast
  else if kept.length < room then kept ++ [character]
  else kept

/-- What is kept of some characters. -/
def edited (room : Nat) (characters : List α) : List α := characters.foldl (editStep erase room) []

/-- The cells of the terminal, and the cell that the next character goes to. -/
structure Terminal (α : Type) where
  cells : Nat → α
  cursor : Nat

/-- One character on the terminal. -/
def Terminal.put (t : Terminal α) (character : α) : Terminal α :=
  if character = erase then { t with cursor := t.cursor - 1 }
  else ⟨Function.update t.cells t.cursor character, t.cursor + 1⟩

/-- One character after the other, from an empty terminal on. -/
def played (characters : List α) : Terminal α :=
  characters.foldl (Terminal.put erase) ⟨fun _ => blank, 0⟩

/-- The terminal shows a text and nothing behind it. -/
def Terminal.Shows (t : Terminal α) (text : List α) : Prop :=
  t.cursor = text.length ∧ ∀ i, t.cells i = text.getD i blank

section Editing

variable {erase blank} {room : Nat} {kept : List α} {character : α}

@[simp] theorem edited_nil : edited erase room [] = [] := rfl

theorem editStep_erase : editStep erase room kept erase = kept.dropLast := if_pos rfl

theorem editStep_append (hcharacter : character ≠ erase) (hroom : kept.length < room) :
    editStep erase room kept character = kept ++ [character] := by
  unfold editStep
  rw [if_neg hcharacter, if_pos hroom]

theorem editStep_full (hcharacter : character ≠ erase) (hroom : room ≤ kept.length) :
    editStep erase room kept character = kept := by
  unfold editStep
  rw [if_neg hcharacter, if_neg (Nat.not_lt.mpr hroom)]

theorem shows_empty : (played erase blank []).Shows blank [] := ⟨rfl, fun _ => rfl⟩

theorem played_append (first second : List α) : played erase blank (first ++ second) =
    second.foldl (Terminal.put erase) (played erase blank first) := List.foldl_append

/-- A character that is echoed is shown behind the others. -/
theorem Terminal.Shows.append {t : Terminal α} (h : t.Shows blank kept) (hcharacter : character ≠ erase) :
    (t.put erase character).Shows blank (kept ++ [character]) := by
  obtain ⟨hcursor, hcells⟩ := h
  unfold Terminal.put
  rw [if_neg hcharacter]
  refine ⟨by simp [hcursor], fun i => ?_⟩
  rw [hcursor]
  show Function.update t.cells kept.length character i = _
  by_cases hi : i = kept.length
  · rw [hi, Function.update_self]
    simp
  · rw [Function.update_of_ne hi, hcells]
    by_cases hlt : i < kept.length
    · rw [List.getD_append _ _ _ _ hlt]
    · rw [List.getD_eq_default _ _ (by omega), List.getD_eq_default _ _ (by simp; omega)]

/-- Going back, blanking the cell and going back again takes the last character away. -/
theorem Terminal.Shows.undo {t : Terminal α} (h : t.Shows blank (kept ++ [character]))
    (hblank : blank ≠ erase) :
    (((t.put erase erase).put erase blank).put erase erase).Shows blank kept := by
  obtain ⟨hcursor, hcells⟩ := h
  rw [List.length_append, List.length_singleton] at hcursor
  have hback : t.put erase erase = ⟨t.cells, kept.length⟩ := by
    unfold Terminal.put
    rw [if_pos rfl, hcursor]
    rfl
  have hspace : Terminal.put erase ⟨t.cells, kept.length⟩ blank =
      ⟨Function.update t.cells kept.length blank, kept.length + 1⟩ := if_neg hblank
  have hagain : Terminal.put erase ⟨Function.update t.cells kept.length blank, kept.length + 1⟩ erase =
      ⟨Function.update t.cells kept.length blank, kept.length⟩ := if_pos rfl
  rw [hback, hspace, hagain]
  refine ⟨rfl, fun i => ?_⟩
  show Function.update t.cells kept.length blank i = _
  by_cases hi : i = kept.length
  · rw [hi, Function.update_self, List.getD_eq_default _ _ (Nat.le_refl _)]
  · rw [Function.update_of_ne hi, hcells]
    by_cases hlt : i < kept.length
    · rw [List.getD_append _ _ _ _ hlt]
    · rw [List.getD_eq_default _ _ (by simp; omega), List.getD_eq_default _ _ (by omega)]

end Editing

end TermOS.Lib
