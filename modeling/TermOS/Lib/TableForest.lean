import Mathlib.Data.List.Basic

/-!
# Multi-level tables

A store of tables: entry `i` of table `t` is `T t i`, and `child` tells which
table an entry points to, if any. `follow` descends from a table along a list
of indices. The tables of a store are stratified when every table has a height
and every entry leads to a table one level lower.

The results say how `follow` changes when the entries of a stratified store
change: not at all while every entry keeps its child, and only by reaching the
new table when one missing child is linked to an empty table.
-/

namespace TermOS.Lib.TableForest

variable {F I E : Type*} (child : E → Option F)

/-- Descend from table `t` along a list of indices. -/
def follow (T : F → I → E) : F → List I → Option F
  | t, [] => some t
  | t, i :: is => (child (T t i)).bind fun c => follow T c is

/-- Every entry of the path satisfies `P`. -/
def AllAlong (P : E → Prop) (T : F → I → E) : F → List I → Prop
  | _, [] => True
  | t, i :: is => P (T t i) ∧ ∀ c, child (T t i) = some c → AllAlong P T c is

instance AllAlong.decidable (P : E → Prop) [DecidablePred P] (T : F → I → E) :
    ∀ (t : F) (is : List I), Decidable (AllAlong child P T t is)
  | _, [] => isTrue trivial
  | t, i :: is =>
    match h : child (T t i) with
    | none => decidable_of_iff (P (T t i)) (by simp [AllAlong, h])
    | some c =>
      have := AllAlong.decidable P T c is
      decidable_of_iff (P (T t i) ∧ AllAlong child P T c is) (by simp [AllAlong, h])

/-- How many tables a descent that creates what it does not find has to add. -/
def missing (T : F → I → E) : F → List I → Nat
  | _, [] => 0
  | t, i :: is =>
    match child (T t i) with
    | none => is.length + 1
    | some c => missing T c is

variable {child} {T T' : F → I → E} {At : Nat → F → Prop}

@[simp] theorem follow_nil (t : F) : follow child T t [] = some t := rfl

theorem follow_cons (t : F) (i : I) (is : List I) :
    follow child T t (i :: is) = (child (T t i)).bind fun c => follow child T c is := rfl

theorem follow_cons_eq_some {t x : F} {i : I} {is : List I} :
    follow child T t (i :: is) = some x ↔
      ∃ c, child (T t i) = some c ∧ follow child T c is = some x := by
  rw [follow_cons, Option.bind_eq_some_iff]

theorem follow_append (t : F) (is js : List I) :
    follow child T t (is ++ js) =
      (follow child T t is).bind fun c => follow child T c js := by
  induction is generalizing t with
  | nil => rfl
  | cons i is ih =>
    rw [List.cons_append, follow_cons, follow_cons]
    cases child (T t i) with
    | none => rfl
    | some c => exact ih c

theorem follow_concat_eq_some {t x : F} {is : List I} {i : I} :
    follow child T t (is ++ [i]) = some x ↔
      ∃ c, follow child T t is = some c ∧ child (T c i) = some x := by
  rw [follow_append, Option.bind_eq_some_iff]
  simp [follow_cons]

theorem follow_isSome_of_prefix {t : F} {q path : List I} (hq : q <+: path)
    (hpath : (follow child T t path).isSome) : (follow child T t q).isSome := by
  obtain ⟨rest, rfl⟩ := hq
  rw [follow_append] at hpath
  cases hfollow : follow child T t q with
  | none => simp [hfollow] at hpath
  | some c => rfl

theorem missing_cons_of_some {t c : F} {i : I} {is : List I} (hc : child (T t i) = some c) :
    missing child T t (i :: is) = missing child T c is := by
  rw [missing, hc]

theorem missing_cons_of_none {t : F} {i : I} {is : List I} (hc : child (T t i) = none) :
    missing child T t (i :: is) = is.length + 1 := by
  rw [missing, hc]

theorem missing_of_empty {t : F} (hempty : ∀ i, child (T t i) = none) (is : List I) :
    missing child T t is = is.length := by
  cases is with
  | nil => rfl
  | cons i is => exact missing_cons_of_none (hempty i)

theorem missing_le_length (T : F → I → E) (t : F) (is : List I) :
    missing child T t is ≤ is.length := by
  induction is generalizing t with
  | nil => exact Nat.le_refl 0
  | cons i is ih =>
    cases hc : child (T t i) with
    | none => exact Nat.le_of_eq (missing_cons_of_none hc)
    | some c =>
      rw [missing_cons_of_some hc]
      exact Nat.le_succ_of_le (ih c)

theorem missing_eq_zero_iff {t : F} {is : List I} :
    missing child T t is = 0 ↔ (follow child T t is).isSome := by
  induction is generalizing t with
  | nil => simp [missing]
  | cons i is ih =>
    rw [follow_cons]
    cases hc : child (T t i) with
    | none => simp [missing_cons_of_none hc]
    | some c => rw [missing_cons_of_some hc, ih, Option.bind_some]

theorem allAlong_concat {P : E → Prop} {t c : F} {is : List I} {i : I}
    (hc : follow child T t is = some c) (his : AllAlong child P T t is) (hi : P (T c i)) :
    AllAlong child P T t (is ++ [i]) := by
  induction is generalizing t with
  | nil =>
    obtain rfl := Option.some.inj hc
    exact ⟨hi, fun _ _ => trivial⟩
  | cons j js ih =>
    obtain ⟨d, hd, hrest⟩ := follow_cons_eq_some.mp hc
    refine ⟨his.1, fun d' hd' => ?_⟩
    obtain rfl := Option.some.inj (hd.symm.trans hd')
    exact ih hrest (his.2 d hd)

/-! ## Section 1: Stratified stores -/

/-- Entries of a table of height `n + 1` lead to tables of height `n`. -/
structure Stratified (child : E → Option F) (At : Nat → F → Prop) (T : F → I → E) : Prop where
  descend : ∀ {n t i c}, At (n + 1) t → child (T t i) = some c → At n c

/-- Entries that keep their child keep every descent. -/
theorem follow_congr (hT : Stratified child At T)
    (hsame : ∀ n t i, At (n + 1) t → child (T' t i) = child (T t i))
    {n : Nat} {t : F} {is : List I} (ht : At n t) (his : is.length ≤ n) :
    follow child T' t is = follow child T t is := by
  induction is generalizing n t with
  | nil => rfl
  | cons i is ih =>
    cases n with
    | zero => exact absurd his (by simp)
    | succ n =>
      rw [follow_cons, follow_cons, hsame n t i ht]
      cases hc : child (T t i) with
      | none => rfl
      | some c => exact ih (hT.descend ht hc) (by simpa using his)

/-- Entries that do not change keep every property of a path. -/
theorem allAlong_congr {P : E → Prop} (hT : Stratified child At T)
    (hsame : ∀ n t i, At (n + 1) t → T' t i = T t i)
    {n : Nat} {t : F} {is : List I} (ht : At n t) (his : is.length ≤ n) :
    AllAlong child P T' t is ↔ AllAlong child P T t is := by
  induction is generalizing n t with
  | nil => exact Iff.rfl
  | cons i is ih =>
    cases n with
    | zero => exact absurd his (by simp)
    | succ n =>
      rw [AllAlong, AllAlong, hsame n t i ht]
      refine and_congr_right fun _ => forall_congr' fun c => imp_congr_right fun hc => ?_
      exact ih (hT.descend ht hc) (by simpa using his)

theorem missing_congr (hT : Stratified child At T)
    (hsame : ∀ n t i, At (n + 1) t → child (T' t i) = child (T t i))
    {n : Nat} {t : F} {is : List I} (ht : At n t) (his : is.length ≤ n) :
    missing child T' t is = missing child T t is := by
  induction is generalizing n t with
  | nil => rfl
  | cons i is ih =>
    cases n with
    | zero => exact absurd his (by simp)
    | succ n =>
      rw [missing, missing, hsame n t i ht]
      cases hc : child (T t i) with
      | none => rfl
      | some c => exact ih (hT.descend ht hc) (by simpa using his)

/-- A descent that succeeds is kept while no child is replaced. -/
theorem follow_keep (hT : Stratified child At T)
    (hkeep : ∀ n t i c, At (n + 1) t → child (T t i) = some c → child (T' t i) = some c)
    {n : Nat} {t x : F} {is : List I} (ht : At n t) (his : is.length ≤ n)
    (hx : follow child T t is = some x) : follow child T' t is = some x := by
  induction is generalizing n t with
  | nil => exact hx
  | cons i is ih =>
    cases n with
    | zero => exact absurd his (by simp)
    | succ n =>
      obtain ⟨c, hc, hrest⟩ := follow_cons_eq_some.mp hx
      exact follow_cons_eq_some.mpr
        ⟨c, hkeep n t i c ht hc, ih (hT.descend ht hc) (by simpa using his) hrest⟩

/-- A descent that becomes possible ends in the new, empty table. -/
theorem follow_new (hT : Stratified child At T)
    (hkeep : ∀ n t i c, At (n + 1) t → child (T t i) = some c → child (T' t i) = some c)
    {fresh : F} (hnew : ∀ n t i y, At (n + 1) t → child (T t i) = none →
      child (T' t i) = some y → y = fresh)
    (hempty : ∀ i, child (T' fresh i) = none)
    {n : Nat} {t x : F} {is : List I} (ht : At n t) (his : is.length ≤ n)
    (hnone : follow child T t is = none) (hx : follow child T' t is = some x) : x = fresh := by
  induction is generalizing n t with
  | nil => exact absurd hnone (by simp)
  | cons i is ih =>
    cases n with
    | zero => exact absurd his (by simp)
    | succ n =>
      obtain ⟨y, hy, hrest⟩ := follow_cons_eq_some.mp hx
      cases hc : child (T t i) with
      | some c =>
        have hyc : y = c := Option.some.inj (hy.symm.trans (hkeep n t i c ht hc))
        subst hyc
        rw [follow_cons, hc] at hnone
        exact ih (hT.descend ht hc) (by simpa using his) hnone hrest
      | none =>
        have hyf : y = fresh := hnew n t i y ht hc hy
        subst hyf
        cases is with
        | nil => exact (Option.some.inj hrest).symm
        | cons j js =>
          rw [follow_cons, hempty j] at hrest
          exact absurd hrest (by simp)

/-- A property of all links is one of the entries on every path. -/
theorem allAlong_of_links {P : E → Prop} (hT : Stratified child At T)
    (hP : ∀ n t i c, At (n + 1) t → child (T t i) = some c → P (T t i))
    {n : Nat} {t x : F} {is : List I} (ht : At n t) (his : is.length ≤ n)
    (hx : follow child T t is = some x) : AllAlong child P T t is := by
  induction is generalizing n t with
  | nil => trivial
  | cons i is ih =>
    cases n with
    | zero => exact absurd his (by simp)
    | succ n =>
      obtain ⟨c, hc, hrest⟩ := follow_cons_eq_some.mp hx
      refine ⟨hP n t i c ht hc, fun c' hc' => ?_⟩
      obtain rfl := Option.some.inj (hc.symm.trans hc')
      exact ih (hT.descend ht hc) (by simpa using his) hrest

/-- A property of the entries on a path is kept along with the path. -/
theorem allAlong_keep {P : E → Prop} (hT : Stratified child At T)
    (hkeep : ∀ n t i c, At (n + 1) t → child (T t i) = some c → child (T' t i) = some c)
    (hP : ∀ n t i c, At (n + 1) t → child (T t i) = some c → P (T t i) → P (T' t i))
    {n : Nat} {t x : F} {is : List I} (ht : At n t) (his : is.length ≤ n)
    (hx : follow child T t is = some x) (h : AllAlong child P T t is) :
    AllAlong child P T' t is := by
  induction is generalizing n t with
  | nil => trivial
  | cons i is ih =>
    cases n with
    | zero => exact absurd his (by simp)
    | succ n =>
      obtain ⟨c, hc, hrest⟩ := follow_cons_eq_some.mp hx
      refine ⟨hP n t i c ht hc h.1, fun c' hc' => ?_⟩
      have hcc : c' = c := Option.some.inj (hc'.symm.trans (hkeep n t i c ht hc))
      subst hcc
      exact ih (hT.descend ht hc) (by simpa using his) hrest (h.2 c' hc)

end TermOS.Lib.TableForest
