import Mathlib.Algebra.Order.BigOperators.Group.Finset
import TermOS.Lib.TableForest

/-!
# Counting absent tables

A set of paths needs a table at the end of each of their nonempty prefixes.
The tables that a store lacks for them are counted prefix by prefix, so that
paths which share a prefix share its table. Creating the tables of one path
takes exactly these out of the count for the others.
-/

namespace TermOS.Lib.TableForest

variable {F I E : Type*} [DecidableEq I] {child : E → Option F} {T T' : F → I → E}

/-! ## Section 1: Prefixes -/

/-- The nonempty prefixes of a list. -/
def prefixes : List I → Finset (List I)
  | [] => ∅
  | i :: is => insert [i] ((prefixes is).image (i :: ·))

theorem mem_prefixes {is q : List I} : q ∈ prefixes is ↔ q ≠ [] ∧ q <+: is := by
  induction is generalizing q with
  | nil => simp [prefixes]
  | cons i is ih =>
    rw [prefixes, Finset.mem_insert, Finset.mem_image]
    constructor
    · rintro (rfl | ⟨q', hq', rfl⟩)
      · exact ⟨by simp, by simp [List.prefix_cons_iff]⟩
      · exact ⟨by simp, List.prefix_cons_inj i |>.mpr (ih.mp hq').2⟩
    · rintro ⟨hne, hpre⟩
      obtain rfl | ⟨q', rfl, hq'⟩ := List.prefix_cons_iff.mp hpre
      · exact absurd rfl hne
      · by_cases hnil : q' = []
        · exact .inl (by rw [hnil])
        · exact .inr ⟨q', ih.mpr ⟨hnil, hq'⟩, rfl⟩

theorem card_prefixes (is : List I) : (prefixes is).card = is.length := by
  induction is with
  | nil => rfl
  | cons i is ih =>
    have hnot : [i] ∉ (prefixes is).image (i :: ·) := by
      simp only [Finset.mem_image, List.cons.injEq, true_and, exists_eq_right]
      exact fun h => (mem_prefixes.mp h).1 rfl
    rw [prefixes, Finset.card_insert_of_notMem hnot,
      Finset.card_image_of_injective _ List.cons_injective, ih, List.length_cons]

/-! ## Section 2: Absent tables -/

variable (child T) in
/-- The prefixes of `paths` that lead from `t` to no table. -/
def absent (t : F) (paths : Finset (List I)) : Finset (List I) :=
  (paths.biUnion prefixes).filter fun q => (follow child T t q).isNone

theorem mem_absent {t : F} {paths : Finset (List I)} {q : List I} :
    q ∈ absent child T t paths ↔
      (q ≠ [] ∧ ∃ path ∈ paths, q <+: path) ∧ follow child T t q = none := by
  simp only [absent, Finset.mem_filter, Finset.mem_biUnion, mem_prefixes, Option.isNone_iff_eq_none]
  tauto

/-- `missing` counts the absent tables of one path. -/
theorem card_absent_singleton (t : F) (path : List I) :
    (absent child T t {path}).card = missing child T t path := by
  rw [absent, Finset.singleton_biUnion]
  induction path generalizing t with
  | nil => rfl
  | cons i is ih =>
    cases hc : child (T t i) with
    | none =>
      -- nothing below the slot is there
      have hall : (prefixes (i :: is)).filter (fun q => (follow child T t q).isNone) =
          prefixes (i :: is) := by
        apply Finset.filter_true_of_mem
        intro q hq
        obtain ⟨hne, hpre⟩ := mem_prefixes.mp hq
        obtain rfl | ⟨q', rfl, -⟩ := List.prefix_cons_iff.mp hpre
        · exact absurd rfl hne
        · rw [follow_cons, hc, Option.bind_none, Option.isNone_none]
      rw [hall, card_prefixes, missing_cons_of_none hc, List.length_cons]
    | some c =>
      have hcons : (prefixes (i :: is)).filter (fun q => (follow child T t q).isNone) =
          ((prefixes is).filter fun q => (follow child T c q).isNone).image (i :: ·) := by
        have hhead : (follow child T t [i]).isNone = false := by
          rw [follow_cons, hc, Option.bind_some, follow_nil, Option.isNone_some]
        rw [prefixes, Finset.filter_insert, hhead, if_neg (by simp), Finset.filter_image]
        congr 1
        apply Finset.filter_congr
        intro q _
        rw [follow_cons, hc, Option.bind_some]
      rw [hcons, Finset.card_image_of_injective _ List.cons_injective, ih, missing_cons_of_some hc]

theorem card_absent_le (t : F) (paths : Finset (List I)) {n : Nat}
    (hlen : ∀ path ∈ paths, path.length ≤ n) :
    (absent child T t paths).card ≤ paths.card * n := by
  calc (absent child T t paths).card ≤ (paths.biUnion prefixes).card := Finset.card_filter_le _ _
    _ ≤ paths.card * n := Finset.card_biUnion_le_card_mul _ _ _ fun path hpath => by
      rw [card_prefixes]
      exact hlen path hpath

/-- An empty table lacks everything. -/
theorem absent_of_empty {t : F} (h : ∀ i, child (T t i) = none) (paths : Finset (List I)) :
    absent child T t paths = paths.biUnion prefixes := by
  apply Finset.filter_true_of_mem
  intro q hq
  obtain ⟨path, -, hpre⟩ := Finset.mem_biUnion.mp hq
  obtain ⟨i, is, rfl⟩ := List.exists_cons_of_ne_nil (mem_prefixes.mp hpre).1
  rw [follow_cons, h, Option.bind_none, Option.isNone_none]

theorem absent_mono {t : F} {paths paths' : Finset (List I)} (h : paths ⊆ paths') :
    absent child T t paths ⊆ absent child T t paths' := by
  intro q hq
  obtain ⟨⟨hne, path, hpath, hpre⟩, hnone⟩ := mem_absent.mp hq
  exact mem_absent.mpr ⟨⟨hne, path, h hpath, hpre⟩, hnone⟩

/-! ## Section 3: Creating the tables of one path -/

section Create

variable {t : F} {path : List I} {paths : Finset (List I)}

/-- The tables that were absent before and are not any more include those of
the path. -/
theorem card_absent_add_missing_le
    (hkeep : ∀ q, (∃ p ∈ paths, q <+: p) → (follow child T t q).isSome →
      (follow child T' t q).isSome)
    (hpath : (follow child T' t path).isSome) :
    (absent child T' t paths).card + missing child T t path ≤
      (absent child T t (insert path paths)).card := by
  have hdisj : Disjoint (absent child T' t paths) (absent child T t {path}) := by
    apply Finset.disjoint_left.mpr
    intro q hq' hq
    obtain ⟨⟨-, p, hp, hpre⟩, -⟩ := mem_absent.mp hq
    rw [Finset.mem_singleton.mp hp] at hpre
    have hsome := follow_isSome_of_prefix hpre hpath
    rw [(mem_absent.mp hq').2] at hsome
    exact absurd hsome (by simp)
  have hsub : absent child T' t paths ∪ absent child T t {path} ⊆
      absent child T t (insert path paths) := by
    apply Finset.union_subset
    · intro q hq
      obtain ⟨⟨hne, p, hp, hpre⟩, hnone⟩ := mem_absent.mp hq
      refine mem_absent.mpr ⟨⟨hne, p, Finset.mem_insert_of_mem hp, hpre⟩, ?_⟩
      cases hold : follow child T t q with
      | none => rfl
      | some c =>
        have hsome := hkeep q ⟨p, hp, hpre⟩ (by rw [hold]; rfl)
        rw [hnone] at hsome
        exact absurd hsome (by simp)
    · apply absent_mono
      rw [Finset.singleton_subset_iff]
      exact Finset.mem_insert_self _ _
  rw [← card_absent_singleton t path, ← Finset.card_union_of_disjoint hdisj]
  exact Finset.card_le_card hsub

/-- When only tables of the path were created, the count is exact. -/
theorem card_absent_add_missing
    (hkeep : ∀ q, (∃ p ∈ paths, q <+: p) → (follow child T t q).isSome →
      (follow child T' t q).isSome)
    (hpath : (follow child T' t path).isSome)
    (hnew : ∀ q, (∃ p ∈ paths, q <+: p) → (follow child T' t q).isSome →
      (follow child T t q).isSome ∨ q <+: path) :
    (absent child T' t paths).card + missing child T t path =
      (absent child T t (insert path paths)).card := by
  apply Nat.le_antisymm (card_absent_add_missing_le hkeep hpath)
  have hsub : absent child T t (insert path paths) ⊆
      absent child T' t paths ∪ absent child T t {path} := by
    intro q hq
    obtain ⟨⟨hne, p, hp, hpre⟩, hnone⟩ := mem_absent.mp hq
    rw [Finset.mem_union]
    by_cases hqpath : q <+: path
    · exact .inr (mem_absent.mpr ⟨⟨hne, path, Finset.mem_singleton_self _, hqpath⟩, hnone⟩)
    · refine .inl ?_
      rcases Finset.mem_insert.mp hp with rfl | hp
      · exact absurd hpre hqpath
      · refine mem_absent.mpr ⟨⟨hne, p, hp, hpre⟩, ?_⟩
        cases hcreated : follow child T' t q with
        | none => rfl
        | some c =>
          rcases hnew q ⟨p, hp, hpre⟩ (by rw [hcreated]; rfl) with hold | hold
          · rw [hnone] at hold
            exact absurd hold (by simp)
          · exact absurd hold hqpath
  calc (absent child T t (insert path paths)).card
      ≤ (absent child T' t paths ∪ absent child T t {path}).card := Finset.card_le_card hsub
    _ ≤ (absent child T' t paths).card + (absent child T t {path}).card :=
      Finset.card_union_le _ _
    _ = (absent child T' t paths).card + missing child T t path := by
      rw [card_absent_singleton]

end Create

end TermOS.Lib.TableForest
