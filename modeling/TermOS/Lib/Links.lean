import Mathlib.Data.List.Nodup
import Mathlib.Logic.Function.Basic

/-!
# Linked lists

A successor function `next` on nodes and the list of nodes that one passes when
following it. Programs that keep a linked list in memory change `next` at one
node at a time; the lemmas here say what that does to the list.
-/

namespace TermOS.Lib

universe u

variable {α : Type u}

/-- Following `next` from `a` passes the nodes `xs` in this order and then
stands at `b`. -/
def Links (next : α → α) (a : α) : List α → α → Prop
  | [], b => a = b
  | x :: xs, b => a = x ∧ Links next (next x) xs b

namespace Links

/-! ## Section 1: Lists -/

variable {next : α → α} {a b c : α} {xs ys : List α}

@[simp] theorem nil_iff : Links next a [] b ↔ a = b := Iff.rfl

@[simp] theorem cons_iff {x : α} :
    Links next a (x :: xs) b ↔ a = x ∧ Links next (next x) xs b := Iff.rfl

theorem append_iff :
    Links next a (xs ++ ys) c ↔ ∃ b, Links next a xs b ∧ Links next b ys c := by
  induction xs generalizing a with
  | nil => simp
  | cons x xs ih =>
    rw [List.cons_append, cons_iff, ih]
    constructor
    · rintro ⟨hax, b, hxs, hys⟩
      exact ⟨b, ⟨hax, hxs⟩, hys⟩
    · rintro ⟨b, ⟨hax, hxs⟩, hys⟩
      exact ⟨hax, b, hxs, hys⟩

/-- The last node of a list points behind the list. -/
theorem concat_iff {x : α} :
    Links next a (xs ++ [x]) b ↔ Links next a xs x ∧ next x = b := by
  rw [append_iff]
  constructor
  · rintro ⟨_, hxs, rfl, hb⟩
    exact ⟨hxs, hb⟩
  · rintro ⟨hxs, hb⟩
    exact ⟨x, hxs, rfl, hb⟩

/-- Only the successors of the nodes on the list matter. -/
theorem congr {next' : α → α} (h : Links next a xs b) (heq : ∀ x ∈ xs, next' x = next x) :
    Links next' a xs b := by
  induction xs generalizing a with
  | nil => exact h
  | cons x xs ih =>
    obtain ⟨hax, hxs⟩ := h
    refine ⟨hax, ?_⟩
    rw [heq x (by simp)]
    exact ih hxs fun y hy => heq y (by simp [hy])

variable [DecidableEq α]

/-- A write to a node that is not on the list leaves the list as it is. -/
theorem update_of_notMem (h : Links next a xs b) {x : α} (hx : x ∉ xs) (value : α) :
    Links (Function.update next x value) a xs b := by
  apply h.congr
  intro y hy
  rw [Function.update_of_ne]
  rintro rfl
  exact hx hy

/-- Redirecting the last node changes only where the list ends. -/
theorem update_last (h : Links next a (xs ++ [c]) b) (hc : c ∉ xs) (value : α) :
    Links (Function.update next c value) a (xs ++ [c]) value := by
  obtain ⟨hxs, -⟩ := concat_iff.mp h
  exact concat_iff.mpr ⟨hxs.update_of_notMem hc value, Function.update_self ..⟩

/-! ## Section 2: Paths from the same node -/

omit [DecidableEq α] in
/-- A path that avoids the end of another one is the beginning of it. -/
theorem prefix_of_notMem (h : Links next a xs b) (h' : Links next a ys c) (hb : b ∉ ys) (hne : c ≠ b) :
    ∃ zs, xs = ys ++ c :: zs ∧ Links next (next c) zs b := by
  induction ys generalizing a xs with
  | nil =>
    obtain rfl : a = c := h'
    cases xs with
    | nil => exact absurd h hne
    | cons x xs =>
      obtain ⟨rfl, hxs⟩ := h
      exact ⟨xs, rfl, hxs⟩
  | cons y ys ih =>
    obtain ⟨rfl, hys⟩ := h'
    rw [List.mem_cons, not_or] at hb
    cases xs with
    | nil => exact absurd h (Ne.symm hb.1)
    | cons x xs =>
      obtain ⟨rfl, hxs⟩ := h
      obtain ⟨zs, rfl, hzs⟩ := ih hxs hys hb.2
      exact ⟨zs, rfl, hzs⟩

omit [DecidableEq α] in
/-- Two paths between the same nodes that pass the end only at the end are the same. -/
theorem unique_of_notMem (h : Links next a xs b) (h' : Links next a ys b) (hxs : b ∉ xs)
    (hys : b ∉ ys) : xs = ys := by
  induction xs generalizing a ys with
  | nil =>
    obtain rfl : a = b := h
    cases ys with
    | nil => rfl
    | cons y ys =>
      obtain ⟨rfl, -⟩ := h'
      simp at hys
  | cons x xs ih =>
    obtain ⟨rfl, hx⟩ := h
    cases ys with
    | nil =>
      obtain rfl : a = b := h'
      simp at hxs
    | cons y ys =>
      obtain ⟨rfl, hy⟩ := h'
      rw [List.mem_cons, not_or] at hxs hys
      rw [ih hx hy hxs.2 hys.2]

/-! ## Section 3: Changes in the middle of a list -/

/-- The list with `x` put behind `c`, if `c` is on it. -/
def insertAfter (c x : α) (xs : List α) : List α :=
  xs.flatMap fun y => if y = c then [y, x] else [y]

@[simp] theorem insertAfter_nil (c x : α) : insertAfter c x [] = [] := rfl

theorem insertAfter_cons_same (c x : α) (xs : List α) :
    insertAfter c x (c :: xs) = c :: x :: insertAfter c x xs := by
  simp [insertAfter]

theorem insertAfter_cons_ne {c y : α} (x : α) (xs : List α) (h : y ≠ c) :
    insertAfter c x (y :: xs) = y :: insertAfter c x xs := by
  simp [insertAfter, h]

theorem insertAfter_of_notMem {c x : α} {xs : List α} (h : c ∉ xs) : insertAfter c x xs = xs := by
  induction xs with
  | nil => rfl
  | cons y xs ih =>
    rw [List.mem_cons, not_or] at h
    rw [insertAfter_cons_ne _ _ (Ne.symm h.1), ih h.2]

theorem mem_insertAfter {c x y : α} {xs : List α} :
    y ∈ insertAfter c x xs ↔ y ∈ xs ∨ (c ∈ xs ∧ y = x) := by
  induction xs with
  | nil => simp
  | cons z xs ih =>
    by_cases hz : z = c
    · rw [hz, insertAfter_cons_same, List.mem_cons, List.mem_cons, ih]
      simp only [List.mem_cons]
      tauto
    · rw [insertAfter_cons_ne x xs hz, List.mem_cons, ih]
      simp only [List.mem_cons]
      have : c ≠ z := Ne.symm hz
      tauto

theorem nodup_insertAfter {c x : α} {xs : List α} (h : xs.Nodup) (hx : x ∉ xs) :
    (insertAfter c x xs).Nodup := by
  induction xs with
  | nil => exact List.nodup_nil
  | cons z xs ih =>
    rw [List.nodup_cons] at h
    rw [List.mem_cons, not_or] at hx
    have hrest := ih h.2 hx.2
    by_cases hz : z = c
    · rw [hz] at h hx ⊢
      rw [insertAfter_cons_same, List.nodup_cons, List.nodup_cons, List.mem_cons, mem_insertAfter,
        mem_insertAfter]
      refine ⟨?_, ?_, hrest⟩
      · rintro (heq | hmem | ⟨hmem, -⟩)
        · exact hx.1 heq.symm
        · exact h.1 hmem
        · exact h.1 hmem
      · rintro (hmem | ⟨hmem, -⟩)
        · exact hx.2 hmem
        · exact h.1 hmem
    · rw [insertAfter_cons_ne x xs hz, List.nodup_cons, mem_insertAfter]
      refine ⟨?_, hrest⟩
      rintro (hmem | ⟨-, heq⟩)
      · exact h.1 hmem
      · exact hx.1 heq.symm

/-- Linking a new node behind `c` puts it behind `c` on every list. -/
theorem insert {x : α} (h : Links next a xs b) (hx : x ∉ xs) (c : α) :
    Links (Function.update (Function.update next x (next c)) c x) a (insertAfter c x xs) b := by
  induction xs generalizing a with
  | nil => exact h
  | cons y xs ih =>
    obtain ⟨rfl, hxs⟩ := h
    rw [List.mem_cons, not_or] at hx
    by_cases hc : a = c
    · rw [hc] at hxs hx ⊢
      rw [insertAfter_cons_same]
      refine ⟨rfl, ?_⟩
      rw [Function.update_self]
      refine ⟨rfl, ?_⟩
      rw [Function.update_of_ne hx.1, Function.update_self]
      exact ih hxs hx.2
    · rw [insertAfter_cons_ne x xs hc]
      refine ⟨rfl, ?_⟩
      rw [Function.update_of_ne hc, Function.update_of_ne (Ne.symm hx.1)]
      exact ih hxs hx.2

/-- The same on a path: what is passed behind its start is old, or the new node. -/
theorem insert_behind {x : α} {gap : List α} (h : Links next a (a :: gap) b) (hx : x ∉ a :: gap)
    (c : α) : ∃ gap', Links (Function.update (Function.update next x (next c)) c x) a (a :: gap') b ∧
      ∀ t ∈ gap', t ∈ gap ∨ t = x := by
  have hlinks := h.insert hx c
  have hold : ∀ t ∈ insertAfter c x gap, t ∈ gap ∨ t = x :=
    fun t ht => (mem_insertAfter.mp ht).imp_right And.right
  by_cases hc : a = c
  · rw [hc, insertAfter_cons_same] at hlinks
    rw [hc]
    refine ⟨_, hlinks, fun t ht => ?_⟩
    rcases List.mem_cons.mp ht with rfl | ht
    · exact .inr rfl
    · exact hold t ht
  · rw [insertAfter_cons_ne _ _ hc] at hlinks
    exact ⟨_, hlinks, hold⟩

/-- Redirecting `p` to the successor of a later node takes the nodes up to that
one off the list. -/
theorem bypass {p n : α} {gap zs : List α} (h : Links next a (xs ++ p :: (gap ++ n :: zs)) b)
    (hnodup : (xs ++ p :: (gap ++ n :: zs)).Nodup) :
    Links (Function.update next p (next n)) a (xs ++ p :: zs) b := by
  obtain ⟨p', hxs, hp, hrest⟩ := append_iff.mp h
  obtain ⟨n', -, hn, hzs⟩ := append_iff.mp hrest
  rw [hp] at hxs
  have hdisjoint : p ∉ xs ∧ p ∉ zs := by
    rw [List.nodup_append'] at hnodup
    refine ⟨fun hmem => hnodup.2.2 hmem List.mem_cons_self, fun hmem => ?_⟩
    exact (List.nodup_cons.mp hnodup.2.1).1 (by simp [hmem])
  rw [append_iff]
  refine ⟨_, hxs.update_of_notMem hdisjoint.1 _, rfl, ?_⟩
  rw [Function.update_self]
  exact hzs.update_of_notMem hdisjoint.2 _

omit [DecidableEq α] in
theorem bypass_sublist (xs : List α) (p n : α) (gap zs : List α) :
    (xs ++ p :: zs).Sublist (xs ++ p :: (gap ++ n :: zs)) := by
  apply List.Sublist.append_left
  apply List.Sublist.cons_cons
  exact (List.sublist_cons_self ..).trans (List.sublist_append_right ..)

omit [DecidableEq α] in
/-- The node that was bypassed is off the list. -/
theorem notMem_bypass {p n : α} {gap zs : List α} (h : (xs ++ p :: (gap ++ n :: zs)).Nodup) :
    n ∉ xs ++ p :: zs := by
  have hmove : (xs ++ p :: (gap ++ n :: zs)).Perm (n :: (xs ++ p :: (gap ++ zs))) := by
    have := @List.perm_middle _ n (xs ++ p :: gap) zs
    simpa only [List.append_assoc, List.cons_append] using this
  intro hmem
  apply (List.nodup_cons.mp (hmove.nodup_iff.mp h)).1
  simp only [List.mem_append, List.mem_cons] at hmem ⊢
  tauto

/-! ## Section 4: Cycles -/

omit [DecidableEq α] in
/-- A cycle may be entered at any of its nodes. -/
theorem rotate (h : Links next a (xs ++ c :: ys) a) : Links next c (c :: ys ++ xs) c := by
  obtain ⟨_, hxs, rfl, hys⟩ := append_iff.mp h
  exact append_iff.mpr ⟨a, ⟨rfl, hys⟩, hxs⟩

omit [DecidableEq α] in
/-- A cycle is closed under the successor. -/
theorem next_mem (h : Links next a xs a) (hc : c ∈ xs) : next c ∈ xs := by
  obtain ⟨front, back, rfl⟩ := List.append_of_mem hc
  obtain ⟨-, hback⟩ := h.rotate
  obtain ⟨_, hys, hxs⟩ := append_iff.mp hback
  cases back with
  | cons y ys => simp [hys.1]
  | nil =>
    obtain rfl : next c = _ := hys
    cases front with
    | nil => simp [show next c = c from hxs]
    | cons x xs => simp [hxs.1]

omit [DecidableEq α] in
/-- What is reached from a node of a cycle is on the cycle. -/
theorem reached_mem (h : Links next a xs a) (hc : c ∈ xs) (hreach : Links next c ys b) : b ∈ xs := by
  induction ys generalizing c with
  | nil =>
    obtain rfl : c = b := hreach
    exact hc
  | cons y ys ih =>
    obtain ⟨rfl, hys⟩ := hreach
    exact ih (h.next_mem hc) hys

omit [DecidableEq α] in
/-- What is passed on the way from a node of a cycle is on the cycle. -/
theorem passed_mem (h : Links next a xs a) (hc : c ∈ xs) (hpath : Links next c ys b) {t : α}
    (ht : t ∈ ys) : t ∈ xs := by
  obtain ⟨front, back, rfl⟩ := List.append_of_mem ht
  obtain ⟨_, hfront, rfl, -⟩ := append_iff.mp hpath
  exact h.reached_mem hc hfront

omit [DecidableEq α] in
/-- A cycle through a node of another cycle is part of it. -/
theorem cycle_subset (h : Links next a xs a) (h' : Links next b ys b) (hxs : c ∈ xs) (hys : c ∈ ys) :
    ∀ t ∈ ys, t ∈ xs := by
  obtain ⟨front, back, rfl⟩ := List.append_of_mem hys
  intro t ht
  apply h.passed_mem hxs h'.rotate
  rw [List.mem_append] at ht ⊢
  exact ht.symm

omit [DecidableEq α] in
/-- The list of a cycle is determined by the node where it is entered. -/
theorem cycle_unique (h : Links next a (a :: xs) a) (h' : Links next a (a :: ys) a)
    (hxs : (a :: xs).Nodup) (hys : (a :: ys).Nodup) : xs = ys :=
  unique_of_notMem h.2 h'.2 (List.nodup_cons.mp hxs).1 (List.nodup_cons.mp hys).1

end Links

end TermOS.Lib
