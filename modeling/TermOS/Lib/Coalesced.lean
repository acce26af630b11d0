import Mathlib.Data.List.Chain
import TermOS.Lib.Blocks

/-!
# Coalesced arenas

An arena is coalesced when no two neighbouring blocks are free. Carving up a free
block, absorbing a free block and giving a block back keep it so, although giving
back looks at the two neighbours only. In a coalesced arena a stretch without blocks
in use lies in one free block.

## Main Theorems

* `coalesced_carve`, `coalesced_absorb`, `coalesced_giveBack` - the operations keep the arena
  coalesced
* `Coalesced.stretch` - a free stretch lies in one free block
-/

namespace TermOS.Lib

/-- No two neighbouring blocks are free. -/
def Coalesced (bs : List Block) : Prop :=
  bs.IsChain fun b c => b.isFree = false ∨ c.isFree = false

variable {header minimum size start stop low high : Nat} {b c : Block} {bs xs ys : List Block}

theorem coalesced_singleton (b : Block) : Coalesced [b] := List.isChain_singleton b

theorem coalesced_cons_iff :
    Coalesced (b :: bs) ↔ (∀ c ∈ bs.head?, b.isFree = false ∨ c.isFree = false) ∧ Coalesced bs :=
  List.isChain_cons

theorem coalesced_append_iff :
    Coalesced (xs ++ ys) ↔ Coalesced xs ∧ Coalesced ys ∧
      ∀ b ∈ xs.getLast?, ∀ c ∈ ys.head?, b.isFree = false ∨ c.isFree = false :=
  List.isChain_append

/-! ## Section 1: The operations -/

/-- What is left over of a free block has the block in use before it. -/
theorem coalesced_carve (hfree : c.isFree = true) (h : Coalesced (xs ++ c :: ys)) :
    Coalesced (xs ++ (carve header minimum size c ++ ys)) := by
  obtain ⟨hxs, hrest, -⟩ := coalesced_append_iff.mp h
  obtain ⟨hnext, hys⟩ := coalesced_cons_iff.mp hrest
  -- the block behind a free one is in use
  have hused : ∀ d ∈ ys.head?, d.isFree = false := by
    intro d hd
    rcases hnext d hd with hc | hd
    · rw [hfree] at hc
      cases hc
    · exact hd
  rw [coalesced_append_iff]
  unfold carve
  split
  · refine ⟨hxs, ?_, ?_⟩
    · rw [List.cons_append, List.cons_append, List.nil_append, coalesced_cons_iff, coalesced_cons_iff]
      exact ⟨fun _ _ => .inl rfl, fun d hd => .inr (hused d hd), hys⟩
    · intro b _ d hd
      obtain rfl := Option.some.inj hd
      exact .inr rfl
  · refine ⟨hxs, ?_, ?_⟩
    · rw [List.cons_append, List.nil_append, coalesced_cons_iff]
      exact ⟨fun _ _ => .inl rfl, hys⟩
    · intro b _ d hd
      obtain rfl := Option.some.inj hd
      exact .inr rfl

/-- A block that absorbs the next one has a block in use behind it, or absorbs nothing. -/
theorem coalesced_absorbNext (header : Nat) (b : Block) (h : Coalesced bs) :
    Coalesced (absorbNext header b bs) := by
  cases bs with
  | nil => exact coalesced_singleton b
  | cons c bs =>
    obtain ⟨hnext, hbs⟩ := coalesced_cons_iff.mp h
    rw [absorbNext]
    split
    · next hfree =>
      refine coalesced_cons_iff.mpr ⟨fun d hd => .inr ?_, hbs⟩
      rcases hnext d hd with hc | hd
      · rw [hfree] at hc
        cases hc
      · exact hd
    · next hused =>
      refine coalesced_cons_iff.mpr ⟨fun d hd => .inr ?_, h⟩
      obtain rfl := Option.some.inj hd
      exact Bool.eq_false_iff.mpr hused

/-- The first block is as free as before. -/
theorem head_absorbNext (hd : c ∈ (absorbNext header b bs).head?) : c.isFree = b.isFree := by
  obtain ⟨size, rest, heq⟩ := exists_cons_absorbNext header b bs
  rw [heq] at hd
  obtain rfl := Option.some.inj hd
  rfl

/-- A block in use grows in place. -/
theorem coalesced_absorb (hused : c.isFree = false) (h : Coalesced (xs ++ c :: ys)) :
    Coalesced (xs ++ absorbNext header c ys) := by
  obtain ⟨hxs, hrest, -⟩ := coalesced_append_iff.mp h
  refine coalesced_append_iff.mpr
    ⟨hxs, coalesced_absorbNext header c (coalesced_cons_iff.mp hrest).2, ?_⟩
  intro b _ d hd
  rw [head_absorbNext hd]
  exact .inr hused

/-- A block is given back: it is joined with the neighbours that are free. -/
theorem coalesced_giveBack (h : Coalesced (xs ++ c :: ys)) : Coalesced (giveBack header xs c ys) := by
  obtain ⟨hxs, hrest, -⟩ := coalesced_append_iff.mp h
  have hjoined : Coalesced (absorbNext header { c with isFree := true } ys) :=
    coalesced_absorbNext header _ (coalesced_cons_iff.mp hrest).2
  have happend : (∀ a ∈ xs.getLast?, a.isFree = false) →
      Coalesced (xs ++ absorbNext header { c with isFree := true } ys) := fun hlast =>
    coalesced_append_iff.mpr ⟨hxs, hjoined, fun a ha _ _ => .inl (hlast a ha)⟩
  unfold giveBack
  split
  · next a hlast =>
    split
    · next hfree =>
      -- the block before the free one that absorbs is in use
      have hsplit : xs.dropLast ++ [a] = xs := List.dropLast_append_getLast? a hlast
      rw [← hsplit] at hxs
      obtain ⟨hfront, -, hbefore⟩ := coalesced_append_iff.mp hxs
      refine coalesced_append_iff.mpr ⟨hfront, coalesced_absorbNext header a hjoined, ?_⟩
      intro b hb d hd
      rw [head_absorbNext hd]
      exact hbefore b hb a rfl
    · next hused =>
      apply happend
      intro b hb
      rw [hlast] at hb
      obtain rfl := Option.some.inj hb
      exact Bool.eq_false_iff.mpr hused
  · next hnone =>
    apply happend
    intro b hb
    rw [hnone] at hb
    cases hb

/-! ## Section 2: Where blocks in use come from -/

theorem used_carve (hb : b ∈ xs ++ (carve header minimum size c ++ ys)) (hused : b.isFree = false) :
    b.address = c.address ∨ b ∈ xs ++ c :: ys := by
  rcases List.mem_append.mp hb with hb | hb
  · exact .inr (List.mem_append_left _ hb)
  rcases List.mem_append.mp hb with hb | hb
  · unfold carve at hb
    split at hb
    · rcases List.mem_cons.mp hb with rfl | hb
      · exact .inl rfl
      · rw [List.mem_singleton.mp hb] at hused
        cases hused
    · rw [List.mem_singleton.mp hb]
      exact .inl rfl
  · exact .inr (List.mem_append_right _ (List.mem_cons_of_mem _ hb))

/-- A free block that absorbs adds no block in use. -/
theorem used_absorbNext (hfree : c.isFree = true) (hb : b ∈ absorbNext header c bs)
    (hused : b.isFree = false) : b ∈ bs := by
  cases bs with
  | nil =>
    rw [List.mem_singleton.mp hb, hfree] at hused
    cases hused
  | cons d bs =>
    rw [absorbNext] at hb
    split at hb
    · rcases List.mem_cons.mp hb with rfl | hb
      · rw [Block.absorb, hfree] at hused
        cases hused
      · exact List.mem_cons_of_mem _ hb
    · rcases List.mem_cons.mp hb with rfl | hb
      · rw [hfree] at hused
        cases hused
      · exact hb

theorem used_giveBack (hb : b ∈ giveBack header xs c ys) (hused : b.isFree = false) :
    b ∈ xs ∨ b ∈ ys := by
  have hjoined : b ∈ xs ++ absorbNext header { c with isFree := true } ys → b ∈ xs ∨ b ∈ ys := by
    intro hb
    exact (List.mem_append.mp hb).imp_right fun hb => used_absorbNext rfl hb hused
  unfold giveBack at hb
  split at hb
  · next a hlast =>
    split at hb
    · next hfree =>
      rcases List.mem_append.mp hb with hb | hb
      · exact .inl (List.dropLast_subset xs hb)
      · exact .inr (used_absorbNext rfl (used_absorbNext hfree hb hused) hused)
    · exact hjoined hb
  · exact hjoined hb

theorem address_absorbNext (hb : b ∈ xs ++ absorbNext header c ys) :
    b.address = c.address ∨ b ∈ xs ∨ b ∈ ys := by
  rcases List.mem_append.mp hb with hb | hb
  · exact .inr (.inl hb)
  · exact (address_of_mem_absorbNext hb).imp_right .inr

/-! ## Section 3: Stretches -/

/-- A part of the arena that no block in use reaches into. -/
structure FreeStretch (header start : Nat) (bs : List Block) (stop low high : Nat) : Prop where
  start_le : start ≤ low
  nonempty : low < high
  le_stop : high ≤ stop
  apart : ∀ b ∈ bs, b.isFree = false → b.stop header ≤ low ∨ high ≤ b.address

/-- In an arena that is coalesced and has no gaps, a free stretch lies in one free block. -/
theorem Coalesced.stretch (h : Coalesced bs) (hlaid : Laid (· = ·) header start bs stop)
    (hfree : FreeStretch header start bs stop low high) :
    ∃ b ∈ bs, b.isFree = true ∧ b.address ≤ low ∧ high ≤ b.stop header := by
  induction bs generalizing start with
  | nil =>
    have hend : start = stop := hlaid
    have hlow := hfree.start_le
    have hhigh := hfree.le_stop
    have hlt := hfree.nonempty
    omega
  | cons b bs ih =>
    obtain ⟨haddress, hrest⟩ := hlaid
    obtain ⟨hnext, hbs⟩ := coalesced_cons_iff.mp h
    have hlow := hfree.start_le
    have hlt := hfree.nonempty
    by_cases hin : low < b.stop header
    · -- the stretch begins in this block
      have hb : b.isFree = true := by
        by_contra hused
        rcases hfree.apart b List.mem_cons_self (Bool.eq_false_iff.mpr hused) with hle | hle
        · omega
        · omega
      refine ⟨b, List.mem_cons_self, hb, by omega, ?_⟩
      by_contra hlong
      cases bs with
      | nil =>
        have hend : b.stop header = stop := hrest
        have hhigh := hfree.le_stop
        omega
      | cons d bs =>
        -- otherwise it would reach into the next block, which is in use
        have hused : d.isFree = false := by
          rcases hnext d rfl with hfalse | hused
          · rw [hb] at hfalse
            cases hfalse
          · exact hused
        have hd : b.stop header = d.address := hrest.1
        have hdstop : d.address ≤ d.stop header := by
          unfold Block.stop
          omega
        rcases hfree.apart d (by simp) hused with hle | hle
        · omega
        · omega
    · have hfree' : FreeStretch header (b.stop header) bs stop low high :=
        ⟨Nat.le_of_not_lt hin, hfree.nonempty, hfree.le_stop,
          fun d hd => hfree.apart d (List.mem_cons_of_mem _ hd)⟩
      obtain ⟨d, hd, hfound⟩ := ih hbs hrest hfree'
      exact ⟨d, List.mem_cons_of_mem _ hd, hfound⟩

/-- A coalesced arena without blocks in use is one block. -/
theorem Coalesced.eq_single (h : Coalesced bs) (hfree : ∀ b ∈ bs, b.isFree = true) :
    bs = [] ∨ ∃ b, bs = [b] := by
  cases bs with
  | nil => exact .inl rfl
  | cons b bs =>
    cases bs with
    | nil => exact .inr ⟨b, rfl⟩
    | cons c bs =>
      rcases (coalesced_cons_iff.mp h).1 c rfl with hb | hc
      · rw [hfree b (by simp)] at hb
        cases hb
      · rw [hfree c (by simp)] at hc
        cases hc

end TermOS.Lib
