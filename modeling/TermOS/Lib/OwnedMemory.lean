import TermOS.Lib.Bytes

/-!
# Memory that is given away

A memory out of which an allocator has given ranges to its client. Allocator and client take turns,
and each of them writes only to some addresses: what the client keeps in its ranges stays as long as
nobody writes there.

## Main Definitions

* `OwnedMemory` - a memory, and the ranges given away
* `OwnedMemory.Keeps` - what happens between two memories writes to certain addresses at most
-/

namespace TermOS.Lib

/-- `size` bytes from `start` on. -/
structure MemoryRange where
  start : Nat
  size : Nat
  deriving DecidableEq, Repr

namespace MemoryRange

def Contains (r : MemoryRange) (x : Nat) : Prop := r.start ≤ x ∧ x < r.start + r.size

/-- No address is in both. -/
def Apart (r r' : MemoryRange) : Prop := ∀ x, r.Contains x → ¬ r'.Contains x

/-- All bytes from `a` on, `n` of them, are in the range. -/
def Encloses (r : MemoryRange) (a n : Nat) : Prop := r.start ≤ a ∧ a + n ≤ r.start + r.size

variable {r r' : MemoryRange} {a n x : Nat}

theorem Apart.symm (h : r.Apart r') : r'.Apart r := fun x hx hx' => h x hx' hx

theorem Encloses.contains (h : r.Encloses a n) (hlow : a ≤ x) (hhigh : x < a + n) : r.Contains x :=
  ⟨h.1.trans hlow, hhigh.trans_le h.2⟩

end MemoryRange

/-- A memory, and the ranges of it that have been given away, the last one first. -/
structure OwnedMemory where
  memory : Memory
  ranges : List MemoryRange

namespace OwnedMemory

variable {written written' : Nat → Prop} {o o' o'' : OwnedMemory} {r : MemoryRange} {a n : Nat}

/-- No range is taken back, and at the addresses of the ranges nothing is written but at those of
`written`. -/
structure Keeps (written : Nat → Prop) (o o' : OwnedMemory) : Prop where
  ranges_suffix : o.ranges <:+ o'.ranges
  memory_eq : ∀ r ∈ o.ranges, ∀ x, r.Contains x → ¬ written x → o'.memory x = o.memory x

theorem Keeps.refl (written : Nat → Prop) (o : OwnedMemory) : Keeps written o o :=
  ⟨List.suffix_refl _, fun _ _ _ _ _ => rfl⟩

theorem Keeps.mem (h : Keeps written o o') (hr : r ∈ o.ranges) : r ∈ o'.ranges :=
  h.ranges_suffix.subset hr

/-- One after the other. What the second writes counts only in the ranges of before. -/
theorem Keeps.trans (h : Keeps written o o') (h' : Keeps written' o' o'')
    (hsub : ∀ r ∈ o.ranges, ∀ x, r.Contains x → written' x → written x) : Keeps written o o'' where
  ranges_suffix := h.ranges_suffix.trans h'.ranges_suffix
  memory_eq := fun r hr x hx hwritten => by
    rw [h'.memory_eq r (h.mem hr) x hx fun hx' => hwritten (hsub r hr x hx hx')]
    exact h.memory_eq r hr x hx hwritten

theorem Keeps.mono (h : Keeps written o o') (hsub : ∀ x, written x → written' x) :
    Keeps written' o o' :=
  ⟨h.ranges_suffix, fun r hr x hx hwritten => h.memory_eq r hr x hx fun hx' => hwritten (hsub x hx')⟩

/-- Bytes in a range to which nothing was written. -/
theorem Keeps.holds (h : Keeps written o o') (hr : r ∈ o.ranges) {bytes : List UInt8}
    (hbytes : o.memory.Holds a bytes) (hin : r.Encloses a bytes.length)
    (hwritten : ∀ x, r.Contains x → ¬ written x) : o'.memory.Holds a bytes := by
  apply hbytes.congr
  intro i hi
  have hx : r.Contains (a + i) := hin.contains (Nat.le_add_right a i) (by omega)
  exact h.memory_eq r hr _ hx (hwritten _ hx)

theorem Keeps.readLE (h : Keeps written o o') (hr : r ∈ o.ranges) (hin : r.Encloses a n)
    (hwritten : ∀ x, a ≤ x → x < a + n → ¬ written x) : o'.memory.readLE a n = o.memory.readLE a n :=
  Memory.readLE_congr fun x hlow hhigh =>
    h.memory_eq r hr x (hin.contains hlow hhigh) (hwritten x hlow hhigh)

theorem Keeps.word (h : Keeps written o o') (hr : r ∈ o.ranges) (hin : r.Encloses a 8)
    (hwritten : ∀ x, a ≤ x → x < a + 8 → ¬ written x) : o'.memory.word a = o.memory.word a :=
  h.readLE hr hin hwritten

end OwnedMemory

end TermOS.Lib
