import Mathlib.Data.List.Nodup
import Mathlib.Data.List.Range

/-!
# Counted loops

`for (x = start; x < stop; x += step)` visits the values `stride step start stop`
in order, as long as `x + step` does not wrap.
-/

namespace TermOS.Lib

/-- The values of `x` in `for (x = start; x < stop; x += step)`. -/
def stride (step start stop : Nat) : List Nat :=
  (List.range ((stop - start + (step - 1)) / step)).map fun k => start + k * step

/-- How many times the loop body runs. -/
theorem lt_stride_count {step start stop k : Nat} (hstep : 0 < step) :
    k < (stop - start + (step - 1)) / step ↔ start + k * step < stop := by
  rw [← Nat.succ_le_iff, Nat.le_div_iff_mul_le hstep, Nat.succ_mul]
  omega

theorem mem_stride {step start stop a : Nat} (hstep : 0 < step) :
    a ∈ stride step start stop ↔ ∃ k, a = start + k * step ∧ a < stop := by
  simp only [stride, List.mem_map, List.mem_range]
  constructor
  · rintro ⟨k, hk, rfl⟩
    exact ⟨k, rfl, (lt_stride_count hstep).mp hk⟩
  · rintro ⟨k, rfl, hk⟩
    exact ⟨k, (lt_stride_count hstep).mpr hk, rfl⟩

theorem stride_nodup {step start stop : Nat} (hstep : 0 < step) :
    (stride step start stop).Nodup := by
  refine List.Nodup.map (fun k₁ k₂ h => ?_) List.nodup_range
  have h' : k₁ * step = k₂ * step := Nat.add_left_cancel h
  exact Nat.eq_of_mul_eq_mul_right hstep h'

end TermOS.Lib
