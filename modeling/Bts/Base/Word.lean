import Mathlib.Algebra.Ring.Int.Defs
import Mathlib.Algebra.Ring.Nat

namespace Bts.Base.Word

/-- Two's complement wrap of an integer into the range of `int64_t`. -/
def int64 (x : Int) : Int :=
  (x + 9223372036854775808) % 18446744073709551616 - 9223372036854775808

def Fits (x : Int) : Prop :=
  -9223372036854775808 ≤ x ∧ x ≤ 9223372036854775807
  deriving Decidable

theorem int64_fits (x : Int) : Fits (int64 x) := by
  unfold Fits int64
  omega

theorem int64_of_fits {x : Int} (h : Fits x) : int64 x = x := by
  unfold Fits at h
  unfold int64
  omega

theorem int64_self {x : Int} (h : Fits x := by unfold Fits; omega) : int64 x = x := int64_of_fits h

theorem int64_le {x : Int} (h : 0 ≤ x) : int64 x ≤ x := by
  unfold int64
  omega

theorem int64_eq_iff {x : Int} : int64 x = x ↔ Fits x :=
  ⟨fun h => h ▸ int64_fits x, int64_of_fits⟩

@[simp] theorem int64_add_int64 (x y : Int) : int64 (int64 x + y) = int64 (x + y) := by
  unfold int64
  omega

@[simp] theorem int64_int64 (x : Int) : int64 (int64 x) = int64 x :=
  int64_of_fits (int64_fits x)

@[simp] theorem int64_sub_int64 (x y : Int) : int64 (int64 x - y) = int64 (x - y) := by
  unfold int64
  omega

/-- A difference in `int64_t` is the difference, up to the times it wraps around. -/
theorem int64_sub_wraps {x y : Int} (hx : Fits x) (hy : 0 ≤ y) :
    ∃ wraps : Nat, int64 (x - y) = x - y + 18446744073709551616 * wraps := by
  unfold Fits at hx
  refine ⟨((int64 (x - y) - (x - y)) / 18446744073709551616).toNat, ?_⟩
  unfold int64
  omega

end Bts.Base.Word
