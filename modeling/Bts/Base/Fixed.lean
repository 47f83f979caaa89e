import Mathlib.Algebra.Order.Ring.Nat

/-!
Numbers with a fixed number of decimals, kept as multiples of the smallest unit. Products and
quotients are cut off.
-/

namespace Bts.Base.Fixed

variable (d : Nat)

def ofNat (n : Nat) : Nat := n * d

def mul (x y : Nat) : Nat := x * y / d

def div (x y : Nat) : Nat := x * d / y

def floor (x : Nat) : Nat := x / d

variable {d} (hd : 0 < d)

include hd

theorem ofNat_mul (n x : Nat) : mul d (ofNat d n) x = n * x := by
  unfold mul ofNat
  rw [Nat.mul_right_comm]
  exact Nat.mul_div_cancel _ hd

theorem ofNat_div (n m : Nat) : div d (ofNat d n) (ofNat d m) = n * d / m :=
  Nat.mul_div_mul_right _ _ hd

/-- A whole number less a part of it has as its whole part the number less the part rounded
up: it is less than `n` from the number exactly if the part is at most `n - 1`. -/
theorem sub_floor_le_iff {x part n : Nat} (hpart : part ≤ ofNat d x) :
    x - floor d (ofNat d x - part) ≤ n ↔ part ≤ ofNat d n := by
  unfold floor ofNat at *
  have hfloor : (x * d - part) / d ≤ x := by
    refine Nat.div_le_of_le_mul ?_
    rw [Nat.mul_comm d]
    exact Nat.sub_le _ _
  have hle : x - (x * d - part) / d ≤ n ↔ x - n ≤ (x * d - part) / d := by
    generalize (x * d - part) / d = whole at hfloor
    omega
  rw [hle, Nat.le_div_iff_mul_le hd, Nat.sub_mul]
  omega

end Bts.Base.Fixed
