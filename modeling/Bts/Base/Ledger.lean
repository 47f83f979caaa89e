import Mathlib.Order.Lattice
import Bts.Base.Word

namespace Bts.Base.Ledger

open Word

variable {K : Type}

/-- Amounts of `int64_t` under keys, in the order of the keys. -/
abbrev Entries (K : Type) := List (K × Int)

/-- `m[k] += amount` for a `std::map`, where a new entry starts at zero. -/
def credit [LinearOrder K] (k : K) (amount : Int) : Entries K → Entries K
  | [] => [(k, int64 amount)]
  | (j, v) :: rest =>
    if k = j then (j, int64 (v + amount)) :: rest
    else if k < j then (k, int64 amount) :: (j, v) :: rest
    else (j, v) :: credit k amount rest

/-- The sum of the amounts under the keys that meet a condition. -/
def sumWhere (p : K → Prop) [DecidablePred p] : Entries K → Int
  | [] => 0
  | (k, v) :: rest => (if p k then v else 0) + sumWhere p rest

theorem credit_fits [LinearOrder K] {k : K} {amount : Int} {l : Entries K}
    (h : ∀ e ∈ l, Fits e.2) : ∀ e ∈ credit k amount l, Fits e.2 := by
  induction l with
  | nil =>
    intro e he
    rw [credit, List.mem_singleton] at he
    rw [he]
    exact int64_fits _
  | cons f rest ih =>
    have hrest := ih fun e he => h e (List.mem_cons_of_mem _ he)
    intro e he
    rw [credit] at he
    split at he
    · rcases List.mem_cons.mp he with rfl | he
      · exact int64_fits _
      · exact h e (List.mem_cons_of_mem _ he)
    · split at he
      · rcases List.mem_cons.mp he with rfl | he
        · exact int64_fits _
        · exact h e he
      · rcases List.mem_cons.mp he with rfl | he
        · exact h _ List.mem_cons_self
        · exact hrest e he

variable (p : K → Prop) [DecidablePred p]

@[simp] theorem sumWhere_nil : sumWhere p [] = 0 := rfl

@[simp] theorem sumWhere_cons (k : K) (v : Int) (rest : Entries K) :
    sumWhere p ((k, v) :: rest) = (if p k then v else 0) + sumWhere p rest := rfl

theorem int64_congr_add {x y z : Int} (h : int64 x = int64 y) : int64 (z + x) = int64 (z + y) := by
  unfold int64 at h ⊢
  omega

/-- A credit adds to the sums that its key is part of, as far as they are words. -/
theorem sumWhere_credit [LinearOrder K] (k : K) (amount : Int) (l : Entries K) :
    int64 (sumWhere p (credit k amount l)) =
      int64 (sumWhere p l + if p k then amount else 0) := by
  induction l with
  | nil =>
    by_cases hp : p k <;> simp [credit, hp]
  | cons e rest ih =>
    obtain ⟨j, v⟩ := e
    unfold credit
    by_cases hkj : k = j
    · subst hkj
      by_cases hp : p k <;> simp only [↓reduceIte, sumWhere_cons, hp]
      · rw [int64_add_int64]
        congr 1
        omega
      · simp
    · by_cases hlt : k < j
      · by_cases hp : p k <;> simp only [hkj, hlt, ↓reduceIte, sumWhere_cons, hp]
        · rw [int64_add_int64]
          congr 1
          omega
        · congr 1
          omega
      · simp only [hkj, hlt, ↓reduceIte, sumWhere_cons]
        rw [int64_congr_add ih]
        congr 1
        omega

end Bts.Base.Ledger
