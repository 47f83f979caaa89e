import Mathlib.Algebra.BigOperators.Finprod
import Mathlib.Algebra.BigOperators.Group.Finset.Piecewise
import Mathlib.Algebra.Order.BigOperators.Group.Finset

namespace Bts.Base.Totals

variable {K V : Type} {w : V → Int} {keys : Finset K} {p : K → Option V}

/-- The sum of a weight over the records under some keys. -/
def total (w : V → Int) (keys : Finset K) (p : K → Option V) : Int :=
  ∑ k ∈ keys, (p k).elim 0 w

theorem total_congr {q : K → Option V} (h : ∀ k ∈ keys, p k = q k) :
    total w keys p = total w keys q := by
  refine Finset.sum_congr rfl fun k hk => ?_
  rw [h k hk]

variable [DecidableEq K]

theorem total_update {k : K} (hk : k ∈ keys) (v : Option V) :
    total w keys (Function.update p k v) = total w keys p - (p k).elim 0 w + v.elim 0 w := by
  have hcell : (fun j => (Function.update p k v j).elim 0 w) =
      Function.update (fun j => (p j).elim 0 w) k (v.elim 0 w) := by
    funext j
    by_cases hj : j = k
    · subst hj
      simp
    · simp [hj]
  have hsum : total w keys p = (p k).elim 0 w + ∑ j ∈ keys \ {k}, (p j).elim 0 w := by
    unfold total
    rw [Finset.sdiff_singleton_eq_erase, Finset.add_sum_erase keys (fun j => (p j).elim 0 w) hk]
  unfold total at hsum ⊢
  rw [hcell, Finset.sum_update_of_mem hk, hsum]
  omega

/-- What a record that is taken out and stored under another key does to a total: the
record that stood there is lost. -/
theorem total_move {k j : K} {old new zero : V} (hk : k ∈ keys) (hj : j ∈ keys)
    (hold : p k = some old) (hzero : w zero = 0) :
    total w keys (Function.update (Function.update p k (some zero)) j (some new)) =
      total w keys p - w old + w new - if j = k then 0 else (p j).elim 0 w := by
  rw [total_update hj, total_update hk, hold]
  by_cases hjk : j = k
  · subst hjk
    simp [hzero]
  · simp [hjk, hzero]
    omega

section Collections

variable {w : K → V → Int} {k : K} {v : V}

/-- The sum of a weight over all records of a collection. -/
noncomputable def sumOf (w : K → V → Int) (p : K → Option V) : Int := ∑ᶠ k, (p k).elim 0 (w k)

/-- The collection has records under finitely many keys. -/
def FiniteKeys (p : K → Option V) : Prop := ∃ keys : Finset K, ∀ k, p k ≠ none → k ∈ keys

omit [DecidableEq K] in
theorem sumOf_eq_sum (hkeys : ∀ k, p k ≠ none → k ∈ keys) :
    sumOf w p = ∑ k ∈ keys, (p k).elim 0 (w k) := by
  refine finsum_eq_sum_of_support_subset _ fun k hk => ?_
  refine hkeys k fun hnone => hk ?_
  show (p k).elim 0 (w k) = 0
  rw [hnone]
  rfl

theorem sumOf_update (h : FiniteKeys p) (k : K) (v : V) :
    sumOf w (Function.update p k (some v)) = sumOf w p - (p k).elim 0 (w k) + w k v := by
  obtain ⟨keys, hkeys⟩ := h
  have hmem : k ∈ insert k keys := Finset.mem_insert_self ..
  have hold : ∀ j, p j ≠ none → j ∈ insert k keys := fun j hj => Finset.mem_insert_of_mem (hkeys j hj)
  have hnew : ∀ j, Function.update p k (some v) j ≠ none → j ∈ insert k keys := by
    intro j hj
    by_cases hjk : j = k
    · rw [hjk]
      exact hmem
    · rw [Function.update_of_ne hjk] at hj
      exact hold j hj
  have hcell : (fun j => (Function.update p k (some v) j).elim 0 (w j)) =
      Function.update (fun j => (p j).elim 0 (w j)) k (w k v) := by
    funext j
    by_cases hj : j = k
    · subst hj
      simp
    · simp [hj]
  rw [sumOf_eq_sum hnew, sumOf_eq_sum hold, hcell, Finset.sum_update_of_mem hmem,
    ← Finset.add_sum_erase _ _ hmem, Finset.sdiff_singleton_eq_erase]
  omega

omit [DecidableEq K] in
theorem sumOf_nonneg (hw : ∀ k v, p k = some v → 0 ≤ w k v) : 0 ≤ sumOf w p := by
  refine finsum_nonneg fun k => ?_
  cases hk : p k with
  | none => exact le_rfl
  | some v => exact hw k v hk

omit [DecidableEq K] in
theorem le_sumOf (h : FiniteKeys p) (hw : ∀ k v, p k = some v → 0 ≤ w k v) (hk : p k = some v) :
    w k v ≤ sumOf w p := by
  obtain ⟨keys, hkeys⟩ := h
  have hmem : k ∈ keys := hkeys k (by rw [hk]; exact nofun)
  have hcell : ∀ j ∈ keys, 0 ≤ (p j).elim 0 (w j) := by
    intro j _
    cases hj : p j with
    | none => exact le_rfl
    | some u => exact hw j u hj
  have hle := Finset.single_le_sum hcell hmem
  rw [hk] at hle
  rw [sumOf_eq_sum hkeys]
  exact hle

theorem sumOf_mono {q : K → Option V} (hp : FiniteKeys p) (hq : FiniteKeys q)
    (h : ∀ k, (p k).elim 0 (w k) ≤ (q k).elim 0 (w k)) : sumOf w p ≤ sumOf w q := by
  obtain ⟨keys, hkeys⟩ := hp
  obtain ⟨keys', hkeys'⟩ := hq
  rw [sumOf_eq_sum fun k hk => Finset.mem_union_left keys' (hkeys k hk),
    sumOf_eq_sum fun k hk => Finset.mem_union_right keys (hkeys' k hk)]
  exact Finset.sum_le_sum fun k _ => h k

end Collections

end Bts.Base.Totals
