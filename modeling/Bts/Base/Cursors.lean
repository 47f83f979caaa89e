import Mathlib.Data.List.Nodup
import Mathlib.Data.List.Sort
import Mathlib.Logic.Function.Basic

namespace Bts.Base.Cursors

variable {K V : Type} {get : K → Option V} {P : K → Prop} {itr rest : List (K × V)} {k : K} {v : V}

/-- The entries an iterator has still to visit are those of the collection, as far as
their keys have the property `P`, and no key is visited twice. -/
structure InStep (get : K → Option V) (P : K → Prop) (itr : List (K × V)) : Prop where
  nodup : (itr.map Prod.fst).Nodup
  stored : ∀ x ∈ itr, P x.1 → get x.1 = some x.2

theorem InStep.sublist (h : InStep get P itr) (hrest : rest.Sublist itr) : InStep get P rest :=
  ⟨h.nodup.sublist (hrest.map Prod.fst), fun x hx => h.stored x (hrest.subset hx)⟩

theorem InStep.taken (h : InStep get P itr) (hitr : itr = (k, v) :: rest) (hk : P k) :
    InStep get P rest ∧ get k = some v ∧ k ∉ rest.map Prod.fst := by
  rw [hitr] at h
  refine ⟨h.sublist (List.sublist_cons_self _ _), h.stored _ List.mem_cons_self hk, ?_⟩
  exact (List.nodup_cons.mp h.nodup).1

theorem InStep.update [DecidableEq K] (h : InStep get P itr) (hk : k ∉ itr.map Prod.fst)
    (v : Option V) : InStep (Function.update get k v) P itr := by
  refine ⟨h.nodup, fun x hx hP => ?_⟩
  have hne : x.1 ≠ k := by
    rintro rfl
    exact hk (List.mem_map_of_mem hx)
  rw [Function.update_of_ne hne]
  exact h.stored x hx hP

section Sorts

variable {α : Type} {r : α → α → Prop} [DecidableRel r] (hasymm : ∀ a b, r a b → ¬ r b a)
  (htrans : ∀ a b c, ¬ r b a → ¬ r c b → ¬ r c a)

include hasymm htrans

end Sorts

/-- A walk through the entries with the property `P`, in an order `R`, that are not `Done`.
They are still to visit, or it is the one at hand. -/
structure Walk (get : K → Option V) (P : K → Prop) (R : K → K → Prop) (Done : K → V → Prop)
    (current : Option K) (itr : List (K × V)) : Prop where
  ordered : itr.Pairwise fun x y => P y.1 → P x.1 ∧ R x.1 y.1
  ahead : ∀ k ∈ current, ∀ x ∈ itr, P x.1 → R k x.1
  behind : ∀ k v, P k → get k = some v → k ∈ itr.map Prod.fst ∨ k ∈ current ∨ Done k v

section Walk

variable {R : K → K → Prop} {Done : K → V → Prop} {current : Option K}

theorem Walk.next (h : Walk get P R Done current ((k, v) :: rest))
    (hdone : ∀ j ∈ current, ∀ w, get j = some w → Done j w) :
    Walk get P R Done (some k) rest := by
  obtain ⟨hhead, hrest⟩ := List.pairwise_cons.mp h.ordered
  refine ⟨hrest, ?_, fun j w hP hget => ?_⟩
  · rintro _ ⟨⟩ x hx hP
    exact (hhead x hx hP).2
  · rcases h.behind j w hP hget with hmem | hcurrent | hbehind
    · rw [List.map_cons, List.mem_cons] at hmem
      rcases hmem with rfl | hmem
      · exact Or.inr (Or.inl rfl)
      · exact Or.inl hmem
    · exact Or.inr (Or.inr (hdone j hcurrent w hget))
    · exact Or.inr (Or.inr hbehind)

section

variable (h : Walk get P R Done current itr)
include h

section

variable (hhead : ∀ x ∈ itr.head?, ¬ P x.1)
include hhead

theorem Walk.over : ∀ x ∈ itr, ¬ P x.1 := by
  cases itr with
  | nil =>
    intro x hx
    cases hx
  | cons y rest =>
    intro x hx hP
    have hnot := hhead y rfl
    rcases List.mem_cons.mp hx with rfl | hmem
    · exact hnot hP
    · exact hnot ((List.pairwise_cons.mp h.ordered).1 x hmem hP).1

theorem Walk.all_done
    (hdone : ∀ j ∈ current, ∀ w, get j = some w → Done j w) (j : K) (w : V) (hP : P j)
    (hget : get j = some w) : Done j w := by
  rcases h.behind j w hP hget with hmem | hcurrent | hbehind
  · obtain ⟨x, hx, rfl⟩ := List.mem_map.mp hmem
    exact absurd hP (h.over hhead x hx)
  · exact hdone j hcurrent w hget
  · exact hbehind

theorem Walk.stop
    (hdone : ∀ j ∈ current, ∀ w, get j = some w → Done j w) (hrest : rest.Sublist itr) :
    Walk get P R Done none rest := by
  refine ⟨h.ordered.sublist hrest, ?_, fun j w hP hget => ?_⟩
  · intro j hj
    cases hj
  · exact Or.inr (Or.inr (h.all_done hhead hdone j w hP hget))

end

theorem Walk.leave (hdone : ∀ j ∈ current, ∀ w, get j = some w → Done j w) :
    Walk get P R Done none itr := by
  refine ⟨h.ordered, nofun, fun j w hP hget => ?_⟩
  rcases h.behind j w hP hget with hmem | hcurrent | hbehind
  · exact Or.inl hmem
  · exact Or.inr (Or.inr (hdone j hcurrent w hget))
  · exact Or.inr (Or.inr hbehind)

theorem Walk.congr {other : K → Option V}
    (hsame : ∀ j, P j → other j = get j) : Walk other P R Done current itr := by
  refine ⟨h.ordered, h.ahead, fun j w hP hget => ?_⟩
  rw [hsame j hP] at hget
  exact h.behind j w hP hget

end

theorem Walk.update [DecidableEq K] (h : Walk get P R Done (some k) itr) (v : V) :
    Walk (Function.update get k (some v)) P R Done (some k) itr := by
  refine ⟨h.ordered, h.ahead, fun j w hP hget => ?_⟩
  by_cases hj : j = k
  · exact Or.inr (Or.inl (congrArg some hj.symm))
  · rw [Function.update_of_ne hj] at hget
    exact h.behind j w hP hget

/-- No entry that is left comes before the one at hand. -/
theorem Walk.first (h : Walk get P R Done (some k) itr) (hrefl : R k k) (j : K) (w : V) (hP : P j)
    (hget : get j = some w) (hleft : ¬ Done j w) : R k j := by
  rcases h.behind j w hP hget with hmem | hcurrent | hbehind
  · obtain ⟨x, hx, rfl⟩ := List.mem_map.mp hmem
    exact h.ahead k rfl x hx hP
  · cases hcurrent
    exact hrefl
  · exact absurd hbehind hleft

end Walk

end Bts.Base.Cursors
