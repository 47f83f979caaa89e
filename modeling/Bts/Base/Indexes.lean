import Mathlib.Data.Option.Basic

namespace Bts.Base.Indexes

variable {K V X : Type} {has : V → X → Prop} {view view' base top : K → Option V}
  {index index' below above : X → Option K} {k : K} {v : V} {x : X}

/-- The index leads from what a record has to the key of the record, and to nothing else. -/
def Indexed (has : V → X → Prop) (view : K → Option V) (index : X → Option K) : Prop :=
  ∀ x k, index x = some k ↔ ∃ v, view k = some v ∧ has v x

/-- A record that has all that the record under its key has, and nothing that another has. -/
structure Fits (has : V → X → Prop) (view : K → Option V) (k : K) (v : V) : Prop where
  kept : ∀ w x, view k = some w → has w x → has v x
  apart : ∀ j w x, view j = some w → has v x → has w x → j = k

theorem Indexed.apart (h : Indexed has view index) {j : K} {w : V} (hv : view k = some v)
    (hw : view j = some w) (hx : has v x) (hx' : has w x) : j = k := by
  have hk : index x = some k := (h x k).mpr ⟨v, hv, hx⟩
  have hj : index x = some j := (h x j).mpr ⟨w, hw, hx'⟩
  exact Option.some.inj (hj.symm.trans hk)

theorem Indexed.empty (hview : ∀ k, view k = none) (hindex : ∀ x, index x = none) :
    Indexed has view index := by
  intro x k
  rw [hindex]
  constructor
  · exact nofun
  · rintro ⟨v, hv, -⟩
    cases (hview k).symm.trans hv

/-- Storing a record that fits, and leading all it has to it, keeps the index. -/
theorem Indexed.store [DecidableEq K] (h : Indexed has view index) (hfits : Fits has view k v)
    (hview : ∀ j, view' j = if j = k then some v else view j)
    (hown : ∀ x, has v x → index' x = some k) (hother : ∀ x, ¬ has v x → index' x = index x) :
    Indexed has view' index' := by
  intro x j
  rw [hview]
  by_cases hx : has v x
  · rw [hown x hx]
    constructor
    · rintro ⟨⟩
      exact ⟨v, if_pos rfl, hx⟩
    · rintro ⟨w, hw, hwx⟩
      split at hw
      next hj => rw [hj]
      next => rw [hfits.apart j w x hw hx hwx]
  · rw [hother x hx, h x j]
    constructor
    · rintro ⟨w, hw, hwx⟩
      refine ⟨w, ?_, hwx⟩
      rw [if_neg, hw]
      rintro rfl
      exact hx (hfits.kept w x hw hwx)
    · rintro ⟨w, hw, hwx⟩
      split at hw
      · cases hw
        exact absurd hwx hx
      · exact ⟨w, hw, hwx⟩

theorem Indexed.find_eq_some (h : Indexed has view index) :
    (index x).bind view = some v ↔ ∃ k, view k = some v ∧ has v x := by
  rw [Option.bind_eq_some_iff]
  constructor
  · rintro ⟨k, hk, hv⟩
    obtain ⟨w, hw, hx⟩ := (h x k).mp hk
    cases hw.symm.trans hv
    exact ⟨k, hv, hx⟩
  · rintro ⟨k, hv, hx⟩
    exact ⟨k, (h x k).mpr ⟨v, hv, hx⟩, hv⟩

/-- What is read through a layer `top` on `base`. -/
def stacked (top base : K → Option V) (k : K) : Option V := (top k).or (base k)

theorem stacked_eq_some : stacked top base k = some v ↔
    top k = some v ∨ (top k = none ∧ base k = some v) := by
  unfold stacked
  cases top k with
  | none => simp
  | some w => simp

/-- The records of a layer have all that those below them have, and through the layer no
two records have the same. -/
structure Fitting (has : V → X → Prop) (base top : K → Option V) : Prop where
  kept : ∀ k v w x, top k = some v → base k = some w → has w x → has v x
  apart : ∀ j k v w x, stacked top base j = some v → stacked top base k = some w → has v x → has w x →
    j = k

theorem Fitting.empty (h : Indexed has base below) (htop : ∀ k, top k = none) :
    Fitting has base top := by
  have hover (k : K) : stacked top base k = base k := by
    unfold stacked
    rw [htop]
    rfl
  refine ⟨fun k v w x hv => ?_, fun j k v w x hv hw hx hx' => ?_⟩
  · cases (htop k).symm.trans hv
  · rw [hover] at hv hw
    exact h.apart hw hv hx' hx

/-- A record that fits what is read through the layer may be stored in it. -/
theorem Fitting.store [DecidableEq K] {top' : K → Option V} (h : Fitting has base top)
    (hfits : Fits has (stacked top base) k v)
    (htop : ∀ j, top' j = if j = k then some v else top j) : Fitting has base top' := by
  have hover (j : K) : stacked top' base j = if j = k then some v else stacked top base j := by
    unfold stacked
    rw [htop]
    split
    · rfl
    · rfl
  refine ⟨fun j u w x hu hw hx => ?_, fun i j u w x hu hw hx hx' => ?_⟩
  · rw [htop] at hu
    split at hu
    next hj =>
      cases hu
      rw [hj] at hw
      cases hk : top k with
      | none => exact hfits.kept w x (stacked_eq_some.mpr (Or.inr ⟨hk, hw⟩)) hx
      | some w' =>
        exact hfits.kept w' x (stacked_eq_some.mpr (Or.inl hk)) (h.kept k w' w x hk hw hx)
    next => exact h.kept j u w x hu hw hx
  · rw [hover] at hu hw
    split at hu
    next hi =>
      cases hu
      split at hw
      next hj => rw [hi, hj]
      next => rw [hi, hfits.apart j w x hw hx hx']
    next =>
      split at hw
      next hj =>
        cases hw
        rw [hj, hfits.apart i u x hu hx' hx]
      next => exact h.apart i j u w x hu hw hx hx'

theorem Fits.of_stacked (h : Fits has (stacked top base) k v) : Fits has top k v :=
  ⟨fun w x hw => h.kept w x (stacked_eq_some.mpr (Or.inl hw)),
    fun j w x hw => h.apart j w x (stacked_eq_some.mpr (Or.inl hw))⟩

/-- While the records of a layer are written one by one over those of the base, each of
them fits. -/
theorem Fitting.fits (h : Fitting has base top)
    (hview : ∀ j w, view j = some w → top j = some w ∨ base j = some w) (hv : top k = some v) :
    Fits has view k v := by
  have hover : stacked top base k = some v := stacked_eq_some.mpr (Or.inl hv)
  refine ⟨fun w x hw hx => ?_, fun j w x hw hx hx' => ?_⟩
  · rcases hview k w hw with hw | hw
    · cases hv.symm.trans hw
      exact hx
    · exact h.kept k v w x hv hw hx
  · rcases hview j w hw with hw | hw
    · exact h.apart j k w v x (stacked_eq_some.mpr (Or.inl hw)) hover hx' hx
    · cases hj : top j with
      | none => exact h.apart j k w v x (stacked_eq_some.mpr (Or.inr ⟨hj, hw⟩)) hover hx' hx
      | some u =>
        exact h.apart j k u v x (stacked_eq_some.mpr (Or.inl hj)) hover (h.kept j u w x hj hw hx') hx

/-- A lookup that asks the index of the layer first finds what is read through the layer. -/
theorem Fitting.find_eq_some (h : Fitting has base top) (habove : Indexed has top above)
    (hbelow : Indexed has base below) :
    (above x).elim ((below x).bind base) (stacked top base) = some v ↔
      ∃ k, stacked top base k = some v ∧ has v x := by
  cases hx : above x with
  | some k =>
    obtain ⟨w, hw, hwx⟩ := (habove x k).mp hx
    have hover : stacked top base k = some w := stacked_eq_some.mpr (Or.inl hw)
    constructor
    · intro hv
      cases hover.symm.trans hv
      exact ⟨k, hover, hwx⟩
    · rintro ⟨j, hv, hvx⟩
      cases h.apart j k v w x hv hover hvx hwx
      exact hv
  | none =>
    have hnone (j : K) (w : V) (hw : top j = some w) : ¬ has w x := by
      intro hwx
      cases hx.symm.trans ((habove x j).mpr ⟨w, hw, hwx⟩)
    rw [Option.elim_none, hbelow.find_eq_some]
    refine exists_congr fun j => and_congr_left fun hvx => ?_
    rw [stacked_eq_some]
    constructor
    · intro hv
      cases hj : top j with
      | none => exact Or.inr ⟨rfl, hv⟩
      | some w => exact absurd (h.kept j w v x hj hv hvx) (hnone j w hj)
    · rintro (hv | ⟨-, hv⟩)
      · exact absurd hvx (hnone j v hv)
      · exact hv

end Bts.Base.Indexes
