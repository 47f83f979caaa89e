import Mathlib.Data.List.Basic

namespace Bts.Base.Runs

variable {σ α : Type} {step : α → σ → σ} {C D : α → σ → Prop} {I : σ → Prop} {calls : List α} {s : σ}

/-- The state after calls that are made one after the other. -/
def run (step : α → σ → σ) (calls : List α) (s : σ) : σ := calls.foldl (fun s a => step a s) s

/-- Each call meets a condition on it and on the state in which it is made. -/
def Meets (step : α → σ → σ) (C : α → σ → Prop) : List α → σ → Prop
  | [], _ => True
  | a :: rest, s => C a s ∧ Meets step C rest (step a s)

instance decidableMeets [∀ a s, Decidable (C a s)] : ∀ calls s, Decidable (Meets step C calls s)
  | [], _ => isTrue trivial
  | a :: rest, s =>
    have := decidableMeets rest
    inferInstanceAs (Decidable (C a s ∧ Meets step C rest (step a s)))

theorem Meets.and (h : Meets step C calls s) (h' : Meets step D calls s) :
    Meets step (fun a t => C a t ∧ D a t) calls s := by
  induction calls generalizing s with
  | nil => trivial
  | cons a rest ih => exact ⟨⟨h.1, h'.1⟩, ih h.2 h'.2⟩

theorem Meets.of_forall (h : ∀ a ∈ calls, ∀ t, C a t) : Meets step C calls s := by
  induction calls generalizing s with
  | nil => trivial
  | cons a rest ih =>
    rw [List.forall_mem_cons] at h
    exact ⟨h.1 s, ih h.2⟩

/-- What every call that meets the condition keeps holds after all of them. -/
theorem Meets.keeps (hstep : ∀ a t, C a t → I t → I (step a t)) (h : Meets step C calls s)
    (hs : I s) : I (run step calls s) := by
  induction calls generalizing s with
  | nil => exact hs
  | cons a rest ih => exact ih h.2 (hstep a s h.1 hs)

theorem Meets.take (h : Meets step C calls s) (n : Nat) : Meets step C (calls.take n) s := by
  induction calls generalizing s n with
  | nil =>
    rw [List.take_nil]
    trivial
  | cons a rest ih =>
    cases n with
    | zero => trivial
    | succ n => exact ⟨h.1, ih h.2 n⟩

/-- What a quantity adds up to over the calls of a run. -/
def total (step : α → σ → σ) (f : α → σ → Int) : List α → σ → Int
  | [], _ => 0
  | a :: rest, s => f a s + total step f rest (step a s)

theorem total_nonneg {f : α → σ → Int} (hf : ∀ a t, 0 ≤ f a t) (calls : List α) (s : σ) :
    0 ≤ total step f calls s := by
  induction calls generalizing s with
  | nil => exact Int.le_refl 0
  | cons a rest ih => exact Int.add_nonneg (hf a s) (ih _)

theorem total_take_le {f : α → σ → Int} (hf : ∀ a t, 0 ≤ f a t) (calls : List α) (n : Nat) (s : σ) :
    total step f (calls.take n) s ≤ total step f calls s := by
  induction calls generalizing s n with
  | nil => exact Int.le_of_eq (by rw [List.take_nil])
  | cons a rest ih =>
    cases n with
    | zero => exact total_nonneg hf _ _
    | succ n => exact Int.add_le_add_left (ih n _) _

theorem Meets.total_le {f g : α → σ → Int} (hstep : ∀ a t, C a t → f a t ≤ g a t)
    (h : Meets step C calls s) : total step f calls s ≤ total step g calls s := by
  induction calls generalizing s with
  | nil => exact Int.le_refl 0
  | cons a rest ih => exact Int.add_le_add (hstep a s h.1) (ih h.2)

/-- Where no call raises a measure by more than what is granted to it, a run raises it by no
more than what is granted in all. The grant of a call may be used to bound the measure. -/
theorem Meets.within {m : σ → Int} {f : α → σ → Int} {limit : Int} (hf : ∀ a t, 0 ≤ f a t)
    (hstep : ∀ a t, C a t → I t → m t + f a t ≤ limit → I (step a t) ∧ m (step a t) ≤ m t + f a t)
    (h : Meets step C calls s) (hs : I s) (hlimit : m s + total step f calls s ≤ limit) :
    m (run step calls s) ≤ m s + total step f calls s := by
  induction calls generalizing s with
  | nil => exact Int.le_of_eq (Int.add_zero _).symm
  | cons a rest ih =>
    have hrest : 0 ≤ total step f rest (step a s) := total_nonneg hf rest _
    change m s + (f a s + total step f rest (step a s)) ≤ limit at hlimit
    obtain ⟨hnext, hle⟩ := hstep a s h.1 hs (by omega)
    have hrun := ih h.2 hnext (by omega)
    change m (run step rest (step a s)) ≤ m s + (f a s + total step f rest (step a s))
    omega

/-- Where a call keeps an invariant exactly if it meets the condition, the invariant holds
all along a run exactly if every call meets it. -/
theorem Meets.iff_keeps (hstep : ∀ a t, D a t → I t → (I (step a t) ↔ C a t))
    (h : Meets step D calls s) (hs : I s) :
    Meets step C calls s ↔ ∀ n, I (run step (calls.take n) s) := by
  induction calls generalizing s with
  | nil => simp [Meets, run, hs]
  | cons a rest ih =>
    constructor
    · rintro ⟨ha, hrest⟩ n
      cases n with
      | zero => exact hs
      | succ n => exact (ih h.2 ((hstep a s h.1 hs).mpr ha)).mp hrest n
    · intro hall
      have ha : I (step a s) := hall 1
      exact ⟨(hstep a s h.1 hs).mp ha, (ih h.2 ha).mpr fun n => hall (n + 1)⟩

theorem meets_iff (hstep : ∀ a t, I t → (I (step a t) ↔ C a t)) (hs : I s) :
    Meets step C calls s ↔ ∀ n, I (run step (calls.take n) s) := by
  have htrue : Meets step (fun _ _ => True) calls s := Meets.of_forall fun _ _ _ => trivial
  exact htrue.iff_keeps (fun a t _ => hstep a t) hs

section Projection

variable {τ : Type} {step' : α → τ → τ} {f : τ → σ} {t : τ}

theorem run_proj (hf : ∀ a t, f (step' a t) = step a (f t)) (calls : List α) (t : τ) :
    f (run step' calls t) = run step calls (f t) := by
  induction calls generalizing t with
  | nil => rfl
  | cons a rest ih => exact (ih (step' a t)).trans (congrArg (run step rest) (hf a t))

theorem meets_proj (hf : ∀ a t, f (step' a t) = step a (f t)) :
    Meets step' (fun a t => C a (f t)) calls t ↔ Meets step C calls (f t) := by
  induction calls generalizing t with
  | nil => exact Iff.rfl
  | cons a rest ih =>
    refine and_congr_right fun _ => ?_
    rw [ih, hf]

end Projection

end Bts.Base.Runs
