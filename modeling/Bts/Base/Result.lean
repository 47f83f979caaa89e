namespace Bts.Base.Result

variable {ε σ α β : Type}

def require (p : Prop) [Decidable p] (e : ε) : Except ε Unit :=
  if p then .ok () else .error e

def orThrow (o : Option α) (e : ε) : Except ε α :=
  match o with
  | some a => .ok a
  | none => .error e

@[simp] theorem bind_eq_ok {x : Except ε α} {f : α → Except ε β} {b : β} :
    (x >>= f) = .ok b ↔ ∃ a, x = .ok a ∧ f a = .ok b := by
  cases x <;> simp [Bind.bind, Except.bind]

@[simp] theorem map_eq_ok {x : Except ε α} {f : α → β} {b : β} :
    f <$> x = .ok b ↔ ∃ a, x = .ok a ∧ f a = b := by
  cases x <;> simp [Functor.map, Except.map]

@[simp] theorem pure_eq_ok {a b : α} : (pure a : Except ε α) = .ok b ↔ a = b := by
  simp [pure, Except.pure]

@[simp] theorem require_eq_ok {p : Prop} [Decidable p] {e : ε} {u : Unit} :
    require p e = .ok u ↔ p := by
  by_cases h : p <;> simp [require, h]

theorem require_eq_error {p : Prop} [Decidable p] {e e' : ε} :
    require p e = .error e' ↔ ¬ p ∧ e = e' := by
  by_cases h : p <;> simp [require, h]

@[simp] theorem orThrow_eq_ok {o : Option α} {e : ε} {a : α} :
    orThrow o e = .ok a ↔ o = some a := by
  cases o <;> simp [orThrow]

@[simp] theorem throw_eq_ok {e : ε} {a : α} : ¬ (throw e : Except ε α) = .ok a := by
  simp [throw, throwThe, MonadExceptOf.throw]

/-- What computations return, as one set of rules for `simp`. -/
theorem eq_ok_iff :
    (∀ {α β : Type} {x : Except ε α} {f : α → Except ε β} {b : β},
      (x >>= f) = .ok b ↔ ∃ a, x = .ok a ∧ f a = .ok b) ∧
    (∀ {α : Type} {a b : α}, (pure a : Except ε α) = .ok b ↔ a = b) ∧
    (∀ {p : Prop} [Decidable p] {e : ε} {u : Unit}, require p e = .ok u ↔ p) ∧
    ∀ {α : Type} {o : Option α} {e : ε} {a : α}, orThrow o e = .ok a ↔ o = some a :=
  ⟨bind_eq_ok, pure_eq_ok, require_eq_ok, orThrow_eq_ok⟩

theorem exists_ok_of_isOk {x : Except ε α} (h : x.isOk) : ∃ a, x = .ok a := by
  cases x with
  | error e => cases h
  | ok a => exact ⟨a, rfl⟩

instance decidableOk (x : Except ε α) (Q : α → Prop) [DecidablePred Q] :
    Decidable (∀ a, x = .ok a → Q a) :=
  match x with
  | .ok a => decidable_of_iff (Q a) ⟨fun h b he => by cases he; exact h, fun h => h a rfl⟩
  | .error _ => isTrue fun _ he => by cases he

instance decidableExistsOk (x : Except ε α) (Q : α → Prop) [DecidablePred Q] :
    Decidable (∃ a, x = .ok a ∧ Q a) :=
  match x with
  | .ok a => decidable_of_iff (Q a) ⟨fun h => ⟨a, rfl, h⟩, fun ⟨_, he, h⟩ => by cases he; exact h⟩
  | .error _ => isFalse fun ⟨_, he, _⟩ => by cases he

/-- What a computation may throw. -/
def Throws (S : ε → Prop) (x : Except ε α) : Prop := ∀ e, x = .error e → S e

section Throws

variable {S : ε → Prop} {x : Except ε α}

theorem Throws.ok (a : α) : Throws S (.ok a : Except ε α) := by
  intro e h
  cases h

theorem Throws.error {e : ε} (h : S e) : Throws S (.error e : Except ε α) := by
  intro e' he
  cases he
  exact h

theorem Throws.bind {f : α → Except ε β} (hx : Throws S x) (hf : ∀ a, x = .ok a → Throws S (f a)) :
    Throws S (x >>= f) := by
  cases x with
  | error e => exact .error (hx e rfl)
  | ok a => exact hf a rfl

theorem Throws.require {p : Prop} [Decidable p] {e : ε} (h : ¬ p → S e) :
    Throws S (Result.require p e) := by
  unfold Result.require
  split
  · exact .ok ()
  next hp => exact .error (h hp)

theorem Throws.requires {p : Prop} [Decidable p] {e : ε} {f : Unit → Except ε β}
    (h : S e) (hf : Throws S (f ())) : Throws S (Result.require p e >>= f) :=
  .bind (.require fun _ => h) fun _ _ => hf

theorem Throws.orThrow {o : Option α} {e : ε} (h : S e) : Throws S (Result.orThrow o e) := by
  cases o with
  | none => exact .error h
  | some a => exact .ok a

theorem Throws.mono {T : ε → Prop} (hx : Throws S x) (h : ∀ e, S e → T e) : Throws T x :=
  fun e he => h e (hx e he)

end Throws

variable {f : σ → α → Except ε σ} {s t : σ} {l : List α}

theorem foldlM_nil_eq_ok : List.foldlM f s [] = .ok t ↔ s = t := by
  simp

theorem foldlM_cons_eq_ok {a : α} :
    List.foldlM f s (a :: l) = .ok t ↔ ∃ u, f s a = .ok u ∧ List.foldlM f u l = .ok t := by
  simp

@[elab_as_elim]
theorem foldlM_induct {motive : ∀ (l : List α) (s : σ), List.foldlM f s l = .ok t → Prop}
    (nil : motive [] t rfl)
    (cons : ∀ a l s u (hu : f s a = .ok u) (h : List.foldlM f u l = .ok t), motive l u h →
      motive (a :: l) s (foldlM_cons_eq_ok.mpr ⟨u, hu, h⟩)) (l s) (h : List.foldlM f s l = .ok t) :
    motive l s h := by
  induction l generalizing s with
  | nil =>
    obtain rfl := foldlM_nil_eq_ok.mp h
    exact nil
  | cons a l ih =>
    obtain ⟨u, hu, ht⟩ := foldlM_cons_eq_ok.mp h
    exact cons a l s u hu ht (ih u ht)

/-- A loop that returns keeps whatever each of its rounds keeps. -/
theorem foldlM_keeps {P : σ → Prop} (hstep : ∀ a ∈ l, ∀ u v, P u → f u a = .ok v → P v) (hs : P s)
    (h : List.foldlM f s l = .ok t) : P t := by
  induction l, s, h using foldlM_induct with
  | nil => exact hs
  | cons a l s u hu ht ih =>
    have hP := hstep a List.mem_cons_self s u hs hu
    exact ih (fun b hb => hstep b (List.mem_cons_of_mem a hb)) hP

theorem foldlM_mem_ok {a : α} (h : List.foldlM f s l = .ok t) (ha : a ∈ l) :
    ∃ u v, f u a = .ok v := by
  induction l, s, h using foldlM_induct with
  | nil => cases ha
  | cons b l s u hu ht ih =>
    rcases List.mem_cons.mp ha with rfl | hl
    · exact ⟨s, u, hu⟩
    · exact ih hl

/-- What `g` reads of the result of a loop is a fold, if every round changes it by `k`. -/
theorem foldlM_proj {τ : Type} {g : σ → τ} {k : τ → α → τ}
    (hstep : ∀ a ∈ l, ∀ u v, f u a = .ok v → g v = k (g u) a) (h : List.foldlM f s l = .ok t) :
    g t = l.foldl k (g s) := by
  induction l, s, h using foldlM_induct with
  | nil => rfl
  | cons a l s u hu ht ih =>
    have hg := hstep a List.mem_cons_self s u hu
    rw [List.foldl_cons, ← hg]
    exact ih fun b hb => hstep b (List.mem_cons_of_mem a hb)

theorem mapM_eq_map {f : α → Except ε β} {g : α → β} (h : ∀ a ∈ l, f a = .ok (g a)) :
    l.mapM f = .ok (l.map g) := by
  induction l with
  | nil => rfl
  | cons a l ih =>
    rw [List.forall_mem_cons] at h
    rw [List.mapM_cons, h.1, ih h.2]
    rfl

theorem mapM_eq_none_iff {f : α → Option β} : l.mapM f = none ↔ ∃ a ∈ l, f a = none := by
  induction l with
  | nil => simp
  | cons a l ih =>
    simp only [List.mem_cons, exists_eq_or_imp, ← ih]
    rw [List.mapM_cons]
    cases f a with
    | none => simp
    | some b => cases l.mapM f <;> simp

theorem map_some_mapM {f : α → Option β} {r : List β} (h : l.mapM f = some r) : r.map some = l.map f := by
  induction l generalizing r with
  | nil =>
    cases h
    rfl
  | cons a l ih =>
    rw [List.mapM_cons] at h
    obtain ⟨b, hb, h⟩ := Option.bind_eq_some_iff.mp h
    obtain ⟨r, hr, ⟨⟩⟩ := Option.bind_eq_some_iff.mp h
    rw [List.map_cons, List.map_cons, hb, ih hr]

/-- Where every value that is read is the one `g` picks, the values are those of `g`. -/
theorem mapM_reduceOption {f : α → Option (Option β)} {g : α → Option β} {read : List (Option β)}
    (hg : ∀ a b, f a = some b → g a = b) (h : l.mapM f = some read) :
    read.filterMap id = l.filterMap g := by
  induction l generalizing read with
  | nil =>
    cases h
    rfl
  | cons a l ih =>
    rw [List.mapM_cons] at h
    simp only [Option.pure_def, Option.bind_eq_bind, Option.bind_eq_some_iff, Option.some.injEq] at h
    obtain ⟨b, hb, bs, hbs, rfl⟩ := h
    have hb' := hg a b hb
    cases b with
    | none => rw [List.filterMap_cons_none hb', ← ih hbs]; rfl
    | some b => rw [List.filterMap_cons_some hb', ← ih hbs]; rfl

end Bts.Base.Result
