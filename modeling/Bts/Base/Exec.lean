import Bts.Base.Result

namespace Bts.Base.Exec

variable {ε σ α β : Type}

/-- A procedure on a store of type `σ`. The changes made before an exception
is thrown stay in the store. -/
abbrev Action (ε σ α : Type) := EStateM ε σ α

def endState : EStateM.Result ε σ α → σ
  | .ok _ s => s
  | .error _ s => s

def returns : EStateM.Result ε σ α → Bool
  | .ok _ _ => true
  | .error _ _ => false

theorem eq_ok_of_returns {r : EStateM.Result ε σ Unit} (h : returns r) :
    r = .ok () (endState r) := by
  cases r with
  | ok _ s => rfl
  | error e s => cases h

def outcome : EStateM.Result ε σ α → Option α
  | .ok a _ => some a
  | .error _ _ => none

theorem eq_ok_of_outcome {r : EStateM.Result ε σ α} {a : α} (h : outcome r = some a) :
    r = .ok a (endState r) := by
  cases r with
  | ok b s =>
    cases h
    rfl
  | error e s => cases h

/-- What is said of the store a run leaves when it returns can be found out by the run. -/
instance decidableReturned (r : EStateM.Result ε σ α) (Q : α → σ → Prop)
    [∀ a s, Decidable (Q a s)] : Decidable (∀ a s, r = .ok a s → Q a s) :=
  match r with
  | .ok a s => decidable_of_iff (Q a s) ⟨fun h b t he => by cases he; exact h, fun h => h a s rfl⟩
  | .error _ _ => isTrue fun _ _ he => by cases he

instance decidableReturnedWith [DecidableEq α] (r : EStateM.Result ε σ α) (a : α) (Q : σ → Prop)
    [∀ s, Decidable (Q s)] : Decidable (∀ s, r = .ok a s → Q s) :=
  decidable_of_iff (∀ b s, r = .ok b s → b = a → Q s)
    ⟨fun h s he => h a s he rfl, fun h _ s he hb => h s (hb ▸ he)⟩

def lift (x : Except ε α) : Action ε σ α := fun s =>
  match x with
  | .ok a => .ok a s
  | .error e => .error e s

def update (f : σ → σ) : Action ε σ Unit := fun s => .ok () (f s)

def read (f : σ → α) : Action ε σ α := fun s => .ok (f s) s

def onlyIf (p : Prop) [Decidable p] (x : Action ε σ Unit) : Action ε σ Unit :=
  if p then x else pure ()

def forEach (l : List β) (f : β → Action ε σ Unit) : Action ε σ Unit :=
  match l with
  | [] => pure ()
  | b :: l => f b >>= fun _ => forEach l f

/-- Run a procedure and go on with the handler when it throws. -/
def onError (x : Action ε σ α) (h : ε → Action ε σ α) : Action ε σ α := fun s =>
  match x s with
  | .ok a t => .ok a t
  | .error e t => h e t

theorem bind_run (x : Action ε σ α) (f : α → Action ε σ β) (s : σ) :
    (x >>= f) s = match x s with
      | .ok a t => f a t
      | .error e t => .error e t := by
  cases h : x s <;> simp [bind, EStateM.bind, h]

theorem readId_bind (f : σ → Action ε σ β) (s : σ) : (read id >>= f) s = f s s := rfl

theorem lift_bind {x : Except ε α} {a : α} (h : x = .ok a) (f : α → Action ε σ β) (s : σ) :
    (lift x >>= f) s = f a s := by
  rw [h]
  rfl

theorem pure_run (a : α) (s : σ) : (pure a : Action ε σ α) s = .ok a s := rfl

variable {s t : σ} {e : ε} {x : Action ε σ Unit} {f : β → Action ε σ Unit} {l : List β}

theorem bind_run_ok {x : Action ε σ α} {f : α → Action ε σ β} {b : β} :
    (x >>= f) s = .ok b t ↔ ∃ a u, x s = .ok a u ∧ f a u = .ok b t := by
  rw [bind_run]
  cases x s with
  | ok a u =>
    constructor
    · exact fun h => ⟨a, u, rfl, h⟩
    · rintro ⟨a', u', he, h⟩
      cases he
      exact h
  | error e u =>
    constructor
    · exact fun h => by cases h
    · rintro ⟨a', u', he, h⟩
      cases he

theorem bind_run_error {x : Action ε σ α} {f : α → Action ε σ β} :
    (x >>= f) s = .error e t ↔ x s = .error e t ∨ ∃ a u, x s = .ok a u ∧ f a u = .error e t := by
  rw [bind_run]
  cases x s with
  | ok a u =>
    constructor
    · exact fun h => Or.inr ⟨a, u, rfl, h⟩
    · rintro (h | ⟨a', u', he, h⟩)
      · cases h
      · cases he
        exact h
  | error e' u => simp

/-- What holds at the end of the first part is kept by the second one from the store in which
it starts. -/
theorem bind_end {P : σ → Prop} {x : Action ε σ α} {f : α → Action ε σ β} (hx : P (endState (x s)))
    (hf : ∀ a t, x s = .ok a t → P t → P (endState (f a t))) : P (endState ((x >>= f) s)) := by
  rw [bind_run]
  cases hrun : x s with
  | ok a t => exact hf a t hrun (by rwa [hrun] at hx)
  | error e t => rwa [hrun] at hx

theorem onError_end {P : σ → Prop} {x : Action ε σ α} {h : ε → Action ε σ α}
    (hx : P (endState (x s))) (hh : ∀ e t, P t → P (endState (h e t))) :
    P (endState (onError x h s)) := by
  unfold onError
  cases hrun : x s with
  | ok a t => rwa [hrun] at hx
  | error e t => exact hh e t (by rwa [hrun] at hx)

theorem lift_run_error {x : Except ε α} :
    (lift x : Action ε σ α) s = .error e t ↔ x = .error e ∧ s = t := by
  cases x <;> simp [lift]

theorem onlyIf_pos {p : Prop} [Decidable p] (h : p) : onlyIf p x = x :=
  if_pos h

theorem onlyIf_neg {p : Prop} [Decidable p] (h : ¬ p) : onlyIf p x = pure () :=
  if_neg h

theorem onlyIf_run_error {p : Prop} [Decidable p] :
    onlyIf p x s = .error e t ↔ p ∧ x s = .error e t := by
  unfold onlyIf
  split <;> simp_all [pure_run]

@[simp] theorem update_run_error {f : σ → σ} : ¬ (update f : Action ε σ Unit) s = .error e t := by
  simp [update]

@[simp] theorem read_run_error {f : σ → α} : ¬ (read f : Action ε σ α) s = .error e t := by
  simp [read]

theorem pure_run_ok {a b : α} : (pure a : Action ε σ α) s = .ok b t ↔ a = b ∧ s = t := by
  simp [pure_run]

theorem update_run_ok {f : σ → σ} {u : Unit} :
    (update f : Action ε σ Unit) s = .ok u t ↔ f s = t := by
  simp [update]

theorem read_run_ok {f : σ → α} {a : α} :
    (read f : Action ε σ α) s = .ok a t ↔ f s = a ∧ s = t := by
  simp [read]

theorem lift_run_ok {x : Except ε α} {a : α} :
    (lift x : Action ε σ α) s = .ok a t ↔ x = .ok a ∧ s = t := by
  cases x <;> simp [lift]

/-- A loop that returns has gone through the stores its rounds leave. -/
theorem forEach_run_ok (h : forEach l f s = .ok () t) :
    t = l.foldl (fun s b => endState (f b s)) s := by
  induction l generalizing s with
  | nil =>
    cases h
    rfl
  | cons b l ih =>
    rw [forEach, bind_run_ok] at h
    obtain ⟨_, u, hu, ht⟩ := h
    rw [List.foldl_cons, hu]
    exact ih ht

theorem forEach_append (l l' : List β) (f : β → Action ε σ Unit) (s : σ) :
    forEach (l ++ l') f s = (forEach l f >>= fun _ => forEach l' f) s := by
  induction l generalizing s with
  | nil => rfl
  | cons b l ih =>
    rw [List.cons_append, forEach, bind_run, bind_run, forEach, bind_run]
    cases f b s with
    | error e t => rfl
    | ok a t =>
      dsimp only
      rw [ih, bind_run]

theorem forEach_update (f : β → σ → σ) (l : List β) (s : σ) :
    forEach l (fun b => update (f b)) s =
      (.ok () (l.foldl (fun s b => f b s) s) : EStateM.Result ε σ Unit) := by
  induction l generalizing s with
  | nil => rfl
  | cons b l ih => exact ih (f b s)

theorem forEach_frame {τ : Type} {g : σ → τ} (hf : ∀ b ∈ l, ∀ s, g (endState (f b s)) = g s) (s : σ) :
    g (endState (forEach l f s)) = g s := by
  induction l generalizing s with
  | nil => rfl
  | cons b l ih =>
    have hb := hf b List.mem_cons_self s
    have htail := fun u => ih (fun c hc => hf c (List.mem_cons_of_mem b hc)) u
    rw [forEach, bind_run]
    cases hr : f b s with
    | ok a u =>
      rw [hr] at hb
      exact (htail u).trans hb
    | error e u =>
      rw [hr] at hb
      exact hb

/-- Where only round `i` of a loop changes what `g` reads, a loop that returns has
changed it as that round does. -/
theorem forEach_only {τ : Type} (g : σ → τ) (i : Nat) {b : β} (hi : l[i]? = some b)
    (hframe : ∀ c ∈ l.eraseIdx i, ∀ s, g (endState (f c s)) = g s) (h : forEach l f s = .ok () t) :
    ∃ u v, g u = g s ∧ f b u = .ok () v ∧ g t = g v := by
  induction l generalizing i s with
  | nil => simp at hi
  | cons c l ih =>
    rw [forEach, bind_run_ok] at h
    obtain ⟨_, v, hv, ht⟩ := h
    cases i with
    | zero =>
      cases hi
      refine ⟨s, v, rfl, hv, ?_⟩
      have hrest := forEach_frame (g := g) (l := l) (f := f) hframe v
      rw [ht] at hrest
      exact hrest
    | succ i =>
      have hc := hframe c List.mem_cons_self s
      rw [hv] at hc
      obtain ⟨u, w, hu, hw, hg⟩ := ih i hi (fun d hd => hframe d (List.mem_cons_of_mem c hd)) ht
      exact ⟨u, w, hu.trans hc, hw, hg⟩

/-- A loop that throws has thrown in one of its rounds, after the others before it. -/
theorem forEach_error (h : forEach l f s = .error e t) :
    ∃ i b u, l[i]? = some b ∧ forEach (l.take i) f s = .ok () u ∧ f b u = .error e t := by
  induction l generalizing s with
  | nil => cases h
  | cons b l ih =>
    rw [forEach, bind_run] at h
    cases hb : f b s with
    | error e' u =>
      rw [hb] at h
      exact ⟨0, b, s, rfl, rfl, hb.trans h⟩
    | ok a u =>
      rw [hb] at h
      obtain ⟨i, c, v, hc, hv, ht⟩ := ih h
      refine ⟨i + 1, c, v, hc, ?_, ht⟩
      rw [List.take_succ_cons, forEach, bind_run, hb]
      exact hv

/-- Where each round has a cell of the store for itself, and returns or throws by
what stands there, a loop returns exactly when each round does from the start. -/
theorem forEach_returns_iff {K τ : Type} (key : β → K) (get : σ → K → τ) (C : β → τ → Prop)
    (hl : (l.map key).Nodup) (hC : ∀ b ∈ l, ∀ s, (∃ t, f b s = .ok () t) ↔ C b (get s (key b)))
    (hframe : ∀ b ∈ l, ∀ s k, k ≠ key b → get (endState (f b s)) k = get s k) (s : σ) :
    (∃ t, forEach l f s = .ok () t) ↔ ∀ b ∈ l, C b (get s (key b)) := by
  induction l generalizing s with
  | nil => simp [forEach, pure_run]
  | cons b l ih =>
    rw [List.map_cons, List.nodup_cons] at hl
    have htail := ih hl.2 (fun c hc => hC c (List.mem_cons_of_mem b hc))
      fun c hc => hframe c (List.mem_cons_of_mem b hc)
    have hrest : ∀ u, f b s = .ok () u →
        ((∀ c ∈ l, C c (get u (key c))) ↔ ∀ c ∈ l, C c (get s (key c))) := by
      intro u hu
      refine forall₂_congr fun c hc => ?_
      have hne : key c ≠ key b := fun h => hl.1 (h ▸ List.mem_map_of_mem hc)
      have hfr := hframe b List.mem_cons_self s (key c) hne
      rw [hu] at hfr
      exact iff_of_eq (congrArg (C c) hfr)
    rw [List.forall_mem_cons, ← hC b List.mem_cons_self s]
    constructor
    · rintro ⟨t, ht⟩
      rw [forEach, bind_run_ok] at ht
      obtain ⟨_, u, hu, ht⟩ := ht
      exact ⟨⟨u, hu⟩, (hrest u hu).mp ((htail u).mp ⟨t, ht⟩)⟩
    · rintro ⟨⟨u, hu⟩, hcells⟩
      obtain ⟨t, ht⟩ := (htail u).mpr ((hrest u hu).mpr hcells)
      exact ⟨t, by rw [forEach, bind_run_ok]; exact ⟨(), u, hu, ht⟩⟩

def Total (x : Action ε σ α) : Prop := ∀ s, ∃ a t, x s = .ok a t

namespace Total

theorem pure (a : α) : Total (pure a : Action ε σ α) := fun s => ⟨a, s, rfl⟩

theorem update (f : σ → σ) : Total (update f : Action ε σ Unit) := fun s => ⟨(), f s, rfl⟩

theorem lift (a : α) : Total (lift (.ok a) : Action ε σ α) := fun s => ⟨a, s, rfl⟩

theorem bind {x : Action ε σ α} {f : α → Action ε σ β} (hx : Total x) (hf : ∀ a, Total (f a)) :
    Total (x >>= f) := by
  intro s
  obtain ⟨a, u, hu⟩ := hx s
  obtain ⟨b, t, ht⟩ := hf a u
  exact ⟨b, t, bind_run_ok.mpr ⟨a, u, hu, ht⟩⟩

theorem onlyIf {p : Prop} [Decidable p] {x : Action ε σ Unit} (hx : p → Total x) :
    Total (onlyIf p x) := by
  unfold Exec.onlyIf
  split
  · rename_i hp
    exact hx hp
  · exact pure ()

theorem forEach {l : List β} {f : β → Action ε σ Unit} (h : ∀ b ∈ l, Total (f b)) :
    Total (forEach l f) := by
  induction l with
  | nil => exact pure ()
  | cons b l ih =>
    refine bind (h b List.mem_cons_self) fun _ => ih ?_
    exact fun c hc => h c (List.mem_cons_of_mem b hc)

theorem no_error {x : Action ε σ α} (hx : Total x) {s t : σ} {e : ε} : x s ≠ .error e t := by
  intro h
  obtain ⟨a, u, hu⟩ := hx s
  rw [hu] at h
  cases h

end Total

/-- `x` leaves a store in which `P` holds, also when it throws. -/
def Keeps (P : σ → Prop) (x : Action ε σ α) : Prop :=
  ∀ s, P s → P (endState (x s))

namespace Keeps

variable {P : σ → Prop} {x : Action ε σ α}

theorem run_ok {s t : σ} {a : α} (h : Keeps P x) (hs : P s) (hrun : x s = .ok a t) : P t := by
  have ht := h s hs
  rw [hrun] at ht
  exact ht

theorem pure (a : α) : Keeps P (pure a : Action ε σ α) :=
  fun _ hs => hs

theorem read (f : σ → α) : Keeps P (read f : Action ε σ α) :=
  fun _ hs => hs

theorem lift (x : Except ε α) : Keeps P (lift x : Action ε σ α) := by
  intro s hs
  cases x <;> exact hs

theorem update {f : σ → σ} (h : ∀ s, P s → P (f s)) : Keeps P (update f : Action ε σ Unit) :=
  fun s hs => h s hs

theorem bind {f : α → Action ε σ β} (hx : Keeps P x) (hf : ∀ a, Keeps P (f a)) :
    Keeps P (x >>= f) :=
  fun s hs => bind_end (hx s hs) fun a t _ ht => hf a t ht

theorem bindRead {f : σ → α} {g : α → Action ε σ β} (h : ∀ a, Keeps P (g a)) :
    Keeps P (Exec.read f >>= g) :=
  bind (read f) h

theorem bindLift {x : Except ε α} {g : α → Action ε σ β} (h : ∀ a, Keeps P (g a)) :
    Keeps P (Exec.lift x >>= g) :=
  bind (lift x) h

/-- What follows a read may use that the value is that of the state at hand. -/
theorem readThen {f : σ → α} {g : α → Action ε σ β}
    (h : ∀ s, P s → P (endState (g (f s) s))) : Keeps P (Exec.read f >>= g) :=
  fun s hs => h s hs

/-- What follows a computation may use what the computation has returned. -/
theorem liftThen {x : Except ε α} {g : α → Action ε σ β} (h : ∀ a, x = .ok a → Keeps P (g a)) :
    Keeps P (Exec.lift x >>= g) := by
  cases x with
  | error e => exact fun s hs => hs
  | ok a => exact h a rfl

theorem ite {p : Prop} [Decidable p] {x y : Action ε σ α} (hx : Keeps P x) (hy : Keeps P y) :
    Keeps P (if p then x else y) := by
  split
  · exact hx
  · exact hy

theorem onlyIf {p : Prop} [Decidable p] {x : Action ε σ Unit} (hx : Keeps P x) :
    Keeps P (onlyIf p x) :=
  ite hx (pure ())

theorem onError {h : ε → Action ε σ α} (hx : Keeps P x) (hh : ∀ e, Keeps P (h e)) :
    Keeps P (onError x h) :=
  fun s hs => onError_end (hx s hs) fun e t ht => hh e t ht

theorem forEach {l : List β} {f : β → Action ε σ Unit} (h : ∀ b ∈ l, Keeps P (f b)) :
    Keeps P (forEach l f) := by
  induction l with
  | nil => exact pure ()
  | cons b l ih =>
    refine bind (h b List.mem_cons_self) (fun _ => ih ?_)
    exact fun c hc => h c (List.mem_cons_of_mem b hc)

end Keeps

end Bts.Base.Exec
