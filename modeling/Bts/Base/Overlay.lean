import Bts.Base.Maps
import Bts.Base.Result

namespace Bts.Base.Overlay

open Result Maps

variable {K V ε : Type} [DecidableEq K]

/-- Write the entries of `m` over those of `t`. -/
def merge (m t : Map K V) : Map K V := m.entries.foldl (fun t e => t.insert e.1 e.2) t

/-- For each entry of `m` the record that `below` has under its key, and the
record `null` makes of it where there is none. -/
def undoMap (m : Map K V) (below : K → Option V) (null : V → V) : Map K V :=
  m.entries.foldl (fun u e => u.insert e.1 ((below e.1).getD (null e.2))) ∅

/-- The same where reading the record below can throw. -/
def undoMapM (m : Map K V) (below : K → Except ε (Option V)) (null : V → V) : Except ε (Map K V) :=
  m.entries.foldlM (fun u e => do
    let v ← below e.1
    pure (u.insert e.1 (v.getD (null e.2)))) ∅

variable {key : V → K}

def mergeTable (m t : Table key) : Table key := m.rows.entries.foldl (fun t e => t.store e.2) t

def undoTable (m : Table key) (below : K → Option V) (null : V → V) : Table key :=
  m.rows.entries.foldl (fun u e => u.store ((below e.1).getD (null e.2))) .empty

def undoTableM (m : Table key) (below : K → Except ε (Option V)) (null : V → V) :
    Except ε (Table key) :=
  m.rows.entries.foldlM (fun u e => do
    let v ← below e.1
    pure (u.store (v.getD (null e.2)))) .empty

/-- What a lookup reads after the changes of `m` have been written over `b`,
where `norm` says which records the store function keeps. -/
def overlay (norm : V → Option V) (m : Map K V) (b : K → Option V) (k : K) : Option V :=
  match m.lookup k with
  | some v => norm v
  | none => b k

theorem overlay_congr {norm : V → Option V} {m : Map K V} {b b' : K → Option V} {k : K}
    (h : b k = b' k) : overlay norm m b k = overlay norm m b' k := by
  unfold overlay
  rw [h]

/-- Writing entry after entry of a list, each under its own key, is read back by
a lookup in the list. The writes may rely on an invariant `P` that they keep. -/
theorem foldl_dlookup {β W : Type} (val : K → V → Option W) (get : β → K → Option W)
    {put : β → (Σ _ : K, V) → β} {P : β → Prop} (hP : ∀ e s, P s → P (put s e))
    {l : List (Σ _ : K, V)} (hput : ∀ e ∈ l, ∀ s, P s → ∀ j,
      get (put s e) j = if j = e.1 then val e.1 e.2 else get s j)
    (hl : l.NodupKeys) {s : β} (hs : P s) (j : K) :
    get (l.foldl put s) j = match l.dlookup j with
      | some v => val j v
      | none => get s j := by
  induction l generalizing s with
  | nil => rfl
  | cons e l ih =>
    obtain ⟨k, v⟩ := e
    rw [List.nodupKeys_cons] at hl
    have htail := ih (fun e he => hput e (List.mem_cons_of_mem _ he)) hl.2 (hP ⟨k, v⟩ s hs)
    rw [List.foldl_cons, htail, hput _ List.mem_cons_self s hs]
    by_cases hj : j = k
    · subst hj
      rw [List.dlookup_cons_eq, List.dlookup_eq_none.mpr hl.1]
      simp
    · simp [hj]

theorem foldl_get {β W : Type} (val : K → V → Option W) (get : β → K → Option W)
    {put : β → (Σ _ : K, V) → β} (m : Map K V)
    (hput : ∀ e ∈ m.entries, ∀ s j, get (put s e) j = if j = e.1 then val e.1 e.2 else get s j)
    (s : β) (j : K) :
    get (m.entries.foldl put s) j = match m.lookup j with
      | some v => val j v
      | none => get s j :=
  foldl_dlookup (P := fun _ => True) val get (fun _ _ => id) (fun e he s _ => hput e he s)
    m.nodupKeys trivial j

/-- Writing every entry of a map through a store function gives the overlay
of the map on what was readable before. -/
theorem foldl_overlay {β : Type} (norm : V → Option V) (get : β → K → Option V)
    {put : β → (Σ _ : K, V) → β} (m : Map K V)
    (hput : ∀ e ∈ m.entries, ∀ s j, get (put s e) j = if j = e.1 then norm e.2 else get s j)
    (s : β) (j : K) : get (m.entries.foldl put s) j = overlay norm m (get s) j :=
  foldl_get (fun _ v => norm v) get m hput s j

theorem lookup_merge (m t : Map K V) (k : K) :
    (merge m t).lookup k = (m.lookup k).or (t.lookup k) := by
  have h := foldl_overlay some (fun (s : Map K V) j => s.lookup j) m
    (fun e _ s j => lookup_insert s e.1 e.2 j) t k
  unfold merge
  rw [h, overlay]
  cases m.lookup k <;> rfl

theorem lookup_undoMap (m : Map K V) (below : K → Option V) (null : V → V) (k : K) :
    (undoMap m below null).lookup k = (m.lookup k).map fun v => (below k).getD (null v) := by
  have h := foldl_get (fun k v => some ((below k).getD (null v)))
    (fun (s : Map K V) j => s.lookup j) m
    (fun e _ s j => lookup_insert s e.1 ((below e.1).getD (null e.2)) j) ∅ k
  unfold undoMap
  rw [h]
  cases m.lookup k with
  | none => simp
  | some v => rfl

variable {null : V → V}

theorem undoMapM_eq_ok {m u : Map K V} {below : K → Except ε (Option V)} {below' : K → Option V}
    (hbelow : ∀ k v, below k = .ok v → below' k = v) (h : undoMapM m below null = .ok u) :
    u = undoMap m below' null := by
  refine foldlM_proj (g := id) (fun e _ s t ht => ?_) h
  simp only [eq_ok_iff] at ht
  obtain ⟨v, hv, rfl⟩ := ht
  rw [hbelow e.1 v hv]
  rfl

theorem undoMapM_reads {m u : Map K V} {below : K → Except ε (Option V)}
    (h : undoMapM m below null = .ok u) {k : K} {v : V} (hk : m.lookup k = some v) :
    ∃ w, below k = .ok w := by
  obtain ⟨s, t, ht⟩ := foldlM_mem_ok h (mem_of_lookup hk)
  simp only [eq_ok_iff] at ht
  obtain ⟨w, hw, -⟩ := ht
  exact ⟨w, hw⟩

theorem lookup_mergeTable (m t : Table key) (k : K) :
    (mergeTable m t).lookup k = (m.lookup k).or (t.lookup k) := by
  have hput : ∀ e ∈ m.rows.entries, ∀ (s : Table key) (j : K),
      (s.store e.2).lookup j = if j = e.1 then some e.2 else s.lookup j := by
    intro e he s j
    rw [Table.lookup_store, m.keyed (lookup_of_mem he)]
  have h := foldl_overlay some Table.lookup m.rows hput t k
  unfold mergeTable
  rw [h, overlay]
  unfold Table.lookup
  cases m.rows.lookup k <;> rfl

theorem lookup_undoTable {m : Table key} {below : K → Option V}
    (hbelow : ∀ k v, below k = some v → key v = k) (hnull : ∀ v, key (null v) = key v) (k : K) :
    (undoTable m below null).lookup k = (m.lookup k).map fun v => (below k).getD (null v) := by
  have hkey : ∀ e ∈ m.rows.entries, key ((below e.1).getD (null e.2)) = e.1 := by
    intro e he
    cases hb : below e.1 with
    | none => exact (hnull e.2).trans (m.keyed (lookup_of_mem he))
    | some v => exact hbelow e.1 v hb
  have hput : ∀ e ∈ m.rows.entries, ∀ (s : Table key) (j : K),
      (s.store ((below e.1).getD (null e.2))).lookup j =
        if j = e.1 then some ((below e.1).getD (null e.2)) else s.lookup j := by
    intro e he s j
    rw [Table.lookup_store, hkey e he]
  have h := foldl_get (fun k v => some ((below k).getD (null v))) Table.lookup m.rows
    hput .empty k
  unfold undoTable
  rw [h, Table.lookup_empty]
  unfold Table.lookup
  cases m.rows.lookup k <;> rfl

theorem undoTableM_eq_ok {m u : Table key} {below : K → Except ε (Option V)} {below' : K → Option V}
    (hbelow : ∀ k v, below k = .ok v → below' k = v) (h : undoTableM m below null = .ok u) :
    u = undoTable m below' null := by
  refine foldlM_proj (g := id) (fun e _ s t ht => ?_) h
  simp only [eq_ok_iff] at ht
  obtain ⟨v, hv, rfl⟩ := ht
  rw [hbelow e.1 v hv]
  rfl

/-- If `u` holds, for each key that `m` writes, the old record or a record the
store function drops, then writing `m` and after it `u` changes nothing. -/
theorem overlay_undo {norm : V → Option V} {nullOf : V → V} {m u : Map K V} {b : K → Option V}
    {k : K} (hb : ∀ v, b k = some v → norm v = some v)
    (hu : u.lookup k = (m.lookup k).map fun v => (b k).getD (nullOf v))
    (hn : ∀ v, norm (nullOf v) = none) : overlay norm u (overlay norm m b) k = b k := by
  unfold overlay
  rw [hu]
  cases hm : m.lookup k with
  | none => simp
  | some v =>
    cases hk : b k with
    | none => simp [hn]
    | some w => simp [hb w hk]

section SharedNull

variable {below : K → Option V} {n : V} (hbelow : ∀ k v, below k = some v → key v = k)

include hbelow

/-- Where every missing record is undone by one and the same null record, the undo
entries of the other keys are the records that existed. -/
theorem foldl_undo_of_ne {l : List (Σ _ : K, V)} (hl : l.NodupKeys) (u : Table key) {k : K}
    (hk : k ≠ key n) :
    (l.foldl (fun u e => u.store ((below e.1).getD n)) u).lookup k =
      match l.dlookup k with
      | some _ => (below k).or (u.lookup k)
      | none => u.lookup k := by
  induction l generalizing u with
  | nil => rfl
  | cons e l ih =>
    obtain ⟨j, v⟩ := e
    rw [List.nodupKeys_cons] at hl
    rw [List.foldl_cons, ih hl.2, Table.lookup_store]
    by_cases hj : k = j
    · subst hj
      rw [List.dlookup_cons_eq, List.dlookup_eq_none.mpr hl.1]
      cases hb : below k with
      | none => simp [hk]
      | some w => simp [hbelow k w hb]
    · have hne : k ≠ key ((below j).getD n) := by
        cases hb : below j with
        | none => exact hk
        | some w => simpa [hbelow j w hb] using hj
      rw [List.dlookup_cons_ne _ _ hj, if_neg hne]

omit hbelow in
theorem foldl_undo_null (below : K → Option V) (n : V) (l : List (Σ _ : K, V)) (u : Table key) :
    (l.foldl (fun u e => u.store ((below e.1).getD n)) u).lookup (key n) = none ↔
      u.lookup (key n) = none ∧ ∀ e ∈ l, key ((below e.1).getD n) ≠ key n := by
  induction l generalizing u with
  | nil => simp
  | cons e l ih =>
    rw [List.foldl_cons, ih, Table.lookup_store]
    by_cases hj : key n = key ((below e.1).getD n)
    · simp [← hj]
    · have hj' : key ((below e.1).getD n) ≠ key n := fun h => hj h.symm
      simp [hj, hj']

end SharedNull

theorem dropNull_eq_self {isNull : V → Prop} [DecidablePred isNull] {v : V} :
    dropNull isNull v = some v ↔ ¬ isNull v := by
  unfold dropNull
  split <;> simp_all

theorem dropNull_eq_none {isNull : V → Prop} [DecidablePred isNull] {v : V} :
    dropNull isNull v = none ↔ isNull v := by
  unfold dropNull
  split <;> simp_all

theorem or_of_overlay {isNull : V → Prop} [DecidablePred isNull] {m : Map K V} {b : K → Option V}
    {k : K} {v : V} (h : overlay (dropNull isNull) m b k = some v) :
    (m.lookup k).or (b k) = some v := by
  unfold overlay dropNull at h
  cases hm : m.lookup k with
  | none =>
    rw [hm] at h
    exact h
  | some u =>
    rw [hm] at h
    dsimp only at h
    split at h
    · cases h
    · exact h

section SharedNullRestores

variable {isNull : V → Prop} [DecidablePred isNull] {nullKey : K → Prop} {n : V}
  {m b : Table key} (hnull : ∀ v, isNull v ↔ nullKey (key v)) (hn : isNull n)

include hnull

theorem overlay_shared_of_ne {k : K} (hk : k ≠ key n) :
    overlay (dropNull isNull) (undoTable m b.lookup fun _ => n).rows
        (overlay (dropNull isNull) m.rows b.lookup) k = b.lookup k ↔
      ((m.lookup k).isSome → ((b.lookup k).isSome ↔ ¬ nullKey k)) := by
  have hu := foldl_undo_of_ne (n := n) (fun k v => Table.key_eq (t := b) (k := k) (v := v))
    m.rows.nodupKeys .empty hk
  have hu' : AList.lookup k (undoTable m b.lookup fun _ => n).rows = match m.lookup k with
      | some _ => (b.lookup k).or none
      | none => none := hu
  unfold overlay
  rw [hu']
  cases hm : m.lookup k with
  | none =>
    have hm' : m.rows.lookup k = none := hm
    simp [hm']
  | some v =>
    have hm' : m.rows.lookup k = some v := hm
    cases hb : b.lookup k with
    | none =>
      have hkey := Table.key_eq hm
      simp [hm', dropNull_eq_none, hnull, hkey]
    | some w =>
      have hkey := Table.key_eq hb
      simp [dropNull_eq_self, hnull, hkey]

include hn

theorem overlay_shared_null :
    overlay (dropNull isNull) (undoTable m b.lookup fun _ => n).rows
        (overlay (dropNull isNull) m.rows b.lookup) (key n) = b.lookup (key n) ↔
      ((∃ k, (m.lookup k).isSome ∧ (b.lookup k = none ∨ k = key n)) →
        b.lookup (key n) = none) := by
  have hkey : ∀ k, key ((b.lookup k).getD n) = key n ↔ b.lookup k = none ∨ k = key n := by
    intro k
    cases hb : b.lookup k with
    | none => simp
    | some w => simp [Table.key_eq hb]
  have hu := foldl_undo_null b.lookup n m.rows.entries (Table.empty : Table key)
  have hu' : (undoTable m b.lookup fun _ => n).lookup (key n) = none ↔
      ∀ e ∈ m.rows.entries, key ((b.lookup e.1).getD n) ≠ key n := hu.trans (by simp)
  by_cases hex : ∃ k, (m.lookup k).isSome ∧ (b.lookup k = none ∨ k = key n)
  · have hsome : ∃ w, (undoTable m b.lookup fun _ => n).lookup (key n) = some w := by
      rw [← Option.ne_none_iff_exists']
      intro hnone
      obtain ⟨k, hk, hmissing⟩ := hex
      obtain ⟨v, hv⟩ := Option.isSome_iff_exists.mp hk
      exact hu'.mp hnone ⟨k, v⟩ (mem_of_lookup hv) ((hkey k).mpr hmissing)
    obtain ⟨w, hw⟩ := hsome
    have hwnull : isNull w := (hnull w).mpr (Table.key_eq hw ▸ (hnull n).mp hn)
    have hw' : AList.lookup (key n) (undoTable m b.lookup fun _ => n).rows = some w := hw
    simp only [overlay, hw', dropNull_eq_none.mpr hwnull, hex, forall_const]
    exact eq_comm
  · have hnone : (undoTable m b.lookup fun _ => n).lookup (key n) = none := by
      rw [hu']
      intro e he hk
      exact hex ⟨e.1, by simp [Table.lookup, lookup_of_mem he], (hkey e.1).mp hk⟩
    have hm : m.rows.lookup (key n) = none := by
      by_contra hne
      exact hex ⟨key n, Option.isSome_iff_ne_none.mpr hne, Or.inr rfl⟩
    have hnone' : AList.lookup (key n) (undoTable m b.lookup fun _ => n).rows = none := hnone
    simp [overlay, hnone', hm, hex]

/-- One null record for all missing ones restores a table exactly when no record
was missing. -/
theorem overlay_undo_shared {u : Table key} {r r' : K → Option V}
    (hu : u = undoTable m b.lookup fun _ => n)
    (hr : ∀ k, r k = overlay (dropNull isNull) m.rows b.lookup k)
    (hr' : ∀ k, r' k = overlay (dropNull isNull) u.rows r k) :
    (∀ k, r' k = b.lookup k) ↔
      (∀ k, (m.lookup k).isSome → ((b.lookup k).isSome ↔ ¬ nullKey k)) ∧
        ((∃ k, (m.lookup k).isSome ∧ b.lookup k = none) → b.lookup (key n) = none) := by
  have hnkey : nullKey (key n) := (hnull n).mp hn
  have hread (k : K) : r' k = overlay (dropNull isNull) u.rows
      (overlay (dropNull isNull) m.rows b.lookup) k := by
    rw [hr', overlay_congr (hr k)]
  simp only [hread, hu]
  constructor
  · intro h
    have hat := (overlay_shared_null hnull hn).mp (h (key n))
    constructor
    · intro k hk
      by_cases hkn : k = key n
      · subst hkn
        simp [hat ⟨key n, hk, Or.inr rfl⟩, hnkey]
      · exact (overlay_shared_of_ne hnull hkn).mp (h k) hk
    · rintro ⟨k, hk, hmissing⟩
      exact hat ⟨k, hk, Or.inl hmissing⟩
  · rintro ⟨hkeys, hmissing⟩ k
    by_cases hkn : k = key n
    · subst hkn
      refine (overlay_shared_null hnull hn).mpr ?_
      rintro ⟨k, hk, hcase⟩
      cases hcase with
      | inl hnone => exact hmissing ⟨k, hk, hnone⟩
      | inr heq =>
        subst heq
        simpa [hnkey] using hkeys (key n) hk
    · exact (overlay_shared_of_ne hnull hkn).mpr (hkeys k)

end SharedNullRestores

end Bts.Base.Overlay
