import Mathlib.Data.List.AList

namespace Bts.Base.Maps

variable {K V : Type} [DecidableEq K]

abbrev Map (K V : Type) := AList fun _ : K => V

/-- A map whose records carry their own key, so that a record cannot be
filed under the key of another one. -/
structure Table (key : V → K) where
  rows : Map K V
  keyed : ∀ {k v}, rows.lookup k = some v → key v = k

namespace Table

variable {key : V → K}

def empty : Table key := ⟨∅, fun h => by simp at h⟩

instance : Inhabited (Table key) := ⟨empty⟩

def lookup (t : Table key) (k : K) : Option V := t.rows.lookup k

def store (t : Table key) (v : V) : Table key where
  rows := t.rows.insert (key v) v
  keyed := by
    intro k w h
    by_cases hk : k = key v
    · subst hk
      rw [AList.lookup_insert] at h
      cases h
      rfl
    · rw [AList.lookup_insert_ne hk] at h
      exact t.keyed h

def erase (t : Table key) (k : K) : Table key where
  rows := t.rows.erase k
  keyed := by
    intro j w h
    by_cases hk : j = k
    · subst hk
      simp at h
    · rw [AList.lookup_erase_ne hk] at h
      exact t.keyed h

@[simp] theorem lookup_empty (k : K) : (empty : Table key).lookup k = none := by
  simp [empty, lookup]

theorem key_eq {t : Table key} {k : K} {v : V} (h : t.lookup k = some v) : key v = k :=
  t.keyed h

theorem lookup_store (t : Table key) (v : V) (k : K) :
    (t.store v).lookup k = if k = key v then some v else t.lookup k := by
  by_cases hk : k = key v
  · subst hk
    simp [lookup, store]
  · simp [lookup, store, hk]

theorem lookup_erase (t : Table key) (k j : K) :
    (t.erase k).lookup j = if j = k then none else t.lookup j := by
  by_cases hk : j = k
  · subst hk
    simp [lookup, erase]
  · simp [lookup, erase, hk]

end Table

theorem lookup_insert (m : Map K V) (k : K) (v : V) (j : K) :
    AList.lookup j (m.insert k v) = if j = k then some v else m.lookup j := by
  by_cases hk : j = k
  · subst hk
    simp
  · simp [hk]

theorem lookup_erase (m : Map K V) (k j : K) :
    AList.lookup j (m.erase k) = if j = k then none else m.lookup j := by
  by_cases hk : j = k
  · subst hk
    simp
  · simp [hk]

theorem lookup_of_mem {m : Map K V} {e : Σ _ : K, V} (h : e ∈ m.entries) :
    m.lookup e.1 = some e.2 := by
  rw [← Option.mem_def, AList.mem_lookup_iff]
  exact h

theorem mem_of_lookup {m : Map K V} {k : K} {v : V} (h : m.lookup k = some v) :
    (⟨k, v⟩ : Σ _ : K, V) ∈ m.entries := by
  rw [← Option.mem_def, AList.mem_lookup_iff] at h
  exact h

/-- Store a record, or remove what stands under its key when it is a null record. -/
def putMap (isNull : V → Prop) [DecidablePred isNull] (m : Map K V) (k : K) (v : V) : Map K V :=
  if isNull v then m.erase k else m.insert k v

def putTable {key : V → K} (isNull : V → Prop) [DecidablePred isNull] (t : Table key) (v : V) :
    Table key :=
  if isNull v then t.erase (key v) else t.store v

def dropNull (isNull : V → Prop) [DecidablePred isNull] (v : V) : Option V :=
  if isNull v then none else some v

theorem lookup_putMap (isNull : V → Prop) [DecidablePred isNull] (m : Map K V) (k : K) (v : V)
    (j : K) : (putMap isNull m k v).lookup j =
      if j = k then dropNull isNull v else m.lookup j := by
  unfold putMap dropNull
  by_cases hv : isNull v
  · simp only [hv, ↓reduceIte]
    exact lookup_erase m k j
  · simp only [hv, ↓reduceIte]
    exact lookup_insert m k v j

theorem lookup_putTable {key : V → K} (isNull : V → Prop) [DecidablePred isNull] (t : Table key)
    (v : V) (j : K) : (putTable isNull t v).lookup j =
      if j = key v then dropNull isNull v else t.lookup j := by
  unfold putTable dropNull
  by_cases hv : isNull v
  · simp only [hv, ↓reduceIte]
    exact t.lookup_erase (key v) j
  · simp only [hv, ↓reduceIte]
    exact t.lookup_store v j

/-- The value at the largest key, `rbegin` of a map ordered by its keys. -/
def last (m : Map Nat V) : Option V :=
  match m.keys.max? with
  | some k => m.lookup k
  | none => none

end Bts.Base.Maps
