import Mathlib.Data.Finset.Sort
import Bts.Base.Maps
import Bts.Base.Result
import Bts.Db.LevelMap

namespace Bts.Db

open Base Maps Result

inductive DbError
  | outOfRange | keyNotFound
  deriving DecidableEq

variable {K V : Type} [DecidableEq K] {c : Comparator K} [LevelDb c V]

/-- A database with all of its rows in memory. Without write-through, the keys of the rows that
the database does not have yet are in one set, and those that it has still in another. -/
structure CachedLevelMap (c : Comparator K) (V : Type) [LevelDb c V] where
  db : LevelMap c V
  cache : Map K V := ∅
  dirtyStore : List K := []
  dirtyRemove : List K := []
  writeThrough : Bool := true

namespace CachedLevelMap

/-- `emplace_hint`, which leaves the row of a key that is there. -/
def emplace (cache : Map K V) (row : K × V) : Map K V :=
  if (cache.lookup row.1).isSome then cache else cache.insert row.1 row.2

def openMap (db : LevelMap c V) (writeThrough : Bool) : CachedLevelMap c V where
  db
  cache := db.rows.foldl emplace ∅
  writeThrough

variable (m : CachedLevelMap c V)

def flush : Except DbError (CachedLevelMap c V) := do
  let stores ← m.dirtyStore.mapM fun key => do
    let value ← orThrow (m.cache.lookup key) .outOfRange
    pure (BatchEntry.store key value)
  let batch := stores ++ m.dirtyRemove.map .remove
  pure { m with db := m.db.commit batch, dirtyStore := [], dirtyRemove := [] }

def close : Except DbError (LevelMap c V) := do
  let m ← m.flush
  pure m.db

def setWriteThrough (writeThrough : Bool) : Except DbError (CachedLevelMap c V) :=
  if writeThrough = m.writeThrough then pure m
  else if writeThrough then do
    let m ← m.flush
    pure { m with writeThrough }
  else pure { m with writeThrough }

def fetchOptional (key : K) : Option V := m.cache.lookup key

def fetch (key : K) : Except DbError V := orThrow (m.cache.lookup key) .keyNotFound

def store (key : K) (value : V) : CachedLevelMap c V :=
  let cache := m.cache.insert key value
  if m.writeThrough then { m with cache, db := m.db.store key value }
  else { m with
    cache
    dirtyStore := m.dirtyStore.insert key
    dirtyRemove := m.dirtyRemove.filter (· ≠ key) }

def remove (key : K) : CachedLevelMap c V :=
  let cache := m.cache.erase key
  if m.writeThrough then { m with cache, db := m.db.remove key }
  else { m with
    cache
    dirtyStore := m.dirtyStore.filter (· ≠ key)
    dirtyRemove := m.dirtyRemove.insert key }

end CachedLevelMap

inductive Call (K V : Type)
  | store (key : K) (value : V)
  | remove (key : K)
  | setWriteThrough (writeThrough : Bool)
  | flush

namespace Call

def run (m : CachedLevelMap c V) : Call K V → Except DbError (CachedLevelMap c V)
  | .store key value => pure (m.store key value)
  | .remove key => pure (m.remove key)
  | .setWriteThrough writeThrough => m.setWriteThrough writeThrough
  | .flush => m.flush

def apply (contents : K → Option V) : Call K V → K → Option V
  | .store key value => Function.update contents key (some value)
  | .remove key => Function.update contents key none
  | .setWriteThrough _ => contents
  | .flush => contents

end Call

namespace CachedLevelMap

variable {m : CachedLevelMap c V}

/-- The database has the rows of the cache, but for the keys in the two sets. -/
structure Synced (m : CachedLevelMap c V) : Prop where
  clean : m.writeThrough = true → m.dirtyStore = [] ∧ m.dirtyRemove = []
  stored : ∀ k ∈ m.dirtyStore, (m.cache.lookup k).isSome
  removed : ∀ k ∈ m.dirtyRemove, m.cache.lookup k = none
  rest : ∀ k, k ∉ m.dirtyStore → k ∉ m.dirtyRemove → m.db.fetchOptional k = m.cache.lookup k

theorem Synced.flushed {db : LevelMap c V} (hdb : db.fetchOptional = m.fetchOptional)
    (writeThrough : Bool) :
    { m with db, dirtyStore := [], dirtyRemove := [], writeThrough }.Synced :=
  ⟨fun _ => ⟨rfl, rfl⟩, fun _ hk => absurd hk List.not_mem_nil,
    fun _ hk => absurd hk List.not_mem_nil, fun k _ _ => congrFun hdb k⟩

theorem Synced.fetchOptional_db (h : m.Synced) (hwrite : m.writeThrough = true) :
    m.db.fetchOptional = m.fetchOptional := by
  obtain ⟨hstore, hremove⟩ := h.clean hwrite
  funext k
  refine h.rest k ?_ ?_
  · rw [hstore]
    exact List.not_mem_nil
  · rw [hremove]
    exact List.not_mem_nil

theorem fetchOptional_store (m : CachedLevelMap c V) (key : K) (value : V) :
    (m.store key value).fetchOptional = Function.update m.fetchOptional key (some value) := by
  funext k
  rw [Function.update_apply]
  unfold store fetchOptional
  split_ifs with hwrite hk <;> simp [lookup_insert, *]

theorem fetchOptional_remove (m : CachedLevelMap c V) (key : K) :
    (m.remove key).fetchOptional = Function.update m.fetchOptional key none := by
  funext k
  rw [Function.update_apply]
  unfold remove fetchOptional
  split_ifs with hwrite hk <;> simp [lookup_erase, *]

theorem lookup_emplace (cache : Map K V) (row : K × V) (k : K) :
    (emplace cache row).lookup k =
      (cache.lookup k).or (if k = row.1 then some row.2 else none) := by
  unfold emplace
  split_ifs with hpresent hk hk
  · subst hk
    obtain ⟨v, hv⟩ := Option.isSome_iff_exists.mp hpresent
    rw [hv]
    rfl
  · exact Option.or_none.symm
  · subst hk
    rw [Option.not_isSome_iff_eq_none] at hpresent
    rw [lookup_insert, if_pos rfl, hpresent]
    rfl
  · rw [lookup_insert, if_neg hk]
    exact Option.or_none.symm

omit [LevelDb c V] in
theorem lookup_emplace_all {rows : List (K × V)} (cache : Map K V)
    (h : rows.Pairwise fun x y => c.compare x.1 y.1 < 0) (k : K) (v : V) :
    (rows.foldl emplace cache).lookup k = some v ↔
      cache.lookup k = some v ∨ (cache.lookup k = none ∧ (k, v) ∈ rows) := by
  induction rows generalizing cache with
  | nil => simp
  | cons row rest ih =>
    obtain ⟨j, w⟩ := row
    rw [List.foldl_cons, ih _ (List.pairwise_cons.mp h).2, lookup_emplace]
    cases hcache : cache.lookup k with
    | some u => simp
    | none =>
      by_cases hk : k = j
      · subst hk
        have hrest : (k, v) ∉ rest := fun hmem => (LevelMap.compare_ne_of_mem h hmem).2 rfl
        simp [hrest, eq_comm]
      · simp [hk]

variable [LawfulLevelDb c V]

theorem stores_spec (cache : Map K V) {keys : List K} (h : ∀ k ∈ keys, (cache.lookup k).isSome) :
    ∃ batch, keys.mapM (fun key => do
        let value ← orThrow (cache.lookup key) DbError.outOfRange
        pure (BatchEntry.store key value)) = .ok batch ∧
      ∀ (db : LevelMap c V) (k : K), LevelMap.fetchOptional (batch.foldl BatchEntry.apply db) k =
        if k ∈ keys then cache.lookup k else db.fetchOptional k := by
  induction keys with
  | nil => exact ⟨[], rfl, fun db k => rfl⟩
  | cons key keys ih =>
    rw [List.forall_mem_cons] at h
    obtain ⟨value, hvalue⟩ := Option.isSome_iff_exists.mp h.1
    obtain ⟨batch, hbatch, hfetch⟩ := ih h.2
    refine ⟨.store key value :: batch, ?_, fun db k => ?_⟩
    · simp only [List.mapM_cons, eq_ok_iff]
      exact ⟨_, ⟨value, hvalue, rfl⟩, batch, hbatch, rfl⟩
    · rw [List.foldl_cons, hfetch]
      change (if k ∈ keys then _ else (db.store key value).fetchOptional k) = _
      rw [LevelMap.fetchOptional_store, Function.update_apply]
      by_cases hk : k = key
      · subst hk
        rw [hvalue]
        simp
      · simp [hk]

theorem removes_spec (keys : List K) (db : LevelMap c V) (k : K) :
    LevelMap.fetchOptional ((keys.map BatchEntry.remove).foldl BatchEntry.apply db) k =
      if k ∈ keys then none else db.fetchOptional k := by
  induction keys generalizing db with
  | nil => rfl
  | cons key keys ih =>
    rw [List.map_cons, List.foldl_cons, ih]
    change (if k ∈ keys then _ else (db.remove key).fetchOptional k) = _
    rw [LevelMap.fetchOptional_remove, Function.update_apply]
    by_cases hk : k = key
    · simp [hk]
    · simp [hk]

theorem flush_spec (h : m.Synced) : ∃ db : LevelMap c V,
    m.flush = .ok { m with db, dirtyStore := [], dirtyRemove := [] } ∧
      db.fetchOptional = m.fetchOptional := by
  obtain ⟨batch, hbatch, hfetch⟩ := stores_spec (c := c) m.cache h.stored
  refine ⟨m.db.commit (batch ++ m.dirtyRemove.map BatchEntry.remove), ?_, ?_⟩
  · simp only [flush, eq_ok_iff]
    exact ⟨batch, hbatch, rfl⟩
  · funext k
    unfold LevelMap.commit
    rw [LawfulLevelDb.write_eq, List.foldl_append, removes_spec, hfetch]
    split_ifs with hremove hstore
    · exact (h.removed k hremove).symm
    · rfl
    · exact h.rest k hstore hremove

theorem setWriteThrough_spec (h : m.Synced) (writeThrough : Bool) :
    ∃ m', m.setWriteThrough writeThrough = .ok m' ∧ m'.Synced ∧ m'.fetchOptional = m.fetchOptional ∧
      m'.writeThrough = writeThrough := by
  unfold setWriteThrough
  split_ifs with hsame hon
  · exact ⟨m, rfl, h, rfl, hsame.symm⟩
  · obtain ⟨db, hflush, hdb⟩ := flush_spec h
    rw [hflush]
    exact ⟨_, rfl, .flushed hdb writeThrough, rfl, rfl⟩
  · exact ⟨_, rfl, ⟨fun hon' => absurd hon' hon, h.stored, h.removed, h.rest⟩, rfl, rfl⟩

theorem Synced.store (h : m.Synced) (key : K) (value : V) : (m.store key value).Synced := by
  have hcache (k : K) := lookup_insert m.cache key value k
  unfold CachedLevelMap.store
  split_ifs with hwrite
  · obtain ⟨hstore, hremove⟩ := h.clean hwrite
    refine ⟨fun _ => ⟨hstore, hremove⟩, ?_, ?_, fun k _ _ => ?_⟩
    · simp [hstore]
    · simp [hremove]
    · rw [LevelMap.fetchOptional_store, h.fetchOptional_db hwrite, Function.update_apply, hcache]
      rfl
  · refine ⟨fun hon => absurd hon hwrite, fun k hk => ?_, fun k hk => ?_, fun k hstore hremove => ?_⟩
    · rw [hcache]
      split_ifs with hkey
      · rfl
      · exact h.stored k ((List.mem_insert_iff.mp hk).resolve_left hkey)
    · obtain ⟨hk, hkey⟩ := List.mem_filter.mp hk
      rw [hcache, if_neg (of_decide_eq_true hkey)]
      exact h.removed k hk
    · rw [List.mem_insert_iff, not_or] at hstore
      rw [hcache, if_neg hstore.1]
      refine h.rest k hstore.2 fun hk => hremove ?_
      exact List.mem_filter.mpr ⟨hk, decide_eq_true hstore.1⟩

theorem Synced.remove (h : m.Synced) (key : K) : (m.remove key).Synced := by
  have hcache (k : K) := lookup_erase m.cache key k
  unfold CachedLevelMap.remove
  split_ifs with hwrite
  · obtain ⟨hstore, hremove⟩ := h.clean hwrite
    refine ⟨fun _ => ⟨hstore, hremove⟩, ?_, ?_, fun k _ _ => ?_⟩
    · simp [hstore]
    · simp [hremove]
    · rw [LevelMap.fetchOptional_remove, h.fetchOptional_db hwrite, Function.update_apply, hcache]
      rfl
  · refine ⟨fun hon => absurd hon hwrite, fun k hk => ?_, fun k hk => ?_, fun k hstore hremove => ?_⟩
    · obtain ⟨hk, hkey⟩ := List.mem_filter.mp hk
      rw [hcache, if_neg (of_decide_eq_true hkey)]
      exact h.stored k hk
    · rw [hcache]
      split_ifs with hkey
      · rfl
      · exact h.removed k ((List.mem_insert_iff.mp hk).resolve_left hkey)
    · rw [List.mem_insert_iff, not_or] at hremove
      rw [hcache, if_neg hremove.1]
      refine h.rest k (fun hk => hstore ?_) hremove.2
      exact List.mem_filter.mpr ⟨hk, decide_eq_true hremove.1⟩

theorem call_spec (h : m.Synced) (call : Call K V) :
    ∃ m', call.run m = .ok m' ∧ m'.Synced ∧ m'.fetchOptional = call.apply m.fetchOptional := by
  cases call with
  | store key value => exact ⟨_, rfl, h.store key value, fetchOptional_store m key value⟩
  | remove key => exact ⟨_, rfl, h.remove key, fetchOptional_remove m key⟩
  | setWriteThrough writeThrough =>
    obtain ⟨m', hm', hsynced, hfetch, -⟩ := setWriteThrough_spec h writeThrough
    exact ⟨m', hm', hsynced, hfetch⟩
  | flush =>
    obtain ⟨db, hflush, hdb⟩ := flush_spec h
    exact ⟨_, hflush, .flushed hdb m.writeThrough, rfl⟩

theorem calls_spec (h : m.Synced) (calls : List (Call K V)) :
    ∃ m', calls.foldlM Call.run m = .ok m' ∧ m'.Synced ∧
      m'.fetchOptional = calls.foldl Call.apply m.fetchOptional := by
  induction calls generalizing m with
  | nil => exact ⟨m, rfl, h, rfl⟩
  | cons call calls ih =>
    obtain ⟨m₁, hm₁, h₁, hfetch₁⟩ := call_spec h call
    obtain ⟨m', hm', h', hfetch'⟩ := ih h₁
    refine ⟨m', foldlM_cons_eq_ok.mpr ⟨m₁, hm₁, hm'⟩, h', ?_⟩
    rw [hfetch', hfetch₁, List.foldl_cons]

theorem fetchOptional_openMap (db : LevelMap c V) (writeThrough : Bool) :
    (openMap db writeThrough).fetchOptional = db.fetchOptional := by
  funext k
  refine Option.ext fun v => ?_
  rw [LevelMap.fetchOptional_eq_some]
  refine (lookup_emplace_all ∅ (LawfulLevelDb.sorted db) k v).trans ?_
  simp [LevelMap.rows]

theorem openMap_synced (db : LevelMap c V) (writeThrough : Bool) : (openMap db writeThrough).Synced :=
  .flushed (m := openMap db writeThrough) (fetchOptional_openMap db writeThrough).symm writeThrough

/-- A cached map is the map in mind after any calls, and the disk has it after a flush, after
write-through is switched on, and after the map is closed, so that it is there when it is opened
again. -/
theorem cached_level_map_refines (db : LevelMap c V) (writeThrough : Bool)
    (calls : List (Call K V)) :
    ∃ m, calls.foldlM Call.run (openMap db writeThrough) = .ok m ∧
      (∀ key, m.fetchOptional key = calls.foldl Call.apply db.fetchOptional key ∧
        m.fetch key = orThrow (calls.foldl Call.apply db.fetchOptional key) .keyNotFound) ∧
      (∃ m', m.flush = .ok m' ∧ m'.db.Holds (calls.foldl Call.apply db.fetchOptional)) ∧
      (∃ m', m.setWriteThrough true = .ok m' ∧
        m'.db.Holds (calls.foldl Call.apply db.fetchOptional)) ∧
      (∃ db', m.close = .ok db' ∧ db'.Holds (calls.foldl Call.apply db.fetchOptional) ∧
        ∀ write key, (openMap db' write).fetchOptional key =
          calls.foldl Call.apply db.fetchOptional key) := by
  obtain ⟨m, hm, hsynced, hfetch⟩ := calls_spec (openMap_synced db writeThrough) calls
  rw [fetchOptional_openMap] at hfetch
  obtain ⟨db', hflush, hdb'⟩ := flush_spec hsynced
  have hdisk : db'.fetchOptional = calls.foldl Call.apply db.fetchOptional := hdb'.trans hfetch
  refine ⟨m, hm, fun key => ⟨congrFun hfetch key, ?_⟩, ⟨_, hflush, LevelMap.holds_of_fetch hdisk⟩, ?_,
    ⟨db', ?_, LevelMap.holds_of_fetch hdisk, fun write key => ?_⟩⟩
  · exact congrArg (orThrow · DbError.keyNotFound) (congrFun hfetch key)
  · obtain ⟨m', hm', hsynced', hfetch', hwrite⟩ := setWriteThrough_spec hsynced true
    refine ⟨m', hm', LevelMap.holds_of_fetch ?_⟩
    rw [hsynced'.fetchOptional_db hwrite, hfetch', hfetch]
  · unfold close
    rw [hflush]
    rfl
  · rw [fetchOptional_openMap, hdisk]

end CachedLevelMap

/-- A stand-in for the library: the keys in a set, which is sorted to be read. -/
structure SortedRows (V : Type) where
  keys : Finset Int
  value : Int → V

namespace SortedRows

def entries (db : SortedRows V) : List (Int × V) := db.keys.sort.map fun k => (k, db.value k)

def apply (db : SortedRows V) : BatchEntry Int V → SortedRows V
  | .store k v => ⟨insert k db.keys, Function.update db.value k v⟩
  | .remove k => ⟨db.keys.erase k, db.value⟩

theorem mem_entries {db : SortedRows V} {k : Int} {v : V} :
    (k, v) ∈ db.entries ↔ k ∈ db.keys ∧ db.value k = v := by
  simp [entries]

theorem mem_store (db : SortedRows V) (k : Int) (v : V) (j : Int) (w : V) :
    (j, w) ∈ (db.apply (.store k v)).entries ↔
      (j = k ∧ w = v) ∨ (j ≠ k ∧ (j, w) ∈ db.entries) := by
  rw [mem_entries, mem_entries]
  by_cases hj : j = k
  · simp [apply, hj, eq_comm]
  · simp [apply, hj]

theorem mem_remove (db : SortedRows V) (k j : Int) (w : V) :
    (j, w) ∈ (db.apply (.remove k)).entries ↔ j ≠ k ∧ (j, w) ∈ db.entries := by
  simp [mem_entries, apply, and_assoc]

instance : LevelDb idComparator V where
  DB := SortedRows V
  put db k v := db.apply (.store k v)
  delete db k := db.apply (.remove k)
  write db batch := batch.foldl apply db
  seek db k := db.entries.find? fun row => ¬ idComparator.compare row.1 k < 0
  entries := entries

instance : LawfulLevelDb idComparator V where
  sorted db := by
    have hsorted := (Finset.sortedLT_sort (SortedRows.keys db)).pairwise
    refine List.pairwise_map.mpr (hsorted.imp fun hlt => ?_)
    simp [Comparator.compare, keyCompare, idComparator, hlt]
  mem_put := mem_store
  mem_delete := mem_remove
  write_eq db batch := by
    refine congrArg (fun f => batch.foldl f db) (funext₂ fun db entry => ?_)
    cases entry <;> rfl
  seek_eq _ _ := rfl

end SortedRows

def storedRow : LevelMap idComparator Nat := (⟨{3}, fun _ => 1⟩ : SortedRows Nat)

/-- A row that is stored, removed and stored again before the map is closed. -/
theorem cached_level_map_refines_storedRow :
    ∃ m, [Call.store 3 7, .remove 3, .store 5 2, .store 3 9, .remove 5].foldlM Call.run
        (CachedLevelMap.openMap storedRow false) = .ok m ∧
      m.fetch 3 = .ok 9 ∧ ∃ db, m.close = .ok db ∧ ∀ k v, (k, v) ∈ db.rows ↔ k = 3 ∧ v = 9 := by
  obtain ⟨m, hm, hfetch, -, -, db, hclose, hdisk, -⟩ := CachedLevelMap.cached_level_map_refines
    storedRow false [Call.store 3 7, .remove 3, .store 5 2, .store 3 9, .remove 5]
  refine ⟨m, hm, (hfetch 3).2, db, hclose, fun k v => (hdisk k v).trans ?_⟩
  have hstored (hk : k ≠ 3) : storedRow.fetchOptional k ≠ some v := by
    intro hrow
    obtain ⟨hkeys, -⟩ := SortedRows.mem_entries.mp (LevelMap.fetchOptional_eq_some.mp hrow)
    exact hk (Finset.mem_singleton.mp hkeys)
  simp only [List.foldl_cons, List.foldl_nil, Call.apply, Function.update_apply]
  split_ifs with h₅ h₃ <;> simp_all [eq_comm]

end Bts.Db
