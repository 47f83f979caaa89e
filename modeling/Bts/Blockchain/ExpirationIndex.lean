import Bts.Base.Runs
import Bts.Blockchain.Database

namespace Bts.Blockchain.ExpirationIndex

open Base Maps Runs MarketRecords Transactions Database

def entryOf (key : MarketIndexKey) (r : CollateralRecord) : ExpirationIndex :=
  ⟨key.orderPrice.quoteAssetId, r.expiration, key⟩

/-- The index that `open_database` builds from the records on disk. -/
def openedIndex (records : Map MarketIndexKey CollateralRecord) : List ExpirationIndex :=
  records.entries.map fun e => entryOf e.1 e.2

theorem mem_openedIndex {records : Map MarketIndexKey CollateralRecord} {x : ExpirationIndex} :
    x ∈ openedIndex records ↔ ∃ r, records.lookup x.key = some r ∧ entryOf x.key r = x := by
  unfold openedIndex
  rw [List.mem_map]
  constructor
  · rintro ⟨e, he, rfl⟩
    exact ⟨e.2, lookup_of_mem he, rfl⟩
  · rintro ⟨r, hr, hx⟩
    exact ⟨⟨x.key, r⟩, mem_of_lookup hr, hx⟩

section Model

variable [Fc] {db : ChainDatabase}

/-- The index kept in memory has the entries that reopening the database would give it. -/
def Exact (db : ChainDatabase) : Prop :=
  ∀ x, x ∈ db.collateralExpirationIndex ↔ x ∈ openedIndex db.collateralDb

abbrev StoreCall := MarketIndexKey × CollateralRecord

def storeCollateral (call : StoreCall) (db : ChainDatabase) : ChainDatabase :=
  db.storeCollateralRecord call.1 call.2

/-- The call creates no position, and a position that it deletes has had another
expiration than the null record. -/
def Tracked (call : StoreCall) (db : ChainDatabase) : Prop :=
  (db.collateralDb.lookup call.1 = none → call.2.isNull) ∧
    ∀ old, db.collateralDb.lookup call.1 = some old → call.2.isNull →
      old.expiration ≠ call.2.expiration

variable {key : MarketIndexKey} {r : CollateralRecord} {x : ExpirationIndex}

theorem mem_openedIndex_store :
    x ∈ openedIndex (db.storeCollateralRecord key r).collateralDb ↔
      if x.key = key then ¬ r.isNull ∧ entryOf key r = x
      else x ∈ openedIndex db.collateralDb := by
  rw [mem_openedIndex, mem_openedIndex]
  unfold ChainDatabase.storeCollateralRecord
  rw [lookup_putMap]
  split
  next hkey =>
    rw [hkey]
    unfold dropNull
    by_cases hr : r.isNull <;> simp [hr]
  next => rfl

theorem mem_indexExpiration {r old : CollateralRecord}
    (hold : db.collateralDb.lookup key = some old) (hne : old.expiration ≠ r.expiration) :
    x ∈ (db.storeCollateralRecord key r).collateralExpirationIndex ↔
      (x ∈ db.collateralExpirationIndex ∧ x ≠ entryOf key old) ∨
        (¬ r.isNull ∧ x = entryOf key r) := by
  unfold ChainDatabase.storeCollateralRecord ChainDatabase.indexExpiration
  simp only [hold, hne, ↓reduceIte]
  by_cases hr : r.isNull
  · simp [hr, entryOf]
  · simp [hr, entryOf, or_comm]

theorem indexExpiration_same
    (h : ∀ old, db.collateralDb.lookup key = some old → old.expiration = r.expiration) :
    (db.storeCollateralRecord key r).collateralExpirationIndex = db.collateralExpirationIndex := by
  unfold ChainDatabase.storeCollateralRecord ChainDatabase.indexExpiration
  cases hold : db.collateralDb.lookup key with
  | none => rfl
  | some old => exact if_pos (h old hold)

theorem mem_index_other (hx : x.key ≠ key) :
    x ∈ (db.storeCollateralRecord key r).collateralExpirationIndex ↔
      x ∈ db.collateralExpirationIndex := by
  cases hold : db.collateralDb.lookup key with
  | none =>
    rw [indexExpiration_same fun old h => by rw [hold] at h; cases h]
  | some old =>
    by_cases hsame : old.expiration = r.expiration
    · rw [indexExpiration_same fun old' h => by rw [hold] at h; cases h; exact hsame]
    · have hother : ∀ r, x ≠ entryOf key r := fun r he => hx (by rw [he]; rfl)
      rw [mem_indexExpiration hold hsame]
      simp [hother]

theorem Exact.mem_own (h : Exact db) (hx : x.key = key) : x ∈ db.collateralExpirationIndex ↔
      ∃ old, db.collateralDb.lookup key = some old ∧ entryOf key old = x := by
  rw [h, mem_openedIndex, hx]

theorem exact_store_own (h : Exact db) :
    Exact (storeCollateral (key, r) db) ↔ ∀ x, x.key = key →
      (x ∈ (db.storeCollateralRecord key r).collateralExpirationIndex ↔
        ¬ r.isNull ∧ entryOf key r = x) := by
  unfold storeCollateral
  constructor
  · intro hexact x hx
    have hmem := hexact x
    rw [mem_openedIndex_store, if_pos hx] at hmem
    exact hmem
  · intro hown x
    rw [mem_openedIndex_store]
    split
    next hx => exact hown x hx
    next hx => rw [mem_index_other hx, h]

theorem exact_store_new (h : Exact db) (hnone : db.collateralDb.lookup key = none) :
    Exact (storeCollateral (key, r) db) ↔ r.isNull := by
  have hempty : ∀ x, x.key = key → x ∉ db.collateralExpirationIndex := by
    intro x hx hmem
    obtain ⟨old, hold, -⟩ := (h.mem_own hx).mp hmem
    cases hnone.symm.trans hold
  rw [exact_store_own h, indexExpiration_same fun old hold => by cases hnone.symm.trans hold]
  constructor
  · intro hown
    by_contra hr
    exact hempty (entryOf key r) rfl ((hown (entryOf key r) rfl).mpr ⟨hr, rfl⟩)
  · intro hr x hx
    exact ⟨fun hmem => absurd hmem (hempty x hx), fun hnull => absurd hr hnull.1⟩

theorem exact_store_old {r old : CollateralRecord} (h : Exact db)
    (hold : db.collateralDb.lookup key = some old) :
    Exact (storeCollateral (key, r) db) ↔ (r.isNull → old.expiration ≠ r.expiration) := by
  have hmem : ∀ x, x.key = key → (x ∈ db.collateralExpirationIndex ↔ entryOf key old = x) := by
    intro x hx
    rw [h.mem_own hx, hold]
    simp
  rw [exact_store_own h]
  by_cases hsame : old.expiration = r.expiration
  · have hentry : entryOf key old = entryOf key r := by
      unfold entryOf
      rw [hsame]
    rw [indexExpiration_same fun old' hold' => by cases hold.symm.trans hold'; exact hsame]
    constructor
    · intro hown hr
      have hin := (hmem (entryOf key old) rfl).mpr rfl
      exact absurd hr ((hown _ rfl).mp hin).1
    · intro hr x hx
      rw [hmem x hx, hentry]
      exact ⟨fun heq => ⟨fun hnull => hr hnull hsame, heq⟩, fun hown => hown.2⟩
  · refine ⟨fun _ _ => hsame, fun _ x hx => ?_⟩
    rw [mem_indexExpiration hold hsame, hmem x hx]
    constructor
    · rintro (⟨heq, hne⟩ | ⟨hr, rfl⟩)
      · exact absurd heq.symm hne
      · exact ⟨hr, rfl⟩
    · rintro ⟨hr, rfl⟩
      exact Or.inr ⟨hr, rfl⟩

theorem exact_store_iff {call : StoreCall} (h : Exact db) :
    Exact (storeCollateral call db) ↔ Tracked call db := by
  obtain ⟨key, r⟩ := call
  unfold Tracked
  cases hlookup : db.collateralDb.lookup key with
  | none =>
    rw [exact_store_new h hlookup]
    simp
  | some old =>
    rw [exact_store_old h hlookup]
    simp

/-- The index in memory is the one that reopening gives after each of the calls exactly if
no call creates a position or deletes one whose expiration is that of the null record. -/
theorem expirationIndex_exact_iff (calls : List StoreCall) (hstart : Exact db) :
    (∀ n, ∀ x, x ∈ (run storeCollateral (calls.take n) db).collateralExpirationIndex ↔
      x ∈ openedIndex (run storeCollateral (calls.take n) db).collateralDb) ↔
      Meets storeCollateral Tracked calls db :=
  (meets_iff (I := Exact) (fun _ _ => exact_store_iff) hstart).symm

end Model

def positionKey : MarketIndexKey where
  orderPrice := { ratio := 1, quoteAssetId := 22, baseAssetId := 0 }
  owner := 7

def positionAt (expiration : Nat) : CollateralRecord where
  collateralBalance := 10
  payoffBalance := 5
  expiration

def openedDb : @ChainDatabase Fc.plain :=
  letI := Fc.plain
  let records := (∅ : Map MarketIndexKey CollateralRecord).insert positionKey (positionAt 100)
  { collateralDb := records, collateralExpirationIndex := openedIndex records }

theorem expirationIndex_exact_iff_openedDb :
    letI := Fc.plain
    let calls := [(positionKey, positionAt 200)]
    Meets storeCollateral Tracked calls openedDb ∧
      ∀ x, x ∈ (run storeCollateral calls openedDb).collateralExpirationIndex ↔
        x ∈ openedIndex (run storeCollateral calls openedDb).collateralDb := by
  let := Fc.plain
  intro calls
  have hmeets : Meets storeCollateral Tracked calls openedDb :=
    ⟨⟨by decide, fun _ _ => nofun⟩, trivial⟩
  exact ⟨hmeets, (expirationIndex_exact_iff calls fun _ => Iff.rfl).mpr hmeets 1⟩

/-- A position that is created is not put into the index, and one that is deleted by a
record with its own expiration is not taken out of it. -/
theorem expirationIndex_misses_positions :
    letI := Fc.plain
    let created := storeCollateral (positionKey, positionAt 100) {}
    let deleted := storeCollateral (positionKey, { expiration := 100 }) openedDb
    created.collateralExpirationIndex = [] ∧
      openedIndex created.collateralDb = [entryOf positionKey (positionAt 100)] ∧
      deleted.collateralExpirationIndex = [entryOf positionKey (positionAt 100)] ∧
      openedIndex deleted.collateralDb = [] := by
  decide +kernel

end Bts.Blockchain.ExpirationIndex
