import Bts.Blockchain.ApplySpec

namespace Bts.Blockchain.UndoSpec

open Base Result Maps Overlay Records Transactions Pending Database Layers Changes ApplySpec

variable [Fc] {db db1 db2 : ChainDatabase} {s t u : PendingState}

/-- What an undo state holds: under each key that `s` writes, the record of the
database or, where there is none, a null record. -/
structure UndoOf (s u : PendingState) (db : ChainDatabase) : Prop where
  properties : ∀ k, k ≠ .dirtyMarkets → u.properties.lookup k =
    (s.properties.lookup k).map fun _ => (db.propertyDb.lookup k).getD .null
  assets : ∀ k, u.assets.lookup k =
    (s.assets.lookup k).map fun r => (db.assetDb.lookup k).getD r.makeNull
  accounts : ∀ k, u.accounts.lookup k =
    (s.accounts.lookup k).map fun r => (db.accountDb.lookup k).getD r.makeNull
  balances : ∀ k, u.balances.lookup k =
    (s.balances.lookup k).map fun r => (db.balanceDb.lookup k).getD r.makeNull
  bids : ∀ k, u.bids.lookup k = (s.bids.lookup k).map fun _ => (db.bidDb.lookup k).getD {}
  asks : ∀ k, u.asks.lookup k = (s.asks.lookup k).map fun _ => (db.askDb.lookup k).getD {}
  shorts : ∀ k, u.shorts.lookup k =
    (s.shorts.lookup k).map fun _ => (db.shortDb.lookup k).getD {}
  collateral : ∀ k, u.collateral.lookup k =
    (s.collateral.lookup k).map fun _ => (db.collateralDb.lookup k).getD {}
  slates : ∀ k, u.slates.lookup k =
    (s.slates.lookup k).map fun _ => (db.slateDb.lookup k).getD []
  feeds : ∀ k, u.feeds.lookup k =
    (s.feeds.lookup k).map fun r => (db.feedDb.lookup k).getD { feed := r.feed }
  slots : u.slots = undoTable s.slots db.slotRecordDb.lookup fun _ => {}
  marketStatuses : u.marketStatuses =
    undoTable s.marketStatuses db.marketStatusDb.lookup fun _ => {}
  transactions : undoMapM s.transactions db.getTransaction (fun _ => .null) = .ok u.transactions
  dirtyMarkets : u.dirtyMarkets = addPairs (storedPairs s) []

theorem storeAccountRecord_accounts {r : AccountRecord} (h : s.storeAccountRecord r = .ok t) :
    t.accounts = s.accounts.store r := by
  simp only [PendingState.storeAccountRecord, eq_ok_iff] at h
  obtain ⟨keys, -, rfl⟩ := h
  rfl

theorem getProperty_database {k : ChainProperty} {v : PropertyValue} :
    (ChainInterface.database db).getProperty k = .ok v ↔ db.propertyDb.lookup k = some v :=
  orThrow_eq_ok

theorem getSlotRecord_database (k : Nat) (v : Option SlotRecord)
    (h : (ChainInterface.database db).getSlotRecord k = .ok v) :
    db.slotRecordDb.lookup k = v := by
  have hget : db.getSlotRecord k = .ok v := h
  simp only [ChainDatabase.getSlotRecord, eq_ok_iff] at hget
  obtain ⟨_, -, hv⟩ := hget
  exact hv

theorem getUndoState_spec (h : getUndoState s (.database db) = .ok u) : UndoOf s u db := by
  simp only [getUndoState, eq_ok_iff] at h
  obtain ⟨properties, hproperties, a, haccounts, transactions, htransactions, slots, hslots,
    rfl⟩ := h
  have hp : properties = undoMap s.properties (fun k => db.propertyDb.lookup k) id := by
    refine undoMapM_eq_ok ?_ hproperties
    intro k v hv
    obtain ⟨w, hw, rfl⟩ := map_eq_ok.mp hv
    exact getProperty_database.mp hw
  have hs := undoTableM_eq_ok getSlotRecord_database hslots
  have ha : a.accounts = undoTable s.accounts db.accountDb.lookup AccountRecord.makeNull := by
    refine foldlM_proj (g := PendingState.accounts) ?_ haccounts
    exact fun e _ v w hvw => storeAccountRecord_accounts hvw
  constructor
  case properties =>
    intro k hk
    refine (AList.lookup_insert_ne hk).trans ?_
    rw [hp, lookup_undoMap]
    cases hv : s.properties.lookup k with
    | none => rfl
    | some v =>
      obtain ⟨w, hw⟩ := undoMapM_reads hproperties hv
      obtain ⟨x, hx, rfl⟩ := map_eq_ok.mp hw
      have hdb := getProperty_database.mp hx
      simp [hdb]
  case assets => exact lookup_undoTable (fun _ _ => Table.key_eq) fun _ => rfl
  case accounts =>
    have hlookup : ∀ k, (undoTable s.accounts db.accountDb.lookup AccountRecord.makeNull).lookup k =
        (s.accounts.lookup k).map fun r => (db.accountDb.lookup k).getD r.makeNull :=
      lookup_undoTable (fun _ _ => Table.key_eq) fun _ => rfl
    rw [← ha] at hlookup
    exact hlookup
  case balances => exact lookup_undoTable (fun _ _ => Table.key_eq) fun _ => rfl
  case bids => exact lookup_undoMap s.bids _ _
  case asks => exact lookup_undoMap s.asks _ _
  case shorts => exact lookup_undoMap s.shorts _ _
  case collateral => exact lookup_undoMap s.collateral _ _
  case slates => exact lookup_undoMap s.slates _ _
  case feeds => exact lookup_undoTable (fun _ _ => Table.key_eq) fun _ => rfl
  case slots => exact hs
  case marketStatuses => rfl
  case transactions => exact htransactions
  case dirtyMarkets => rfl

structure NoNullRecords (db : ChainDatabase) : Prop where
  properties : ∀ k v, db.propertyDb.lookup k = some v → ¬ v.isNull
  assets : ∀ k r, db.assetDb.lookup k = some r → ¬ r.isNull
  accounts : ∀ k r, db.accountDb.lookup k = some r → ¬ r.isNull
  bids : ∀ k r, db.bidDb.lookup k = some r → ¬ r.isNull
  asks : ∀ k r, db.askDb.lookup k = some r → ¬ r.isNull
  shorts : ∀ k r, db.shortDb.lookup k = some r → ¬ r.isNull
  collateral : ∀ k r, db.collateralDb.lookup k = some r → ¬ r.isNull
  slates : ∀ k l, db.slateDb.lookup k = some l → l ≠ []
  feeds : ∀ k r, db.feedDb.lookup k = some r → ¬ r.isNull

structure SameRecords (db db' : ChainDatabase) : Prop where
  properties : ∀ k, k ≠ .dirtyMarkets → db'.propertyDb.lookup k = db.propertyDb.lookup k
  assets : ∀ k, db'.assetDb.lookup k = db.assetDb.lookup k
  accounts : ∀ k, db'.accountDb.lookup k = db.accountDb.lookup k
  balances : ∀ k, (db'.balanceDb.lookup k).filter (fun r => ¬ r.isNull) =
    (db.balanceDb.lookup k).filter fun r => ¬ r.isNull
  bids : ∀ k, db'.bidDb.lookup k = db.bidDb.lookup k
  asks : ∀ k, db'.askDb.lookup k = db.askDb.lookup k
  shorts : ∀ k, db'.shortDb.lookup k = db.shortDb.lookup k
  collateral : ∀ k, db'.collateralDb.lookup k = db.collateralDb.lookup k
  slates : ∀ k, db'.slateDb.lookup k = db.slateDb.lookup k
  feeds : ∀ k, db'.feedDb.lookup k = db.feedDb.lookup k

theorem overlay_restores {K V : Type} [DecidableEq K] {isNull : V → Prop} [DecidablePred isNull]
    {nullOf : V → V} {m w : Map K V} {k : K} (g : ChainDatabase → K → Option V)
    (hb : ∀ v, g db k = some v → ¬ isNull v)
    (hw : w.lookup k = (m.lookup k).map fun v => (g db k).getD (nullOf v))
    (h1 : g db1 k = overlay (dropNull isNull) m (g db) k)
    (h2 : g db2 k = overlay (dropNull isNull) w (g db1) k)
    (hnull : ∀ v, isNull (nullOf v)) : g db2 k = g db k := by
  have hundo := overlay_undo (fun v hv => dropNull_eq_self.mpr (hb v hv)) hw
    fun v => dropNull_eq_none.mpr (hnull v)
  rw [h2, overlay_congr h1, hundo]

theorem undo_sameRecords (hdb : NoNullRecords db) (hu : UndoOf s u db)
    (h1 : Applied s db db1) (h2 : Applied u db1 db2) : SameRecords db db2 where
  properties := fun k hk => overlay_restores (fun d k => d.propertyDb.lookup k)
    (hdb.properties k) (hu.properties k hk)
    (h1.properties k hk) (h2.properties k hk) fun _ => trivial
  assets := fun k => overlay_restores (fun d k => d.assetDb.lookup k)
    (hdb.assets k) (hu.assets k) (h1.assets k) (h2.assets k)
    fun _ => rfl
  accounts := fun k => overlay_restores (fun d k => d.accountDb.lookup k)
    (hdb.accounts k) (hu.accounts k) (h1.accounts k)
    (h2.accounts k) fun _ => rfl
  balances := by
    intro k
    have hu' : u.balances.rows.lookup k =
        (s.balances.rows.lookup k).map fun r => (db.balanceDb.lookup k).getD r.makeNull :=
      hu.balances k
    rw [h2.balances, overlay, hu', h1.balances, overlay]
    cases s.balances.rows.lookup k with
    | none => rfl
    | some r =>
      cases db.balanceDb.lookup k with
      | none => simp [BalanceRecord.makeNull, BalanceRecord.isNull]
      | some w => rfl
  bids := fun k => overlay_restores (fun d k => d.bidDb.lookup k)
    (hdb.bids k) (hu.bids k) (h1.bids k) (h2.bids k) fun _ => rfl
  asks := fun k => overlay_restores (fun d k => d.askDb.lookup k)
    (hdb.asks k) (hu.asks k) (h1.asks k) (h2.asks k) fun _ => rfl
  shorts := fun k => overlay_restores (fun d k => d.shortDb.lookup k)
    (hdb.shorts k) (hu.shorts k) (h1.shorts k) (h2.shorts k)
    fun _ => rfl
  collateral := fun k => overlay_restores (fun d k => d.collateralDb.lookup k)
    (hdb.collateral k) (hu.collateral k) (h1.collateral k)
    (h2.collateral k) fun _ => ⟨rfl, rfl⟩
  slates := fun k => overlay_restores (fun d k => d.slateDb.lookup k)
    (hdb.slates k) (hu.slates k) (h1.slates k) (h2.slates k)
    fun _ => rfl
  feeds := fun k => overlay_restores (fun d k => d.feedDb.lookup k)
    (hdb.feeds k) (hu.feeds k) (h1.feeds k) (h2.feeds k)
    fun _ => rfl

theorem getTransaction_toOption {id : Nat} {v : Option TransactionRecord}
    (h : db.getTransaction id = .ok v) : (db.getTransaction id).toOption.join = v := by
  rw [h]
  rfl

theorem getTransaction_recorded {id : Nat} {r : TransactionRecord}
    (h : (db.getTransaction id).toOption.join = some r) :
    db.idToTransactionRecordDb.lookup id = some r ∧ r.trx.id = id := by
  cases hg : db.getTransaction id with
  | error e => simp [hg, Except.toOption] at h
  | ok v =>
    have hv : v = some r := by simpa [hg, Except.toOption] using h
    subst hv
    simp only [ChainDatabase.getTransaction, eq_ok_iff] at hg
    obtain ⟨_, -, hg⟩ := hg
    cases hl : db.idToTransactionRecordDb.lookup id with
    | none => simp [hl] at hg
    | some w =>
      simp only [hl, eq_ok_iff] at hg
      obtain ⟨_, hid, hw⟩ := hg
      cases hw
      exact ⟨rfl, hid⟩

end Bts.Blockchain.UndoSpec
