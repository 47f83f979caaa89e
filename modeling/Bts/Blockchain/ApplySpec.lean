import Bts.Blockchain.AccountStore
import Bts.Blockchain.Changes
import Bts.Blockchain.TransactionStore

namespace Bts.Blockchain.ApplySpec

open Base Result Exec Maps Overlay Amounts Records MarketRecords Transactions Pending Database
  AccountStore TransactionStore Changes

variable [Fc] {db db' : ChainDatabase} {s : PendingState}

/-- The databases that agree with `db` except for the accounts and their indexes. -/
def AccountsOnly (db db' : ChainDatabase) : Prop :=
  ∃ a, IndexesOnly { db with accountDb := a } db'

theorem storeAccountRecord_keeps (r : AccountRecord) :
    Keeps (AccountsOnly db) (Stores.storeAccountRecord r) := by
  rintro _ ⟨a, i, ad, v, rfl⟩
  obtain ⟨a', ⟨i', ad', v', he⟩, -⟩ := storeAccountRecord_spec r { db with
    accountDb := a, accountIndexDb := i, addressToAccountDb := ad, delegateVoteIndexDb := v }
  exact ⟨a', i', ad', v', he⟩

/-- What of a database the loop at `i` of `apply_changes` writes, with the blocks. The dirty markets
are the last loop's. -/
def columnsOf (i : Nat) (db : ChainDatabase) : ChainDatabase where
  toBlockStore := db.toBlockStore
  propertyDb := if i = 0 then db.propertyDb.erase .dirtyMarkets else ∅
  assetDb := if i = 1 then db.assetDb else .empty
  symbolIndexDb := if i = 1 then db.symbolIndexDb else ∅
  accountDb := if i = 2 then db.accountDb else .empty
  accountIndexDb := if i = 2 then db.accountIndexDb else ∅
  addressToAccountDb := if i = 2 then db.addressToAccountDb else ∅
  delegateVoteIndexDb := if i = 2 then db.delegateVoteIndexDb else []
  balanceDb := if i = 3 then db.balanceDb else .empty
  authDb := if i = 4 then db.authDb else ∅
  bidDb := if i = 5 then db.bidDb else ∅
  relativeBidDb := if i = 6 then db.relativeBidDb else ∅
  askDb := if i = 7 then db.askDb else ∅
  relativeAskDb := if i = 8 then db.relativeAskDb else ∅
  shortDb := if i = 9 then db.shortDb else ∅
  collateralDb := if i = 10 then db.collateralDb else ∅
  collateralExpirationIndex := if i = 10 then db.collateralExpirationIndex else []
  idToTransactionRecordDb := if i = 11 then db.idToTransactionRecordDb else ∅
  uniqueTransactions := if i = 11 then db.uniqueTransactions else ∅
  slateDb := if i = 12 then db.slateDb else ∅
  slotRecordDb := if i = 13 then db.slotRecordDb else .empty
  marketHistoryDb := if i = 14 then db.marketHistoryDb else ∅
  marketStatusDb := if i = 15 then db.marketStatusDb else .empty
  feedDb := if i = 16 then db.feedDb else .empty
  burnDb := if i = 17 then db.burnDb else ∅
  marketTransactionsDb := if i = 18 then db.marketTransactionsDb else ∅

theorem setMarketTransactions_frame {τ : Type} {g : ChainDatabase → τ}
    (hg : ∀ db t, g { db with marketTransactionsDb := t } = g db) (l : List MarketTransaction)
    (db : ChainDatabase) : g (endState (Stores.setMarketTransactions l db)) = g db := by
  have hk : Keeps (fun d => g d = g db) (Stores.setMarketTransactions l) := by
    refine Keeps.bindRead fun d => Keeps.bindLift fun _ => ?_
    exact Keeps.update fun d hd => (hg d _).trans hd
  exact hk db rfl

theorem columnsOf_setDirtyMarkets (i : Nat) (db : ChainDatabase) (l : List AssetPair) :
    columnsOf i (db.setDirtyMarkets l) = columnsOf i db := by
  have herase : (db.setDirtyMarkets l).propertyDb.erase .dirtyMarkets =
      db.propertyDb.erase .dirtyMarkets := by
    apply AList.ext
    have hput : (db.setDirtyMarkets l).propertyDb =
        db.propertyDb.insert .dirtyMarkets (.markets l) := by
      simp [ChainDatabase.setDirtyMarkets, ChainDatabase.setProperty, putMap, PropertyValue.isNull]
    exact List.kerase_cons_eq (a := ChainProperty.dirtyMarkets) (s := ⟨_, .markets l⟩) rfl
  unfold columnsOf
  rfl

open ChainDatabase in
theorem changeLoops_frame {τ : Type} {g : ChainDatabase → τ} {i : Nat}
    (hg : ∀ d, g (columnsOf i d) = g d) (c : DbAction Unit) (hc : c ∈ (changeLoops s).eraseIdx i)
    (db : ChainDatabase) : g (endState (id c db)) = g db := by
  suffices hframe : columnsOf i (endState (id c db)) = columnsOf i db by rw [← hg, hframe, hg]
  rw [List.mem_eraseIdx_iff_getElem?] at hc
  obtain ⟨j, hj, hc⟩ := hc
  match j, hc with
  | 0, rfl | 1, rfl | 3, rfl | 4, rfl | 5, rfl | 6, rfl | 7, rfl | 8, rfl | 9, rfl | 10, rfl
  | 12, rfl | 13, rfl | 14, rfl | 15, rfl | 16, rfl | 17, rfl =>
    exact forEach_frame (fun e _ d => by
      simp only [columnsOf, endState, update, setProperty, storeAssetRecord, storeBalanceRecord,
      authorize, storeBidRecord, storeRelativeBidRecord, storeAskRecord, storeRelativeAskRecord,
      storeShortRecord, storeCollateralRecord, storeDelegateSlate, storeSlotRecord,
      storeMarketHistoryRecord, storeMarketStatus, setFeed, storeBurnRecord, if_neg hj.symm]) db
  | 2, rfl =>
    have hk : Keeps (AccountsOnly db) (forEach s.accounts.rows.entries fun e =>
        Stores.storeAccountRecord e.2) := Keeps.forEach fun e _ => storeAccountRecord_keeps e.2
    obtain ⟨_, _, _, _, hend⟩ := hk db ⟨_, indexesOnly_refl⟩
    exact hend ▸ by simp only [columnsOf, if_neg hj.symm]
  | 11, rfl =>
    have hk : Keeps (TransactionsOnly db) (forEach s.transactions.entries fun e =>
        Stores.storeTransaction e.1 e.2) := Keeps.forEach fun e _ => storeTransaction_keeps
    obtain ⟨_, _, hend⟩ := hk db ⟨_, _, rfl⟩
    exact hend ▸ by simp only [columnsOf, if_neg hj.symm]
  | 18, rfl =>
    exact setMarketTransactions_frame (fun d t => by simp only [columnsOf, if_neg hj.symm]) _ db
  | 19, rfl =>
    exact columnsOf_setDirtyMarkets i db _
  | n + 20, hc => cases hc

theorem applyChanges_only {τ : Type} (g : ChainDatabase → τ) (i : Nat) {c : DbAction Unit}
    (hi : (changeLoops s)[i]? = some c) (hg : ∀ d, g (columnsOf i d) = g d)
    (h : applyChanges s db = .ok () db') : ∃ u v, g u = g db ∧ c u = .ok () v ∧ g db' = g v :=
  forEach_only g i hi (changeLoops_frame hg) h

/-- What the changes of a layer are once they have been applied to the database. -/
structure Applied (s : PendingState) (db db' : ChainDatabase) : Prop where
  blocks : db'.toBlockStore = db.toBlockStore
  trackStats : db.trackStats = true
  properties : ∀ k, k ≠ .dirtyMarkets → db'.propertyDb.lookup k =
    overlay (dropNull PropertyValue.isNull) s.properties db.propertyDb.lookup k
  dirty : db'.propertyDb.lookup .dirtyMarkets = some (.markets s.dirtyMarkets)
  assets : ∀ k, db'.assetDb.lookup k =
    overlay (dropNull AssetRecord.isNull) s.assets.rows db.assetDb.lookup k
  accounts : ∀ k, db'.accountDb.lookup k =
    overlay (dropNull AccountRecord.isNull) s.accounts.rows db.accountDb.lookup k
  balances : ∀ k, db'.balanceDb.lookup k = overlay some s.balances.rows db.balanceDb.lookup k
  bids : ∀ k, db'.bidDb.lookup k =
    overlay (dropNull OrderRecord.isNull) s.bids db.bidDb.lookup k
  relativeBids : ∀ k, db'.relativeBidDb.lookup k =
    overlay (dropNull OrderRecord.isNull) s.relativeBids db.relativeBidDb.lookup k
  asks : ∀ k, db'.askDb.lookup k =
    overlay (dropNull OrderRecord.isNull) s.asks db.askDb.lookup k
  relativeAsks : ∀ k, db'.relativeAskDb.lookup k =
    overlay (dropNull OrderRecord.isNull) s.relativeAsks db.relativeAskDb.lookup k
  shorts : ∀ k, db'.shortDb.lookup k =
    overlay (dropNull OrderRecord.isNull) s.shorts db.shortDb.lookup k
  collateral : ∀ k, db'.collateralDb.lookup k =
    overlay (dropNull CollateralRecord.isNull) s.collateral db.collateralDb.lookup k
  records : ∀ k, db'.idToTransactionRecordDb.lookup k =
    overlay (dropNull fun r => r.trx.operations = []) s.transactions
      db.idToTransactionRecordDb.lookup k
  unique : ∀ x, x ∈ db'.uniqueTransactions ↔ x ∈ db.uniqueTransactions ∨
    ∃ id r, s.transactions.lookup id = some r ∧ Remembered db r ∧ x = entryOf db r
  ids : ∀ id r, s.transactions.lookup id = some r → r.trx.operations ≠ [] → r.trx.id = id
  fresh : ∀ id r, s.transactions.lookup id = some r → Remembered db r → ¬ Duplicate db id r
  slates : ∀ k, db'.slateDb.lookup k = overlay (dropNull (· = [])) s.slates db.slateDb.lookup k
  slots : ∀ k, db'.slotRecordDb.lookup k =
    overlay (dropNull SlotRecord.isNull) s.slots.rows db.slotRecordDb.lookup k
  marketStatuses : ∀ k, db'.marketStatusDb.lookup k =
    overlay (dropNull MarketStatus.isNull) s.marketStatuses.rows db.marketStatusDb.lookup k
  feeds : ∀ k, db'.feedDb.lookup k =
    overlay (dropNull FeedRecord.isNull) s.feeds.rows db.feedDb.lookup k

theorem forEach_storeAccountRecord {t : Table AccountRecord.id}
    (h : forEach t.rows.entries (fun e => Stores.storeAccountRecord e.2) db = .ok () db') :
    AccountsOnly db db' ∧ ∀ k, db'.accountDb.lookup k =
      overlay (dropNull AccountRecord.isNull) t.rows db.accountDb.lookup k := by
  constructor
  · have hk : Keeps (AccountsOnly db) (forEach t.rows.entries fun e =>
        Stores.storeAccountRecord e.2) := Keeps.forEach fun e _ => storeAccountRecord_keeps e.2
    have hend := hk db ⟨_, indexesOnly_refl⟩
    rw [h] at hend
    exact hend
  · intro k
    rw [forEach_run_ok h]
    apply foldl_overlay (dropNull AccountRecord.isNull) (fun (d : ChainDatabase) k => d.accountDb.lookup k)
      t.rows
    intro e he d j
    obtain ⟨a, ⟨i, ad, v, hd⟩, ha⟩ := storeAccountRecord_spec e.2 d
    rw [hd, ha, t.keyed (lookup_of_mem he)]

theorem changeLoops_blocks (l : List (DbAction Unit)) (hl : l ⊆ changeLoops s)
    (db : ChainDatabase) : (endState (forEach l id db)).toBlockStore = db.toBlockStore := by
  apply forEach_frame
  intro c hc
  apply changeLoops_frame (s := s) (g := (·.toBlockStore)) (i := 20) fun _ => rfl
  exact hl hc

theorem applyChanges_blocks (h : applyChanges s db = .ok () db') :
    db'.toBlockStore = db.toBlockStore := by
  have hframe := changeLoops_blocks (changeLoops s) (List.Subset.refl _) db
  have hrun : forEach (changeLoops s) id db = .ok () db' := h
  rw [hrun] at hframe
  exact hframe

theorem applyChanges_trackStats (h : applyChanges s db = .ok () db') : db.trackStats = true := by
  obtain ⟨u, v, hu, hv, ht⟩ := applyChanges_only (·.trackStats) 18 rfl (fun _ => rfl) h
  simp only [Stores.setMarketTransactions, bind_run_ok, read_run_ok, lift_run_ok,
    update_run_ok, require_eq_ok] at hv
  obtain ⟨_, _, ⟨rfl, rfl⟩, _, _, ⟨htrack, rfl⟩, rfl⟩ := hv
  exact hu.symm.trans htrack

theorem applyChanges_tracked {K V : Type} [DecidableEq K] {norm : V → Option V} {m : Map K V}
    {f : (Σ _ : K, V) → ChainDatabase → ChainDatabase} (get : ChainDatabase → K → Option V)
    (i : Nat) (hi : (changeLoops s)[i]? = some (forEach m.entries fun e => update (f e)))
    (hg : ∀ d, get (columnsOf i d) = get d)
    (htrack : ∀ e d, (f e d).trackStats = d.trackStats)
    (hf : ∀ e ∈ m.entries, ∀ d, d.trackStats = true → ∀ j,
      get (f e d) j = if j = e.1 then norm e.2 else get d j)
    (h : applyChanges s db = .ok () db') (k : K) : get db' k = overlay norm m (get db) k := by
  obtain ⟨u, v, hu, hv, ht⟩ := applyChanges_only (fun d => (d.trackStats, get d)) i hi
    (fun d => congrArg (Prod.mk d.trackStats) (hg d)) h
  rw [Prod.mk.injEq] at hu ht
  rw [forEach_update] at hv
  cases hv
  have hutrack : u.trackStats = true := hu.1.trans (applyChanges_trackStats h)
  have hoverlay := foldl_dlookup (fun _ => norm) get (P := (·.trackStats = true))
    (fun e d hd => (htrack e d).trans hd) hf m.nodupKeys hutrack k
  rw [hu.2] at hoverlay
  exact (congrFun ht.2 k).trans hoverlay

theorem setDirtyMarkets_lookup (d : ChainDatabase) (l : List AssetPair) (k : ChainProperty) :
    (d.setDirtyMarkets l).propertyDb.lookup k =
      if k = .dirtyMarkets then some (.markets l) else d.propertyDb.lookup k :=
  lookup_putMap PropertyValue.isNull d.propertyDb .dirtyMarkets (.markets l) k

/-- What the loop over transactions reads of a database. -/
def transactionView (d : ChainDatabase) :
    BlockStore × Finset (Nat × Nat) × Map Nat TransactionRecord :=
  (d.toBlockStore, d.uniqueTransactions, d.idToTransactionRecordDb)

variable {d : ChainDatabase}

section

variable (h : transactionView d = transactionView db)
include h

theorem view_remembered (r : TransactionRecord) : Remembered d r ↔ Remembered db r := by
  have hblocks : d.toBlockStore = db.toBlockStore := congrArg Prod.fst h
  unfold Remembered
  rw [hblocks]

theorem view_entryOf (r : TransactionRecord) : entryOf d r = entryOf db r := by
  have hblocks : d.toBlockStore = db.toBlockStore := congrArg Prod.fst h
  unfold entryOf
  rw [hblocks]

theorem view_duplicate (id : Nat)
    (r : TransactionRecord) : Duplicate d id r ↔ Duplicate db id r := by
  have hentry := view_entryOf h r
  simp only [transactionView, Prod.mk.injEq] at h
  obtain ⟨hblocks, hunique, hrecords⟩ := h
  unfold Duplicate
  rw [hentry, hblocks, hunique, hrecords]

end

section

variable (h : applyChanges s db = .ok () db')
include h

theorem applyChanges_slots (k : Nat) :
    db'.slotRecordDb.lookup k =
      overlay (dropNull SlotRecord.isNull) s.slots.rows db.slotRecordDb.lookup k := by
  refine applyChanges_tracked (fun d => d.slotRecordDb.lookup) 13 rfl (fun _ => rfl) (fun _ _ => rfl)
    (fun e he d hd j => ?_) h k
  have hstored : (d.storeSlotRecord e.2).slotRecordDb =
      putTable SlotRecord.isNull d.slotRecordDb e.2 := if_pos hd
  rw [hstored, lookup_putTable, s.slots.keyed (lookup_of_mem he)]

theorem applyChanges_marketHistory (k : MarketHistoryKey) :
    db'.marketHistoryDb.lookup k =
      overlay (dropNull MarketHistoryRecord.isNull) s.marketHistory db.marketHistoryDb.lookup k := by
  refine applyChanges_tracked (fun d k => d.marketHistoryDb.lookup k) 14 rfl (fun _ => rfl) (fun _ _ => rfl)
    (fun e he d hd j => ?_) h k
  have hstored : (d.storeMarketHistoryRecord e.1 e.2).marketHistoryDb =
      putMap MarketHistoryRecord.isNull d.marketHistoryDb e.1 e.2 := if_pos hd
  rw [hstored, lookup_putMap]

theorem applyChanges_burns (k : BurnRecordKey) :
    db'.burnDb.lookup k = overlay (dropNull BurnRecordValue.isNull) s.burns db.burnDb.lookup k := by
  refine applyChanges_tracked (fun d k => d.burnDb.lookup k) 17 rfl (fun _ => rfl) (fun _ _ => rfl)
    (fun e he d hd j => ?_) h k
  have hstored : (d.storeBurnRecord e.1 e.2).burnDb =
      putMap BurnRecordValue.isNull d.burnDb e.1 e.2 := if_pos hd
  rw [hstored, lookup_putMap]

theorem applyChanges_authorizations (k : Int × Nat) :
    db'.authDb.lookup k = overlay (dropNull (· = -1)) s.authorizations db.authDb.lookup k :=
  applyChanges_tracked (fun d k => d.authDb.lookup k) 4 rfl (fun _ => rfl) (fun _ _ => rfl)
    (fun e _ d _ j => lookup_putMap (· = -1) d.authDb e.1 e.2 j) h k

theorem applyChanges_accounts (k : Int) :
    db'.accountDb.lookup k =
      overlay (dropNull AccountRecord.isNull) s.accounts.rows db.accountDb.lookup k := by
  obtain ⟨u, v, hu, hv, ht⟩ := applyChanges_only (·.accountDb) 2 rfl (fun _ => rfl) h
  rw [ht, (forEach_storeAccountRecord hv).2, hu]

theorem applyChanges_properties (k : ChainProperty)
    (hk : k ≠ .dirtyMarkets) : db'.propertyDb.lookup k =
      overlay (dropNull PropertyValue.isNull) s.properties db.propertyDb.lookup k := by
  obtain ⟨u, v, hu, hv, ht⟩ := applyChanges_only (·.propertyDb.lookup k) 0 rfl
    (fun d => AList.lookup_erase_ne hk) h
  rw [forEach_update] at hv
  cases hv
  have hfold : (s.properties.entries.foldl (fun d e => d.setProperty e.1 e.2) u).propertyDb.lookup k
      = overlay (dropNull PropertyValue.isNull) s.properties u.propertyDb.lookup k :=
    foldl_overlay (dropNull PropertyValue.isNull)
      (fun (d : ChainDatabase) k => d.propertyDb.lookup k) s.properties
      (fun e _ d j => lookup_putMap PropertyValue.isNull d.propertyDb e.1 e.2 j) u k
  rw [ht, hfold]
  exact overlay_congr hu

theorem applyChanges_dirty :
    db'.propertyDb.lookup .dirtyMarkets = some (.markets s.dirtyMarkets) := by
  rw [forEach_run_ok h]
  exact setDirtyMarkets_lookup _ s.dirtyMarkets .dirtyMarkets

theorem applyChanges_stored :
    ∃ u v, transactionView u = transactionView db ∧ Stored s.transactions.entries u v ∧
      transactionView db' = transactionView v := by
  obtain ⟨u, v, hu, hv, ht⟩ := applyChanges_only transactionView 11 rfl (fun _ => rfl) h
  have hblocks : u.toBlockStore = db.toBlockStore := congrArg Prod.fst hu
  have htrack : u.trackStats = true := by
    rw [hblocks]
    exact applyChanges_trackStats h
  exact ⟨u, v, hu, forEach_stored s.transactions.nodupKeys htrack hv, ht⟩

theorem applyChanges_records (k : Nat) :
    db'.idToTransactionRecordDb.lookup k = overlay (dropNull fun r => r.trx.operations = [])
      s.transactions db.idToTransactionRecordDb.lookup k := by
  obtain ⟨u, v, hu, hs, hv⟩ := applyChanges_stored h
  simp only [transactionView, Prod.mk.injEq] at hu hv
  rw [hv.2.2, hs.records, hu.2.2, overlay]
  cases hk : s.transactions.lookup k with
  | none =>
    rw [AList.lookup] at hk
    rw [hk]
  | some r =>
    rw [AList.lookup] at hk
    rw [hk]

theorem applyChanges_unique (x : Nat × Nat) :
    x ∈ db'.uniqueTransactions ↔ x ∈ db.uniqueTransactions ∨
      ∃ id r, s.transactions.lookup id = some r ∧ Remembered db r ∧ x = entryOf db r := by
  obtain ⟨u, v, hu, hs, hv⟩ := applyChanges_stored h
  have hset : db'.uniqueTransactions = v.uniqueTransactions := congrArg (·.2.1) hv
  have hset' : u.uniqueTransactions = db.uniqueTransactions := congrArg (·.2.1) hu
  rw [hset, hs.unique, hset']
  refine or_congr_right ?_
  constructor
  · rintro ⟨e, he, hr, hx⟩
    exact ⟨e.1, e.2, lookup_of_mem he, (view_remembered hu _).mp hr, hx.trans (view_entryOf hu _)⟩
  · rintro ⟨id, r, hr, hrem, hx⟩
    exact ⟨⟨id, r⟩, mem_of_lookup hr, (view_remembered hu r).mpr hrem,
      hx.trans (view_entryOf hu r).symm⟩

theorem applyChanges_applied : Applied s db db' where
  blocks := applyChanges_blocks h
  trackStats := applyChanges_trackStats h
  properties := applyChanges_properties h
  dirty := applyChanges_dirty h
  assets := applyChanges_tracked (fun d => d.assetDb.lookup) 1 rfl (fun _ => rfl) (fun _ _ => rfl)
    (fun e he d _ j => by
      rw [ChainDatabase.storeAssetRecord, lookup_putTable, s.assets.keyed (lookup_of_mem he)]) h
  accounts := applyChanges_accounts h
  balances := applyChanges_tracked (fun d => d.balanceDb.lookup) 3 rfl (fun _ => rfl) (fun _ _ => rfl)
    (fun e he d _ j => by
      rw [ChainDatabase.storeBalanceRecord, Table.lookup_store,
        s.balances.keyed (lookup_of_mem he)]) h
  bids := applyChanges_tracked (fun d k => d.bidDb.lookup k) 5 rfl (fun _ => rfl) (fun _ _ => rfl)
    (fun e _ d _ j => lookup_putMap OrderRecord.isNull d.bidDb e.1 e.2 j) h
  relativeBids := applyChanges_tracked (fun d k => d.relativeBidDb.lookup k) 6 rfl (fun _ => rfl) (fun _ _ => rfl)
    (fun e _ d _ j => lookup_putMap OrderRecord.isNull d.relativeBidDb e.1 e.2 j) h
  asks := applyChanges_tracked (fun d k => d.askDb.lookup k) 7 rfl (fun _ => rfl) (fun _ _ => rfl)
    (fun e _ d _ j => lookup_putMap OrderRecord.isNull d.askDb e.1 e.2 j) h
  relativeAsks := applyChanges_tracked (fun d k => d.relativeAskDb.lookup k) 8 rfl (fun _ => rfl) (fun _ _ => rfl)
    (fun e _ d _ j => lookup_putMap OrderRecord.isNull d.relativeAskDb e.1 e.2 j) h
  shorts := applyChanges_tracked (fun d k => d.shortDb.lookup k) 9 rfl (fun _ => rfl) (fun _ _ => rfl)
    (fun e _ d _ j => lookup_putMap OrderRecord.isNull d.shortDb e.1 e.2 j) h
  collateral := applyChanges_tracked (fun d k => d.collateralDb.lookup k) 10 rfl (fun _ => rfl) (fun _ _ => rfl)
    (fun e _ d _ j => lookup_putMap CollateralRecord.isNull d.collateralDb e.1 e.2 j) h
  records := applyChanges_records h
  unique := applyChanges_unique h
  ids := by
    intro id r hr hops
    obtain ⟨u, v, hu, hs, hv⟩ := applyChanges_stored h
    exact hs.ids ⟨id, r⟩ (mem_of_lookup hr) hops
  fresh := by
    intro id r hr hrem hdup
    obtain ⟨u, v, hu, hs, hv⟩ := applyChanges_stored h
    exact hs.fresh ⟨id, r⟩ (mem_of_lookup hr) ((view_remembered hu r).mpr hrem)
      ((view_duplicate hu id r).mpr hdup)
  slates := applyChanges_tracked (fun d k => d.slateDb.lookup k) 12 rfl (fun _ => rfl) (fun _ _ => rfl)
    (fun e _ d _ j => lookup_putMap (· = []) d.slateDb e.1 e.2 j) h
  slots := applyChanges_slots h
  marketStatuses := applyChanges_tracked (fun d => d.marketStatusDb.lookup) 15 rfl (fun _ => rfl) (fun _ _ => rfl)
    (fun e he d _ j => by
      rw [ChainDatabase.storeMarketStatus, lookup_putTable,
        s.marketStatuses.keyed (lookup_of_mem he)]) h
  feeds := applyChanges_tracked (fun d => d.feedDb.lookup) 16 rfl (fun _ => rfl) (fun _ _ => rfl)
    (fun e he d _ j => by
      rw [ChainDatabase.setFeed, lookup_putTable, s.feeds.keyed (lookup_of_mem he)]) h

end

end Bts.Blockchain.ApplySpec
