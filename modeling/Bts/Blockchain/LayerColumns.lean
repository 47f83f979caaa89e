import Bts.Blockchain.RecordWrites

namespace Bts.Blockchain.LayerColumns

open Base Result Maps Overlay Errors Records MarketRecords Transactions Pending Database Layers
  Changes ApplySpec

inductive LayerCall
  | property (id : ChainProperty) (value : PropertyValue)
  | asset (r : AssetRecord)
  | account (r : AccountRecord)
  | balance (r : BalanceRecord)
  | authorization (assetId : Int) (owner : Nat) (oid : Int)
  | bid (key : MarketIndexKey) (r : OrderRecord)
  | relativeBid (key : MarketIndexKey) (r : OrderRecord)
  | ask (key : MarketIndexKey) (r : OrderRecord)
  | relativeAsk (key : MarketIndexKey) (r : OrderRecord)
  | short (key : MarketIndexKey) (r : OrderRecord)
  | collateral (key : MarketIndexKey) (r : CollateralRecord)
  | transaction (id : Nat) (r : TransactionRecord)
  | slate (id : Nat) (supportedDelegates : List Int)
  | slot (r : SlotRecord)
  | marketHistory (key : MarketHistoryKey) (r : MarketHistoryRecord)
  | marketStatus (r : MarketStatus)
  | feed (r : FeedRecord)
  | burn (key : BurnRecordKey) (r : BurnRecordValue)
  | marketDirty (quoteId baseId : Int)

variable [Fc] {prev below : ChainInterface} {l l' s t : PendingState}

def LayerCall.store (prev : ChainInterface) (l : PendingState) : LayerCall → Except ChainError PendingState
  | .property id value => pure (l.setProperty id value)
  | .asset r => pure (l.storeAssetRecord r)
  | .account r => l.storeAccountRecord r
  | .balance r => pure (l.storeBalanceRecord r)
  | .authorization assetId owner oid => pure (l.authorize assetId owner oid)
  | .bid key r => pure (l.storeBidRecord key r)
  | .relativeBid key r => pure (l.storeRelativeBidRecord key r)
  | .ask key r => pure (l.storeAskRecord key r)
  | .relativeAsk key r => pure (l.storeRelativeAskRecord key r)
  | .short key r => pure (l.storeShortRecord key r)
  | .collateral key r => pure (l.storeCollateralRecord key r)
  | .transaction id r => storeTransaction prev l id r
  | .slate id supportedDelegates => pure (l.storeDelegateSlate id supportedDelegates)
  | .slot r => pure (l.storeSlotRecord r)
  | .marketHistory key r => pure (l.storeMarketHistoryRecord key r)
  | .marketStatus r => pure (l.storeMarketStatus r)
  | .feed r => pure (l.setFeed r)
  | .burn key r => pure (l.storeBurnRecord key r)
  | .marketDirty quoteId baseId => pure (l.setMarketDirty quoteId baseId)

theorem storeTransaction_fields {id : Nat} {r : TransactionRecord}
    (h : storeTransaction prev l id r = .ok l') : ∃ chainId, chainIdOf prev = .ok chainId ∧
      ¬ (forkBlockNumV0426 ≤ prev.getHeadBlockNum ∧ r.trx.digest chainId ∈ l.uniqueTransactions) ∧
      l' = { l with
        transactions := l.transactions.insert id r
        uniqueTransactions := insert (r.trx.digest chainId) l.uniqueTransactions } := by
  simp only [storeTransaction, eq_ok_iff] at h
  obtain ⟨chainId, hchain, _, hfresh, rfl⟩ := h
  exact ⟨chainId, hchain, hfresh, rfl⟩

def merged (s t : PendingState) (index : Map String Int) (keys : Map Nat Int) (unique : Finset Nat) :
    PendingState :=
  PendingState.setDirtyMarkets { mergeRecords s t with
    accounts := mergeTable s.accounts t.accounts
    accountIdIndex := index
    keyToAccount := keys
    transactions := merge s.transactions t.transactions
    uniqueTransactions := unique } s.dirtyMarkets

theorem foldlM_storeAccountRecord {entries : List (Σ _ : Int, AccountRecord)}
    (h : entries.foldlM (fun t e => PendingState.storeAccountRecord t e.2) t = .ok l) :
    ∃ index keys, l = { t with
      accounts := entries.foldl (fun a e => a.store e.2) t.accounts
      accountIdIndex := index
      keyToAccount := keys } := by
  induction entries, t, h using foldlM_induct with
  | nil => exact ⟨_, _, rfl⟩
  | cons e entries t u hu h ih =>
    obtain ⟨keys, rfl⟩ := RecordWrites.storeAccountRecord_fields hu
    exact ih

theorem foldlM_storeTransaction {entries : List (Σ _ : Nat, TransactionRecord)}
    (h : entries.foldlM (fun t e => storeTransaction below t e.1 e.2) t = .ok l) :
    ∃ unique, l = { t with
      transactions := entries.foldl (fun m e => m.insert e.1 e.2) t.transactions
      uniqueTransactions := unique } := by
  induction entries, t, h using foldlM_induct with
  | nil => exact ⟨_, rfl⟩
  | cons e entries t u hu h ih =>
    obtain ⟨chainId, -, -, rfl⟩ := storeTransaction_fields hu
    exact ih

theorem applyChangesTo_merged (h : applyChangesTo s t below = .ok l) :
    ∃ index keys unique, l = merged s t index keys unique := by
  simp only [applyChangesTo, eq_ok_iff] at h
  obtain ⟨u, hu, v, hv, rfl⟩ := h
  obtain ⟨index, keys, rfl⟩ := foldlM_storeAccountRecord hu
  obtain ⟨unique, rfl⟩ := foldlM_storeTransaction hv
  exact ⟨index, keys, unique, rfl⟩

/-- The layer after a call, up to the keys of accounts and the digests of transactions. -/
def LayerCall.effect (l : PendingState) (keys : Map Nat Int) (unique : Finset Nat) :
    LayerCall → PendingState
  | .property id value => l.setProperty id value
  | .asset r => l.storeAssetRecord r
  | .account r => { l with
      accounts := l.accounts.store r
      accountIdIndex := l.accountIdIndex.insert r.name r.id
      keyToAccount := keys }
  | .balance r => l.storeBalanceRecord r
  | .authorization assetId owner oid => l.authorize assetId owner oid
  | .bid key r => l.storeBidRecord key r
  | .relativeBid key r => l.storeRelativeBidRecord key r
  | .ask key r => l.storeAskRecord key r
  | .relativeAsk key r => l.storeRelativeAskRecord key r
  | .short key r => l.storeShortRecord key r
  | .collateral key r => l.storeCollateralRecord key r
  | .transaction id r => { l with
      transactions := l.transactions.insert id r, uniqueTransactions := unique }
  | .slate id supportedDelegates => l.storeDelegateSlate id supportedDelegates
  | .slot r => l.storeSlotRecord r
  | .marketHistory key r => l.storeMarketHistoryRecord key r
  | .marketStatus r => l.storeMarketStatus r
  | .feed r => l.setFeed r
  | .burn key r => l.storeBurnRecord key r
  | .marketDirty quoteId baseId => l.setMarketDirty quoteId baseId

theorem store_effect {call : LayerCall} (h : call.store prev l = .ok l') :
    ∃ keys unique, l' = call.effect l keys unique := by
  cases call with
  | account r =>
    obtain ⟨keys, rfl⟩ := RecordWrites.storeAccountRecord_fields h
    exact ⟨keys, ∅, rfl⟩
  | transaction id r =>
    obtain ⟨chainId, -, -, rfl⟩ := storeTransaction_fields h
    exact ⟨∅, _, rfl⟩
  | _ =>
    cases h
    exact ⟨∅, ∅, rfl⟩

/-- A kind of record: what a layer and the database have of it, what a call writes of it, and
which records the database keeps. -/
structure Column (K V : Type) [DecidableEq K] where
  own : PendingState → K → Option V
  base : ChainDatabase → K → Option V
  keep : V → Option V
  writes : LayerCall → Option (K × V)
  own_empty : ∀ k, own {} k = none
  own_effect : ∀ l keys unique call, own (LayerCall.effect l keys unique call) =
    (writes call).elim (own l) fun w => Function.update (own l) w.1 (some w.2)
  own_merged : ∀ s t index keys unique k,
    own (merged s t index keys unique) k = (own s k).or (own t k)
  base_apply : ∀ {s db db'}, applyChanges s db = .ok () db' → ∀ k,
    base db' k = (own s k).elim (base db k) keep

section Columns

variable {K V : Type} [DecidableEq K]

def mapColumn (get : PendingState → Map K V) (base : ChainDatabase → Map K V) (keep : V → Option V)
    (writes : LayerCall → Option (K × V))
    (happly : ∀ {s db db'}, applyChanges s db = .ok () db' → ∀ k,
      (base db').lookup k = overlay keep (get s) (base db).lookup k)
    (hempty : get {} = ∅ := by rfl)
    (heffect : ∀ l keys unique call, get (LayerCall.effect l keys unique call) =
      (writes call).elim (get l) fun w => (get l).insert w.1 w.2 := by
        intro _ _ _ call; cases call <;> rfl)
    (hmerged : ∀ s t index keys unique k, (get (merged s t index keys unique)).lookup k =
      ((get s).lookup k).or ((get t).lookup k) := by intros; exact lookup_merge _ _ _) :
    Column K V where
  own l k := (get l).lookup k
  base db k := (base db).lookup k
  keep
  writes
  own_empty k := by
    rw [hempty]
    rfl
  own_effect l keys unique call := by
    rw [heffect]
    cases writes call with
    | none => rfl
    | some w =>
      funext k
      change AList.lookup k ((get l).insert w.1 w.2) =
        Function.update (fun k => (get l).lookup k) w.1 (some w.2) k
      rw [lookup_insert, Function.update_apply]
  own_merged := hmerged
  base_apply h k := by
    refine (happly h k).trans ?_
    unfold overlay
    cases (get _).lookup k <;> rfl

def tableColumn {key : V → K} (get : PendingState → Table key) (base : ChainDatabase → Table key)
    (keep : V → Option V) (writes : LayerCall → Option V)
    (happly : ∀ {s db db'}, applyChanges s db = .ok () db' → ∀ k,
      (base db').lookup k = overlay keep (get s).rows (base db).lookup k)
    (hempty : get {} = .empty := by rfl)
    (heffect : ∀ l keys unique call, get (LayerCall.effect l keys unique call) =
      (writes call).elim (get l) (get l).store := by intro _ _ _ call; cases call <;> rfl)
    (hmerged : ∀ s t index keys unique,
      get (merged s t index keys unique) = mergeTable (get s) (get t) := by intros; rfl) :
    Column K V :=
  mapColumn (fun l => (get l).rows) (fun db => (base db).rows) keep
    (fun call => (writes call).map fun v => (key v, v)) happly (congrArg Table.rows hempty)
    (fun l keys unique call => by
      rw [heffect]
      cases writes call <;> rfl)
    fun s t index keys unique k => by
      rw [hmerged]
      exact lookup_mergeTable (get s) (get t) k

end Columns

/-- The properties but for the dirty markets, which are set when changes are applied. -/
def properties : Column ChainProperty PropertyValue where
  own l k := if k = .dirtyMarkets then none else l.properties.lookup k
  base db k := if k = .dirtyMarkets then none else db.propertyDb.lookup k
  keep := dropNull PropertyValue.isNull
  writes
    | .property id value => if id = .dirtyMarkets then none else some (id, value)
    | _ => none
  own_empty k := ite_self none
  own_effect l keys unique call := by
    cases call with
    | property id value =>
      have hstored (k : ChainProperty) := lookup_insert l.properties id value k
      funext k
      simp only [LayerCall.effect, PendingState.setProperty, hstored]
      by_cases hid : id = .dirtyMarkets
      · subst hid
        by_cases hk : k = .dirtyMarkets
        · simp [hk]
        · simp [hk]
      · by_cases hk : k = id
        · subst hk
          simp [hid]
        · simp [hid, hk]
    | _ => rfl
  own_merged s t index keys unique k := by
    change (if k = .dirtyMarkets then none else AList.lookup k
      ((merge s.properties t.properties).insert .dirtyMarkets (.markets s.dirtyMarkets))) = _
    rw [lookup_insert, lookup_merge]
    split_ifs <;> rfl
  base_apply h k := by
    by_cases hk : k = .dirtyMarkets
    · rw [if_pos hk, if_pos hk, if_pos hk]
      rfl
    · rw [if_neg hk, if_neg hk, if_neg hk, applyChanges_properties h k hk]
      unfold overlay
      cases (PendingState.properties _).lookup k <;> rfl

def assets : Column Int AssetRecord :=
  tableColumn (·.assets) (·.assetDb) (dropNull AssetRecord.isNull)
    (fun
      | .asset r => some r
      | _ => none)
    fun h => (applyChanges_applied h).assets

def accounts : Column Int AccountRecord :=
  tableColumn (·.accounts) (·.accountDb) (dropNull AccountRecord.isNull)
    (fun
      | .account r => some r
      | _ => none)
    fun h => (applyChanges_applied h).accounts

def balances : Column Nat BalanceRecord :=
  tableColumn (·.balances) (·.balanceDb) some
    (fun
      | .balance r => some r
      | _ => none)
    fun h => (applyChanges_applied h).balances

def authorizations : Column (Int × Nat) Int :=
  mapColumn (·.authorizations) (·.authDb) (dropNull (· = -1))
    (fun
      | .authorization assetId owner oid => some ((assetId, owner), oid)
      | _ => none)
    applyChanges_authorizations

def bids : Column MarketIndexKey OrderRecord :=
  mapColumn (·.bids) (·.bidDb) (dropNull OrderRecord.isNull)
    (fun
      | .bid key r => some (key, r)
      | _ => none)
    fun h => (applyChanges_applied h).bids

def relativeBids : Column MarketIndexKey OrderRecord :=
  mapColumn (·.relativeBids) (·.relativeBidDb) (dropNull OrderRecord.isNull)
    (fun
      | .relativeBid key r => some (key, r)
      | _ => none)
    fun h => (applyChanges_applied h).relativeBids

def asks : Column MarketIndexKey OrderRecord :=
  mapColumn (·.asks) (·.askDb) (dropNull OrderRecord.isNull)
    (fun
      | .ask key r => some (key, r)
      | _ => none)
    fun h => (applyChanges_applied h).asks

def relativeAsks : Column MarketIndexKey OrderRecord :=
  mapColumn (·.relativeAsks) (·.relativeAskDb) (dropNull OrderRecord.isNull)
    (fun
      | .relativeAsk key r => some (key, r)
      | _ => none)
    fun h => (applyChanges_applied h).relativeAsks

def shorts : Column MarketIndexKey OrderRecord :=
  mapColumn (·.shorts) (·.shortDb) (dropNull OrderRecord.isNull)
    (fun
      | .short key r => some (key, r)
      | _ => none)
    fun h => (applyChanges_applied h).shorts

def collateral : Column MarketIndexKey CollateralRecord :=
  mapColumn (·.collateral) (·.collateralDb) (dropNull CollateralRecord.isNull)
    (fun
      | .collateral key r => some (key, r)
      | _ => none)
    fun h => (applyChanges_applied h).collateral

def transactions : Column Nat TransactionRecord :=
  mapColumn (·.transactions) (·.idToTransactionRecordDb) (dropNull fun r => r.trx.operations = [])
    (fun
      | .transaction key r => some (key, r)
      | _ => none)
    fun h => (applyChanges_applied h).records

def slates : Column Nat (List Int) :=
  mapColumn (·.slates) (·.slateDb) (dropNull (· = []))
    (fun
      | .slate key r => some (key, r)
      | _ => none)
    fun h => (applyChanges_applied h).slates

def slots : Column Nat SlotRecord :=
  tableColumn (·.slots) (·.slotRecordDb) (dropNull SlotRecord.isNull)
    (fun
      | .slot r => some r
      | _ => none)
    fun h => (applyChanges_applied h).slots

def marketHistory : Column MarketHistoryKey MarketHistoryRecord :=
  mapColumn (·.marketHistory) (·.marketHistoryDb) (dropNull MarketHistoryRecord.isNull)
    (fun
      | .marketHistory key r => some (key, r)
      | _ => none)
    fun h => applyChanges_marketHistory h

def marketStatuses : Column (Int × Int) MarketStatus :=
  tableColumn (·.marketStatuses) (·.marketStatusDb) (dropNull MarketStatus.isNull)
    (fun
      | .marketStatus r => some r
      | _ => none)
    fun h => (applyChanges_applied h).marketStatuses

def feeds : Column FeedIndex FeedRecord :=
  tableColumn (·.feeds) (·.feedDb) (dropNull FeedRecord.isNull)
    (fun
      | .feed r => some r
      | _ => none)
    fun h => (applyChanges_applied h).feeds

def burns : Column BurnRecordKey BurnRecordValue :=
  mapColumn (·.burns) (·.burnDb) (dropNull BurnRecordValue.isNull)
    (fun
      | .burn key r => some (key, r)
      | _ => none)
    fun h => applyChanges_burns h

end Bts.Blockchain.LayerColumns
