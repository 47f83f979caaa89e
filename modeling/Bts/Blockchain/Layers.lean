import Mathlib.Data.List.Sort
import Bts.Blockchain.Stores

namespace Bts.Blockchain.Layers

open Base Result Maps Errors Amounts Records MarketRecords Transactions Pending Database

variable [Fc] {α : Type}

/-- A `chain_interface`: the database, or a layer of changes on another one. -/
inductive ChainInterface
  | database (db : ChainDatabase)
  | pending (layer : PendingState) (prev : ChainInterface)

/-- The median of the fresh feeds that active delegates publish for a pair. -/
def medianDelegatePrice (db : ChainDatabase) (active : List Int) (quoteId baseId : Int) :
    Option Price :=
  let prices := db.feedDb.rows.entries.filterMap fun e =>
    match e.2.value with
    | .price p =>
      if e.1.feedId = quoteId ∧ 0 ≤ e.1.delegateId ∧ e.1.delegateId ∈ active ∧
          db.now < e.2.lastUpdate + secondsPerDay ∧
          p.quoteAssetId = quoteId ∧ p.baseAssetId = baseId then some p
      else none
    | _ => none
  if minFeeds ≤ prices.length then
    (prices.insertionSort fun a b => ¬ Price.lt b a)[prices.length / 2]?
  else none

namespace ChainInterface

def root : ChainInterface → ChainDatabase
  | .database db => db
  | .pending _ prev => prev.root

/-- The lookup shared by the getters: the topmost layer that has an entry answers. -/
def find (own : PendingState → Option α) (base : ChainDatabase → Option α) :
    ChainInterface → Option α
  | .database db => base db
  | .pending layer prev => (own layer).or (prev.find own base)

section Tables

variable {K V : Type} [DecidableEq K] {key : V → K} (own : PendingState → Table key)
  (base : ChainDatabase → Table key) {k : K} {v : V}

theorem find_key {c : ChainInterface}
    (h : c.find (fun l => (own l).lookup k) (fun db => (base db).lookup k) = some v) : key v = k := by
  induction c with
  | database db => exact Table.key_eq h
  | pending layer prev ih =>
    rcases Option.or_eq_some_iff.mp h with hown | ⟨-, hprev⟩
    · exact Table.key_eq hown
    · exact ih hprev

theorem find_store {l l' : PendingState} {prev : ChainInterface} (h : own l' = (own l).store v) (k : K) :
    (pending l' prev).find (fun l => (own l).lookup k) (fun db => (base db).lookup k) =
      if k = key v then some v
      else (pending l prev).find (fun l => (own l).lookup k) fun db => (base db).lookup k := by
  change ((own l').lookup k).or _ = if _ then _ else ((own l).lookup k).or _
  rw [h, Table.lookup_store]
  split
  · rfl
  · rfl

end Tables

variable (c : ChainInterface)

def getHeadBlockNum : Nat := c.root.getHeadBlockNum
def now : Nat := c.root.now

def getAssetRecord (id : Int) : Option AssetRecord :=
  c.find (·.assets.lookup id) (·.assetDb.lookup id)

def getAccountRecord (id : Int) : Option AccountRecord :=
  c.find (·.accounts.lookup id) (·.accountDb.lookup id)

def getBalanceRecord (id : Nat) : Option BalanceRecord :=
  c.find (·.balances.lookup id) (·.balanceDb.lookup id)

def getDelegateSlate (id : Nat) : Option (List Int) :=
  c.find (·.slates.lookup id) (·.slateDb.lookup id)

def getBidRecord (key : MarketIndexKey) : Option OrderRecord :=
  c.find (·.bids.lookup key) (·.bidDb.lookup key)

def getAskRecord (key : MarketIndexKey) : Option OrderRecord :=
  c.find (·.asks.lookup key) (·.askDb.lookup key)

def getRelativeBidRecord (key : MarketIndexKey) : Option OrderRecord :=
  c.find (·.relativeBids.lookup key) (·.relativeBidDb.lookup key)

def getRelativeAskRecord (key : MarketIndexKey) : Option OrderRecord :=
  c.find (·.relativeAsks.lookup key) (·.relativeAskDb.lookup key)

def getShortRecord (key : MarketIndexKey) : Option OrderRecord :=
  c.find (·.shorts.lookup key) (·.shortDb.lookup key)

def getCollateralRecord (key : MarketIndexKey) : Option CollateralRecord :=
  c.find (·.collateral.lookup key) (·.collateralDb.lookup key)

def getMarketStatus (quoteId baseId : Int) : Option MarketStatus :=
  c.find (·.marketStatuses.lookup (quoteId, baseId)) (·.marketStatusDb.lookup (quoteId, baseId))

def getFeed (i : FeedIndex) : Option FeedRecord :=
  c.find (·.feeds.lookup i) (·.feedDb.lookup i)

/-- `get_authorization`. A layer takes an authorization back with the id `-1`. -/
def getAuthorization (assetId : Int) (owner : Nat) : Option Int :=
  (c.find (·.authorizations.lookup (assetId, owner)) (·.authDb.lookup (assetId, owner))).filter
    (· ≠ -1)

def getProperty (id : ChainProperty) : Except ChainError PropertyValue :=
  orThrow (c.find (·.properties.lookup id) (·.propertyDb.lookup id)) .keyNotFound

/-- `get_asset_record( symbol )`. No store function fills the index of a layer. -/
def getAssetRecordBySymbol (symbol : String) : ChainInterface → Option AssetRecord
  | .database db => db.getAssetRecordBySymbol symbol
  | .pending layer prev =>
    match layer.symbolIdIndex.lookup (if symbol = "BTSX" then blockchainSymbol else symbol) with
    | some id => (pending layer prev).getAssetRecord id
    | none => prev.getAssetRecordBySymbol symbol

def getAccountRecordByName (name : String) : ChainInterface → Option AccountRecord
  | .database db => db.getAccountRecordByName name
  | .pending layer prev =>
    match layer.accountIdIndex.lookup name with
    | some id => (pending layer prev).getAccountRecord id
    | none => prev.getAccountRecordByName name

def getAccountRecordByAddress (owner : Nat) : ChainInterface → Option AccountRecord
  | .database db => db.getAccountRecordByAddress owner
  | .pending layer prev =>
    match layer.keyToAccount.lookup owner with
    | some id => (pending layer prev).getAccountRecord id
    | none => prev.getAccountRecordByAddress owner

def getTransaction (id : Nat) : ChainInterface → Except ChainError (Option TransactionRecord)
  | .database db => db.getTransaction id
  | .pending layer prev =>
    match layer.transactions.lookup id with
    | some r => pure (some r)
    | none => prev.getTransaction id

def isKnownTransaction (expiration digest : Nat) : ChainInterface → Bool
  | .database db => decide (db.isKnownTransaction expiration digest)
  | .pending layer prev =>
    digest ∈ layer.uniqueTransactions || prev.isKnownTransaction expiration digest

def getSlotRecord (startTime : Nat) : ChainInterface → Except ChainError (Option SlotRecord)
  | .database db => db.getSlotRecord startTime
  | .pending layer prev =>
    match layer.slots.lookup startTime with
    | some r => pure (some r)
    | none => prev.getSlotRecord startTime

/-- `get_dirty_markets`, where a property that cannot be read is the empty set. -/
def getDirtyMarkets : List AssetPair :=
  match c.getProperty .dirtyMarkets with
  | .ok (.markets d) => d
  | _ => []

def getIntProperty (id : ChainProperty) : Except ChainError Int := do
  match ← c.getProperty id with
  | .int n => pure n
  | _ => throw .badCast

def lastAssetId : Except ChainError Int := c.getIntProperty .lastAssetId
def lastAccountId : Except ChainError Int := c.getIntProperty .lastAccountId

def getActiveDelegates : Except ChainError (List Int) := do
  match ← c.getProperty .activeDelegateListId with
  | .accounts l => pure l
  | _ => throw .badCast

def getMedianDelegatePrice (quoteId baseId : Int) : Except ChainError (Option Price) := do
  let active ← (database c.root).getActiveDelegates
  pure (medianDelegatePrice c.root active quoteId baseId)

end ChainInterface

end Bts.Blockchain.Layers
