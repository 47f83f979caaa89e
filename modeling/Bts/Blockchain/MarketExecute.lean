import Bts.Blockchain.MarketMatch

namespace Bts.Blockchain.MarketExecute

open Base Result Word Maps Errors Amounts MarketRecords Transactions Pending Database Layers Changes
  MarketEngine MarketMatch

def sorted {V : Type} (book : Map MarketIndexKey V) : List (MarketIndexKey × V) :=
  (book.entries.map fun e => (e.1, e.2)).insertionSort fun a b => MarketIndexKey.lt a.1 b.1

/-- What an iterator visits that starts right before a key and goes down. -/
def below {V : Type} (book : Map MarketIndexKey V) (key : MarketIndexKey) :
    List (MarketIndexKey × V) :=
  ((sorted book).filter fun e => MarketIndexKey.lt e.1 key).reverse

/-- What an iterator visits that starts at a key and goes up. Without an entry from there
on it starts at the beginning. -/
def upFrom {V : Type} (book : Map MarketIndexKey V) (key : MarketIndexKey) :
    List (MarketIndexKey × V) :=
  match (sorted book).filter fun e => ¬ MarketIndexKey.lt e.1 key with
  | [] => sorted book
  | l => l

def expirationsFrom (index : List ExpirationIndex) (bound : ExpirationIndex) :
    List ExpirationIndex :=
  (index.filter fun x => ¬ ExpirationIndex.lt x bound).insertionSort ExpirationIndex.lt

variable [Fc]

def openBooks (prior : ChainInterface) (quoteId baseId : Int) : Except ChainError EngineState := do
  let db := prior.root
  let legacy := prior.getHeadBlockNum < forkBlockNumV0429
  let quoteAsset ← orThrow (prior.getAssetRecord quoteId)
    (.assertion "quote_asset.valid() && base_asset.valid()")
  let baseAsset ← orThrow (prior.getAssetRecord baseId)
    (.assertion "quote_asset.valid() && base_asset.valid()")
  require (¬ legacy → ¬ quoteAsset.isMarketFrozen) (.assertion "!quote_asset->is_market_frozen()")
  require (¬ legacy → ¬ baseAsset.isMarketFrozen) (.assertion "!base_asset->is_market_frozen()")
  let next := if baseId + 1 = quoteId then (quoteId + 1, 0) else (quoteId, baseId + 1)
  let nextPair ← Price.zero next.1 next.2
  let pair ← Price.zero quoteId baseId
  let nextKey : MarketIndexKey := { orderPrice := nextPair }
  let key : MarketIndexKey := { orderPrice := pair }
  pure
    { bidItr := below db.bidDb nextKey
      askItr := upFrom db.askDb key
      relativeBidItr := below db.relativeBidDb nextKey
      shortItr := below db.shortDb nextKey
      collateralItr := below db.collateralDb nextKey
      collateralExpirationItr :=
        expirationsFrom db.collateralExpirationIndex { quoteId, expiration := 0, key }
      quoteAsset, baseAsset, tradingVolume := { assetId := baseId } }

def openMarket (prior : ChainInterface) (quoteId baseId : Int) :
    Except ChainError (Market × EngineState) := do
  let e ← openBooks prior quoteId baseId
  let feedPrice ← prior.getMedianDelegatePrice quoteId baseId
  pure ({ quoteId, baseId, feedPrice, prior }, e)

variable (m : Market) (e : EngineState)

/-- A market issued asset is not traded before its first feed. -/
def checkFeed : Except ChainError Unit :=
  require (e.quoteAsset.isMarketIssued →
      m.prior.getHeadBlockNum < forkBlockNumV0428 ∨ e.baseAsset.id = 0 →
    m.feedPrice.isSome ∨ ∃ s ∈ (m.pendingState e).getMarketStatus m.quoteId m.baseId,
      s.lastValidFeedPrice.isSome) .insufficientFeeds

/-- Enough passes for the matching loop to visit every entry of the books. -/
def passes : Nat :=
  e.bidItr.length + e.askItr.length + e.relativeBidItr.length + e.shortItr.length +
    e.collateralItr.length + e.collateralExpirationItr.length + 2

def matchMarket : Except ChainError EngineState := do
  let e ← m.getNextBid e
  let e ← m.getNextAsk e
  (matchOrders m (passes e) (-1) e).getD (.ok e)

def statusOf (c : ChainInterface) (quoteId baseId : Int) : Except ChainError MarketStatus :=
  match c.getMarketStatus quoteId baseId with
  | some s => pure s
  | none => MarketStatus.make quoteId baseId

def updateMarketStatus : Except ChainError EngineState := do
  let status ← statusOf (m.pendingState e) m.quoteId m.baseId
  let status := { status.updateFeedPrice m.feedPrice with lastError := none }
  pure { e with layer := e.layer.storeMarketStatus status }

def granularityIndex : TimeGranularity → Nat
  | .eachBlock => 0
  | .eachHour => 1
  | .eachDay => 2

def historyBefore (a b : MarketHistoryKey) : Prop :=
  a.baseId < b.baseId ∨ (a.baseId = b.baseId ∧ (a.quoteId < b.quoteId ∨ (a.quoteId = b.quoteId ∧
    (granularityIndex a.granularity < granularityIndex b.granularity ∨
      (a.granularity = b.granularity ∧ a.timestamp < b.timestamp)))))
  deriving Decidable

/-- The last record of the history before a key. -/
def lastHistory (db : ChainDatabase) (key : MarketHistoryKey) :
    Option (MarketHistoryKey × MarketHistoryRecord) :=
  (((db.marketHistoryDb.entries.map fun e => (e.1, e.2)).filter fun e =>
    historyBefore e.1 key).insertionSort fun a b => historyBefore b.1 a.1).head?

def sameHistory (a b : MarketHistoryRecord) : Prop :=
  Price.eq a.highestBid b.highestBid ∧ Price.eq a.lowestAsk b.lowestAsk ∧ a.volume = b.volume
  deriving Decidable

/-- The record of a block is new unless the last one of the market is the same. -/
def isNewHistory (db : ChainDatabase) (key : MarketHistoryKey) (r : MarketHistoryRecord) : Prop :=
  ∀ last ∈ lastHistory db key, ¬ (last.1.quoteId = key.quoteId ∧ last.1.baseId = key.baseId ∧
    last.1.granularity = .eachBlock ∧ sameHistory last.2 r)
  deriving Decidable

/-- The record of an hour or a day, which is changed only by a new highest bid or lowest
ask. -/
def extendHistory (db : ChainDatabase) (layer : PendingState) (key : MarketHistoryKey)
    (r : MarketHistoryRecord) : PendingState :=
  match db.marketHistoryDb.lookup key with
  | none => layer.storeMarketHistoryRecord key r
  | some old =>
    if Price.lt old.highestBid r.highestBid ∨ Price.lt r.lowestAsk old.lowestAsk then
      layer.storeMarketHistoryRecord key { old with
        volume := int64 (old.volume + r.volume)
        closingPrice := r.closingPrice
        highestBid := Price.max r.highestBid old.highestBid
        lowestAsk := Price.min r.lowestAsk old.lowestAsk }
    else layer

def addHistory (bid ask : MarketOrder) (timestamp : Nat) : Except ChainError EngineState := do
  let db := m.prior.root
  let highestBid ← bid.getPrice
  let lowestAsk ← ask.getPrice
  let r : MarketHistoryRecord :=
    { highestBid, lowestAsk, openingPrice := e.openingPrice, closingPrice := e.closingPrice
      volume := e.tradingVolume.amount }
  let key (granularity : TimeGranularity) (timestamp : Nat) : MarketHistoryKey :=
    { quoteId := m.quoteId, baseId := m.baseId, granularity, timestamp }
  let layer := if isNewHistory db (key .eachBlock db.headBlockHeader.timestamp) r then
      e.layer.storeMarketHistoryRecord (key .eachBlock timestamp) r
    else e.layer
  let layer := extendHistory db layer (key .eachHour (timestamp - timestamp % (60 * 60))) r
  let layer := extendHistory db layer (key .eachDay (timestamp - timestamp % (60 * 60 * 24))) r
  pure { e with layer }

def updateMarketHistory (timestamp : Nat) : Except ChainError EngineState :=
  if 0 < e.tradingVolume.amount then do
    match ← nextPair m e with
    | (e, none) => pure e
    | (e, some (bid, ask)) => addHistory m e bid ask timestamp
  else pure e

def runMarket (timestamp : Nat) : Except ChainError EngineState := do
  checkFeed m e
  let e ← matchMarket m e
  let layer := (e.layer.storeAssetRecord e.quoteAsset).storeAssetRecord e.baseAsset
  let e ← updateMarketStatus m { e with layer }
  updateMarketHistory m e timestamp

/-- The handler of `execute`: the market keeps the error in its status. -/
def recordError (layer : PendingState) (prev : ChainInterface) (quoteId baseId : Int)
    (feedPrice : Option Price) (error : ChainError) :
    Except ChainError (PendingState × List MarketTransaction) := do
  let status ← statusOf (.pending layer prev) quoteId baseId
  let status := { status.updateFeedPrice feedPrice with lastError := some error }
  pure (layer.storeMarketStatus status, [])

def runAndApply (layer : PendingState) (prev : ChainInterface) (timestamp : Nat) :
    Except ChainError (PendingState × List MarketTransaction) := do
  let e ← runMarket m e timestamp
  let layer ← applyChangesTo e.layer layer prev
  pure (layer, e.marketTransactions)

def execute (layer : PendingState) (prev : ChainInterface) (quoteId baseId : Int)
    (timestamp : Nat) : Except ChainError (PendingState × List MarketTransaction) :=
  match openMarket (.pending layer prev) quoteId baseId with
  | .error x => recordError layer prev quoteId baseId none x
  | .ok (m, e) =>
    match runAndApply m e layer prev timestamp with
    | .error x => recordError layer prev quoteId baseId m.feedPrice x
    | .ok r => pure r

def pairBefore (a b : AssetPair) : Prop := a.1 < b.1 ∨ (a.1 = b.1 ∧ a.2 < b.2)
  deriving Decidable

def executeMarket (prev : ChainInterface) (timestamp : Nat)
    (r : PendingState × List MarketTransaction) (pair : AssetPair) :
    Except ChainError (PendingState × List MarketTransaction) := do
  require (pair.2 < pair.1) (.assertion "market_pair.first > market_pair.second")
  let (layer, trxs) ← execute r.1 prev pair.1 pair.2 timestamp
  pure (layer, r.2 ++ trxs)

/-- `execute_markets`: the markets that the block before has made dirty. -/
def executeMarkets (db : ChainDatabase) (layer : PendingState) (timestamp : Nat) :
    Except ChainError PendingState := do
  let dirty := (ChainInterface.database db).getDirtyMarkets.dedup.insertionSort pairBefore
  let (layer, trxs) ← dirty.foldlM (executeMarket (.database db) timestamp) (layer, [])
  pure (if db.getHeadBlockNum < forkBlockNumV0429 ∨ db.trackStats = true then
      layer.setMarketTransactions trxs
    else layer)

end Bts.Blockchain.MarketExecute
