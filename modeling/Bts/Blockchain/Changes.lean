import Bts.Base.Overlay
import Bts.Blockchain.Layers

namespace Bts.Blockchain.Changes

open Base Result Exec Overlay Errors Amounts Records MarketRecords Transactions Pending Database
  Layers

variable [Fc]

/-- The loops of `apply_changes`, in the order of the source. -/
def changeLoops (s : PendingState) : List (DbAction Unit) := [
  forEach s.properties.entries fun e => update (·.setProperty e.1 e.2),
  forEach s.assets.rows.entries fun e => update (·.storeAssetRecord e.2),
  forEach s.accounts.rows.entries fun e => Stores.storeAccountRecord e.2,
  forEach s.balances.rows.entries fun e => update (·.storeBalanceRecord e.2),
  forEach s.authorizations.entries fun e => update (·.authorize e.1.1 e.1.2 e.2),
  forEach s.bids.entries fun e => update (·.storeBidRecord e.1 e.2),
  forEach s.relativeBids.entries fun e => update (·.storeRelativeBidRecord e.1 e.2),
  forEach s.asks.entries fun e => update (·.storeAskRecord e.1 e.2),
  forEach s.relativeAsks.entries fun e => update (·.storeRelativeAskRecord e.1 e.2),
  forEach s.shorts.entries fun e => update (·.storeShortRecord e.1 e.2),
  forEach s.collateral.entries fun e => update (·.storeCollateralRecord e.1 e.2),
  forEach s.transactions.entries fun e => Stores.storeTransaction e.1 e.2,
  forEach s.slates.entries fun e => update (·.storeDelegateSlate e.1 e.2),
  forEach s.slots.rows.entries fun e => update (·.storeSlotRecord e.2),
  forEach s.marketHistory.entries fun e => update (·.storeMarketHistoryRecord e.1 e.2),
  forEach s.marketStatuses.rows.entries fun e => update (·.storeMarketStatus e.2),
  forEach s.feeds.rows.entries fun e => update (·.setFeed e.2),
  forEach s.burns.entries fun e => update (·.storeBurnRecord e.1 e.2),
  Stores.setMarketTransactions s.marketTransactions,
  update (·.setDirtyMarkets s.dirtyMarkets)]

/-- `apply_changes` of a layer whose previous state is the database. -/
def applyChanges (s : PendingState) : DbAction Unit := forEach (changeLoops s) id

def storedPairs (s : PendingState) : List AssetPair :=
  (s.bids.keys ++ s.relativeBids.keys ++ s.asks.keys ++ s.relativeAsks.keys ++ s.shorts.keys ++
    s.collateral.keys).map MarketIndexKey.assetPair

def addPairs (pairs dirty : List AssetPair) : List AssetPair :=
  pairs.foldl (fun d p => d.insert p) dirty

def chainIdOf (prev : ChainInterface) : Except ChainError Nat := do
  match ← prev.getProperty .chainId with
  | .hash n => pure n
  | _ => throw .badCast

def storeTransaction (prev : ChainInterface) (layer : PendingState) (id : Nat)
    (r : TransactionRecord) : Except ChainError PendingState := do
  let chainId ← chainIdOf prev
  let digest := r.trx.digest chainId
  require (¬ (forkBlockNumV0426 ≤ prev.getHeadBlockNum ∧ digest ∈ layer.uniqueTransactions))
    (.assertion "duplicate transaction error")
  pure { layer with
    transactions := layer.transactions.insert id r
    uniqueTransactions := insert digest layer.uniqueTransactions }

/-- The loops of `apply_changes` over the records other than accounts and transactions. Each
kind has maps of its own, so that its loop is written on them. -/
def mergeRecords (s t : PendingState) : PendingState :=
  { t with
    properties := merge s.properties t.properties
    assets := mergeTable s.assets t.assets
    balances := mergeTable s.balances t.balances
    authorizations := merge s.authorizations t.authorizations
    bids := merge s.bids t.bids
    relativeBids := merge s.relativeBids t.relativeBids
    asks := merge s.asks t.asks
    relativeAsks := merge s.relativeAsks t.relativeAsks
    shorts := merge s.shorts t.shorts
    collateral := merge s.collateral t.collateral
    slates := merge s.slates t.slates
    slots := mergeTable s.slots t.slots
    marketHistory := merge s.marketHistory t.marketHistory
    marketStatuses := mergeTable s.marketStatuses t.marketStatuses
    feeds := mergeTable s.feeds t.feeds
    burns := merge s.burns t.burns
    dirtyMarkets := addPairs (storedPairs s) t.dirtyMarkets
    marketTransactions := s.marketTransactions }

/-- `apply_changes` of a layer whose previous state is the layer `target` on `below`. -/
def applyChangesTo (s target : PendingState) (below : ChainInterface) :
    Except ChainError PendingState := do
  let t ← s.accounts.rows.entries.foldlM (fun t e => t.storeAccountRecord e.2) target
  let t ← s.transactions.entries.foldlM (fun t e => storeTransaction below t e.1 e.2) t
  pure ((mergeRecords s t).setDirtyMarkets s.dirtyMarkets)

/-- `get_undo_state` of a layer on `prev`, into a fresh layer without a previous state. -/
def getUndoState (s : PendingState) (prev : ChainInterface) : Except ChainError PendingState := do
  let properties ← undoMapM s.properties (fun id => some <$> prev.getProperty id) id
  let u ← s.accounts.rows.entries.foldlM (fun (u : PendingState) e =>
    u.storeAccountRecord ((prev.getAccountRecord e.1).getD e.2.makeNull)) {}
  let transactions ← undoMapM s.transactions prev.getTransaction fun _ => .null
  let slots ← undoTableM s.slots prev.getSlotRecord fun _ => {}
  let u := { u with
    properties
    assets := undoTable s.assets prev.getAssetRecord AssetRecord.makeNull
    slates := undoMap s.slates prev.getDelegateSlate fun _ => []
    balances := undoTable s.balances prev.getBalanceRecord BalanceRecord.makeNull
    authorizations := undoMap s.authorizations (fun k => prev.getAuthorization k.1 k.2) fun _ => -1
    transactions
    bids := undoMap s.bids prev.getBidRecord fun _ => {}
    relativeBids := undoMap s.relativeBids prev.getRelativeBidRecord fun _ => {}
    asks := undoMap s.asks prev.getAskRecord fun _ => {}
    relativeAsks := undoMap s.relativeAsks prev.getRelativeAskRecord fun _ => {}
    shorts := undoMap s.shorts prev.getShortRecord fun _ => {}
    collateral := undoMap s.collateral prev.getCollateralRecord fun _ => {}
    slots
    marketStatuses := undoTable s.marketStatuses (fun k => prev.getMarketStatus k.1 k.2) fun _ => {}
    feeds := undoTable s.feeds prev.getFeed fun r => { feed := r.feed }
    burns := undoMap s.burns (fun _ => none) fun _ => {}
    dirtyMarkets := addPairs (storedPairs s) [] }
  pure (u.setDirtyMarkets prev.getDirtyMarkets)

end Bts.Blockchain.Changes
