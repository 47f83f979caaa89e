import Bts.Blockchain.Transactions

namespace Bts.Blockchain.Pending

open Base.Maps Errors Amounts Records MarketRecords Transactions

inductive ChainProperty
  | lastAssetId | lastAccountId | lastRandomSeedId | activeDelegateListId | chainId
  | confirmationRequirement | databaseVersion | dirtyMarkets | lastFeedId | lastObjectId
  deriving DecidableEq

inductive PropertyValue
  | null
  | int (n : Int)
  | hash (n : Nat)
  | accounts (l : List Int)
  | markets (l : List AssetPair)

def PropertyValue.isNull : PropertyValue → Prop
  | null => True
  | _ => False

instance : DecidablePred PropertyValue.isNull
  | .null => isTrue trivial
  | .int _ | .hash _ | .accounts _ | .markets _ => isFalse not_false

variable [Fc]

/-- The changes that a `pending_chain_state` holds, without the state below it.
A set of markets is a list read through membership. -/
structure PendingState where
  assets : Table AssetRecord.id := .empty
  slates : Map Nat (List Int) := ∅
  accounts : Table AccountRecord.id := .empty
  balances : Table BalanceRecord.balanceId := .empty
  accountIdIndex : Map String Int := ∅
  symbolIdIndex : Map String Int := ∅
  transactions : Map Nat TransactionRecord := ∅
  uniqueTransactions : Finset Nat := ∅
  properties : Map ChainProperty PropertyValue := ∅
  keyToAccount : Map Nat Int := ∅
  bids : Map MarketIndexKey OrderRecord := ∅
  asks : Map MarketIndexKey OrderRecord := ∅
  shorts : Map MarketIndexKey OrderRecord := ∅
  collateral : Map MarketIndexKey CollateralRecord := ∅
  slots : Table SlotRecord.startTime := .empty
  marketHistory : Map MarketHistoryKey MarketHistoryRecord := ∅
  marketStatuses : Table MarketStatus.key := .empty
  feeds : Table FeedRecord.feed := .empty
  burns : Map BurnRecordKey BurnRecordValue := ∅
  relativeBids : Map MarketIndexKey OrderRecord := ∅
  relativeAsks : Map MarketIndexKey OrderRecord := ∅
  authorizations : Map (Int × Nat) Int := ∅
  marketTransactions : List MarketTransaction := []
  dirtyMarkets : List AssetPair := []

namespace PendingState

variable (s : PendingState)

def setProperty (id : ChainProperty) (value : PropertyValue) : PendingState :=
  { s with properties := s.properties.insert id value }

def storeAssetRecord (r : AssetRecord) : PendingState :=
  { s with assets := s.assets.store r }

def storeDelegateSlate (id : Nat) (supportedDelegates : List Int) : PendingState :=
  { s with slates := s.slates.insert id supportedDelegates }

def storeBalanceRecord (r : BalanceRecord) : PendingState :=
  { s with balances := s.balances.store r }

/-- `store_account_record`, which throws for a delegate without a signing key. -/
def storeAccountRecord (r : AccountRecord) : Except ChainError PendingState := do
  let signingKey ← r.signingKey?
  let owner := s.keyToAccount.insert (Fc.address r.ownerKey) r.id
  let active := r.activeKey?.elim owner fun key => owner.insert (Fc.address key) r.id
  let signing := signingKey.elim active fun key => active.insert (Fc.address key) r.id
  pure { s with
    accounts := s.accounts.store r
    accountIdIndex := s.accountIdIndex.insert r.name r.id
    keyToAccount := signing }

def storeBidRecord (key : MarketIndexKey) (r : OrderRecord) : PendingState :=
  { s with bids := s.bids.insert key r, dirtyMarkets := s.dirtyMarkets.insert key.assetPair }

def storeAskRecord (key : MarketIndexKey) (r : OrderRecord) : PendingState :=
  { s with asks := s.asks.insert key r, dirtyMarkets := s.dirtyMarkets.insert key.assetPair }

def storeRelativeBidRecord (key : MarketIndexKey) (r : OrderRecord) : PendingState :=
  { s with
    relativeBids := s.relativeBids.insert key r
    dirtyMarkets := s.dirtyMarkets.insert key.assetPair }

def storeRelativeAskRecord (key : MarketIndexKey) (r : OrderRecord) : PendingState :=
  { s with
    relativeAsks := s.relativeAsks.insert key r
    dirtyMarkets := s.dirtyMarkets.insert key.assetPair }

def storeShortRecord (key : MarketIndexKey) (r : OrderRecord) : PendingState :=
  { s with shorts := s.shorts.insert key r, dirtyMarkets := s.dirtyMarkets.insert key.assetPair }

def storeCollateralRecord (key : MarketIndexKey) (r : CollateralRecord) : PendingState :=
  { s with
    collateral := s.collateral.insert key r
    dirtyMarkets := s.dirtyMarkets.insert key.assetPair }

def setMarketDirty (quoteId baseId : Int) : PendingState :=
  { s with dirtyMarkets := s.dirtyMarkets.insert (quoteId, baseId) }

def setDirtyMarkets (d : List AssetPair) : PendingState :=
  s.setProperty .dirtyMarkets (.markets d)

def storeSlotRecord (r : SlotRecord) : PendingState :=
  { s with slots := s.slots.store r }

def storeMarketHistoryRecord (key : MarketHistoryKey) (r : MarketHistoryRecord) : PendingState :=
  { s with marketHistory := s.marketHistory.insert key r }

def storeMarketStatus (r : MarketStatus) : PendingState :=
  { s with marketStatuses := s.marketStatuses.store r }

def setFeed (r : FeedRecord) : PendingState :=
  { s with feeds := s.feeds.store r }

def storeBurnRecord (key : BurnRecordKey) (r : BurnRecordValue) : PendingState :=
  { s with burns := s.burns.insert key r }

def authorize (assetId : Int) (owner : Nat) (oid : Int) : PendingState :=
  { s with authorizations := s.authorizations.insert (assetId, owner) oid }

def setMarketTransactions (trxs : List MarketTransaction) : PendingState :=
  { s with marketTransactions := trxs }

/-- The fields of `FC_REFLECT`, those that survive storing the state in a database. -/
def reflected : PendingState :=
  { s with
    uniqueTransactions := ∅
    keyToAccount := ∅
    marketHistory := ∅
    marketTransactions := [] }

end PendingState

end Bts.Blockchain.Pending
