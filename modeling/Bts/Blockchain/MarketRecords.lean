import Bts.Blockchain.Records

namespace Bts.Blockchain.MarketRecords

open Base Result Word Errors Amounts

structure MarketIndexKey where
  orderPrice : Price := {}
  owner : Nat := 0
  deriving DecidableEq

namespace MarketIndexKey

def assetPair (k : MarketIndexKey) : AssetPair := k.orderPrice.assetPair

def lt (a b : MarketIndexKey) : Prop :=
  Price.lt a.orderPrice b.orderPrice ∨
    (¬ Price.lt b.orderPrice a.orderPrice ∧ a.owner < b.owner)
  deriving Decidable

end MarketIndexKey

structure ExpirationIndex where
  quoteId : Int
  expiration : Nat
  key : MarketIndexKey
  deriving DecidableEq

def ExpirationIndex.lt (a b : ExpirationIndex) : Prop :=
  a.quoteId < b.quoteId ∨ (a.quoteId = b.quoteId ∧
    (a.expiration < b.expiration ∨ (a.expiration = b.expiration ∧ MarketIndexKey.lt a.key b.key)))
  deriving Decidable

inductive TimeGranularity
  | eachBlock | eachHour | eachDay
  deriving DecidableEq

structure MarketHistoryKey where
  quoteId : Int
  baseId : Int
  granularity : TimeGranularity
  timestamp : Nat
  deriving DecidableEq

structure MarketHistoryRecord where
  highestBid : Price := {}
  lowestAsk : Price := {}
  openingPrice : Price := {}
  closingPrice : Price := {}
  volume : Int := 0

def MarketHistoryRecord.isNull (r : MarketHistoryRecord) : Prop := r.volume = 0
  deriving Decidable

structure OrderRecord where
  balance : Int := 0
  limitPrice : Option Price := none
  lastUpdate : Nat := 0

structure CollateralRecord where
  collateralBalance : Int := 0
  payoffBalance : Int := 0
  interestRate : Price := {}
  expiration : Nat := 0
  deriving DecidableEq

def OrderRecord.isNull (r : OrderRecord) : Prop := r.balance = 0
  deriving Decidable

def CollateralRecord.isNull (r : CollateralRecord) : Prop :=
  0 = r.payoffBalance ∧ 0 = r.collateralBalance
  deriving Decidable

inductive OrderType
  | nullOrder | bidOrder | askOrder | shortOrder | coverOrder | relativeBidOrder | relativeAskOrder
  deriving DecidableEq

structure MarketOrder where
  type : OrderType := .nullOrder
  marketIndex : MarketIndexKey := {}
  state : OrderRecord := {}
  collateral : Option Int := none
  interestRate : Option Price := none
  expiration : Option Nat := none

namespace MarketOrder

def getOwner (o : MarketOrder) : Nat := o.marketIndex.owner

def getBalance (o : MarketOrder) : Except ChainError Asset :=
  match o.type with
  | .relativeBidOrder | .bidOrder | .coverOrder =>
    pure { amount := o.state.balance, assetId := o.marketIndex.orderPrice.quoteAssetId }
  | .relativeAskOrder | .askOrder | .shortOrder =>
    pure { amount := o.state.balance, assetId := o.marketIndex.orderPrice.baseAssetId }
  | .nullOrder => throw (.assertion "Null Order")

/-- `get_price( relative )`, where `relative` is `price()` when it is not given. -/
def getPrice (o : MarketOrder) (relative : Price := {}) : Except ChainError Price :=
  match o.type with
  | .relativeBidOrder => do
    let absPrice ← if relative ≠ {} then Price.add o.marketIndex.orderPrice relative
      else pure o.marketIndex.orderPrice
    pure (o.state.limitPrice.elim absPrice (Price.min absPrice))
  | .relativeAskOrder => do
    let absPrice ← if relative ≠ {} then Price.add o.marketIndex.orderPrice relative
      else pure o.marketIndex.orderPrice
    pure (o.state.limitPrice.elim absPrice (Price.max absPrice))
  | .shortOrder =>
    if Price.eq relative {} then pure o.marketIndex.orderPrice
    else pure (o.state.limitPrice.elim relative fun l => Price.min l relative)
  | .bidOrder | .askOrder | .coverOrder => pure o.marketIndex.orderPrice
  | .nullOrder => throw (.assertion "Null Order")

def getQuantity (o : MarketOrder) (relative : Price := {}) : Except ChainError Asset :=
  match o.type with
  | .relativeBidOrder | .bidOrder => do
    let b ← o.getBalance
    let p ← o.getPrice relative
    multiply b p
  | .relativeAskOrder | .askOrder | .shortOrder => o.getBalance
  | .coverOrder => do
    let c ← orThrow o.collateral (.assertion "collateral")
    pure { amount := (int64 (c * 3)).tdiv 4 }
  | .nullOrder => throw (.assertion "Not Implemented")

def getQuoteQuantity (o : MarketOrder) (relative : Price := {}) : Except ChainError Asset :=
  match o.type with
  | .relativeBidOrder | .bidOrder | .coverOrder => o.getBalance
  | .relativeAskOrder | .askOrder | .shortOrder => do
    let b ← o.getBalance
    let p ← o.getPrice relative
    multiply b p
  | .nullOrder => throw (.assertion "Not Implemented")

end MarketOrder

structure MarketTransaction where
  bidOwner : Nat := 0
  askOwner : Nat := 0
  bidPrice : Price := {}
  askPrice : Price := {}
  bidPaid : Asset := {}
  bidReceived : Asset := {}
  shortCollateral : Option Asset := none
  askPaid : Asset := {}
  askReceived : Asset := {}
  returnedCollateral : Option Asset := none
  bidType : OrderType := .nullOrder
  askType : OrderType := .nullOrder
  feesCollected : Asset := {}

structure MarketStatus where
  quoteId : Int := 0
  baseId : Int := 0
  currentFeedPrice : Option Price := none
  lastValidFeedPrice : Option Price := none
  lastError : Option ChainError := none

namespace MarketStatus

def make (quote base : Int) : Except ChainError MarketStatus := do
  require (base < quote) (.assertion "quote > base")
  pure { quoteId := quote, baseId := base }

def key (s : MarketStatus) : AssetPair := (s.quoteId, s.baseId)
def isNull (s : MarketStatus) : Prop := s.quoteId = s.baseId
  deriving Decidable

def updateFeedPrice (s : MarketStatus) (feed : Option Price) : MarketStatus :=
  { s with currentFeedPrice := feed, lastValidFeedPrice := feed.or s.lastValidFeedPrice }

end MarketStatus

end Bts.Blockchain.MarketRecords
