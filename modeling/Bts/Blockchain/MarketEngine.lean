import Bts.Blockchain.Changes
import Bts.Blockchain.Rules

namespace Bts.Blockchain.MarketEngine

open Base Result Word Errors Amounts Records MarketRecords Transactions Pending Database Layers
  Rules

variable [Fc]

/-- What is fixed while a market is executed. Before the fork the engine is the one of
`market_engine_v7`. -/
structure Market where
  quoteId : Int
  baseId : Int
  feedPrice : Option Price
  prior : ChainInterface

/-- The state of the engine: its own layer of changes, the orders at hand and, for each
iterator into the database, the entries it has still to visit. -/
structure EngineState where
  layer : PendingState := {}
  currentBid : Option MarketOrder := none
  currentAsk : Option MarketOrder := none
  currentCollatRecord : CollateralRecord := {}
  ordersFilled : Int := 0
  marketTransactions : List MarketTransaction := []
  bidItr : List (MarketIndexKey × OrderRecord)
  askItr : List (MarketIndexKey × OrderRecord)
  relativeBidItr : List (MarketIndexKey × OrderRecord)
  shortItr : List (MarketIndexKey × OrderRecord)
  collateralItr : List (MarketIndexKey × CollateralRecord)
  collateralExpirationItr : List ExpirationIndex
  quoteAsset : AssetRecord
  baseAsset : AssetRecord
  tradingVolume : Asset
  openingPrice : Price := {}
  closingPrice : Price := {}

namespace Market

variable (m : Market) (e : EngineState)

def legacy : Bool := decide (m.prior.getHeadBlockNum < forkBlockNumV0429)

def now : Nat := m.prior.now

def isPair (p : Price) : Prop := p.quoteAssetId = m.quoteId ∧ p.baseAssetId = m.baseId
  deriving Decidable

def pendingState : ChainInterface := .pending e.layer m.prior

def getNextShort : Option EngineState :=
  match e.shortItr with
  | [] => none
  | (key, order) :: rest =>
    if m.isPair key.orderPrice then
      some { e with
        shortItr := rest
        currentBid := some { type := .shortOrder, marketIndex := key, state := order,
                             collateral := order.balance, interestRate := key.orderPrice } }
    else none

def hasQuantity (order : Option MarketOrder) : Except ChainError Bool :=
  match order with
  | none => pure false
  | some order => do
    let quantity ← order.getQuantity
    pure (decide (0 < quantity.amount))

/-- The relative bid at hand and its price, which needs a feed. The engine of before the
fork has no relative orders. -/
def relativeBid : Except ChainError (Option (MarketOrder × Price)) :=
  match m.legacy, e.relativeBidItr, m.feedPrice with
  | false, (key, order) :: _, some feed => do
    let bid : MarketOrder := { type := .relativeBidOrder, marketIndex := key, state := order }
    let price ← bid.getPrice feed
    pure (if m.isPair price then some (bid, price) else none)
  | _, _, _ => pure none

def bestBid : Except ChainError (Option MarketOrder) := do
  let relative ← m.relativeBid e
  match e.bidItr with
  | [] => pure (relative.map Prod.fst)
  | (key, order) :: _ =>
    let bid : MarketOrder := { type := .bidOrder, marketIndex := key, state := order }
    pure (if m.isPair key.orderPrice then
        match relative with
        | some (r, price) => if Price.lt price key.orderPrice then some bid else some r
        | none => some bid
      else relative.map Prod.fst)

/-- A bid below the feed lets the shorts go first. -/
def takeBid (bid : MarketOrder) : EngineState :=
  let taken := { e with bidItr := e.bidItr.tail, currentBid := some bid }
  match m.feedPrice with
  | some feed =>
    if Price.lt bid.marketIndex.orderPrice feed then (m.getNextShort e).getD taken else taken
  | none => taken

def advanceBid : Except ChainError EngineState := do
  match ← m.bestBid e with
  | none => pure ((m.getNextShort e).getD e)
  | some bid =>
    pure (if bid.type = .relativeBidOrder then
        { e with relativeBidItr := e.relativeBidItr.tail, currentBid := some bid }
      else m.takeBid e bid)

def getNextBid : Except ChainError EngineState := do
  let hasBid ← hasQuantity e.currentBid
  if hasBid then pure e
  else m.advanceBid { e with ordersFilled := e.ordersFilled + 1, currentBid := none }

def coverOrder (key : MarketIndexKey) (r : CollateralRecord) : MarketOrder :=
  { type := .coverOrder, marketIndex := key, state := { balance := r.payoffBalance },
    collateral := r.collateralBalance, interestRate := r.interestRate,
    expiration := r.expiration }

def isAboveFeed (key : MarketIndexKey) : Prop := ∃ feed ∈ m.feedPrice, Price.lt feed key.orderPrice
  deriving Decidable

/-- Margin calls take priority over all other asks. -/
def marginCall (e : EngineState) :
    List (MarketIndexKey × CollateralRecord) → EngineState
  | [] => { e with collateralItr := [] }
  | (key, r) :: rest =>
    if ¬ m.isPair key.orderPrice then { e with collateralItr := [] }
    else if m.isAboveFeed key ∨ (m.legacy = true ∧ r.expiration ≤ m.now) then
      { e with
        currentCollatRecord := r, currentAsk := some (coverOrder key r), collateralItr := rest }
    else if m.legacy = true then marginCall { e with currentCollatRecord := r } rest
    else { e with currentCollatRecord := r, collateralItr := rest }

/-- Expired positions that are not called. The record at hand stays the one of the last
margin call. -/
def expiredCover (e : EngineState) : List ExpirationIndex → Except ChainError EngineState
  | [] => pure { e with collateralExpirationItr := [] }
  | x :: rest =>
    if x.quoteId ≠ m.quoteId ∨ m.now < x.expiration then
      pure { e with collateralExpirationItr := x :: rest }
    else do
      let r ← orThrow (m.prior.root.collateralDb.lookup x.key) .keyNotFound
      if m.isAboveFeed x.key then expiredCover e rest
      else pure { e with
        currentAsk := some (coverOrder x.key r), collateralExpirationItr := rest }

def nextAsk : EngineState :=
  match e.askItr with
  | [] => e
  | (key, order) :: rest =>
    { e with
      askItr := rest
      currentAsk := if m.isPair key.orderPrice then
          some { type := .askOrder, marketIndex := key, state := order }
        else e.currentAsk }

def nextExpired : Except ChainError EngineState :=
  if m.legacy = true ∨ e.currentAsk.isSome then pure e
  else m.expiredCover e e.collateralExpirationItr

def advanceAsk : Except ChainError EngineState := do
  let called := if e.currentBid.isSome then m.marginCall e e.collateralItr else e
  let expired ← m.nextExpired called
  pure (if expired.currentAsk.isSome then expired else m.nextAsk expired)

def getNextAsk : Except ChainError EngineState :=
  if ∃ ask ∈ e.currentAsk, 0 < ask.state.balance then pure e
  else m.advanceAsk { e with ordersFilled := e.ordersFilled + 1, currentAsk := none }

def getCurrentCoverAge (expiration : Nat) : Nat :=
  ((maxShortPeriodSec - ((expiration : Int) - m.now)) % 2 ^ 32).toNat

def minimumAsk (feed : Price) : Price := { feed with ratio := mul128 feed.ratio 9 / 10 }

def getCurrentCoverDebt (ask : MarketOrder) : Except ChainError Asset := do
  let expiration ← orThrow ask.expiration (.assertion "")
  let balance ← ask.getBalance
  let owed ← getInterestOwed balance e.currentCollatRecord.interestRate
    (m.getCurrentCoverAge expiration)
  Asset.add owed balance

/-- Pay an amount into the balance that `owner` can withdraw with a signature. -/
def payOut (owner : Nat) (assetId amount : Int) : EngineState :=
  let condition := { assetId, data := .signature owner none }
  let r := ((m.pendingState e).getBalanceRecord (Fc.conditionAddress condition)).getD { condition }
  let balance := int64 (r.balance + amount)
  let r := { r with balance, lastUpdate := m.now, depositDate := m.now }
  { e with layer := e.layer.storeBalanceRecord r }

def pushMarketTransaction (mtrx : MarketTransaction) : Except ChainError EngineState := do
  require (mtrx.askPaid.amount = 0 ∧ mtrx.askReceived.amount = 0 ∧ mtrx.bidReceived.assetId = 0 ∧
      mtrx.bidPaid.amount = 0 ∨
    0 ≤ mtrx.bidPaid.amount ∧ 0 ≤ mtrx.askPaid.amount ∧ 0 ≤ mtrx.bidReceived.amount ∧
      0 ≤ mtrx.askReceived.amount ∧ Asset.le mtrx.askReceived mtrx.bidPaid ∧
      Asset.le mtrx.bidReceived mtrx.askPaid ∧ 0 ≤ mtrx.feesCollected.amount) (.assertion "")
  pure { e with marketTransactions := e.marketTransactions ++ [mtrx] }

/-- A rest of the short that is too small for a cover order of its own goes into this one. -/
def roundCollateral (balance collateral : Asset) (precision : Nat) : Except ChainError Asset := do
  let rest ← Asset.sub balance collateral
  if rest.amount % 2 ^ 64 < precision / 100 ∧ Asset.lt collateral balance then
    Asset.add collateral rest
  else pure collateral

def openCover (bid : MarketOrder) (mtrx : MarketTransaction) (collateral : Asset) :
    Except ChainError EngineState := do
  let callCollateral := { collateral with amount := (int64 (collateral.amount * 2)).tdiv 3 }
  let coverPrice ← divide mtrx.bidPaid callCollateral
  let coverIndex : MarketIndexKey := { orderPrice := coverPrice, owner := bid.getOwner }
  let old := ((m.pendingState e).getCollateralRecord coverIndex).getD {}
  let cover : CollateralRecord :=
    { collateralBalance := int64 (old.collateralBalance + collateral.amount)
      payoffBalance := int64 (old.payoffBalance + mtrx.bidPaid.amount)
      interestRate := bid.marketIndex.orderPrice
      expiration := m.now + maxShortPeriodSec }
  require (0 ≤ cover.payoffBalance) (.assertion "ocover_record->payoff_balance >= 0")
  require (0 ≤ cover.collateralBalance) (.assertion "ocover_record->collateral_balance >= 0")
  require (cover.interestRate.baseAssetId < cover.interestRate.quoteAssetId)
    (.assertion "ocover_record->interest_rate.quote_asset_id > interest_rate.base_asset_id")
  require (0 ≤ bid.state.balance) (.assertion "_current_bid->state.balance >= 0")
  let layer := e.layer.storeCollateralRecord coverIndex cover
  pure { e with layer := layer.storeShortRecord bid.marketIndex bid.state }

def payCurrentShort (bid : MarketOrder) (mtrx : MarketTransaction) :
    Except ChainError (EngineState × MarketTransaction) := do
  require (bid.type = .shortOrder) (.assertion "_current_bid->type == short_order")
  require (mtrx.bidType = .shortOrder) (.assertion "mtrx.bid_type == short_order")
  let shortCollateral ← orThrow mtrx.shortCollateral (.assertion "")
  let balance ← bid.getBalance
  let shortCollateral ← roundCollateral balance shortCollateral e.baseAsset.precision
  let supply := int64 (e.quoteAsset.currentShareSupply + mtrx.bidPaid.amount)
  let collateral ← Asset.add shortCollateral mtrx.askPaid
  let state := { bid.state with balance := int64 (bid.state.balance - shortCollateral.amount) }
  let bid := { bid with state }
  let e := { e with
    quoteAsset := { e.quoteAsset with currentShareSupply := supply }, currentBid := some bid }
  let mtrx := { mtrx with shortCollateral := some shortCollateral }
  if mtrx.bidPaid.amount ≤ 0 then do
    require (0 ≤ mtrx.bidPaid.amount) (.assertion "mtrx.bid_paid.amount >= 0")
    pure (e, mtrx)
  else do
    let e ← m.openCover e bid mtrx collateral
    pure (e, mtrx)

/-- The price at which the rest of an order is judged. -/
def restPrice (order : MarketOrder) (price : Price) : Except ChainError Price :=
  if m.legacy then order.getPrice else pure price

def storeOrder (order : MarketOrder) : EngineState :=
  let key := order.marketIndex
  { e with layer := match order.type with
    | .bidOrder => e.layer.storeBidRecord key order.state
    | .relativeBidOrder => e.layer.storeRelativeBidRecord key order.state
    | .relativeAskOrder => e.layer.storeRelativeAskRecord key order.state
    | _ => e.layer.storeAskRecord key order.state }

def payCurrentBid (bid : MarketOrder) (mtrx : MarketTransaction) :
    Except ChainError EngineState := do
  require (bid.type = .bidOrder ∨ bid.type = .relativeBidOrder)
    (.assertion "_current_bid->type == bid_order")
  require (mtrx.bidType = .bidOrder ∨ mtrx.bidType = .relativeBidOrder)
    (.assertion "mtrx.bid_type == bid_order")
  let balance := int64 (bid.state.balance - mtrx.bidPaid.amount)
  let bid := { bid with state := { bid.state with balance } }
  require (0 ≤ balance) (.assertion "_current_bid->state.balance >= 0")
  let e := m.payOut e mtrx.bidOwner m.baseId mtrx.bidReceived.amount
  -- Less than one unit of the base asset is collected as a fee.
  let quantity ← bid.getQuoteQuantity
  let price ← m.restPrice bid mtrx.bidPrice
  let rest ← multiply quantity price
  if rest.amount = 0 then
    let fees := int64 (e.quoteAsset.collectedFees + quantity.amount)
    let bid := { bid with state := { bid.state with balance := 0 } }
    pure (storeOrder { e with
      quoteAsset := { e.quoteAsset with collectedFees := fees }, currentBid := some bid } bid)
  else pure (storeOrder { e with currentBid := some bid } bid)

/-- `pay_current_ask`, where the rest of the order is collected as a fee of the asset
that `toQuote` picks. -/
def payCurrentAsk (ask : MarketOrder) (mtrx : MarketTransaction) (toQuote : Bool) :
    Except ChainError EngineState := do
  require (ask.type = .askOrder ∨ ask.type = .relativeAskOrder)
    (.assertion "_current_ask->type == ask_order")
  require (mtrx.askType = .askOrder ∨ mtrx.askType = .relativeAskOrder)
    (.assertion "mtrx.ask_type == ask_order")
  let balance := int64 (ask.state.balance - mtrx.askPaid.amount)
  let ask := { ask with state := { ask.state with balance } }
  require (0 ≤ balance) (.assertion "_current_ask->state.balance >= 0")
  let e := m.payOut e mtrx.askOwner m.quoteId mtrx.askReceived.amount
  let quantity ← ask.getQuantity
  let price ← m.restPrice ask mtrx.askPrice
  let rest ← multiply quantity price
  if rest.amount = 0 then
    let collect (a : AssetRecord) : AssetRecord :=
      { a with collectedFees := int64 (a.collectedFees + quantity.amount) }
    let ask := { ask with state := { ask.state with balance := 0 } }
    pure (storeOrder { e with
      quoteAsset := if toQuote then collect e.quoteAsset else e.quoteAsset
      baseAsset := if toQuote then e.baseAsset else collect e.baseAsset
      currentAsk := some ask } ask)
  else pure (storeOrder { e with currentAsk := some ask } ask)

/-- The fee for a margin call, five percent of the collateral that is left. -/
def chargeMarginCall (mtrx : MarketTransaction) (leftOver : Int) :
    Except ChainError (MarketTransaction × Int) :=
  if m.now < e.currentCollatRecord.expiration then do
    let fee := (int64 (leftOver * 5000)).tdiv 100000
    require (mtrx.feesCollected.amount = 0) (.assertion "mtrx.fees_collected.amount == 0")
    let feesCollected ← Asset.add mtrx.feesCollected { amount := fee, assetId := m.baseId }
    pure ({ mtrx with feesCollected }, int64 (leftOver - fee))
  else pure (mtrx, leftOver)

/-- The collateral that is left when the debt is paid goes back to the owner. -/
def returnCollateral (ask : MarketOrder) (mtrx : MarketTransaction) (collateral : Int) :
    Except ChainError (EngineState × MarketTransaction × Int) :=
  if ask.state.balance = 0 ∧ 0 < collateral then do
    let (mtrx, leftOver) ← m.chargeMarginCall e mtrx collateral
    pure (m.payOut e ask.getOwner m.baseId leftOver,
      { mtrx with returnedCollateral := some { amount := leftOver } }, 0)
  else pure (e, mtrx, collateral)

def payCurrentCover (ask : MarketOrder) (mtrx : MarketTransaction) :
    Except ChainError (EngineState × MarketTransaction) := do
  let cover := e.currentCollatRecord
  require (ask.type = .coverOrder) (.assertion "_current_ask->type == cover_order")
  require (mtrx.askType = .coverOrder) (.assertion "mtrx.ask_type == cover_order")
  require (cover.interestRate.baseAssetId < cover.interestRate.quoteAssetId)
    (.assertion "interest_rate.quote_asset_id > interest_rate.base_asset_id")
  let principle : Asset := { amount := cover.payoffBalance, assetId := e.quoteAsset.id }
  let expiration ← orThrow ask.expiration (.assertion "")
  let totalDebt ← m.getCurrentCoverDebt e ask
  let payment ← payDebt mtrx.askReceived principle totalDebt cover.interestRate
    (m.getCurrentCoverAge expiration) ask.state.balance
  require (0 ≤ payment.principlePaid.amount) (.assertion "principle_paid.amount >= 0")
  require (0 ≤ payment.interestPaid.amount) (.assertion "interest_paid.amount >= 0")
  require (0 ≤ payment.payoffBalance) (.assertion "_current_ask->state.balance >= 0")
  let old ← orThrow ask.collateral (.assertion "")
  let collateral := int64 (old - mtrx.askPaid.amount)
  require (0 ≤ collateral) (.assertion "*_current_ask->collateral >= 0")
  -- A debt that the whole collateral could not pay is taken from the fees.
  let unpaid := if collateral = 0 then payment.payoffBalance else 0
  let fees := int64 (e.quoteAsset.collectedFees + payment.interestPaid.amount - unpaid)
  let supply := int64 (e.quoteAsset.currentShareSupply - payment.principlePaid.amount)
  let quoteAsset := { e.quoteAsset with currentShareSupply := supply, collectedFees := fees }
  let state := { ask.state with balance := payment.payoffBalance - unpaid }
  let ask := { ask with state }
  let (e, mtrx, collateral) ← m.returnCollateral { e with quoteAsset } ask mtrx collateral
  let cover := { cover with collateralBalance := collateral, payoffBalance := state.balance }
  pure ({ e with
    currentAsk := some { ask with collateral := some collateral }
    currentCollatRecord := cover
    layer := e.layer.storeCollateralRecord ask.marketIndex cover }, mtrx)

end Market

end Bts.Blockchain.MarketEngine
