import Bts.Blockchain.MarketEngine

namespace Bts.Blockchain.MarketMatch

open Base Result Word Errors Amounts Records MarketRecords Transactions MarketEngine

variable [Fc]

inductive Verdict
  | trade (mtrx : MarketTransaction)
  | skipBid
  | skipAsk
  | stop

def Verdict.andThen (v : Verdict) (f : MarketTransaction → Except ChainError Verdict) :
    Except ChainError Verdict :=
  match v with
  | .trade mtrx => f mtrx
  | other => pure other

/-- A condition on the trade, where the orders trade, is decidable. -/
instance decidableTrade (verdict : Except ChainError Verdict) (P : MarketTransaction → Prop)
    [DecidablePred P] : Decidable (match verdict with
      | .ok (.trade t) => P t
      | _ => True) :=
  match verdict with
  | .ok (.trade t) => inferInstanceAs (Decidable (P t))
  | .ok .skipBid => inferInstanceAs (Decidable True)
  | .ok .skipAsk => inferInstanceAs (Decidable True)
  | .ok .stop => inferInstanceAs (Decidable True)
  | .error _ => inferInstanceAs (Decidable True)

variable (m : Market) (e : EngineState)

/-- Shorts are executed at the feed price, or at their limit where that is lower. -/
def judgeShort (bid : MarketOrder) (mtrx : MarketTransaction) : Except ChainError Verdict :=
  if bid.type = .shortOrder then do
    require e.quoteAsset.isMarketIssued (.assertion "quote_asset->is_market_issued()")
    match m.feedPrice, bid.state.limitPrice with
    | none, _ => pure .skipBid
    | some feed, none => pure (.trade { mtrx with bidPrice := feed })
    | some feed, some limit =>
      if Price.lt limit mtrx.askPrice then pure .skipBid
      else pure (.trade { mtrx with bidPrice := Price.min limit feed })
  else pure (.trade mtrx)

def judgeRelative (bid ask : MarketOrder) (mtrx : MarketTransaction) : Except ChainError Verdict :=
  if bid.type = .relativeBidOrder ∧ ∃ limit ∈ bid.state.limitPrice, Price.lt limit mtrx.askPrice then
    pure .skipBid
  else if ask.type = .relativeAskOrder ∧
      ∃ limit ∈ ask.state.limitPrice, Price.lt mtrx.askPrice limit then pure .skipAsk
  else pure (.trade mtrx)

/-- A cover order is executed at the price of the bid where its call price is reached or
it has expired, but not too far below the feed. -/
def judgeAsk (ask : MarketOrder) (mtrx : MarketTransaction) : Except ChainError Verdict :=
  if ask.type = .coverOrder then do
    require e.quoteAsset.isMarketIssued (.assertion "quote_asset->is_market_issued()")
    match m.feedPrice with
    | none => pure .skipAsk
    | some feed =>
      if (Price.lt mtrx.askPrice mtrx.bidPrice ∧ m.now < e.currentCollatRecord.expiration) ∨
          Price.lt mtrx.bidPrice (Market.minimumAsk feed) then pure .skipAsk
      else pure (.trade { mtrx with askPrice := mtrx.bidPrice })
  else if Price.lt mtrx.bidPrice mtrx.askPrice then pure .stop
  else pure (.trade mtrx)

/-- The prices of the orders, which follow the feed only in the engine of after the fork. -/
def orderPrice (order : MarketOrder) : Except ChainError Price :=
  match m.legacy, m.feedPrice with
  | false, some feed => order.getPrice feed
  | _, _ => order.getPrice

def judge (bid ask : MarketOrder) : Except ChainError Verdict := do
  let bidPrice ← orderPrice m bid
  let askPrice ← orderPrice m ask
  let mtrx : MarketTransaction :=
    { bidOwner := bid.getOwner, askOwner := ask.getOwner, bidPrice, askPrice
      bidType := bid.type, askType := ask.type }
  let v ← judgeShort m e bid mtrx
  let v ← v.andThen (judgeRelative bid ask)
  v.andThen (judgeAsk m e ask)

def halfFeed (feed : Price) : Price := { feed with ratio := feed.ratio / 2 }

/-- What a cover order pays for the amount it receives: all of its collateral where it
can afford no more. -/
def coverPays (mtrx : MarketTransaction) (received afford collateral : Asset) :
    Except ChainError Asset :=
  if Asset.eq received afford then pure collateral else multiply received mtrx.askPrice

def shortPays (received forSale balance : Asset) (rate : Price) : Except ChainError Asset :=
  if Asset.eq received forSale then pure balance else multiply received rate

def tradeCoverShort (bid ask : MarketOrder) (mtrx : MarketTransaction) :
    Except ChainError (EngineState × MarketTransaction) := do
  let feed ← orThrow m.feedPrice (.assertion "")
  let rate := halfFeed feed
  let amount ← orThrow ask.collateral (.assertion "")
  let collateral : Asset := { amount, assetId := m.baseId }
  let afford ← multiply collateral mtrx.bidPrice
  let debt ← m.getCurrentCoverDebt e ask
  let balance ← bid.getBalance
  let forSale ← multiply balance rate
  let exchanged := Asset.min (Asset.min forSale afford) debt
  let askPaid ← coverPays mtrx exchanged afford collateral
  let shortCollateral ← shortPays exchanged forSale balance rate
  let mtrx := { mtrx with
    askReceived := exchanged, askPaid, bidReceived := askPaid, bidPaid := exchanged
    shortCollateral := some shortCollateral }
  let (e, mtrx) ← m.payCurrentShort e bid mtrx
  m.payCurrentCover e ask mtrx

def tradeCoverBid (bid ask : MarketOrder) (mtrx : MarketTransaction) :
    Except ChainError (EngineState × MarketTransaction) := do
  let amount ← orThrow ask.collateral (.assertion "")
  let collateral : Asset := { amount, assetId := m.baseId }
  let afford ← multiply collateral mtrx.bidPrice
  let debt ← m.getCurrentCoverDebt e ask
  let forSale ← bid.getBalance
  let exchanged := Asset.min (Asset.min forSale afford) debt
  let askPaid ← coverPays mtrx exchanged afford collateral
  let mtrx := { mtrx with
    askReceived := exchanged, askPaid, bidReceived := askPaid, bidPaid := exchanged }
  let e ← m.payCurrentBid e bid mtrx
  m.payCurrentCover e ask mtrx

/-- The rest of an ask that is filled by a short counts as a fee of the quote asset. -/
def tradeAskShort (bid ask : MarketOrder) (mtrx : MarketTransaction) :
    Except ChainError (EngineState × MarketTransaction) := do
  let feed ← orThrow m.feedPrice (.assertion "")
  let rate := halfFeed feed
  let askQuantity ← ask.getQuoteQuantity
  let balance ← bid.getBalance
  let shortQuantity ← multiply balance rate
  let exchanged := Asset.min shortQuantity askQuantity
  let askBalance ← ask.getBalance
  let askPaid ← shortFills exchanged shortQuantity askBalance
  let shortCollateral ← shortPays exchanged shortQuantity balance rate
  let mtrx := { mtrx with
    askReceived := exchanged, askPaid, bidReceived := askPaid, bidPaid := exchanged
    shortCollateral := some shortCollateral }
  let (e, mtrx) ← m.payCurrentShort e bid mtrx
  let e ← m.payCurrentAsk e ask mtrx true
  pure (e, mtrx)
where
  shortFills (exchanged shortQuantity askBalance : Asset) : Except ChainError Asset :=
    if Asset.eq exchanged shortQuantity then multiply exchanged mtrx.askPrice else pure askBalance

def tradeAskBid (bid ask : MarketOrder) (mtrx : MarketTransaction) :
    Except ChainError (EngineState × MarketTransaction) := do
  let bidQuantity ← bid.getQuantity
  let askQuantity ← ask.getQuantity
  let quantity := Asset.min bidQuantity askQuantity
  let askReceived ← multiply quantity mtrx.askPrice
  let bidPays ← multiply quantity mtrx.bidPrice
  let bidBalance ← bid.getBalance
  let askBalance ← ask.getBalance
  let bidPaid := if Asset.eq quantity bidQuantity then bidBalance else bidPays
  let askPaid := if Asset.eq quantity askQuantity then askBalance else quantity
  let feesCollected ← Asset.sub bidPaid askReceived
  let mtrx := { mtrx with askReceived, bidPaid, askPaid, bidReceived := quantity, feesCollected }
  let e ← m.payCurrentBid e bid mtrx
  let e ← m.payCurrentAsk e ask mtrx false
  pure (e, mtrx)

def isBid (t : MarketRecords.OrderType) : Prop := t = .bidOrder ∨ t = .relativeBidOrder
  deriving Decidable

/-- The four kinds of trades. A pair of orders of another kind trades nothing. -/
def trade (bid ask : MarketOrder) (mtrx : MarketTransaction) :
    Except ChainError (EngineState × MarketTransaction) :=
  if ask.type = .coverOrder ∧ bid.type = .shortOrder then tradeCoverShort m e bid ask mtrx
  else if isBid bid.type ∧ ask.type = .coverOrder then tradeCoverBid m e bid ask mtrx
  else if (ask.type = .askOrder ∨ ask.type = .relativeBidOrder) ∧ bid.type = .shortOrder then
    tradeAskShort m e bid ask mtrx
  else if (ask.type = .askOrder ∨ ask.type = .relativeAskOrder) ∧ isBid bid.type then
    tradeAskBid m e bid ask mtrx
  else pure (e, mtrx)

def addVolume (mtrx : MarketTransaction) : Except ChainError Asset :=
  if mtrx.askReceived.assetId = 0 then Asset.add e.tradingVolume mtrx.askReceived
  else if mtrx.bidReceived.assetId = 0 then Asset.add e.tradingVolume mtrx.bidReceived
  else pure e.tradingVolume

def collectFees (mtrx : MarketTransaction) : EngineState :=
  let collect (a : AssetRecord) : AssetRecord :=
    { a with collectedFees := int64 (a.collectedFees + mtrx.feesCollected.amount) }
  if mtrx.feesCollected.assetId = e.baseAsset.id then { e with baseAsset := collect e.baseAsset }
  else if mtrx.feesCollected.assetId = e.quoteAsset.id then
    { e with quoteAsset := collect e.quoteAsset }
  else e

def recordTrade (bid ask : MarketOrder) (mtrx : MarketTransaction) :
    Except ChainError EngineState := do
  let (e, mtrx) ← trade m e bid ask mtrx
  let e ← Market.pushMarketTransaction e mtrx
  let tradingVolume ← addVolume e mtrx
  pure (collectFees { e with
    tradingVolume
    openingPrice := if Price.eq e.openingPrice {} then mtrx.bidPrice else e.openingPrice
    closingPrice := mtrx.bidPrice } mtrx)

/-- One pass of the matching loop with a bid and an ask at hand; `none` leaves the loop. -/
def matchPair (bid ask : MarketOrder) : Except ChainError (Option EngineState) := do
  match ← judge m e bid ask with
  | .trade mtrx => some <$> recordTrade m e bid ask mtrx
  | .skipBid => pure (some { e with currentBid := none })
  | .skipAsk => pure (some { e with currentAsk := none })
  | .stop => pure none

/-- `get_next_bid() && get_next_ask()`. -/
def nextPair : Except ChainError (EngineState × Option (MarketOrder × MarketOrder)) := do
  let e ← m.getNextBid e
  match e.currentBid with
  | none => pure (e, none)
  | some bid =>
    let e ← m.getNextAsk e
    pure (e, e.currentAsk.map fun ask => (bid, ask))

/-- The matching loop. Each pass must have taken a new order; `none` stands for a loop
that runs out of passes. -/
def matchOrders : Nat → Int → EngineState → Option (Except ChainError EngineState)
  | 0, _, _ => none
  | passes + 1, lastOrdersFilled, e =>
    match nextPair m e with
    | .error x => some (.error x)
    | .ok (e, none) => some (.ok e)
    | .ok (e, some (bid, ask)) =>
      if e.ordersFilled = lastOrdersFilled then
        some (.error (.assertion "We appear caught in an order matching loop!"))
      else match matchPair m e bid ask with
        | .error x => some (.error x)
        | .ok none => some (.ok e)
        | .ok (some next) => matchOrders passes e.ordersFilled next

end Bts.Blockchain.MarketMatch
