import Bts.Blockchain.Operations

namespace Bts.Blockchain.MarketOperations

open Base Result Word Errors Amounts Records MarketRecords Transactions Layers Rules Evaluation

variable [Fc]

def llabs (x : Int) : Int := int64 x.natAbs

/-- A restricted asset can be traded only by owners that are authorized for it. -/
def checkTrader (c : ChainInterface) (a : AssetRecord) (owner : Nat) : Except ChainError Unit :=
  require (a.isRestricted → (c.getAuthorization a.id owner).isSome)
    (.assertion "eval_state._current_state->get_authorization( asset_rec->id, owner )")

/-- The checks of a bid or an ask, where `pays` picks the asset the order is paid in
from the base and the quote asset. -/
def checkOrder (s : EvaluationState) (index : MarketIndexKey)
    (pays : AssetRecord → AssetRecord → AssetRecord) : Except ChainError Unit := do
  require (¬ Price.eq index.orderPrice {}) .zeroPrice
  let base ← orThrow (s.currentState.getAssetRecord index.orderPrice.baseAssetId)
    (.assertion "base_asset_rec.valid()")
  let quote ← orThrow (s.currentState.getAssetRecord index.orderPrice.quoteAssetId)
    (.assertion "quote_asset_rec.valid()")
  checkTrader s.currentState base index.owner
  checkTrader s.currentState quote index.owner
  let paid := pays base quote
  let issuerOverride : Bool := paid.isRetractable ∧ s.verifyAuthority paid.authority
  require (issuerOverride = true ∨ s.checkSignature index.owner) .missingSignature
  require (issuerOverride = false ∧ ¬ paid.isBalanceFrozen)
    (.assertion "!issuer_override && !asset_rec->is_balance_frozen()")

/-- The order that an operation changes and the state that has paid for the change. A
negative amount withdraws from the order. -/
def changeOrder (s : EvaluationState) (amount : Int) (delta : Asset) (current : Option OrderRecord) :
    Except ChainError (EvaluationState × OrderRecord) :=
  if amount < 0 then do
    let order ← orThrow current .unknownMarketOrder
    require (llabs amount ≤ order.balance) .insufficientFunds
    let s ← s.addBalance delta.neg
    pure (s, order)
  else do
    let s ← s.subBalance 0 delta
    pure (s, current.getD {})

def BidOperation.evaluate (op : BidOperation) (s : EvaluationState) :
    Except ChainError EvaluationState := do
  checkOrder s op.bidIndex fun _ quote => quote
  s.validateAsset op.getAmount
  require (op.amount ≠ 0) .zeroAmount
  let current := s.currentState.getBidRecord op.bidIndex
  let (s, bid) ← changeOrder s op.amount op.getAmount current
  let bid := { bid with
    balance := int64 (bid.balance + op.amount), lastUpdate := s.currentState.now }
  pure { s with layer := s.layer.storeBidRecord op.bidIndex bid }

def AskOperation.evaluate (op : AskOperation) (s : EvaluationState) :
    Except ChainError EvaluationState := do
  checkOrder s op.askIndex fun base _ => base
  s.validateAsset op.getAmount
  require (op.amount ≠ 0) .zeroAmount
  let current := s.currentState.getAskRecord op.askIndex
  let (s, ask) ← changeOrder s op.amount op.getAmount current
  let ask := { ask with
    balance := int64 (ask.balance + op.amount), lastUpdate := s.currentState.now }
  require (0 ≤ ask.balance) (.assertion "current_ask->balance >= 0")
  pure { s with layer := s.layer.storeAskRecord op.askIndex ask }

def ShortOperation.evaluate (op : ShortOperation) (s : EvaluationState) :
    Except ChainError EvaluationState := do
  let price := op.shortIndex.orderPrice
  require (price.ratio < 10 * 2 ^ 64) (.assertion "Interest rate must be less than 1000% APR")
  require (price.baseAssetId < price.quoteAssetId)
    (.assertion "Interest rate price must have valid base and quote IDs")
  require (op.getAmount.assetId = 0) (.assertion "delta_amount.asset_id == 0")
  s.validateAsset op.getAmount
  let a ← orThrow (s.currentState.getAssetRecord price.quoteAssetId)
    (.assertion "asset_to_short.valid()")
  require a.isMarketIssued (.assertion "asset_to_short->is_market_issued()")
  require (op.amount ≠ 0) .zeroAmount
  require (op.amount < 0 → s.checkSignature op.shortIndex.owner) .missingSignature
  let current := s.currentState.getShortRecord op.shortIndex
  let (s, short) ← changeOrder s op.amount op.getAmount current
  let short : OrderRecord :=
    { balance := int64 (short.balance + op.amount), limitPrice := op.limitPrice
      lastUpdate := s.currentState.now }
  require (0 ≤ short.balance) (.assertion "current_short->balance >= 0")
  pure { s with layer := s.layer.storeShortRecord op.shortIndex short }

/-- The seconds since a cover order was made, a short period before it expires. -/
def coverAge (cover : CollateralRecord) (now : Nat) : Nat :=
  ((now : Int) - (cover.expiration - maxShortPeriodSec)).toNat % 2 ^ 32

/-- The price at which a position is called: its debt for two thirds of its collateral. -/
def callPrice (index : MarketIndexKey) (payoffBalance collateralBalance : Int) :
    Except ChainError Price :=
  divide { amount := payoffBalance, assetId := index.orderPrice.quoteAssetId }
    { amount := (int64 (collateralBalance * 2)).tdiv 3, assetId := index.orderPrice.baseAssetId }

/-- The key at which a cover operation stores what is left of the position. -/
def newCoverIndex (op : CoverOperation) (cover : CollateralRecord) :
    Except ChainError MarketIndexKey := do
  let newCallPrice ← callPrice op.coverIndex cover.payoffBalance cover.collateralBalance
  let price := match op.newCoverPrice with
    | some p => if Price.lt newCallPrice p then p else newCallPrice
    | none => newCallPrice
  pure { orderPrice := price, owner := op.coverIndex.owner }

/-- The payment of a cover operation on the position that `s` has under its index. -/
def coverPayment (op : CoverOperation) (cover : CollateralRecord) (now : Nat) :
    Except ChainError Payment := do
  let delta := op.getAmount
  let age := coverAge cover now
  let principle : Asset := { amount := cover.payoffBalance, assetId := delta.assetId }
  let owed ← getInterestOwed principle cover.interestRate age
  let totalDebt ← Asset.add owed principle
  let payment ← payDebt delta principle totalDebt cover.interestRate age cover.payoffBalance
  require (0 ≤ payment.principlePaid.amount) (.assertion "principle_paid.amount >= 0")
  require (0 ≤ payment.interestPaid.amount) (.assertion "interest_paid.amount >= 0")
  require (0 ≤ payment.payoffBalance) (.assertion "current_cover->payoff_balance >= 0")
  pure payment

/-- The end of a cover operation: what is left is stored under its new key, and a paid
position releases its collateral. -/
def settleCover (op : CoverOperation) (cover : CollateralRecord) (s : EvaluationState) :
    Except ChainError EvaluationState :=
  if 0 < cover.payoffBalance then do
    let index ← newCoverIndex op cover
    pure { s with layer := s.layer.storeCollateralRecord index cover }
  else s.addBalance
    { amount := cover.collateralBalance, assetId := op.coverIndex.orderPrice.baseAssetId }

def CoverOperation.evaluate (op : CoverOperation) (s : EvaluationState) :
    Except ChainError EvaluationState := do
  require (¬ Price.eq op.coverIndex.orderPrice {}) .zeroPrice
  require (op.amount = 0 → op.newCoverPrice.isSome) .zeroAmount
  require (0 ≤ op.amount) .negativeDeposit
  require (s.checkSignature op.coverIndex.owner) .missingSignature
  let s ← s.subBalance 0 op.getAmount
  let cover ← orThrow (s.currentState.getCollateralRecord op.coverIndex) .unknownMarketOrder
  let a ← orThrow (s.currentState.getAssetRecord op.coverIndex.orderPrice.quoteAssetId)
    (.assertion "asset_to_cover.valid()")
  let payment ← coverPayment op cover s.currentState.now
  -- The covered asset is destroyed and the interest goes to the fees.
  let a := { a with
    currentShareSupply := int64 (a.currentShareSupply - payment.principlePaid.amount)
    collectedFees := int64 (a.collectedFees + payment.interestPaid.amount) }
  let layer := (s.layer.storeAssetRecord a).storeCollateralRecord op.coverIndex {}
  require (cover.interestRate.baseAssetId < cover.interestRate.quoteAssetId)
    (.assertion "Rejecting cover order with invalid interest rate.")
  settleCover op { cover with payoffBalance := payment.payoffBalance } { s with layer }

def AddCollateralOperation.evaluate (op : AddCollateralOperation) (s : EvaluationState) :
    Except ChainError EvaluationState := do
  require (¬ Price.eq op.coverIndex.orderPrice {}) .zeroPrice
  require (op.amount ≠ 0) .zeroAmount
  require (0 ≤ op.amount) .negativeDeposit
  let s ← s.subBalance 0 op.getAmount
  let cover ← orThrow (s.currentState.getCollateralRecord op.coverIndex) .unknownMarketOrder
  let cover := { cover with collateralBalance := int64 (cover.collateralBalance + op.amount) }
  let price ← callPrice op.coverIndex cover.payoffBalance cover.collateralBalance
  let layer := s.layer.storeCollateralRecord op.coverIndex {}
  let index := { orderPrice := price, owner := op.coverIndex.owner }
  pure { s with layer := layer.storeCollateralRecord index cover }

end Bts.Blockchain.MarketOperations
