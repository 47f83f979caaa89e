import Bts.Blockchain.MarketMatch

namespace Bts.Blockchain.MarketEffects

open Base Result Word Amounts Records MarketRecords Transactions Rules MarketEngine MarketMatch

/-- What is left of an order, where it is worth less than one unit of the other asset. -/
def dust (rest : Asset) (price : Price) : Int :=
  match multiply rest price with
  | .ok r => if r.amount = 0 then rest.amount else 0
  | .error _ => 0

def withBalance (o : MarketOrder) (balance : Int) : MarketOrder :=
  { o with state := { o.state with balance } }

def collect (a : AssetRecord) (amount : Int) : AssetRecord :=
  { a with collectedFees := int64 (a.collectedFees + amount) }

theorem collect_zero {a : AssetRecord} (h : Fits a.collectedFees) : collect a 0 = a := by
  unfold collect
  rw [Int.add_zero, int64_of_fits h]

theorem dust_of_zero {rest r : Asset} {price : Price} (h : multiply rest price = .ok r)
    (hr : r.amount = 0) : dust rest price = rest.amount := by
  unfold dust
  rw [h]
  exact if_pos hr

theorem dust_of_ne_zero {rest r : Asset} {price : Price} (h : multiply rest price = .ok r)
    (hr : r.amount ≠ 0) : dust rest price = 0 := by
  unfold dust
  rw [h]
  exact if_neg hr

theorem dust_cases (rest : Asset) (price : Price) :
    dust rest price = 0 ∨ dust rest price = rest.amount := by
  unfold dust
  split
  · split
    · exact Or.inr rfl
    · exact Or.inl rfl
  · exact Or.inl rfl

section Quantities

variable {o : MarketOrder}

theorem getQuoteQuantity_bid (price : Price) (h : o.type = .bidOrder ∨ o.type = .relativeBidOrder) :
    o.getQuoteQuantity price =
      .ok { amount := o.state.balance, assetId := o.marketIndex.orderPrice.quoteAssetId } := by
  unfold MarketOrder.getQuoteQuantity MarketOrder.getBalance
  rcases h with h | h <;> rw [h] <;> rfl

theorem getQuantity_ask (price : Price) (h : o.type = .askOrder ∨ o.type = .relativeAskOrder) :
    o.getQuantity price =
      .ok { amount := o.state.balance, assetId := o.marketIndex.orderPrice.baseAssetId } := by
  unfold MarketOrder.getQuantity MarketOrder.getBalance
  rcases h with h | h <;> rw [h] <;> rfl

theorem getBalance_short (h : o.type = .shortOrder) : o.getBalance =
    .ok { amount := o.state.balance, assetId := o.marketIndex.orderPrice.baseAssetId } := by
  unfold MarketOrder.getBalance
  rw [h]
  rfl

end Quantities

theorem roundCollateral_ok {balance collateral sc : Asset} {precision : Nat}
    (h : Market.roundCollateral balance collateral precision = .ok sc) :
    sc.assetId = collateral.assetId ∧ balance.assetId = collateral.assetId ∧
      (sc.amount = collateral.amount ∨ (sc.amount = int64 balance.amount ∧
        collateral.amount < balance.amount)) := by
  simp only [Market.roundCollateral, bind_eq_ok] at h
  obtain ⟨rest, hrest, h⟩ := h
  obtain ⟨hid, rfl⟩ := Asset.sub_eq_ok hrest
  split at h
  next hround =>
    obtain ⟨-, rfl⟩ := Asset.add_eq_ok h
    refine ⟨rfl, hid, Or.inr ⟨?_, hround.2⟩⟩
    rw [Int.add_comm, int64_add_int64, Int.sub_add_cancel]
  next =>
    cases h
    exact ⟨rfl, hid, Or.inl rfl⟩

variable [Fc]

def ownedBy (owner : Nat) (assetId : Int) : WithdrawCondition :=
  { assetId, data := .signature owner none }

section Model

variable (m : Market) (e : EngineState) (bid ask : MarketOrder) (mtrx : MarketTransaction)

def payee (owner : Nat) (assetId amount : Int) : BalanceRecord :=
  let r := ((m.pendingState e).getBalanceRecord
    (Fc.conditionAddress (ownedBy owner assetId))).getD { condition := ownedBy owner assetId }
  { r with balance := int64 (r.balance + amount), lastUpdate := m.now, depositDate := m.now }

def bidRest : Int := int64 (bid.state.balance - mtrx.bidPaid.amount)

def askRest : Int := int64 (ask.state.balance - mtrx.askPaid.amount)

def bidDust : Int :=
  dust { amount := bidRest bid mtrx, assetId := bid.marketIndex.orderPrice.quoteAssetId } mtrx.bidPrice

def askDust : Int :=
  dust { amount := askRest ask mtrx, assetId := ask.marketIndex.orderPrice.baseAssetId } mtrx.askPrice

def afterBid : EngineState :=
  let rest := withBalance bid (bidRest bid mtrx - bidDust bid mtrx)
  Market.storeOrder { m.payOut e mtrx.bidOwner m.baseId mtrx.bidReceived.amount with
    quoteAsset := collect e.quoteAsset (bidDust bid mtrx), currentBid := some rest } rest

def afterAsk (toQuote : Bool) : EngineState :=
  let rest := withBalance ask (askRest ask mtrx - askDust ask mtrx)
  Market.storeOrder { m.payOut e mtrx.askOwner m.quoteId mtrx.askReceived.amount with
    quoteAsset := if toQuote then collect e.quoteAsset (askDust ask mtrx) else e.quoteAsset
    baseAsset := if toQuote then e.baseAsset else collect e.baseAsset (askDust ask mtrx)
    currentAsk := some rest } rest

variable {m e bid ask mtrx} {e' : EngineState} {mtrx' : MarketTransaction}

variable (m e mtrx) in
theorem afterBid_layer (h : isBid bid.type) :
    let paid := m.payOut e mtrx.bidOwner m.baseId mtrx.bidReceived.amount
    let rest := withBalance bid (bidRest bid mtrx - bidDust bid mtrx)
    (afterBid m e bid mtrx).layer = (match bid.type with
      | .bidOrder => paid.layer.storeBidRecord bid.marketIndex rest.state
      | _ => paid.layer.storeRelativeBidRecord bid.marketIndex rest.state) := by
  unfold afterBid Market.storeOrder withBalance
  rcases h with h | h <;> dsimp only <;> rw [h]

variable (m e mtrx) in
theorem afterAsk_layer (toQuote : Bool) (h : ask.type = .askOrder) :
    (afterAsk m e ask mtrx toQuote).layer =
      (m.payOut e mtrx.askOwner m.quoteId mtrx.askReceived.amount).layer.storeAskRecord
        ask.marketIndex (withBalance ask (askRest ask mtrx - askDust ask mtrx)).state := by
  unfold afterAsk Market.storeOrder withBalance
  rw [h]

theorem restPrice_eq (hm : m.legacy = false) (order : MarketOrder) (price : Price) :
    m.restPrice order price = .ok price := by
  unfold Market.restPrice
  rw [hm]
  rfl

theorem payCurrentBid_ok (hm : m.legacy = false) (hfees : Fits e.quoteAsset.collectedFees)
    (h : m.payCurrentBid e bid mtrx = .ok e') :
    (bid.type = .bidOrder ∨ bid.type = .relativeBidOrder) ∧ 0 ≤ bidRest bid mtrx ∧
      e' = afterBid m e bid mtrx := by
  simp only [Market.payCurrentBid, restPrice_eq hm, eq_ok_iff] at h
  obtain ⟨-, htype, -, -, -, hrest, quantity, hquantity, price, ⟨⟩, rest, hmultiply, h⟩ := h
  have hquantity' : quantity =
      { amount := bidRest bid mtrx, assetId := bid.marketIndex.orderPrice.quoteAssetId } := by
    have hsame := (getQuoteQuantity_bid {} (o := withBalance bid (bidRest bid mtrx))
      htype).symm.trans hquantity
    exact (Except.ok.inj hsame).symm
  subst hquantity'
  refine ⟨htype, hrest, ?_⟩
  split at h
  next hzero =>
    have hdust : bidDust bid mtrx = bidRest bid mtrx := dust_of_zero hmultiply hzero
    rw [pure_eq_ok] at h
    unfold afterBid
    rw [← h, hdust, Int.sub_self]
    rfl
  next hzero =>
    have hdust : bidDust bid mtrx = 0 := dust_of_ne_zero hmultiply hzero
    rw [pure_eq_ok] at h
    unfold afterBid
    rw [← h, hdust, Int.sub_zero, collect_zero hfees]
    rfl

theorem payCurrentAsk_ok {toQuote : Bool} (hm : m.legacy = false)
    (hquote : Fits e.quoteAsset.collectedFees) (hbase : Fits e.baseAsset.collectedFees)
    (h : m.payCurrentAsk e ask mtrx toQuote = .ok e') :
    (ask.type = .askOrder ∨ ask.type = .relativeAskOrder) ∧ 0 ≤ askRest ask mtrx ∧
      e' = afterAsk m e ask mtrx toQuote := by
  simp only [Market.payCurrentAsk, restPrice_eq hm, eq_ok_iff] at h
  obtain ⟨-, htype, -, -, -, hrest, quantity, hquantity, price, ⟨⟩, rest, hmultiply, h⟩ := h
  have hquantity' : quantity =
      { amount := askRest ask mtrx, assetId := ask.marketIndex.orderPrice.baseAssetId } := by
    have hsame := (getQuantity_ask {} (o := withBalance ask (askRest ask mtrx))
      htype).symm.trans hquantity
    exact (Except.ok.inj hsame).symm
  subst hquantity'
  refine ⟨htype, hrest, ?_⟩
  split at h
  next hzero =>
    have hdust : askDust ask mtrx = askRest ask mtrx := dust_of_zero hmultiply hzero
    rw [pure_eq_ok] at h
    unfold afterAsk
    rw [← h, hdust, Int.sub_self]
    rfl
  next hzero =>
    have hdust : askDust ask mtrx = 0 := dust_of_ne_zero hmultiply hzero
    rw [pure_eq_ok] at h
    unfold afterAsk
    rw [← h, hdust, Int.sub_zero, collect_zero hquote, collect_zero hbase, ite_self, ite_self]
    rfl

/-- The position that a short opens, or adds to. -/
def openedCover (m : Market) (e : EngineState) (bid : MarketOrder) (key : MarketIndexKey)
    (collateral debt : Int) : CollateralRecord :=
  let old := ((m.pendingState e).getCollateralRecord key).getD {}
  { collateralBalance := int64 (old.collateralBalance + collateral)
    payoffBalance := int64 (old.payoffBalance + debt)
    interestRate := bid.marketIndex.orderPrice
    expiration := m.now + maxShortPeriodSec }

def issue (a : AssetRecord) (amount : Int) : AssetRecord :=
  { a with currentShareSupply := int64 (a.currentShareSupply + amount) }

/-- The engine after the short at hand has put `sc` into a position under `key`. -/
def afterShort (m : Market) (e : EngineState) (bid : MarketOrder) (mtrx : MarketTransaction)
    (key : MarketIndexKey) (sc total : Asset) : EngineState :=
  let rest := withBalance bid (int64 (bid.state.balance - sc.amount))
  { e with
    quoteAsset := issue e.quoteAsset mtrx.bidPaid.amount
    currentBid := some rest
    layer := (e.layer.storeCollateralRecord key
      (openedCover m e bid key total.amount mtrx.bidPaid.amount)).storeShortRecord
        bid.marketIndex rest.state }

/-- Without a sale the position is not opened, and the order is not stored. -/
def afterNoSale (e : EngineState) (bid : MarketOrder) (sc : Asset) : EngineState :=
  { e with
    quoteAsset := issue e.quoteAsset 0
    currentBid := some (withBalance bid (int64 (bid.state.balance - sc.amount))) }

theorem payCurrentShort_ok (h : m.payCurrentShort e bid mtrx = .ok (e', mtrx')) :
    bid.type = .shortOrder ∧ ∃ collateral sc, mtrx.shortCollateral = some collateral ∧
      Market.roundCollateral { amount := bid.state.balance
                               assetId := bid.marketIndex.orderPrice.baseAssetId }
        collateral e.baseAsset.precision = .ok sc ∧
      mtrx' = { mtrx with shortCollateral := some sc } ∧
      ((mtrx.bidPaid.amount = 0 ∧ e' = afterNoSale e bid sc) ∨
        (0 < mtrx.bidPaid.amount ∧ 0 ≤ int64 (bid.state.balance - sc.amount) ∧
          ∃ key total, Asset.add sc mtrx.askPaid = .ok total ∧ key.owner = bid.getOwner ∧
            divide mtrx.bidPaid { total with amount := (int64 (total.amount * 2)).tdiv 3 } =
              .ok key.orderPrice ∧
            0 ≤ (openedCover m e bid key total.amount mtrx.bidPaid.amount).payoffBalance ∧
            0 ≤ (openedCover m e bid key total.amount mtrx.bidPaid.amount).collateralBalance ∧
            e' = afterShort m e bid mtrx key sc total)) := by
  simp only [Market.payCurrentShort, eq_ok_iff] at h
  obtain ⟨-, htype, -, -, collateral, hcollateral, balance, hbalance, sc, hround, total, htotal, h⟩ := h
  have hbalance' : balance = { amount := bid.state.balance
                               assetId := bid.marketIndex.orderPrice.baseAssetId } :=
    (Except.ok.inj ((getBalance_short htype).symm.trans hbalance)).symm
  subst hbalance'
  refine ⟨htype, collateral, sc, hcollateral, hround, ?_⟩
  split at h
  next hpaid =>
    simp only [eq_ok_iff, Prod.mk.injEq] at h
    obtain ⟨-, hnonneg, rfl, rfl⟩ := h
    have hzero : mtrx.bidPaid.amount = 0 := Int.le_antisymm hpaid hnonneg
    refine ⟨rfl, Or.inl ⟨hzero, ?_⟩⟩
    unfold afterNoSale issue withBalance
    rw [hzero]
  next hpaid =>
    simp only [Market.openCover, eq_ok_iff, Prod.mk.injEq] at h
    obtain ⟨_, ⟨price, hprice, -, hpayoff, -, hcover, -, -, -, hrest, rfl⟩, rfl, rfl⟩ := h
    exact ⟨rfl, Or.inr ⟨Int.not_le.mp hpaid, hrest, ⟨price, bid.getOwner⟩, total, htotal, rfl,
      hprice, hpayoff, hcover, rfl⟩⟩

def settleCover (e : EngineState) (ask : MarketOrder) (collateral owed : Int) : EngineState :=
  let cover := { e.currentCollatRecord with collateralBalance := collateral, payoffBalance := owed }
  { e with
    currentAsk := some { withBalance ask owed with collateral := some collateral }
    currentCollatRecord := cover
    layer := e.layer.storeCollateralRecord ask.marketIndex cover }

/-- The quote asset after a payment on a debt, of which `unpaid` is written off. -/
def redeem (a : AssetRecord) (payment : Payment) (unpaid : Int) : AssetRecord :=
  { a with
    currentShareSupply := int64 (a.currentShareSupply - payment.principlePaid.amount)
    collectedFees := int64 (a.collectedFees + payment.interestPaid.amount - unpaid) }

/-- The collateral that is left when the cover at hand has paid, and the debt that is
written off with the last of it. -/
def coverRest (old : Int) (mtrx : MarketTransaction) : Int := int64 (old - mtrx.askPaid.amount)

def unpaid (rest : Int) (payment : Payment) : Int := if rest = 0 then payment.payoffBalance else 0

theorem chargeMarginCall_ok {leftOver returned : Int}
    (h : m.chargeMarginCall e mtrx leftOver = .ok (mtrx', returned)) :
    (mtrx' = mtrx ∧ returned = leftOver) ∨
      (mtrx.feesCollected.amount = 0 ∧ mtrx.feesCollected.assetId = m.baseId ∧
        mtrx' = { mtrx with
          feesCollected := ⟨int64 ((int64 (leftOver * 5000)).tdiv 100000), m.baseId⟩ } ∧
        returned = int64 (leftOver - (int64 (leftOver * 5000)).tdiv 100000)) := by
  unfold Market.chargeMarginCall at h
  split at h
  · simp only [eq_ok_iff, Prod.mk.injEq] at h
    obtain ⟨-, hzero, fees, hadd, rfl, rfl⟩ := h
    obtain ⟨hid, rfl⟩ := Asset.add_eq_ok hadd
    refine Or.inr ⟨hzero, hid, ?_, rfl⟩
    rw [hzero, hid, Int.zero_add]
  · cases h
    exact Or.inl ⟨rfl, rfl⟩

theorem returnCollateral_ok {collateral rest : Int}
    (h : m.returnCollateral e ask mtrx collateral = .ok (e', mtrx', rest)) :
    (¬ (ask.state.balance = 0 ∧ 0 < collateral) ∧ e' = e ∧ mtrx' = mtrx ∧ rest = collateral) ∨
      (ask.state.balance = 0 ∧ 0 < collateral ∧ ∃ charged returned,
        m.chargeMarginCall e mtrx collateral = .ok (charged, returned) ∧
        e' = m.payOut e ask.getOwner m.baseId returned ∧
        mtrx' = { charged with returnedCollateral := some { amount := returned } } ∧ rest = 0) := by
  unfold Market.returnCollateral at h
  split at h
  next hpaid =>
    simp only [eq_ok_iff, Prod.mk.injEq] at h
    obtain ⟨⟨charged, returned⟩, hcharge, rfl, rfl, rfl⟩ := h
    exact Or.inr ⟨hpaid.1, hpaid.2, charged, returned, hcharge, rfl, rfl, rfl⟩
  next hpaid =>
    cases h
    exact Or.inl ⟨hpaid, rfl, rfl, rfl⟩

theorem payCurrentCover_ok (h : m.payCurrentCover e ask mtrx = .ok (e', mtrx')) :
    ask.type = .coverOrder ∧ ∃ expiration debt payment old, ask.expiration = some expiration ∧
      m.getCurrentCoverDebt e ask = .ok debt ∧
      payDebt mtrx.askReceived { amount := e.currentCollatRecord.payoffBalance
                                 assetId := e.quoteAsset.id } debt e.currentCollatRecord.interestRate
        (m.getCurrentCoverAge expiration) ask.state.balance = .ok payment ∧
      0 ≤ payment.principlePaid.amount ∧ 0 ≤ payment.interestPaid.amount ∧
      0 ≤ payment.payoffBalance ∧ ask.collateral = some old ∧ 0 ≤ coverRest old mtrx ∧
      let rest := coverRest old mtrx
      let owed := payment.payoffBalance - unpaid rest payment
      let paid := { e with quoteAsset := redeem e.quoteAsset payment (unpaid rest payment) }
      ((¬ (owed = 0 ∧ 0 < rest) ∧ e' = settleCover paid ask rest owed ∧ mtrx' = mtrx) ∨
        (owed = 0 ∧ 0 < rest ∧ ∃ charged returned,
          m.chargeMarginCall e mtrx rest = .ok (charged, returned) ∧
          e' = settleCover (m.payOut paid ask.getOwner m.baseId returned) ask 0 owed ∧
          mtrx' = { charged with returnedCollateral := some { amount := returned } })) := by
  simp only [Market.payCurrentCover, eq_ok_iff, Prod.mk.injEq] at h
  obtain ⟨-, htype, -, -, -, -, expiration, hexpiration, debt, hdebt, payment, hpayment, -,
    hprinciple, -, hinterest, -, hpayoff, old, hold, -, hrest, ⟨d, t, collateral⟩, hreturn, hd, ht⟩ := h
  refine ⟨htype, expiration, debt, payment, old, hexpiration, hdebt, hpayment, hprinciple,
    hinterest, hpayoff, hold, hrest, ?_⟩
  rcases returnCollateral_ok hreturn with ⟨hpaid, rfl, rfl, rfl⟩ |
    ⟨howed, hleft, charged, returned, hcharge, rfl, rfl, rfl⟩
  · exact Or.inl ⟨hpaid, hd.symm, ht.symm⟩
  · exact Or.inr ⟨howed, hleft, charged, returned, hcharge, hd.symm, ht.symm⟩

structure SameTrade (t t' : MarketTransaction) : Prop where
  bidPaid : t'.bidPaid = t.bidPaid
  askPaid : t'.askPaid = t.askPaid
  bidReceived : t'.bidReceived = t.bidReceived
  askReceived : t'.askReceived = t.askReceived

omit [Fc] in
theorem SameTrade.refl (t : MarketTransaction) : SameTrade t t := ⟨rfl, rfl, rfl, rfl⟩

theorem payCurrentCover_trade (h : m.payCurrentCover e ask mtrx = .ok (e', mtrx')) :
    SameTrade mtrx mtrx' := by
  obtain ⟨-, expiration, debt, payment, old, -, -, -, -, -, -, -, -, hcases⟩ := payCurrentCover_ok h
  rcases hcases with ⟨-, -, rfl⟩ | ⟨-, -, charged, returned, hcharge, -, rfl⟩
  · exact .refl _
  · rcases chargeMarginCall_ok hcharge with ⟨rfl, -⟩ | ⟨-, -, rfl, -⟩ <;> exact ⟨rfl, rfl, rfl, rfl⟩

end Model

end Bts.Blockchain.MarketEffects
