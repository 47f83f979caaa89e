import Bts.Blockchain.MarketLedger

namespace Bts.Blockchain.MergedDebt

open Base Result Word Maps Errors Amounts MarketRecords Transactions Pending Database Layers
  Rules MarketEngine MarketBooks MarketEffects MarketLedger

theorem multiply_maxShares {p : Price} (h : p.ratio < 10 * 2 ^ 64) :
    ∃ n, multiply { amount := maxShares, assetId := p.baseAssetId } p = .ok n := by
  have hamount : (maxShares * p.ratio).tdiv pricePrecision = maxShares * p.ratio / pricePrecision :=
    Int.tdiv_eq_ediv_of_nonneg (Int.mul_nonneg (by decide) (Int.natCast_nonneg _))
  simp only [multiply, ↓reduceIte, bigintToInt64, eq_ok_iff, hamount]
  unfold maxShares pricePrecision
  exact ⟨_, (), by omega, _, ⟨(), by omega, rfl⟩, rfl⟩

section Model

variable [Fc] {m : Market} {e e' : EngineState} {bid : MarketOrder} {mtrx mtrx' : MarketTransaction}
  {key : MarketIndexKey} {old : CollateralRecord} {interest : Asset}

/-- The interest of no time is nothing. -/
def NoInterestAtOnce : Prop :=
  ∀ principle aprN, Fc.realToUint64 (realInterestOwed principle aprN 0) = some 0

def interestOwed (m : Market) (r : CollateralRecord) : Except ChainError Asset :=
  getInterestOwed { amount := r.payoffBalance, assetId := m.quoteId } r.interestRate
    (m.getCurrentCoverAge r.expiration)

def debtOwed (m : Market) (r : CollateralRecord) : Except ChainError Int := do
  let owed ← interestOwed m r
  pure (r.payoffBalance + owed.amount)

def coverIndex (bid : MarketOrder) (mtrx : MarketTransaction) : Except ChainError MarketIndexKey := do
  let shortCollateral ← orThrow mtrx.shortCollateral (.assertion "")
  let collateral ← Asset.add shortCollateral mtrx.askPaid
  let price ← divide mtrx.bidPaid
    { collateral with amount := (int64 (collateral.amount * 2)).tdiv 3 }
  pure { orderPrice := price, owner := bid.getOwner }

theorem afterShort_stored {sc total : Asset} :
    (m.pendingState (afterShort m e bid mtrx key sc total)).getCollateralRecord key =
      some (openedCover m e bid key total.amount mtrx.bidPaid.amount) := by
  simp [afterShort, Market.pendingState, ChainInterface.getCollateralRecord, ChainInterface.find,
    PendingState.storeCollateralRecord, PendingState.storeShortRecord]

theorem debtOwed_opened {collateral debt : Int} (hfc : NoInterestAtOnce)
    (hrate : bid.marketIndex.orderPrice.ratio < 10 * 2 ^ 64) :
    debtOwed m (openedCover m e bid key collateral debt) =
      .ok (openedCover m e bid key collateral debt).payoffBalance := by
  obtain ⟨n, hn⟩ := multiply_maxShares hrate
  have hage : m.getCurrentCoverAge (m.now + maxShortPeriodSec) = 0 := by
    unfold Market.getCurrentCoverAge
    omega
  simp only [debtOwed, interestOwed, getInterestOwed, openedCover, eq_ok_iff]
  refine ⟨_, ⟨n, hn, 0, ?_, rfl⟩, ?_⟩
  · rw [hage]
    exact hfc _ _
  · exact Int.add_zero _

/-- Where a short is added to a position, the debt covers the old one and what the short has
sold exactly if the position owed no interest. -/
theorem merged_debt_iff (hfc : NoInterestAtOnce)
    (hpay : m.payCurrentShort e bid mtrx = .ok (e', mtrx')) (hsold : 0 < mtrx.bidPaid.amount)
    (hkey : coverIndex bid mtrx' = .ok key)
    (hold : (m.pendingState e).getCollateralRecord key = some old)
    (hrate : bid.marketIndex.orderPrice.ratio < 10 * 2 ^ 64) (hfits : Fits old.payoffBalance)
    (hpaid : Fits mtrx.bidPaid.amount) (hinterest : interestOwed m old = .ok interest) :
    ∃ new before after, (m.pendingState e').getCollateralRecord key = some new ∧
      debtOwed m old = .ok before ∧ debtOwed m new = .ok after ∧
      (before + mtrx.bidPaid.amount ≤ after ↔ interest.amount ≤ 0) := by
  obtain ⟨-, collateral, sc, -, -, rfl, hcases⟩ := payCurrentShort_ok hpay
  rcases hcases with ⟨hzero, -⟩ | ⟨-, -, key', total, htotal, howner, hprice, hpayoff, -, rfl⟩
  · omega
  · have hsame : key' = key := by
      simp only [coverIndex, eq_ok_iff, Option.some.injEq] at hkey
      obtain ⟨_, rfl, total', htotal', price, hprice', rfl⟩ := hkey
      cases htotal.symm.trans htotal'
      cases hprice.symm.trans hprice'
      rw [← howner]
    subst hsame
    have hbefore : debtOwed m old = .ok (old.payoffBalance + interest.amount) := by
      unfold debtOwed
      rw [hinterest]
      rfl
    refine ⟨_, _, _, afterShort_stored, hbefore, debtOwed_opened hfc hrate, ?_⟩
    have hsum : (openedCover m e bid key' total.amount mtrx.bidPaid.amount).payoffBalance =
        old.payoffBalance + mtrx.bidPaid.amount := by
      have hwrapped : (openedCover m e bid key' total.amount mtrx.bidPaid.amount).payoffBalance =
          int64 (old.payoffBalance + mtrx.bidPaid.amount) := by
        unfold openedCover
        rw [hold]
        rfl
      rw [hwrapped] at hpayoff ⊢
      unfold Fits at hfits hpaid
      unfold int64 at hpayoff ⊢
      omega
    omega

end Model

def openPosition (expiration : Nat) : CollateralRecord where
  collateralBalance := 1500000
  payoffBalance := 50000
  interestRate := ⟨1000000000000000000, 0, 22⟩
  expiration := expiration

def positionKey : MarketIndexKey := ⟨⟨50000000000000000, 0, 22⟩, 8⟩

def shortedAgain (expiration : Nat) : @ChainDatabase Fc.separate :=
  letI := Fc.separate
  { dollarChain with
    askDb := (∅ : Map _ _).insert ⟨dollarFeed, 7⟩ { balance := 500000 }
    shortDb := (∅ : Map _ _).insert ⟨⟨0, 0, 22⟩, 8⟩ { balance := 1000000 }
    collateralDb := (∅ : Map _ _).insert positionKey (openPosition expiration)
    collateralExpirationIndex := [⟨22, expiration, positionKey⟩] }

def shortedMarket : @Market Fc.separate :=
  letI := Fc.separate
  { quoteId := 22, baseId := 0, feedPrice := some dollarFeed
    prior := .pending {} (.database (shortedAgain 1002592000)) }

def shortedBid : MarketOrder :=
  { type := .shortOrder, marketIndex := ⟨⟨0, 0, 22⟩, 8⟩, state := { balance := 1000000 } }

def shortedTrade : MarketTransaction :=
  { bidOwner := 8, bidType := .shortOrder, bidPaid := ⟨50000, 22⟩, askPaid := ⟨500000, 0⟩
    shortCollateral := some ⟨1000000, 0⟩ }

theorem separate_noInterest : @NoInterestAtOnce Fc.separate := by
  intro principle aprN
  let := Fc.separate
  change toUint64 (Base.Fixed.floor realPrecision (Base.Fixed.mul realPrecision _ 0)) = some 0
  unfold Base.Fixed.mul
  rw [Nat.mul_zero]
  rfl

theorem pay_shortedBid :
    letI := Fc.separate
    ∃ r, shortedMarket.payCurrentShort dollarEngine shortedBid shortedTrade = .ok r ∧
      r.2 = shortedTrade ∧ coverIndex shortedBid r.2 = .ok positionKey := by
  exact ⟨_, rfl, rfl, rfl⟩

theorem interest_openPosition :
    letI := Fc.separate
    interestOwed shortedMarket (openPosition 1002592000) = .ok ⟨0, 22⟩ := by
  decide +kernel

theorem merged_debt_iff_shortedBid :
    letI := Fc.separate
    ∃ e mtrx new before after,
      shortedMarket.payCurrentShort dollarEngine shortedBid shortedTrade = .ok (e, mtrx) ∧
      (shortedMarket.pendingState e).getCollateralRecord positionKey = some new ∧
      debtOwed shortedMarket (openPosition 1002592000) = .ok before ∧
      debtOwed shortedMarket new = .ok after ∧ before + 50000 ≤ after := by
  let := Fc.separate
  obtain ⟨⟨e, mtrx⟩, hpay, -, hkey⟩ := pay_shortedBid
  obtain ⟨new, before, after, hnew, hbefore, hafter, hiff⟩ := merged_debt_iff separate_noInterest
    hpay (by decide) hkey rfl (by decide) (by decide) (by decide)
    interest_openPosition
  exact ⟨e, mtrx, new, before, after, hpay, hnew, hbefore, hafter, hiff.mpr (Int.le_refl 0)⟩

/-- The interest on fifty thousand for half a month is forgiven when the position takes up
another fifty thousand. -/
theorem merge_forgives_interest :
    letI := Fc.separate
    let prev := ChainInterface.database (shortedAgain 1001296000)
    Executed {} prev 22 0 1000000010 fun m _ layer =>
      prev.getCollateralRecord positionKey = some (openPosition 1001296000) ∧
      debtOwed m (openPosition 1001296000) = .ok 52054 ∧
      ∃ new ∈ (ChainInterface.pending layer prev).getCollateralRecord positionKey,
        new.payoffBalance = 100000 ∧ debtOwed m new = .ok 100000 := by
  decide +kernel

end Bts.Blockchain.MergedDebt
