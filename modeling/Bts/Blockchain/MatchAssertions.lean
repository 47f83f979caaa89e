import Bts.Blockchain.MatchAmounts
import Bts.Blockchain.MarketLedger

namespace Bts.Blockchain.MatchAssertions

open Base Result Word Maps Errors Amounts MarketRecords Transactions Database Rules
  MarketEngine MarketMatch MarketLoop MarketRuns MarketBooks MarketEffects MarketTrades MatchAmounts
  MarketCovers MarketLedger

/-- The assertions of `pay_current_bid` and `pay_current_short` that an amount is not
negative. -/
def bidAssertions : List ChainError :=
  [.assertion "mtrx.bid_paid.amount >= 0", .assertion "ocover_record->payoff_balance >= 0",
    .assertion "ocover_record->collateral_balance >= 0", .assertion "_current_bid->state.balance >= 0"]

/-- The one of `pay_current_ask`, which `pay_current_cover` makes about a cover. -/
def askAssertions : List ChainError := [.assertion "_current_ask->state.balance >= 0"]

/-- Neither of these assertions fails. -/
def NotThese (x : ChainError) : Prop := x ∉ bidAssertions ∧ x ∉ askAssertions
  deriving Decidable

theorem not_bidAssertion {α : Type} {x : Except ChainError α} (h : Throws NotThese x) :
    Throws (· ∉ bidAssertions) x :=
  h.mono fun _ hx => hx.1

section Parts

variable {a b : Asset} {p : Price} {o : MarketOrder}

theorem multiply_throws : Throws NotThese (multiply a p) := by
  have hint (x : Int) : Throws NotThese (bigintToInt64 x) := .requires (by decide) (.ok _)
  unfold multiply
  split
  · exact .requires (by decide) (.bind (hint _) fun _ _ => .ok _)
  · split
    · exact .requires (by decide) (.bind (hint _) fun _ _ => .ok _)
    · exact .error (by decide)

theorem add_throws : Throws NotThese (Asset.add a b) :=
  .requires (by decide) (.requires (by decide) (.ok _))

theorem sub_throws : Throws NotThese (Asset.sub a b) :=
  .requires (by decide) (.requires (by decide) (.ok _))

theorem divide_throws : Throws NotThese (divide a b) :=
  .requires (by decide) (.requires (by decide) (.ok _))

theorem getBalance_throws : Throws NotThese o.getBalance := by
  unfold MarketOrder.getBalance
  cases o.type
  case nullOrder => exact .error (by decide)
  all_goals exact .ok _

theorem getPrice_throws : Throws NotThese (o.getPrice p) := by
  have hadd (q : Price) : Throws NotThese (Price.add q p) :=
    .requires (by decide) (.requires (by decide) (.ok _))
  unfold MarketOrder.getPrice
  cases o.type
  case nullOrder => exact .error (by decide)
  case shortOrder =>
    dsimp only
    split <;> exact .ok _
  case relativeBidOrder | relativeAskOrder =>
    dsimp only
    split
    · exact .bind (hadd _) fun _ _ => .ok _
    · exact .ok _
  all_goals exact .ok _

theorem getQuantity_throws : Throws NotThese (o.getQuantity p) := by
  unfold MarketOrder.getQuantity
  cases o.type
  case nullOrder => exact .error (by decide)
  case coverOrder => exact .bind (.orThrow (by decide)) fun _ _ => .ok _
  case bidOrder | relativeBidOrder =>
    exact .bind getBalance_throws fun _ _ => .bind getPrice_throws fun _ _ => multiply_throws
  all_goals exact getBalance_throws

theorem getQuoteQuantity_throws : Throws NotThese (o.getQuoteQuantity p) := by
  unfold MarketOrder.getQuoteQuantity
  cases o.type
  case nullOrder => exact .error (by decide)
  case askOrder | relativeAskOrder | shortOrder =>
    exact .bind getBalance_throws fun _ _ => .bind getPrice_throws fun _ _ => multiply_throws
  all_goals exact getBalance_throws

theorem shortPays_throws {received forSale balance : Asset} :
    Throws NotThese (shortPays received forSale balance p) := by
  unfold shortPays
  split
  · exact .ok _
  · exact multiply_throws

theorem roundCollateral_throws {n : Nat} : Throws NotThese (Market.roundCollateral a b n) := by
  refine .bind sub_throws fun _ _ => ?_
  split
  · exact add_throws
  · exact .ok _

end Parts

section Payments

variable [Fc] {m : Market} {e : EngineState} {bid ask : MarketOrder} {t : MarketTransaction}

theorem getInterestOwed_throws {principle : Asset} {apr : Price} {age : Nat} :
    Throws NotThese (getInterestOwed principle apr age) :=
  .bind multiply_throws fun _ _ => .bind (.orThrow (by decide)) fun _ _ => .ok _

theorem getInterestPaid_throws {paid : Asset} {apr : Price} {age : Nat} :
    Throws NotThese (getInterestPaid paid apr age) :=
  .bind multiply_throws fun _ _ => .bind (.orThrow (by decide)) fun _ _ => .ok _

theorem getCurrentCoverDebt_throws : Throws NotThese (m.getCurrentCoverDebt e ask) :=
  .bind (.orThrow (by decide)) fun _ _ => .bind getBalance_throws fun _ _ =>
    .bind getInterestOwed_throws fun _ _ => add_throws

theorem payDebt_throws {paid principle debt : Asset} {apr : Price} {age : Nat} {owed : Int} :
    Throws NotThese (payDebt paid principle debt apr age owed) := by
  unfold payDebt
  split
  · exact .bind sub_throws fun _ _ => .ok _
  · exact .bind getInterestPaid_throws fun _ _ => .bind sub_throws fun _ _ => .ok _

theorem restPrice_throws {p : Price} : Throws NotThese (m.restPrice bid p) := by
  unfold Market.restPrice
  split
  · exact getPrice_throws
  · exact .ok _

theorem payCurrentBid_throws (h : 0 ≤ bidRest bid t) :
    Throws NotThese (m.payCurrentBid e bid t) := by
  refine .requires (by decide) (.requires (by decide) (.bind (.require fun hneg => absurd h hneg) fun _ _ =>
    .bind getQuoteQuantity_throws fun _ _ => .bind restPrice_throws fun _ _ =>
      .bind multiply_throws fun _ _ => ?_))
  split <;> exact .ok _

theorem payCurrentAsk_throws {toQuote : Bool} (h : 0 ≤ askRest ask t) :
    Throws NotThese (m.payCurrentAsk e ask t toQuote) := by
  refine .requires (by decide) (.requires (by decide) (.bind (.require fun hneg => absurd h hneg) fun _ _ =>
    .bind getQuantity_throws fun _ _ => .bind restPrice_throws fun _ _ =>
      .bind multiply_throws fun _ _ => ?_))
  split <;> exact .ok _

theorem payCurrentShort_throws (hpaid : 0 ≤ t.bidPaid.amount)
    (hsold : ∀ collateral sc total key, t.shortCollateral = some collateral →
      Market.roundCollateral ⟨bid.state.balance, bid.marketIndex.orderPrice.baseAssetId⟩ collateral
        e.baseAsset.precision = .ok sc →
      Asset.add sc t.askPaid = .ok total → key.owner = bid.getOwner →
      divide t.bidPaid { total with amount := (int64 (total.amount * 2)).tdiv 3 } =
        .ok key.orderPrice → 0 < t.bidPaid.amount →
      0 ≤ (openedCover m e bid key total.amount t.bidPaid.amount).payoffBalance ∧
        0 ≤ (openedCover m e bid key total.amount t.bidPaid.amount).collateralBalance ∧
        0 ≤ int64 (bid.state.balance - sc.amount)) :
    Throws NotThese (m.payCurrentShort e bid t) := by
  refine .bind (.require fun _ => by decide) fun _ htype => .requires (by decide) (.bind (.orThrow (by decide))
    fun collateral hcollateral => .bind getBalance_throws fun balance hbalance =>
      .bind roundCollateral_throws fun sc hround => .bind add_throws fun total htotal => ?_)
  dsimp only
  split
  · exact .bind (.require fun hneg => absurd hpaid hneg) fun _ _ => .ok _
  next hpos =>
    rw [require_eq_ok] at htype
    rw [orThrow_eq_ok] at hcollateral
    cases (getBalance_short htype).symm.trans hbalance
    refine .bind (.bind divide_throws fun price hprice => ?_) fun _ _ => .ok _
    obtain ⟨hpayoff, hcover, hrest⟩ := hsold collateral sc total ⟨price, bid.getOwner⟩ hcollateral
      hround htotal rfl hprice (Int.not_le.mp hpos)
    exact .bind (.require fun hneg => absurd hpayoff hneg) fun _ _ =>
      .bind (.require fun hneg => absurd hcover hneg) fun _ _ =>
        .requires (by decide) (.bind (.require fun hneg => absurd hrest hneg) fun _ _ => .ok _)

theorem chargeMarginCall_throws {leftOver : Int} :
    Throws NotThese (m.chargeMarginCall e t leftOver) := by
  unfold Market.chargeMarginCall
  split
  · exact .requires (by decide) (.bind add_throws fun _ _ => .ok _)
  · exact .ok _

theorem returnCollateral_throws {collateral : Int} :
    Throws NotThese (m.returnCollateral e ask t collateral) := by
  unfold Market.returnCollateral
  split
  · exact .bind chargeMarginCall_throws fun _ _ => .ok _
  · exact .ok _

theorem payCurrentCover_throws : Throws (· ∉ bidAssertions) (m.payCurrentCover e ask t) :=
  .requires (by decide) (.requires (by decide) (.requires (by decide) (.bind (.orThrow (by decide)) fun _ _ =>
    .bind (not_bidAssertion getCurrentCoverDebt_throws) fun _ _ =>
      .bind (not_bidAssertion payDebt_throws) fun _ _ => .requires (by decide) (.requires (by decide) (.requires (by decide)
        (.bind (.orThrow (by decide)) fun _ _ => .requires (by decide)
          (.bind (not_bidAssertion returnCollateral_throws) fun _ _ => .ok _)))))))

end Payments

section Pairs

variable [Fc]
variable (m : Market) (e : EngineState) (bid ask : MarketOrder) (t : MarketTransaction)

/-- The interest on the position at hand fits `int64_t`. -/
def InterestFits : Prop :=
  ∀ rate, multiply { amount := maxShares, assetId := e.currentCollatRecord.interestRate.baseAssetId }
      e.currentCollatRecord.interestRate = .ok rate →
    ∀ expiration ∈ ask.expiration, ∀ owed ∈ Fc.realToUint64 (realInterestOwed ask.state.balance
      rate.amount (m.getCurrentCoverAge expiration)), Fits owed

/-- A bid or a short and an ask or a position of the market, where nothing holds more than
`BTS_BLOCKCHAIN_MAX_SHARES`. -/
structure Matched : Prop where
  bidType : bid.type = .bidOrder ∨ bid.type = .shortOrder
  bidPair : m.isPair bid.marketIndex.orderPrice
  bidBalance : 0 ≤ bid.state.balance ∧ bid.state.balance ≤ maxShares
  askType : ask.type = .askOrder ∨ ask.type = .coverOrder
  askPair : m.isPair ask.marketIndex.orderPrice
  askBalance : 0 ≤ ask.state.balance ∧ ask.state.balance ≤ maxShares
  collateral : ∀ owned ∈ ask.collateral, 0 ≤ owned ∧ owned ≤ maxShares
  interest : ask.type = .coverOrder → InterestFits m e ask
  positions : ∀ key r, (m.pendingState e).getCollateralRecord key = some r →
    0 ≤ r.payoffBalance ∧ 0 ≤ r.collateralBalance ∧ r.collateralBalance ≤ maxShares

/-- A short that is merged into a position keeps the debt of the position within `int64_t`. -/
def MergeFits : Prop :=
  ∀ key exchanged paid r, openedKey m e bid ask t = .ok key →
    shortTrade m e bid ask t = .ok (exchanged, paid) →
    (m.pendingState e).getCollateralRecord key = some r →
    r.payoffBalance + exchanged.amount ≤ 9223372036854775807

/-- The assertions about the pair. The balance of a position is asserted by
`pay_current_cover`. -/
def matchAssertions : List ChainError :=
  if ask.type = .coverOrder then bidAssertions else bidAssertions ++ askAssertions

variable {m e bid ask t} {feed : Price} {forSale exchanged paid collateral : Asset}

omit [Fc] in
theorem checked_filled (hsold : 0 ≤ exchanged.amount) (hpaid : 0 ≤ paid.amount)
    (hfees : t.feesCollected.amount = 0) (stake : Option Asset) :
    Checked (filled t exchanged paid stake) :=
  Or.inr ⟨hsold, hpaid, hpaid, hsold, ⟨rfl, le_rfl⟩, ⟨rfl, le_rfl⟩, hfees.ge⟩

section

variable (h : Matched m e bid ask)
include h

theorem Matched.isBidOrder (hbid : isBid bid.type) : bid.type = .bidOrder := by
  rcases h.bidType with hbid' | hbid'
  · exact hbid'
  · rw [hbid'] at hbid
    rcases hbid with hbid | hbid <;> cases hbid

theorem Matched.isAskOrder (hask : ask.type ≠ .coverOrder) :
    ask.type = .askOrder := h.askType.resolve_right hask

theorem Matched.debt_nonneg (hask : ask.type = .coverOrder) {debt : Asset}
    (hdebt : m.getCurrentCoverDebt e ask = .ok debt) : 0 ≤ debt.amount := by
  simp only [Market.getCurrentCoverDebt, getInterestOwed, MarketOrder.getBalance, hask, eq_ok_iff] at hdebt
  obtain ⟨expiration, hexpiration, _, rfl, _, ⟨rate, hrate, owed, howed, rfl⟩, hadd⟩ := hdebt
  have hfits := h.interest hask rate hrate expiration hexpiration owed howed
  have hbalance := h.askBalance.1
  simp only [Asset.add, eq_ok_iff, int64_of_fits hfits] at hadd
  obtain ⟨_, -, _, hrange, rfl⟩ := hadd
  unfold Fits at hfits
  have hsum : Fits (owed + ask.state.balance) := by
    unfold Fits
    omega
  dsimp only
  rw [int64_of_fits hsum]
  omega

theorem checked_cover {d e' : EngineState} {t' : MarketTransaction} {stake : Option Asset}
    (hfees : t.feesCollected.amount = 0) (hsold : 0 ≤ exchanged.amount) (hpaid : 0 ≤ paid.amount)
    (hpaidLe : ∀ owned ∈ ask.collateral, paid.amount ≤ owned)
    (hpay : m.payCurrentCover d ask (filled t exchanged paid stake) = .ok (e', t')) : Checked t' := by
  have hchecked := checked_filled hsold hpaid hfees stake
  obtain ⟨-, expiration, debt, payment, owned, -, -, -, -, -, -, howned, hrest, hcases⟩ :=
    payCurrentCover_ok hpay
  rcases hcases with ⟨-, -, rfl⟩ | ⟨-, -, charged, returned, hcharge, -, rfl⟩
  · exact hchecked
  rcases chargeMarginCall_ok hcharge with ⟨rfl, -⟩ | ⟨-, -, rfl, -⟩
  · exact hchecked
  have hrest' : coverRest owned (filled t exchanged paid stake) ≤ maxShares := by
    have hmax := h.collateral owned howned
    have hle := hpaidLe owned howned
    unfold maxShares at hmax ⊢
    unfold coverRest
    dsimp only [filled]
    rw [int64_of_fits (by unfold Fits; omega)]
    omega
  unfold maxShares at hrest'
  refine Or.inr ⟨hsold, hpaid, hpaid, hsold, ⟨rfl, le_rfl⟩, ⟨rfl, le_rfl⟩, ?_⟩
  dsimp only
  rw [int64_of_fits (x := coverRest owned (filled t exchanged paid stake) * 5000)
    (by unfold Fits; omega), Int.tdiv_eq_ediv_of_nonneg (by omega),
    int64_of_fits (by unfold Fits; omega)]
  omega

variable (hm : Setting m) (hjudge : judge m e bid ask = .ok (.trade t))
include hm hjudge

section

variable (hbid : bid.type = .shortOrder) (hfeed : m.feedPrice = some feed)
  (htrade : MarketCovers.shortTrade m e bid ask t = .ok (exchanged, paid))
  (hstake : shortStake feed bid exchanged = .ok collateral)
include hbid hfeed htrade hstake

theorem Matched.shortTrade :
    0 ≤ exchanged.amount ∧ Fits exchanged.amount ∧ 0 ≤ paid.amount ∧ paid.amount ≤ maxShares ∧
      0 ≤ collateral.amount ∧ collateral.amount ≤ bid.state.balance ∧
      (ask.type = .askOrder → paid.amount ≤ ask.state.balance) ∧
      (ask.type = .coverOrder → ∀ owned ∈ ask.collateral, paid.amount ≤ owned) := by
  have hpair := hm.feed feed hfeed
  simp only [MarketCovers.shortTrade, hfeed, eq_ok_iff] at htrade
  obtain ⟨_, ⟨⟩, htrade⟩ := htrade
  rcases h.askType with hask | hask
  · rw [if_neg (by rw [hask]; decide)] at htrade
    obtain ⟨hid, hfits, -, forSale, hsale, hle⟩ :=
      shortFill_ok hpair hask h.askPair hbid h.bidPair htrade
    obtain ⟨hpos, hpaid, hpaidLe⟩ := shortFill_amounts hm hpair hbid h.bidPair hask h.askPair
      (judge_crossed hask hjudge).1 h.bidBalance.1 h.askBalance.1 htrade
    obtain ⟨hstakePos, hstakeLe⟩ :=
      shortStake_amount hm hpair hbid h.bidPair h.bidBalance.1 hsale hle hid hpos hstake
    refine ⟨hpos, hfits, hpaid, hpaidLe.trans h.askBalance.2, hstakePos, hstakeLe, fun _ => hpaidLe,
      fun hcover => ?_⟩
    rw [hask] at hcover
    cases hcover
  · rw [if_pos hask, bind_eq_ok] at htrade
    obtain ⟨forSale, hsale, hfill⟩ := htrade
    have hj := judge_ok hm (Or.inr hask) h.askPair hjudge
    obtain ⟨hsaleId, hsaleFits⟩ := shortSale_ok hpair hbid h.bidPair hsale
    obtain ⟨hfits, hle, hid, owned, howned, -⟩ := coverFill_ok hask h.askPair hfill
    obtain ⟨hpos, hpaid, hpaidLe⟩ := coverFill_amounts hm hask h.askPair (hj.coverPrice hask)
      (hj.shortPrice hbid) howned (h.collateral owned howned).1
      (shortSale_amount hbid h.bidBalance.1 hsale) hsaleId (fun _ => h.debt_nonneg hask) hfill
    obtain ⟨hstakePos, hstakeLe⟩ := shortStake_amount hm hpair hbid h.bidPair h.bidBalance.1 hsale hle
      (hid hsaleId (hj.shortPrice hbid)) hpos hstake
    refine ⟨hpos, ?_, hpaid, hpaidLe.trans (h.collateral owned howned).2, hstakePos, hstakeLe,
      fun hask' => ?_, fun _ owned' howned' => ?_⟩
    · rcases hfits with rfl | hfits
      · exact hsaleFits
      · exact hfits
    · rw [hask] at hask'
      cases hask'
    · cases howned.symm.trans howned'
      exact hpaidLe

theorem Matched.opened {sc total : Asset} {key : MarketIndexKey} (hroom : MergeFits m e bid ask t)
    (hround : Market.roundCollateral ⟨bid.state.balance, bid.marketIndex.orderPrice.baseAssetId⟩
      collateral e.baseAsset.precision = .ok sc)
    (htotal : Asset.add sc paid = .ok total) (howner : key.owner = bid.getOwner)
    (hkey : divide exchanged { total with amount := (int64 (total.amount * 2)).tdiv 3 } =
      .ok key.orderPrice) (hsold : 0 < exchanged.amount) :
    0 ≤ (openedCover m e bid key total.amount exchanged.amount).payoffBalance ∧
      0 ≤ (openedCover m e bid key total.amount exchanged.amount).collateralBalance ∧
      0 ≤ int64 (bid.state.balance - sc.amount) := by
  obtain ⟨hpos, hfits, hpaid, hpaidLe, hstakePos, hstakeLe, -⟩ :=
    h.shortTrade hm hjudge hbid hfeed htrade hstake
  have hbidLe := h.bidBalance
  have hsc : 0 ≤ sc.amount ∧ sc.amount ≤ bid.state.balance := by
    obtain ⟨-, -, hsc | ⟨hsc, -⟩⟩ := roundCollateral_ok hround
    · omega
    · have hall : Fits bid.state.balance := by
        unfold Fits
        unfold maxShares at hbidLe
        omega
      rw [int64_of_fits hall] at hsc
      omega
  have hopened := openedKey_eq hbid hfeed htrade hsold hstake hround htotal howner hkey
  obtain ⟨-, rfl⟩ := Asset.add_eq_ok htotal
  have hold : 0 ≤ (((m.pendingState e).getCollateralRecord key).getD {}).payoffBalance ∧
      0 ≤ (((m.pendingState e).getCollateralRecord key).getD {}).collateralBalance ∧
      (((m.pendingState e).getCollateralRecord key).getD {}).collateralBalance ≤ maxShares ∧
      (((m.pendingState e).getCollateralRecord key).getD {}).payoffBalance + exchanged.amount ≤
        9223372036854775807 := by
    cases hr : (m.pendingState e).getCollateralRecord key with
    | none =>
      refine ⟨by decide, by decide, by decide, ?_⟩
      rw [Option.getD_none, Int.zero_add]
      exact hfits.2
    | some r =>
      obtain ⟨hpayoff, hcollateral, hmax⟩ := h.positions key r hr
      exact ⟨hpayoff, hcollateral, hmax, hroom key exchanged paid r hopened htrade hr⟩
  obtain ⟨hpayoff, hcover, hcoverLe, hsum⟩ := hold
  unfold maxShares at hbidLe hpaidLe hcoverLe
  have htotal : int64 (sc.amount + paid.amount) = sc.amount + paid.amount :=
    int64_of_fits (by unfold Fits; omega)
  unfold openedCover
  dsimp only
  refine ⟨?_, ?_, ?_⟩ <;> rw [int64_of_fits (by unfold Fits; omega)] <;> omega

theorem Matched.payCurrentShort (hroom : MergeFits m e bid ask t) :
    Throws NotThese (m.payCurrentShort e bid (filled t exchanged paid (some collateral))) := by
  obtain ⟨hpos, -⟩ := h.shortTrade hm hjudge hbid hfeed htrade hstake
  refine payCurrentShort_throws hpos fun c sc total key hc hround htotal howner hkey hsold => ?_
  cases hc
  exact h.opened hm hjudge hbid hfeed htrade hstake hroom hround htotal howner hkey hsold

end

theorem Matched.coverBid (hbid : bid.type = .bidOrder) (hask : ask.type = .coverOrder)
    (hsale : bid.getBalance = .ok forSale)
    (hfill : coverFill m e ask t forSale = .ok (exchanged, paid)) :
    0 ≤ exchanged.amount ∧ 0 ≤ paid.amount ∧ (∀ owned ∈ ask.collateral, paid.amount ≤ owned) ∧
      exchanged.amount ≤ bid.state.balance := by
  have hj := judge_ok hm (Or.inr hask) h.askPair hjudge
  have hpair : m.isPair t.bidPrice := by
    rw [judge_bidPrice hbid hjudge]
    exact h.bidPair
  obtain rfl : forSale = { amount := bid.state.balance, assetId := m.quoteId } := by
    unfold MarketOrder.getBalance at hsale
    rw [hbid, h.bidPair.1] at hsale
    exact (Except.ok.inj hsale).symm
  obtain ⟨-, hle, -, owned, howned, -⟩ := coverFill_ok hask h.askPair hfill
  obtain ⟨hpos, hpaid, hpaidLe⟩ := coverFill_amounts hm hask h.askPair (hj.coverPrice hask) hpair
    howned (h.collateral owned howned).1 h.bidBalance.1 rfl (fun _ => h.debt_nonneg hask) hfill
  refine ⟨hpos, hpaid, fun owned' howned' => ?_, hle⟩
  cases howned.symm.trans howned'
  exact hpaidLe

theorem tradeAskShort_asserts (hbid : bid.type = .shortOrder) (hask : ask.type = .askOrder)
    (hroom : MergeFits m e bid ask t) :
    Throws NotThese (tradeAskShort m e bid ask t) := by
  refine .bind (.orThrow (by decide)) fun feed hfeed => .bind getQuoteQuantity_throws
    fun askQuantity haskQ => .bind getBalance_throws fun balance hbalance => .bind multiply_throws
      fun shortQuantity hshortQ => .bind getBalance_throws fun askBalance haskB => .bind ?_
        fun paid hpaid => .bind ?_ fun collateral hcollateral => ?_
  · unfold tradeAskShort.shortFills
    split
    · exact multiply_throws
    · exact .ok _
  · exact shortPays_throws
  rw [orThrow_eq_ok] at hfeed
  have hfill : shortFill feed bid ask t = .ok (Asset.min shortQuantity askQuantity, paid) := by
    simp only [shortFill, eq_ok_iff]
    exact ⟨askQuantity, haskQ, balance, hbalance, shortQuantity, hshortQ, askBalance, haskB, paid,
      hpaid, rfl⟩
  have hstake : shortStake feed bid (Asset.min shortQuantity askQuantity) = .ok collateral := by
    simp only [shortStake, bind_eq_ok]
    exact ⟨balance, hbalance, shortQuantity, hshortQ, hcollateral⟩
  have htrade : MarketCovers.shortTrade m e bid ask t =
      .ok (Asset.min shortQuantity askQuantity, paid) := shortTrade_ask hask hfeed hfill
  obtain ⟨-, -, hpaidPos, -, -, -, haffords, -⟩ := h.shortTrade hm hjudge hbid hfeed htrade hstake
  refine .bind (h.payCurrentShort hm hjudge hbid hfeed htrade hstake hroom) fun r hshort => ?_
  obtain ⟨d, t'⟩ := r
  refine .bind (payCurrentAsk_throws ?_) fun _ _ => .ok _
  obtain ⟨-, c, sc, -, -, rfl, -⟩ := payCurrentShort_ok hshort
  have hle := haffords hask
  have hmax := h.askBalance
  unfold maxShares at hmax
  unfold askRest
  dsimp only
  rw [int64_of_fits (by unfold Fits; omega)]
  omega

theorem tradeCoverShort_asserts (hbid : bid.type = .shortOrder) (hask : ask.type = .coverOrder)
    (hroom : MergeFits m e bid ask t) :
    Throws (· ∉ bidAssertions) (tradeCoverShort m e bid ask t) := by
  refine .bind (.orThrow (by decide)) fun feed hfeed => .bind (.orThrow (by decide))
    fun amount hamount => .bind (not_bidAssertion multiply_throws) fun afford hafford =>
      .bind (not_bidAssertion getCurrentCoverDebt_throws) fun debt hdebt => .bind (not_bidAssertion getBalance_throws)
        fun balance hbalance => .bind (not_bidAssertion multiply_throws) fun forSale hforSale => .bind ?_
          fun paid hpaid => .bind ?_ fun collateral hcollateral => ?_
  · exact not_bidAssertion shortPays_throws
  · exact not_bidAssertion shortPays_throws
  rw [orThrow_eq_ok] at hfeed hamount
  have hsale : shortSale feed bid = .ok forSale := by
    simp only [shortSale, bind_eq_ok]
    exact ⟨balance, hbalance, hforSale⟩
  have hfill : coverFill m e ask t forSale =
      .ok (Asset.min (Asset.min forSale afford) debt, paid) := by
    simp only [coverFill, eq_ok_iff]
    exact ⟨amount, hamount, afford, hafford, debt, hdebt, paid, hpaid, rfl⟩
  have hstake : shortStake feed bid (Asset.min (Asset.min forSale afford) debt) =
      .ok collateral := by
    simp only [shortStake, bind_eq_ok]
    exact ⟨balance, hbalance, forSale, hforSale, hcollateral⟩
  exact .bind (not_bidAssertion (h.payCurrentShort hm hjudge hbid hfeed
    (shortTrade_cover hask hfeed hsale hfill) hstake hroom)) fun _ _ => payCurrentCover_throws

theorem tradeCoverBid_asserts (hbid : bid.type = .bidOrder) (hask : ask.type = .coverOrder) :
    Throws (· ∉ bidAssertions) (tradeCoverBid m e bid ask t) := by
  refine .bind (.orThrow (by decide)) fun amount hamount => .bind (not_bidAssertion multiply_throws)
    fun afford hafford => .bind (not_bidAssertion getCurrentCoverDebt_throws) fun debt hdebt =>
      .bind (not_bidAssertion getBalance_throws) fun forSale hforSale => .bind ?_ fun paid hpaid =>
        .bind (not_bidAssertion (payCurrentBid_throws ?_)) fun _ _ => payCurrentCover_throws
  · exact not_bidAssertion shortPays_throws
  rw [orThrow_eq_ok] at hamount
  have hfill : coverFill m e ask t forSale =
      .ok (Asset.min (Asset.min forSale afford) debt, paid) := by
    simp only [coverFill, eq_ok_iff]
    exact ⟨amount, hamount, afford, hafford, debt, hdebt, paid, hpaid, rfl⟩
  obtain ⟨hpos, -, -, hle⟩ := h.coverBid hm hjudge hbid hask hforSale hfill
  have hmax := h.bidBalance
  unfold maxShares at hmax
  unfold bidRest
  dsimp only
  rw [int64_of_fits (by unfold Fits; omega)]
  omega

theorem tradeAskBid_asserts (hbid : bid.type = .bidOrder) (hask : ask.type = .askOrder) :
    Throws NotThese (tradeAskBid m e bid ask t) := by
  refine .bind getQuantity_throws fun bidQuantity hbidQ => .bind getQuantity_throws
    fun askQuantity haskQ => .bind multiply_throws fun received hreceived => .bind multiply_throws
      fun bidPays hpays => .bind getBalance_throws fun bidBalance hbidB => .bind getBalance_throws
        fun askBalance haskB => .bind sub_throws fun fees _ => ?_
  have hfill := bidFill hm hbid h.bidPair hask h.askPair hjudge h.bidBalance.1 h.askBalance.1 hbidQ
    haskQ hreceived hpays hbidB haskB
  have hreceivedPos := multiply_nonneg hfill.nonneg hreceived
  have hcovers := hfill.covers
  have hbidAffords := hfill.bidAffords
  have haskAffords := hfill.askAffords
  have hnonneg := hfill.nonneg
  have hmax := h.bidBalance.2
  have hmax' := h.askBalance.2
  unfold maxShares at hmax hmax'
  refine .bind (payCurrentBid_throws ?_) fun _ _ => .bind (payCurrentAsk_throws ?_) fun _ _ => .ok _
  · unfold bidRest
    dsimp only
    rw [int64_of_fits (by unfold Fits; omega)]
    omega
  · unfold askRest
    rw [hfill.askPays, int64_of_fits (by unfold Fits; omega)]
    omega

theorem trade_checked {e' : EngineState} {t' : MarketTransaction}
    (htrade : trade m e bid ask t = .ok (e', t')) : Checked t' := by
  have hj := judge_ok hm h.askType h.askPair hjudge
  have hfees : t.feesCollected.amount = 0 := by rw [hj.fees]
  rcases trade_cases htrade with ⟨hask, hbid, htrade⟩ | ⟨hask, hbid, htrade⟩ | ⟨hask, hbid, htrade⟩ |
    ⟨hask, hbid, htrade⟩ | ⟨hnone, hnone'⟩
  · obtain ⟨feed, forSale, exchanged, paid, collateral, d, u, hfeed, hsale, hfill, hstake, hshort,
      hcover⟩ := tradeCoverShort_ok htrade
    obtain ⟨hsold, -, hpaid, -, -, -, -, hpaidLe⟩ := h.shortTrade hm hjudge hbid hfeed
      (shortTrade_cover hask hfeed hsale hfill) hstake
    obtain ⟨-, c, sc, -, -, rfl, -⟩ := payCurrentShort_ok hshort
    exact checked_cover h hfees hsold hpaid (hpaidLe hask) hcover
  · obtain ⟨forSale, exchanged, paid, d, hsale, hfill, hbid', hcover⟩ := tradeCoverBid_ok htrade
    obtain ⟨hsold, hpaid, hpaidLe, -⟩ := h.coverBid hm hjudge (h.isBidOrder hbid) hask hsale hfill
    exact checked_cover h hfees hsold hpaid hpaidLe hcover
  · obtain ⟨feed, exchanged, paid, collateral, d, hfeed, hfill, hstake, hshort, -⟩ :=
      tradeAskShort_ok htrade
    obtain ⟨hsold, -, hpaid, -⟩ := h.shortTrade hm hjudge hbid hfeed
      (shortTrade_ask (h.isAskOrder (by rcases hask with hask | hask <;> rw [hask] <;> decide)) hfeed
        hfill) hstake
    obtain ⟨-, c, sc, -, -, rfl, -⟩ := payCurrentShort_ok hshort
    exact checked_filled hsold hpaid hfees (some sc)
  · have hask' := h.isAskOrder (by rcases hask with hask | hask <;> rw [hask] <;> decide)
    simp only [tradeAskBid, eq_ok_iff, Prod.mk.injEq] at htrade
    obtain ⟨bidQuantity, hbidQ, askQuantity, haskQ, received, hreceived, bidPays, hpays, bidBalance,
      hbidB, askBalance, haskB, fees, hfees', d, -, d', -, rfl, rfl⟩ := htrade
    have hfill := bidFill hm (h.isBidOrder hbid) h.bidPair hask' h.askPair hjudge h.bidBalance.1
      h.askBalance.1 hbidQ haskQ hreceived hpays hbidB haskB
    have hpos := multiply_nonneg hfill.nonneg hreceived
    have hcovers := hfill.covers
    have haffords := hfill.bidAffords
    have hmax := h.bidBalance.2
    unfold maxShares at hmax
    obtain ⟨-, rfl⟩ := Asset.sub_eq_ok hfees'
    refine Or.inr ⟨hpos.trans hcovers, ?_, hfill.nonneg, hpos,
      ⟨hfill.receivedQuote.trans hfill.paidQuote.symm, hcovers⟩,
      ⟨hfill.isBase.trans hfill.askBase.symm, hfill.askPays.ge⟩, ?_⟩
    · rw [hfill.askPays]
      exact hfill.nonneg
    · dsimp only
      rw [int64_of_fits (by unfold Fits; omega)]
      omega
  · rcases h.askType with hask | hask <;> rcases h.bidType with hbid | hbid
    · exact absurd ⟨hask, Or.inr (Or.inl hbid)⟩ hnone'
    · exact absurd ⟨hask, Or.inl hbid⟩ hnone'
    · exact absurd ⟨hask, Or.inr (Or.inl hbid)⟩ hnone
    · exact absurd ⟨hask, Or.inl hbid⟩ hnone

theorem trade_asserts (hroom : MergeFits m e bid ask t) :
    Throws (· ∉ matchAssertions ask) (trade m e bid ask t) := by
  unfold trade matchAssertions isBid
  have hstrong {α : Type} {x : Except ChainError α} (h : Throws NotThese x) :
      Throws (· ∉ bidAssertions ++ askAssertions) x :=
    h.mono fun _ hx hmem => (List.mem_append.mp hmem).elim hx.1 hx.2
  rcases h.askType with hask | hask <;> rcases h.bidType with hbid | hbid <;>
    simp only [hask, hbid, reduceCtorEq, and_true, and_false, or_false, if_true, if_false]
  · exact hstrong (tradeAskBid_asserts h hm hjudge hbid hask)
  · exact hstrong (tradeAskShort_asserts h hm hjudge hbid hask hroom)
  · exact tradeCoverBid_asserts h hm hjudge hbid hask
  · exact tradeCoverShort_asserts h hm hjudge hbid hask hroom

end

/-- In every pair that the engine matches, where what a short sells fits into the debt of the
position it is merged into, no amount that is asserted to be positive is negative, and the
trade is one that `push_market_transaction` takes. -/
theorem matched_amounts_asserted (hm : Setting m) (h : Matched m e bid ask)
    (hjudge : judge m e bid ask = .ok (.trade t)) (hroom : MergeFits m e bid ask t) :
    (∀ x ∈ matchAssertions ask, trade m e bid ask t ≠ .error x) ∧
      ∀ e' t', trade m e bid ask t = .ok (e', t') → Market.pushMarketTransaction e' t' =
        .ok { e' with marketTransactions := e'.marketTransactions ++ [t'] } := by
  refine ⟨fun x hx herror => trade_asserts h hm hjudge hroom x herror hx, fun e' t' htrade => ?_⟩
  have hchecked := trade_checked h hm hjudge htrade
  simp only [Market.pushMarketTransaction, eq_ok_iff]
  exact ⟨(), hchecked, trivial⟩

end Pairs

def heavyFeed : Price := ⟨18446000000000000000000, 0, 22⟩

def heavyKey : MarketIndexKey := ⟨⟨9223000000000000000000, 0, 22⟩, 8⟩

def heavyPosition : CollateralRecord where
  collateralBalance := 150000000000
  payoffBalance := 922300000000000
  interestRate := ⟨0, 0, 22⟩
  expiration := 1002592000

/-- The base asset is worth 18446 units of the quote asset, and the owner of a short has a
position already. -/
def heavyChain : @ChainDatabase Fc.separate :=
  letI := Fc.separate
  { dollarChain with
    feedDb := ((List.range 51).map Int.ofNat).foldl (fun t n => t.store
      { feed := ⟨22, n⟩, value := .price heavyFeed, lastUpdate := 1000000000 }) .empty
    askDb := (∅ : Map _ _).insert ⟨heavyFeed, 7⟩ { balance := 500000000000000 }
    shortDb := (∅ : Map _ _).insert ⟨⟨0, 0, 22⟩, 8⟩ { balance := 1000000000000000 }
    collateralDb := (∅ : Map _ _).insert heavyKey heavyPosition
    collateralExpirationIndex := [⟨22, 1002592000, heavyKey⟩] }

def heavyMarket : @Market Fc.separate :=
  letI := Fc.separate
  { quoteId := 22, baseId := 0, feedPrice := some heavyFeed
    prior := .pending {} (.database heavyChain) }

def heavyShort (balance : Int) : MarketOrder :=
  { type := .shortOrder, marketIndex := ⟨⟨0, 0, 22⟩, 8⟩, state := { balance } }

def heavyAsk (balance : Int) : MarketOrder :=
  { type := .askOrder, marketIndex := ⟨heavyFeed, 7⟩, state := { balance } }

def heavyTrade : MarketTransaction :=
  { bidOwner := 8, askOwner := 7, bidPrice := heavyFeed, askPrice := heavyFeed
    bidType := .shortOrder, askType := .askOrder }

theorem heavy_setting : @Setting Fc.separate heavyMarket := by
  let := Fc.separate
  refine ⟨by decide +kernel, by decide, fun feed hfeed => ?_⟩
  cases hfeed
  exact ⟨rfl, rfl⟩

theorem heavy_positions (key : MarketIndexKey) (r : CollateralRecord)
    (h : letI := Fc.separate; (heavyMarket.pendingState dollarEngine).getCollateralRecord key = some r) :
    r = heavyPosition := by
  let := Fc.separate
  by_cases hkey : key = heavyKey
  · rw [hkey] at h
    exact (Option.some.inj h).symm
  · have hnone : (heavyMarket.pendingState dollarEngine).getCollateralRecord key = none :=
      (lookup_insert _ _ _ _).trans (if_neg hkey)
    rw [hnone] at h
    cases h

theorem heavy_matched {short ask : Int} (hshort : 0 ≤ short ∧ short ≤ maxShares)
    (hask : 0 ≤ ask ∧ ask ≤ maxShares) :
    letI := Fc.separate
    Matched heavyMarket dollarEngine (heavyShort short) (heavyAsk ask) := by
  let := Fc.separate
  refine ⟨Or.inr rfl, ⟨rfl, rfl⟩, hshort, Or.inl rfl, ⟨rfl, rfl⟩, hask, ?_, ?_, fun key r hr => ?_⟩
  · intro owned howned
    cases howned
  · intro hcover
    cases hcover
  · rw [heavy_positions key r hr]
    decide

theorem heavy_judged (short ask : Int) :
    letI := Fc.separate
    judge heavyMarket dollarEngine (heavyShort short) (heavyAsk ask) = .ok (.trade heavyTrade) := by
  rfl

theorem heavy_mergeFits :
    letI := Fc.separate
    MergeFits heavyMarket dollarEngine (heavyShort 1000) (heavyAsk 500) heavyTrade := by
  intro key exchanged paid r _ htrade hr
  cases heavy_positions key r hr
  cases htrade
  decide

theorem matched_amounts_asserted_heavy :
    letI := Fc.separate
    let short := heavyShort 1000
    let ask := heavyAsk 500
    (openedKey heavyMarket dollarEngine short ask heavyTrade = .ok heavyKey ∧
      (trade heavyMarket dollarEngine short ask heavyTrade).isOk) ∧
      ∀ e' t', trade heavyMarket dollarEngine short ask heavyTrade = .ok (e', t') →
        Market.pushMarketTransaction e' t' =
          .ok { e' with marketTransactions := e'.marketTransactions ++ [t'] } := by
  let := Fc.separate
  exact ⟨⟨rfl, rfl⟩, (matched_amounts_asserted heavy_setting (heavy_matched (by decide) (by decide))
    (heavy_judged 1000 500) heavy_mergeFits).2⟩

/-- The debt of the position and what the short sells do not fit into `int64_t` together. -/
theorem merged_debt_asserted :
    letI := Fc.separate
    let short := heavyShort 1000000000000000
    let ask := heavyAsk 500000000000000
    (Matched heavyMarket dollarEngine short ask ∧
      judge heavyMarket dollarEngine short ask = .ok (.trade heavyTrade) ∧
      trade heavyMarket dollarEngine short ask heavyTrade =
        .error (.assertion "ocover_record->payoff_balance >= 0")) ∧
    Failed {} (.database heavyChain) 22 0 1000000010
      (.assertion "ocover_record->payoff_balance >= 0") := by
  exact ⟨⟨heavy_matched (by decide) (by decide), heavy_judged _ _, rfl⟩, by decide +kernel⟩

end Bts.Blockchain.MatchAssertions
