import Bts.Blockchain.MarketLedger

namespace Bts.Blockchain.QuoteLedger

open Base Word Maps Amounts MarketRecords Transactions Pending Database Layers MarketEngine
  MarketMatch MarketExecute MarketLoop MarketRuns MarketBooks MarketEffects MarketTrades MarketSync
  MarketPasses MarketLedger Holdings

section Model

variable [Fc]

/-- The quote asset in balances and bids, as the engine has it. -/
def quoteOut (m : Market) (e : EngineState) : Int :=
  heldBalances m.quoteId (m.pendingState e) + heldBids m.quoteId (m.pendingState e)

/-- No amount of the quote asset is negative. The fees may be, since debts are written off
against them. -/
structure QuoteSound (m : Market) (e : EngineState) : Prop where
  balances : Holdings.balances.Nonneg (inBalance m.quoteId) (m.pendingState e)
  bids : Holdings.bids.Nonneg (inBid m.quoteId) (m.pendingState e)
  relativeBids : Holdings.relativeBids.Nonneg (inBid m.quoteId) (m.pendingState e)

variable {m : Market} {e d : EngineState} {bid ask : MarketOrder} {mtrx mtrx' : MarketTransaction}

theorem QuoteSound.parts (h : QuoteSound m e) :
    0 ≤ heldBalances m.quoteId (m.pendingState e) ∧ 0 ≤ heldBids m.quoteId (m.pendingState e) :=
  ⟨h.balances.held_nonneg, Int.add_nonneg h.bids.held_nonneg h.relativeBids.held_nonneg⟩

theorem QuoteSound.frame (h : QuoteSound m e) (hbalances : d.layer.balances = e.layer.balances)
    (hbids : d.layer.bids = e.layer.bids) (hrelative : d.layer.relativeBids = e.layer.relativeBids) :
    QuoteSound m d ∧ quoteOut m d = quoteOut m e := by
  obtain ⟨hb, hb'⟩ := h.balances.keep (congrArg Table.rows hbalances)
  obtain ⟨ho, ho'⟩ := h.bids.keep hbids
  obtain ⟨hr, hr'⟩ := h.relativeBids.keep hrelative
  refine ⟨⟨hb, ho, hr⟩, ?_⟩
  unfold quoteOut heldBalances heldBids Market.pendingState
  rw [hb', ho', hr']

theorem QuoteSound.payBase (h : QuoteSound m e) (owner : Nat) (amount : Int)
    (hapart : AddressesApart) (hm : Setting m) :
    QuoteSound m (m.payOut e owner m.baseId amount) ∧
      quoteOut m (m.payOut e owner m.baseId amount) = quoteOut m e := by
  have hne : m.baseId ≠ m.quoteId := ne_of_lt hm.ordered
  refine ⟨⟨(payOut_other hapart hne h.balances).1, (h.bids.keep rfl).1,
    (h.relativeBids.keep rfl).1⟩, ?_⟩
  unfold quoteOut
  rw [(payOut_other hapart hne h.balances).2]
  rfl

theorem inBid_quote (hpair : m.isPair bid.marketIndex.orderPrice) (r : OrderRecord) :
    inBid m.quoteId bid.marketIndex r = r.balance := if_pos hpair.1

section

variable (h : QuoteSound m e)
include h

theorem QuoteSound.bid_le (hstored : BidStored m e bid)
    (htype : isBid bid.type) :
    0 ≤ bid.state.balance ∧ bid.state.balance ≤ heldBids m.quoteId (m.pendingState e) := by
  have hb := h.bids.held_nonneg
  have hr := h.relativeBids.held_nonneg
  unfold heldBids
  cases hstored with
  | bid type pair stored visited =>
    have hnonneg := h.bids _ _ stored
    have hle := h.bids.le_held stored
    rw [inBid_quote pair] at hnonneg hle
    exact ⟨hnonneg, by omega⟩
  | relativeBid type pair stored visited =>
    have hnonneg := h.relativeBids _ _ stored
    have hle := h.relativeBids.le_held stored
    rw [inBid_quote pair] at hnonneg hle
    exact ⟨hnonneg, by omega⟩
  | short type =>
    rcases htype with htype | htype <;> rw [type] at htype <;> cases htype

theorem QuoteSound.afterBid (mtrx : MarketTransaction)
    (hapart : AddressesApart) (hm : Setting m) (hstored : BidStored m e bid) (htype : isBid bid.type)
    (hpayable : Payable bid.state.balance mtrx.bidPaid) (hpaid : 0 ≤ mtrx.bidPaid.amount)
    (hrest : 0 ≤ bidRest bid mtrx) (hroom : quoteOut m e ≤ 9223372036854775807)
    (hfees : Fits (e.quoteAsset.collectedFees + quoteOut m e)) (hfits : Fits e.quoteAsset.collectedFees) :
    QuoteSound m (afterBid m e bid mtrx) ∧
      quoteOut m (afterBid m e bid mtrx) =
        quoteOut m e - mtrx.bidPaid.amount - bidDust bid mtrx ∧
      (afterBid m e bid mtrx).quoteAsset.collectedFees =
        e.quoteAsset.collectedFees + bidDust bid mtrx ∧
      0 ≤ bidDust bid mtrx ∧ mtrx.bidPaid.amount + bidDust bid mtrx ≤ quoteOut m e := by
  obtain ⟨hbalances, hbids⟩ := h.parts
  obtain ⟨hnonneg, hle⟩ := h.bid_le hstored htype
  obtain ⟨hdust, hdust'⟩ := bidDust_le hrest
  have hout : bid.state.balance ≤ quoteOut m e := by
    unfold quoteOut
    omega
  have heq : bidRest bid mtrx = bid.state.balance - mtrx.bidPaid.amount :=
    hpayable.rest hnonneg (by omega) hpaid
  have hweight := inBid_quote hstored.type_pair.2
  obtain ⟨hb, hb'⟩ := afterBid_balances mtrx htype
    (payOut_other hapart (ne_of_lt hm.ordered) h.balances)
  obtain ⟨ho, hr, hheld⟩ := afterBid_bids mtrx hstored htype h.bids h.relativeBids (by
    rw [hweight]
    dsimp only [withBalance]
    omega)
  rw [hweight, hweight] at hheld
  refine ⟨⟨hb, ho, hr⟩, ?_, ?_, hdust, by omega⟩
  · unfold quoteOut
    rw [hb', hheld]
    dsimp only [withBalance]
    omega
  · apply int64_of_fits
    unfold Fits at hfees hfits ⊢
    omega

/-- What an ask receives goes into the balances. Its dust goes into the fees of the quote
asset where a short fills it. -/
theorem QuoteSound.afterAsk (mtrx : MarketTransaction) (toQuote : Bool)
    (hapart : AddressesApart) (htype : ask.type = .askOrder) (hreceived : 0 ≤ mtrx.askReceived.amount)
    (hroom : quoteOut m e + mtrx.askReceived.amount ≤ 9223372036854775807) :
    QuoteSound m (afterAsk m e ask mtrx toQuote) ∧
      quoteOut m (afterAsk m e ask mtrx toQuote) = quoteOut m e + mtrx.askReceived.amount := by
  obtain ⟨hbalances, hbids⟩ := h.parts
  unfold quoteOut at hroom
  obtain ⟨hb, hb'⟩ := afterAsk_balances mtrx toQuote htype
    (payOut_credit mtrx.askOwner hapart h.balances hreceived (by omega))
  obtain ⟨ho, ho'⟩ := h.bids.keep
    (afterAsk_frame PendingState.bids mtrx toQuote htype fun _ _ _ => rfl)
  obtain ⟨hr, hr'⟩ := h.relativeBids.keep
    (afterAsk_frame PendingState.relativeBids mtrx toQuote htype fun _ _ _ => rfl)
  refine ⟨⟨hb, ho, hr⟩, ?_⟩
  unfold quoteOut heldBids
  rw [hb']
  unfold Market.pendingState
  omega

theorem QuoteSound.payCurrentShort
    (hpay : m.payCurrentShort e bid mtrx = .ok (d, mtrx'))
    (hsupply : Fits (e.quoteAsset.currentShareSupply + mtrx.bidPaid.amount)) :
    QuoteSound m d ∧ quoteOut m d = quoteOut m e ∧
      d.quoteAsset.collectedFees = e.quoteAsset.collectedFees ∧
      d.quoteAsset.currentShareSupply = e.quoteAsset.currentShareSupply + mtrx.bidPaid.amount := by
  obtain ⟨-, collateral, sc, -, -, -, hcases⟩ := payCurrentShort_ok hpay
  rcases hcases with ⟨hzero, rfl⟩ | ⟨-, -, key, total, -, -, -, -, -, rfl⟩
  · obtain ⟨hsound, hheld⟩ := h.frame (d := afterNoSale e bid sc) rfl rfl rfl
    rw [hzero] at hsupply ⊢
    exact ⟨hsound, hheld, rfl, int64_of_fits hsupply⟩
  · obtain ⟨hsound, hheld⟩ := h.frame (d := afterShort m e bid mtrx key sc total) rfl rfl rfl
    exact ⟨hsound, hheld, rfl, int64_of_fits hsupply⟩

theorem QuoteSound.payCurrentCover (hapart : AddressesApart) (hm : Setting m)
    (hfees : mtrx.feesCollected.amount = 0) (hpay : m.payCurrentCover e ask mtrx = .ok (d, mtrx')) :
    QuoteSound m d ∧ quoteOut m d = quoteOut m e ∧
      (mtrx'.feesCollected.amount = 0 ∨ mtrx'.feesCollected.assetId = m.baseId) := by
  obtain ⟨-, expiration, debt, payment, old, -, -, -, -, -, -, -, -, hcases⟩ := payCurrentCover_ok hpay
  obtain ⟨hsound, hheld⟩ := h.frame (d := { e with
    quoteAsset := redeem e.quoteAsset payment (unpaid (coverRest old mtrx) payment) }) rfl rfl rfl
  rcases hcases with ⟨-, rfl, hmtrx⟩ | ⟨-, -, charged, returned, hcharge, rfl, rfl⟩
  · rw [hmtrx]
    obtain ⟨hsound', hheld'⟩ := hsound.frame (d := settleCover { e with
      quoteAsset := redeem e.quoteAsset payment (unpaid (coverRest old mtrx) payment) } ask
        (coverRest old mtrx) (payment.payoffBalance - unpaid (coverRest old mtrx) payment)) rfl rfl rfl
    exact ⟨hsound', hheld'.trans hheld, Or.inl hfees⟩
  · obtain ⟨hpaid, hheld'⟩ := hsound.payBase ask.getOwner returned hapart hm
    obtain ⟨hsound', hheld''⟩ := hpaid.frame (d := settleCover (m.payOut { e with
      quoteAsset := redeem e.quoteAsset payment (unpaid (coverRest old mtrx) payment) }
        ask.getOwner m.baseId returned) ask 0
          (payment.payoffBalance - unpaid (coverRest old mtrx) payment)) rfl rfl rfl
    refine ⟨hsound', hheld''.trans (hheld'.trans hheld), ?_⟩
    rcases chargeMarginCall_ok hcharge with ⟨rfl, -⟩ | ⟨-, -, rfl, -⟩
    · exact Or.inl hfees
    · exact Or.inr rfl

theorem QuoteSound.booked {e' : EngineState} (hm : Setting m) (hs : Synced m e)
    (hbooked : Booked mtrx e e') (hfees : mtrx.feesCollected.assetId = m.quoteId →
      Fits (e.quoteAsset.collectedFees + mtrx.feesCollected.amount)) :
    QuoteSound m e' ∧ quoteOut m e' = quoteOut m e ∧
      e'.quoteAsset.currentShareSupply = e.quoteAsset.currentShareSupply ∧
      e'.quoteAsset.collectedFees = e.quoteAsset.collectedFees +
        if mtrx.feesCollected.assetId = m.quoteId then mtrx.feesCollected.amount else 0 := by
  obtain ⟨hsound, hheld⟩ := h.frame (d := e') (by rw [hbooked.layer]) (by rw [hbooked.layer])
    (by rw [hbooked.layer])
  refine ⟨hsound, hheld, hbooked.quoteSupply hm hs, ?_⟩
  rw [hbooked.quoteAsset hm hs]
  split
  next hasset => exact int64_of_fits (hfees hasset)
  next => exact (Int.add_zero _).symm

end

def shortDust (m : Market) (e : EngineState) (bid ask : MarketOrder) : Int :=
  ofShort (fun t exchanged paid =>
    if ask.type = .askOrder then askDust ask (filled t exchanged paid none) else 0) m e bid ask

/-- The sums of the pass are ones of `int64_t`. -/
def QuoteRoom (m : Market) (e : EngineState) (bid ask : MarketOrder) : Prop :=
  let all := quoteOut m e + soldShort m e bid ask + shortDust m e bid ask
  all ≤ 9223372036854775807 ∧ Fits (e.quoteAsset.collectedFees + all) ∧
    Fits (e.quoteAsset.currentShareSupply + all) ∧ Fits (e.quoteAsset.currentShareSupply - all)
  deriving Decidable

/-- The part of the supply that is neither in balances and bids nor in the fees. -/
def quoteGap (m : Market) (e : EngineState) : Int :=
  e.quoteAsset.currentShareSupply - (quoteOut m e + e.quoteAsset.collectedFees)

structure QuoteState (m : Market) (e : EngineState) : Prop where
  synced : Synced m e
  pairs : CoverPairs m e
  sound : QuoteSound m e

theorem QuoteSound.same (h : QuoteSound m e) (hlayer : d.layer = e.layer)
    (hquote : d.quoteAsset = e.quoteAsset) : QuoteSound m d ∧ quoteGap m d = quoteGap m e := by
  obtain ⟨hsound, hheld⟩ := h.frame (d := d) (by rw [hlayer]) (by rw [hlayer]) (by rw [hlayer])
  refine ⟨hsound, ?_⟩
  unfold quoteGap
  rw [hheld, hquote]

section Passes

variable {t : MarketTransaction} {d' e' : EngineState} {feed : Price}
  {forSale exchanged paid collateral : Asset}

variable (hapart : AddressesApart) (hbooked : Booked mtrx d' e')
include hapart hbooked

theorem quote_askBid (h : QuoteSound m e) (hdeal : AskBid m e bid ask t mtrx d d')
    (hroom : quoteOut m e ≤ 9223372036854775807)
    (hroom' : Fits (e.quoteAsset.collectedFees + quoteOut m e)) :
    QuoteSound m e' ∧ e'.quoteAsset.currentShareSupply = e.quoteAsset.currentShareSupply ∧
      quoteOut m e' + e'.quoteAsset.collectedFees =
        quoteOut m e + e.quoteAsset.collectedFees ∧
      e.quoteAsset.collectedFees ≤ e'.quoteAsset.collectedFees := by
  obtain ⟨hbidPaid, -, hreceived⟩ := hdeal.checked.nonneg
  have hle := hdeal.checked.received_le
  have hfits := hdeal.synced.quoteFees
  obtain ⟨hd, -⟩ := hdeal.between
  have hd' := hdeal.after
  obtain ⟨-, hrest, rfl⟩ := payCurrentBid_ok hdeal.setting.current hfits hdeal.bidPays
  obtain ⟨hsound, hheld, hfeesBid, hdust, hsum⟩ := h.afterBid mtrx hapart hdeal.setting
    hdeal.bidStored hdeal.isBid hdeal.bidPayable hbidPaid hrest hroom hroom' hfits
  obtain ⟨-, -, rfl⟩ := payCurrentAsk_ok hdeal.setting.current hd.quoteFees hd.baseFees hdeal.askPays
  obtain ⟨hsound', hheld'⟩ := hsound.afterAsk mtrx false hapart hdeal.type hreceived
    (by rw [hheld]; omega)
  have hkeep : (afterAsk m (afterBid m e bid mtrx) ask mtrx false).quoteAsset =
    (afterBid m e bid mtrx).quoteAsset := rfl
  have hfit : mtrx.feesCollected.amount = mtrx.bidPaid.amount - mtrx.askReceived.amount := by
    rw [hdeal.fees]
    exact int64_self
  obtain ⟨hsound'', hheld'', hsupply, hcollected⟩ := hsound'.booked hdeal.setting hd' hbooked
    (fun _ => by
      rw [hkeep, hfeesBid, hfit]
      unfold Fits at hroom' hfits ⊢
      omega)
  rw [hkeep, hfeesBid, if_pos hdeal.feesAsset, hfit] at hcollected
  refine ⟨hsound'', hsupply, ?_, by rw [hcollected]; omega⟩
  omega

theorem quote_askShort (h : QuoteSound m e)
    (hdeal : AskShort m e bid ask t mtrx feed exchanged paid collateral d d')
    (hroom : QuoteRoom m e bid ask) :
    QuoteSound m e' ∧ 0 ≤ shortDust m e bid ask ∧
      quoteGap m e' = quoteGap m e - shortDust m e bid ask := by
  have htrade := (askShort_trade hdeal).trade
  have hsold : soldShort m e bid ask = exchanged.amount :=
    ofShort_trade hdeal.judged hdeal.isShort htrade
  have hdustEq : shortDust m e bid ask = askDust ask (filled t exchanged paid none) :=
    (ofShort_trade hdeal.judged hdeal.isShort htrade).trans (if_pos hdeal.type)
  obtain ⟨hd, -⟩ := hdeal.between
  have hd' := hdeal.after
  obtain ⟨-, hrest, rfl⟩ := payCurrentAsk_ok hdeal.setting.current hd.quoteFees hd.baseFees hdeal.askPays
  obtain ⟨hpaidEq, hreceivedEq, hfeesEq⟩ := shortPaid_fields hdeal.shortPays
  have hfeesZero : mtrx.feesCollected.amount = 0 := by
    rw [hfeesEq, (hdeal.judge_ok hdeal.judged).fees]
  have hdustMtrx : askDust ask mtrx = askDust ask (filled t exchanged paid none) := by
    obtain ⟨-, -, sc, -, -, rfl, -⟩ := payCurrentShort_ok hdeal.shortPays
    rfl
  have hdust := (askDust_le hrest).1
  rw [hdustMtrx, ← hdustEq] at hdust
  have hreceived := hdeal.checked.nonneg.2.2
  rw [hreceivedEq] at hreceived
  obtain ⟨hbalances, hbids⟩ := h.parts
  have hout : 0 ≤ quoteOut m e := Int.add_nonneg hbalances hbids
  obtain ⟨hall, hallFees, hallSupply, hallSupply'⟩ := hroom
  have hquoteFees := hdeal.synced.quoteFees
  unfold Fits at hallFees hallSupply hallSupply' hquoteFees
  obtain ⟨hsound, hheld, hfeesShort, hsupply⟩ := h.payCurrentShort hdeal.shortPays (by
    dsimp only [filled]
    unfold Fits
    omega)
  obtain ⟨hsound', hheld'⟩ := hsound.afterAsk mtrx true hapart hdeal.type
    (by rw [hreceivedEq]; exact hreceived) (by rw [hreceivedEq, hheld]; omega)
  obtain ⟨hsound'', hheld'', hsupply', hcollected⟩ := hsound'.booked hdeal.setting hd' hbooked
    (fun _ => by rw [hfeesZero, Int.add_zero]; exact hd'.quoteFees)
  have hfees : (afterAsk m d ask mtrx true).quoteAsset.collectedFees =
      e.quoteAsset.collectedFees + shortDust m e bid ask := by
    have hcollect : (afterAsk m d ask mtrx true).quoteAsset.collectedFees =
      int64 (d.quoteAsset.collectedFees + askDust ask mtrx) := rfl
    rw [hcollect, hfeesShort, hdustMtrx, ← hdustEq]
    exact int64_self
  have hkeep : (afterAsk m d ask mtrx true).quoteAsset.currentShareSupply =
    d.quoteAsset.currentShareSupply := rfl
  refine ⟨hsound'', hdust, ?_⟩
  unfold quoteGap
  rw [hheld'', hheld', hheld, hcollected, hsupply', hkeep, hsupply, hfees, hfeesZero, ite_self,
    hreceivedEq]
  dsimp only [filled]
  omega

/-- What the cover at hand receives leaves the supply and enters the fees. -/
theorem quote_cover {F : MarketTransaction}
    (hc : Covering m e bid ask t F mtrx exchanged paid d d') (h : QuoteSound m d)
    (hnone : writtenOff m e bid ask = 0)
    (hsupply : Fits d.quoteAsset.currentShareSupply)
    (hsupply' : Fits (d.quoteAsset.currentShareSupply - exchanged.amount))
    (hfees : Fits (d.quoteAsset.collectedFees + exchanged.amount)) :
    QuoteSound m e' ∧ quoteGap m e' = quoteGap m d - exchanged.amount := by
  have hquoteFees := hc.between.quoteFees
  have hnonneg := hc.nonneg.1
  obtain ⟨payment, hpayment, hprinciple, hinterest, -, hquote, -⟩ :=
    writtenOff_eq hc.judged hc.type hc.trade hc.record hc.between.quoteId hc.received hc.pays hc.coverPays
  have hsum := coverPayment_sum ⟨by omega, hc.max⟩ hpayment
  unfold Fits at hsupply hsupply' hfees hquoteFees
  have hredeemed : d'.quoteAsset.currentShareSupply =
      d.quoteAsset.currentShareSupply - payment.principlePaid.amount := by
    rw [hquote]
    exact int64_self
  have hearned : d'.quoteAsset.collectedFees =
      d.quoteAsset.collectedFees + payment.interestPaid.amount := by
    rw [hquote, hnone]
    unfold redeem
    rw [Int.sub_zero]
    exact int64_self
  obtain ⟨hsound, hheld, hasset⟩ := h.payCurrentCover hapart hc.setting hc.noFees hc.coverPays
  have hnoFee : (if mtrx.feesCollected.assetId = m.quoteId then mtrx.feesCollected.amount else 0) = 0 := by
    rcases hasset with hzero | hbase
    · rw [hzero, ite_self]
    · rw [hbase, if_neg (ne_of_lt hc.setting.ordered)]
  obtain ⟨hsound', hheld', hsupply'', hcollected⟩ := hsound.booked hc.setting hc.after hbooked
    (fun hasset => by
      rw [if_pos hasset] at hnoFee
      rw [hnoFee, Int.add_zero]
      exact hc.after.quoteFees)
  refine ⟨hsound', ?_⟩
  unfold quoteGap
  omega

theorem quote_coverBid (h : QuoteSound m e)
    (hdeal : CoverBid m e bid ask t mtrx forSale exchanged paid d d')
    (hroom : QuoteRoom m e bid ask) (hnone : writtenOff m e bid ask = 0) :
    QuoteSound m e' ∧ quoteGap m e' = quoteGap m e := by
  have hc := coverBid_covering hdeal
  have hisBid := hdeal.isBid
  have hnotShort := not_short_of_isBid hisBid
  have hbalance : forSale.amount = bid.state.balance := by
    have hsale := hdeal.sale
    unfold MarketOrder.getBalance at hsale
    rcases hisBid with hisBid | hisBid <;> rw [hisBid] at hsale <;> cases hsale <;> rfl
  have hpayable : Payable bid.state.balance exchanged := by
    rcases (coverFill_ok hdeal.type hdeal.askPair hdeal.fill).1 with hwhole | hwhole
    · exact Or.inl (by rw [hwhole, hbalance])
    · exact Or.inr hwhole
  have hsold : soldShort m e bid ask = 0 := ofShort_bid hnotShort
  have hdustZero : shortDust m e bid ask = 0 := ofShort_bid hnotShort
  obtain ⟨hall, hallFees, hallSupply, hallSupply'⟩ := hroom
  rw [hsold, hdustZero, Int.add_zero, Int.add_zero] at hall hallFees hallSupply hallSupply'
  have hquoteFees := hdeal.synced.quoteFees
  obtain ⟨-, hrest, rfl⟩ := payCurrentBid_ok hdeal.setting.current hquoteFees hdeal.bidPays
  obtain ⟨hsound, hheld, hfeesBid, hdust, hsum⟩ := h.afterBid
    (filled t exchanged paid t.shortCollateral) hapart hdeal.setting hdeal.bidStored hisBid
    hpayable hc.nonneg.1 hrest hall hallFees hquoteFees
  have hpaidEq : (filled t exchanged paid t.shortCollateral).bidPaid.amount = exchanged.amount := rfl
  have hkeep : (afterBid m e bid (filled t exchanged paid t.shortCollateral)).quoteAsset.currentShareSupply =
    e.quoteAsset.currentShareSupply := rfl
  have hnonneg := hc.nonneg.1
  unfold Fits at hallFees hallSupply hallSupply' hquoteFees
  obtain ⟨hsound', hgap⟩ := quote_cover hapart hbooked hc hsound hnone
    (by rw [hkeep]; unfold Fits; omega) (by rw [hkeep]; unfold Fits; omega)
    (by rw [hfeesBid]; unfold Fits; omega)
  refine ⟨hsound', hgap.trans ?_⟩
  unfold quoteGap
  omega

theorem quote_coverShort {t' : MarketTransaction} (h : QuoteSound m e)
    (hdeal : CoverShort m e bid ask t t' mtrx feed forSale exchanged paid collateral d d')
    (hroom : QuoteRoom m e bid ask) (hnone : writtenOff m e bid ask = 0) :
    QuoteSound m e' ∧ shortDust m e bid ask = 0 ∧ quoteGap m e' = quoteGap m e := by
  have hc := coverShort_covering hdeal
  have htrade := (coverShort_trade hdeal).trade
  have hsold : soldShort m e bid ask = exchanged.amount :=
    ofShort_trade hdeal.judged hdeal.isShort htrade
  have hdustZero : shortDust m e bid ask = 0 := by
    refine (ofShort_trade hdeal.judged hdeal.isShort htrade).trans (if_neg ?_)
    rw [hdeal.type]
    exact nofun
  obtain ⟨hbalances, hbids⟩ := h.parts
  have hout : 0 ≤ quoteOut m e := Int.add_nonneg hbalances hbids
  have hnonneg := hc.nonneg.1
  obtain ⟨hall, hallFees, hallSupply, hallSupply'⟩ := hroom
  have hquoteFees := hdeal.synced.quoteFees
  unfold Fits at hallFees hallSupply hallSupply' hquoteFees
  obtain ⟨hsound, hheld, hfeesShort, hsupply⟩ := h.payCurrentShort hdeal.shortPays (by
    dsimp only [filled]
    unfold Fits
    omega)
  dsimp only [filled] at hsupply
  obtain ⟨hsound', hgap⟩ := quote_cover hapart hbooked hc hsound hnone
    (by rw [hsupply]; unfold Fits; omega) (by rw [hsupply]; unfold Fits; omega)
    (by rw [hfeesShort]; unfold Fits; omega)
  refine ⟨hsound', hdustZero, hgap.trans ?_⟩
  unfold quoteGap
  omega

end Passes

/-- A pass in which no position runs out of collateral takes nothing from the supply that
it does not take from the balances, the bids and the fees. The dust of an ask that is
filled by a short is added to the fees only. -/
theorem QuoteState.pass {e' : EngineState} (h : QuoteState m e) (hand : Hand m e bid ask)
    (hapart : AddressesApart) (hroom : QuoteRoom m e bid ask) (hnone : writtenOff m e bid ask = 0)
    (hmatch : matchPair m e bid ask = .ok (some e')) :
    QuoteState m e' ∧ 0 ≤ shortDust m e bid ask ∧
      quoteGap m e' = quoteGap m e - shortDust m e bid ask := by
  have hpassed := matchPair_passed hand hmatch
  have hall : QuoteSound m e' ∧ 0 ≤ shortDust m e bid ask ∧
      quoteGap m e' = quoteGap m e - shortDust m e bid ask := by
    cases hpassed with
    | bidDropped judged =>
      have hdust : shortDust m e bid ask = 0 := ofShort_dropped fun t ht => by
        cases judged.symm.trans ht
      obtain ⟨hsound, hgap⟩ := h.sound.same (d := { e with currentBid := none }) rfl rfl
      exact ⟨hsound, hdust.ge, by rw [hgap, hdust, Int.sub_zero]⟩
    | askDropped judged =>
      have hdust : shortDust m e bid ask = 0 := ofShort_dropped fun t ht => by
        cases judged.symm.trans ht
      obtain ⟨hsound, hgap⟩ := h.sound.same (d := { e with currentAsk := none }) rfl rfl
      exact ⟨hsound, hdust.ge, by rw [hgap, hdust, Int.sub_zero]⟩
    | askBid deal booked =>
      have hdust : shortDust m e bid ask = 0 := ofShort_bid (not_short_of_isBid deal.isBid)
      have hsold : soldShort m e bid ask = 0 := ofShort_bid (not_short_of_isBid deal.isBid)
      obtain ⟨hall, hallFees, -⟩ := hroom
      rw [hsold, hdust, Int.add_zero, Int.add_zero] at hall hallFees
      obtain ⟨hsound, hsupply, hheld, -⟩ := quote_askBid hapart booked h.sound deal hall hallFees
      refine ⟨hsound, hdust.ge, ?_⟩
      unfold quoteGap
      rw [hsupply, hheld, hdust, Int.sub_zero]
    | askShort deal booked => exact quote_askShort hapart booked h.sound deal hroom
    | coverBid deal booked =>
      have hdust : shortDust m e bid ask = 0 := ofShort_bid (not_short_of_isBid deal.isBid)
      obtain ⟨hsound, hgap⟩ := quote_coverBid hapart booked h.sound deal hroom hnone
      exact ⟨hsound, hdust.ge, by rw [hgap, hdust, Int.sub_zero]⟩
    | coverShort deal booked =>
      obtain ⟨hsound, hdust, hgap⟩ := quote_coverShort hapart booked h.sound deal hroom hnone
      exact ⟨hsound, hdust.ge, by rw [hgap, hdust, Int.sub_zero]⟩
  exact ⟨⟨hpassed.synced hand.setting h.synced, h.pairs.matchPair hand hmatch, hall.1⟩, hall.2⟩

theorem quote_accounts (hapart : AddressesApart) (hm : Setting m) :
    Accounts m (fun e bid ask => QuoteRoom m e bid ask ∧ writtenOff m e bid ask = 0) (QuoteState m)
      (quoteGap m) (fun e bid ask => shortDust m e bid ask = 0) where
  bid e e' h ht := by
    obtain ⟨hlayer, hquote, -⟩ := bidTaken_same ht
    have hsound := h.sound.same hlayer hquote
    exact ⟨⟨h.synced.bidTaken ht, h.pairs.bidTaken ht, hsound.1⟩, hsound.2⟩
  ask e e' h ht := by
    obtain ⟨hlayer, hquote, -⟩ := askTaken_same ht
    have hsound := h.sound.same hlayer hquote
    exact ⟨⟨h.synced.askTaken ht, h.pairs.askTaken ht, hsound.1⟩, hsound.2⟩
  pass e e' bid ask h hC hbid hask hmatch := by
    have hand : Hand m e bid ask := ⟨hm, h.synced, hbid, hask, h.pairs.current ask hask⟩
    obtain ⟨hstate, hdust, hgap⟩ := h.pass hand hapart hC.1 hC.2 hmatch
    refine ⟨hstate, by omega, ?_⟩
    rw [hgap]
    omega

/-- The quote asset in balances, bids and fees. -/
def quoteTotal (id : Int) (c : ChainInterface) : Int :=
  heldBalances id c + heldBids id c + collectedFees id c

structure NoneNegative (id : Int) (c : ChainInterface) : Prop where
  balances : Holdings.balances.Nonneg (inBalance id) c
  bids : Holdings.bids.Nonneg (inBid id) c
  relativeBids : Holdings.relativeBids.Nonneg (inBid id) c

theorem opened_quoteState {prior : ChainInterface} {quoteId baseId : Int}
    (h : Opened prior quoteId baseId m e) (hbook : OrderBook prior quoteId baseId)
    (hexpirations : ∀ x ∈ prior.root.collateralExpirationIndex, x.quoteId = quoteId →
      OfMarket quoteId baseId x.key) (hnone : NoneNegative quoteId prior) :
    QuoteState m e ∧ quoteGap m e = shareSupply quoteId prior - quoteTotal quoteId prior := by
  have hsynced := opened_synced h hbook
  have hpairs := opened_pairs h hexpirations
  have hbalances := h.get Holdings.balances rfl
  have hbids := h.get Holdings.bids rfl
  have hrelative := h.get Holdings.relativeBids rfl
  obtain rfl : m.quoteId = quoteId := h.quote
  refine ⟨⟨hsynced, hpairs, hnone.balances.congr hbalances, hnone.bids.congr hbids,
    hnone.relativeBids.congr hrelative⟩, ?_⟩
  unfold quoteGap quoteOut quoteTotal shareSupply collectedFees heldBalances heldBids
  rw [Shelf.held_of_get hbalances, Shelf.held_of_get hbids, Shelf.held_of_get hrelative, h.quoteAsset]
  rfl

theorem left_quoteGap {c : ChainInterface} (h : Left m d c) (hs : Synced m d) (hm : Setting m) :
    shareSupply m.quoteId c - quoteTotal m.quoteId c = quoteGap m d := by
  unfold quoteGap quoteOut quoteTotal shareSupply collectedFees heldBalances heldBids
  rw [(left_assets h hs hm).1, Shelf.held_of_get h.balances, Shelf.held_of_get h.bids,
    Shelf.held_of_get h.relativeBids]
  rfl

/-- Where no position runs out of collateral, the supply changes by as much as what is held
exactly if no ask that is filled by a short leaves dust. -/
theorem execute_supply_iff {layer layer' : PendingState} {prev : ChainInterface}
    {quoteId baseId : Int} {timestamp : Nat} {trxs : List MarketTransaction}
    (hapart : AddressesApart) (hfork : forkBlockNumV0429 ≤ prev.getHeadBlockNum)
    (hbook : OrderBook (.pending layer prev) quoteId baseId)
    (hexpirations : ∀ x ∈ prev.root.collateralExpirationIndex, x.quoteId = quoteId →
      OfMarket quoteId baseId x.key)
    (hnonneg : NoneNegative quoteId (.pending layer prev))
    (hopen : openMarket (.pending layer prev) quoteId baseId = .ok (m, e))
    (hrun : runAndApply m e layer prev timestamp = .ok (layer', trxs))
    (hroom : MarketMeets m (QuoteRoom m) e)
    (hnone : MarketMeets m (fun e bid ask => writtenOff m e bid ask = 0) e) :
    shareSupply quoteId (.pending layer' prev) - shareSupply quoteId (.pending layer prev) =
        quoteTotal quoteId (.pending layer' prev) - quoteTotal quoteId (.pending layer prev) ↔
      MarketMeets m (fun e bid ask => shortDust m e bid ask = 0) e := by
  have hopened := openMarket_ok hopen
  have hm : Setting m := hopened.setting hfork
  obtain ⟨hstate, hgap⟩ := opened_quoteState hopened hbook hexpirations hnonneg
  obtain ⟨d, hmatch, hleft⟩ := runAndApply_left hopen hrun
  obtain ⟨hd, -, hkeeps⟩ :=
    (quote_accounts hapart hm).matchMarket hm (hroom.and hnone) hmatch hstate
  have hleft' := left_quoteGap hleft hd.synced hm
  have hquote : m.quoteId = quoteId := hopened.quote
  rw [hquote] at hleft'
  rw [← hkeeps, ← hleft', hgap]
  constructor <;> intro h <;> omega

end Model

theorem noneNegative_shortedAsk :
    letI := Fc.separate
    NoneNegative 22 (.pending {} (.database (shortedAsk 500))) := by
  apply @NoneNegative.mk Fc.separate <;> decide +kernel

theorem executed_without_dust :
    letI := Fc.separate
    Executed {} (.database (shortedAsk 500)) 22 0 1000000010 fun m e _ =>
      MarketMeets m (QuoteRoom m) e ∧
        MarketMeets m (fun e bid ask => writtenOff m e bid ask = 0) e ∧
        MarketMeets m (fun e bid ask => shortDust m e bid ask = 0) e := by
  decide +kernel

theorem execute_supply_iff_shortedAsk :
    letI := Fc.separate
    let prev := ChainInterface.database (shortedAsk 500)
    ∃ m e layer trxs, openMarket (.pending {} prev) 22 0 = .ok (m, e) ∧
      runAndApply m e {} prev 1000000010 = .ok (layer, trxs) ∧
      shareSupply 22 (.pending layer prev) - shareSupply 22 (.pending {} prev) =
        quoteTotal 22 (.pending layer prev) - quoteTotal 22 (.pending {} prev) := by
  let := Fc.separate
  intro prev
  obtain ⟨m, e, layer, trxs, hopen, hrun, hroom, hnone, hdust⟩ := executed_without_dust.exists
  have hbook : OrderBook (.pending {} prev) 22 0 :=
    orderBook_database (by decide +kernel) (by decide +kernel)
  exact ⟨m, e, layer, trxs, hopen, hrun, (execute_supply_iff separate_apart (by decide) hbook
    (by decide) noneNegative_shortedAsk hopen hrun hroom hnone).mpr hdust⟩

/-- The dust of an ask that is filled by a short, in the base asset, is added to the fees
of the quote asset. The short sells fifty dollars, and there are fifty-five. -/
theorem execute_adds_quote :
    letI := Fc.separate
    Executed {} (.database (shortedAsk 505)) 22 0 1000000010 fun m e layer =>
      MarketMeets m (fun e bid ask => writtenOff m e bid ask = 0) e ∧
        shareSupply 22 (.pending {} (.database (shortedAsk 505))) = 0 ∧
        shareSupply 22 (.pending layer (.database (shortedAsk 505))) = 50 ∧
        quoteTotal 22 (.pending {} (.database (shortedAsk 505))) = 0 ∧
        quoteTotal 22 (.pending layer (.database (shortedAsk 505))) = 55 := by
  decide +kernel

end Bts.Blockchain.QuoteLedger
