import Bts.Blockchain.Conversions
import Bts.Blockchain.MarketTrades

namespace Bts.Blockchain.MatchAmounts

open Base.Result Amounts MarketRecords Transactions Conversions MarketEngine MarketMatch MarketLoop
  MarketEffects MarketTrades

theorem Asset.le_min {l r : Asset} {n : Int} (hl : n ≤ l.amount) (hr : n ≤ r.amount) :
    n ≤ (Asset.min l r).amount := by
  rcases Asset.min_cases l r with ⟨hmin, -⟩ | ⟨hmin, -⟩ <;> rw [hmin]
  · exact hl
  · exact hr

theorem Asset.min_le_right (l r : Asset) : (Asset.min l r).amount ≤ r.amount := by
  rcases Asset.min_cases l r with ⟨hmin, hle⟩ | ⟨hmin, -⟩ <;> rw [hmin]
  exact hle

section Verdicts

variable [Fc] {m : Market} {e : EngineState} {bid ask : MarketOrder} {t : MarketTransaction}

theorem judge_bidPrice (hbid : bid.type = .bidOrder) (h : judge m e bid ask = .ok (.trade t)) :
    t.bidPrice = bid.marketIndex.orderPrice := by
  have hprice := orderPrice_plain (m := m) (o := bid) (Or.inl hbid)
  simp only [judge, hprice, bind_eq_ok] at h
  obtain ⟨_, ⟨⟩, askPrice, -, v, hshort, w, hrelative, h⟩ := h
  cases (judgeShort_bid (by rw [hbid]; decide)).symm.trans hshort
  obtain ⟨u, rfl, h⟩ := andThen_trade h
  cases judgeRelative_ok hrelative
  rcases judgeAsk_ok h with ⟨-, rfl⟩ | ⟨-, rfl⟩ <;> rfl

theorem judgeShort_askPrice {u : MarketTransaction} (h : judgeShort m e bid t = .ok (.trade u)) :
    u.askPrice = t.askPrice := by
  unfold judgeShort at h
  split at h
  · simp only [bind_eq_ok] at h
    obtain ⟨-, -, h⟩ := h
    split at h
    · cases h
    · cases h
      rfl
    · split at h
      · cases h
      · cases h
        rfl
  · cases h
    rfl

theorem judge_crossed (hask : ask.type = .askOrder) (h : judge m e bid ask = .ok (.trade t)) :
    t.askPrice = ask.marketIndex.orderPrice ∧ ¬ Price.lt t.bidPrice t.askPrice := by
  simp only [judge, bind_eq_ok] at h
  obtain ⟨bidPrice, -, askPrice, hprice, v, hshort, w, hrelative, h⟩ := h
  obtain ⟨u, rfl, hjudged⟩ := andThen_trade h
  obtain ⟨w, rfl, hrelative⟩ := andThen_trade hrelative
  cases judgeRelative_ok hrelative
  have hkept : u.askPrice = askPrice := judgeShort_askPrice hshort
  unfold judgeAsk at hjudged
  rw [if_neg (by rw [hask]; decide)] at hjudged
  split at hjudged
  · cases hjudged
  next hcrossed =>
    cases hjudged
    exact ⟨hkept.trans (orderPrice_ask (Or.inl hask) hprice), hcrossed⟩

theorem ratio_le {p q : Price} (hp : m.isPair p) (hq : m.isPair q) (h : ¬ Price.lt p q) :
    q.ratio ≤ p.ratio := by
  unfold Price.lt at h
  obtain ⟨hpq, hpb⟩ := hp
  obtain ⟨hqq, hqb⟩ := hq
  omega

end Verdicts

section Fills

variable [Fc] {m : Market} {e : EngineState} {bid ask : MarketOrder} {t : MarketTransaction}
  {feed : Price} {forSale exchanged paid collateral : Asset}

omit [Fc] in
theorem shortSale_amount (hbid : bid.type = .shortOrder) (hnonneg : 0 ≤ bid.state.balance)
    (h : shortSale feed bid = .ok forSale) : 0 ≤ forSale.amount := by
  simp only [shortSale, bind_eq_ok] at h
  obtain ⟨balance, hbalance, hsale⟩ := h
  cases (getBalance_short hbid).symm.trans hbalance
  exact multiply_nonneg hnonneg hsale

theorem shortStake_amount (hm : Setting m) (hfeed : m.isPair feed) (hbid : bid.type = .shortOrder)
    (hpair : m.isPair bid.marketIndex.orderPrice) (hnonneg : 0 ≤ bid.state.balance)
    (hsale : shortSale feed bid = .ok forSale) (hle : exchanged.amount ≤ forSale.amount)
    (hid : exchanged.assetId = m.quoteId) (hpos : 0 ≤ exchanged.amount)
    (h : shortStake feed bid exchanged = .ok collateral) :
    0 ≤ collateral.amount ∧ collateral.amount ≤ bid.state.balance := by
  simp only [shortSale, bind_eq_ok] at hsale
  obtain ⟨balance, hbalance, hsale⟩ := hsale
  simp only [shortStake, bind_eq_ok] at h
  obtain ⟨balance', hbalance', forSale', hsale', h⟩ := h
  cases hbalance.symm.trans hbalance'
  cases hsale.symm.trans hsale'
  cases (getBalance_short hbid).symm.trans hbalance
  have hne : (halfFeed feed).baseAssetId ≠ (halfFeed feed).quoteAssetId := by
    rw [(halfFeed_pair hfeed).1, (halfFeed_pair hfeed).2]
    exact hm.ordered.ne
  unfold shortPays at h
  split at h
  · cases h
    exact ⟨hnonneg, le_rfl⟩
  · exact ⟨multiply_nonneg hpos h,
      toQuote_toBase hne (hpair.2.trans (halfFeed_pair hfeed).2.symm) hnonneg hpos hsale hle
        (hid.trans (halfFeed_pair hfeed).1.symm) h⟩

theorem shortFill_amounts (hm : Setting m) (hfeed : m.isPair feed) (hbid : bid.type = .shortOrder)
    (hbidPair : m.isPair bid.marketIndex.orderPrice) (hask : ask.type = .askOrder)
    (hpair : m.isPair ask.marketIndex.orderPrice)
    (hprice : t.askPrice = ask.marketIndex.orderPrice) (hbidNonneg : 0 ≤ bid.state.balance)
    (haskNonneg : 0 ≤ ask.state.balance) (h : shortFill feed bid ask t = .ok (exchanged, paid)) :
    0 ≤ exchanged.amount ∧ 0 ≤ paid.amount ∧ paid.amount ≤ ask.state.balance := by
  have hid := (shortFill_ok hfeed hask hpair hbid hbidPair h).1
  simp only [shortFill, eq_ok_iff, Prod.mk.injEq] at h
  obtain ⟨askQuantity, haskQ, balance, hbalance, shortQuantity, hshortQ, askBalance, haskB, askPaid,
    hpaid, rfl, rfl⟩ := h
  obtain ⟨rfl, haskQ'⟩ := askQuote_ok hask hpair haskQ haskB
  cases (getBalance_short hbid).symm.trans hbalance
  have hexchanged : 0 ≤ (Asset.min shortQuantity askQuantity).amount :=
    Asset.le_min (multiply_nonneg hbidNonneg hshortQ) (multiply_nonneg haskNonneg haskQ')
  unfold tradeAskShort.shortFills at hpaid
  split at hpaid
  · rw [hprice] at hpaid
    have hne : ask.marketIndex.orderPrice.baseAssetId ≠ ask.marketIndex.orderPrice.quoteAssetId := by
      rw [hpair.1, hpair.2]
      exact hm.ordered.ne
    exact ⟨hexchanged, multiply_nonneg hexchanged hpaid,
      toQuote_toBase hne hpair.2.symm haskNonneg hexchanged haskQ' (Asset.min_le_right _ _)
        (hid.trans hpair.1.symm) hpaid⟩
  · cases hpaid
    exact ⟨hexchanged, haskNonneg, le_rfl⟩

theorem coverFill_amounts (hm : Setting m) (hask : ask.type = .coverOrder)
    (hpair : m.isPair ask.marketIndex.orderPrice) (hprice : t.askPrice = t.bidPrice)
    (hbidPair : m.isPair t.bidPrice) {owned : Int} (howned : ask.collateral = some owned)
    (hnonneg : 0 ≤ owned) (hsale : 0 ≤ forSale.amount) (hid : forSale.assetId = m.quoteId)
    (hdebt : ∀ debt, m.getCurrentCoverDebt e ask = .ok debt → 0 ≤ debt.amount)
    (h : coverFill m e ask t forSale = .ok (exchanged, paid)) :
    0 ≤ exchanged.amount ∧ 0 ≤ paid.amount ∧ paid.amount ≤ owned := by
  have hexchanged := (coverFill_ok hask hpair h).2.2.1 hid hbidPair
  simp only [coverFill, howned, eq_ok_iff, Prod.mk.injEq] at h
  obtain ⟨_, ⟨⟩, afford, hafford, debt, hdebt', askPaid, hpaid, rfl, rfl⟩ := h
  have hpos : 0 ≤ (Asset.min (Asset.min forSale afford) debt).amount :=
    Asset.le_min (Asset.le_min hsale (multiply_nonneg hnonneg hafford)) (hdebt debt hdebt')
  have hne : t.bidPrice.baseAssetId ≠ t.bidPrice.quoteAssetId := by
    rw [hbidPair.1, hbidPair.2]
    exact hm.ordered.ne
  unfold coverPays at hpaid
  split at hpaid
  · cases hpaid
    exact ⟨hpos, hnonneg, le_rfl⟩
  · rw [hprice] at hpaid
    exact ⟨hpos, multiply_nonneg hpos hpaid,
      toQuote_toBase hne hbidPair.2.symm hnonneg hpos hafford
        ((Asset.min_le _ _).trans (Asset.min_le_right _ _)) (hexchanged.trans hbidPair.1.symm) hpaid⟩

/-- What a bid and an ask pay and receive. The bid buys `quantity`. -/
structure BidFill (m : Market) (bid ask : MarketOrder) (t : MarketTransaction)
    (quantity received bidPaid askPaid : Asset) : Prop where
  atAskPrice : multiply quantity t.askPrice = .ok received
  nonneg : 0 ≤ quantity.amount
  isBase : quantity.assetId = m.baseId
  receivedQuote : received.assetId = m.quoteId
  paidQuote : bidPaid.assetId = m.quoteId
  askPays : askPaid.amount = quantity.amount
  askBase : askPaid.assetId = m.baseId
  askAffords : quantity.amount ≤ ask.state.balance
  bidAffords : bidPaid.amount ≤ bid.state.balance
  covers : received.amount ≤ bidPaid.amount
  limit : 0 < t.bidPrice.ratio →
    bidPaid.amount * pricePrecision < (quantity.amount + 1) * t.bidPrice.ratio

omit [Fc] in
theorem getQuantity_bid (price : Price) (h : bid.type = .bidOrder) : bid.getQuantity price =
    multiply { amount := bid.state.balance, assetId := bid.marketIndex.orderPrice.quoteAssetId }
      bid.marketIndex.orderPrice := by
  unfold MarketOrder.getQuantity MarketOrder.getBalance MarketOrder.getPrice
  rw [h]
  rfl

theorem bidFill (hm : Setting m) (hbid : bid.type = .bidOrder)
    (hbidPair : m.isPair bid.marketIndex.orderPrice) (hask : ask.type = .askOrder)
    (haskPair : m.isPair ask.marketIndex.orderPrice)
    (hjudge : judge m e bid ask = .ok (.trade t)) (hbidNonneg : 0 ≤ bid.state.balance)
    (haskNonneg : 0 ≤ ask.state.balance)
    {bidQuantity askQuantity received bidPays bidBalance askBalance : Asset}
    (hbidQ : bid.getQuantity = .ok bidQuantity) (haskQ : ask.getQuantity = .ok askQuantity)
    (hreceived : multiply (Asset.min bidQuantity askQuantity) t.askPrice = .ok received)
    (hpays : multiply (Asset.min bidQuantity askQuantity) t.bidPrice = .ok bidPays)
    (hbidB : bid.getBalance = .ok bidBalance) (haskB : ask.getBalance = .ok askBalance) :
    BidFill m bid ask t (Asset.min bidQuantity askQuantity) received
      (if Asset.eq (Asset.min bidQuantity askQuantity) bidQuantity then bidBalance else bidPays)
      (if Asset.eq (Asset.min bidQuantity askQuantity) askQuantity then askBalance
        else Asset.min bidQuantity askQuantity) := by
  have hbidPrice := judge_bidPrice hbid hjudge
  obtain ⟨haskPrice, hcrossed⟩ := judge_crossed hask hjudge
  have hratio : t.askPrice.ratio ≤ t.bidPrice.ratio := by
    rw [hbidPrice, haskPrice] at hcrossed ⊢
    exact ratio_le hbidPair haskPair hcrossed
  have hne : t.bidPrice.baseAssetId ≠ t.bidPrice.quoteAssetId := by
    rw [hbidPrice, hbidPair.1, hbidPair.2]
    exact hm.ordered.ne
  rw [getQuantity_bid _ hbid, hbidPair.1, ← hbidPrice] at hbidQ
  rw [getQuantity_ask _ (Or.inl hask)] at haskQ
  cases haskQ
  obtain rfl : bidBalance = { amount := bid.state.balance, assetId := m.quoteId } := by
    unfold MarketOrder.getBalance at hbidB
    rw [hbid, hbidPair.1] at hbidB
    exact (Except.ok.inj hbidB).symm
  obtain rfl : askBalance = { amount := ask.state.balance, assetId := m.baseId } := by
    unfold MarketOrder.getBalance at haskB
    rw [hask, haskPair.2] at haskB
    exact (Except.ok.inj haskB).symm
  rw [haskPair.2] at hreceived hpays ⊢
  have hbidPair' : m.isPair t.bidPrice := by
    rw [hbidPrice]
    exact hbidPair
  have haskPair' : m.isPair t.askPrice := by
    rw [haskPrice]
    exact haskPair
  obtain ⟨-, hbuys, -, hbase⟩ := multiply_toBase hne hbidPair'.1.symm hbidNonneg hbidQ
  rw [hbidPair'.2] at hbase
  have hnonneg : 0 ≤ (Asset.min bidQuantity ⟨ask.state.balance, m.baseId⟩).amount :=
    Asset.le_min (multiply_nonneg hbidNonneg hbidQ) haskNonneg
  have hisBase : (Asset.min bidQuantity ⟨ask.state.balance, m.baseId⟩).assetId = m.baseId := by
    rcases Asset.min_cases bidQuantity ⟨ask.state.balance, m.baseId⟩ with ⟨hmin, -⟩ | ⟨hmin, -⟩ <;>
      rw [hmin]
    exact hbase
  have htoQuote := hisBase.trans hbidPair'.2.symm
  have htoQuote' := hisBase.trans haskPair'.2.symm
  refine ⟨hreceived, hnonneg, hisBase, multiply_base hisBase haskPair' hreceived, ?_, ?_, ?_,
    Asset.min_le_right _ _, ?_, ?_, fun hpos => ?_⟩
  · split
    · rfl
    · exact multiply_base hisBase hbidPair' hpays
  · split
    next heq => exact heq.symm
    · rfl
  · split
    · rfl
    · exact hisBase
  · split
    · exact le_rfl
    · exact toBase_toQuote hne hbidPair'.1.symm hbidNonneg hnonneg hbidQ (Asset.min_le _ _) htoQuote
        le_rfl hpays
  · split
    · exact toBase_toQuote hne hbidPair'.1.symm hbidNonneg hnonneg hbidQ (Asset.min_le _ _) htoQuote'
        hratio hreceived
    · exact toQuote_mono htoQuote' htoQuote hnonneg le_rfl hratio hreceived hpays
  · split
    next heq =>
      rw [show (Asset.min bidQuantity _).amount = bidQuantity.amount from heq]
      exact hbuys hpos
    · have hle := (multiply_toQuote htoQuote hnonneg hpays).1
      refine hle.trans_lt (Int.mul_lt_mul_of_pos_right (by omega) ?_)
      exact Int.natCast_pos.mpr hpos

end Fills

end Bts.Blockchain.MatchAmounts
