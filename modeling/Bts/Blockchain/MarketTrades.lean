import Bts.Blockchain.MarketEffects
import Bts.Blockchain.MarketRuns

namespace Bts.Blockchain.MarketTrades

open Base Result Word Errors Amounts MarketRecords Transactions Rules MarketEngine MarketMatch
  MarketLoop MarketEffects

theorem Asset.min_cases (l r : Asset) :
    (Asset.min l r = l ∧ l.amount ≤ r.amount) ∨ (Asset.min l r = r ∧ r.amount < l.amount) := by
  unfold Asset.min
  by_cases h : Asset.lt r l
  · rw [if_pos h]
    exact Or.inr ⟨rfl, h⟩
  · rw [if_neg h]
    exact Or.inl ⟨rfl, Int.not_lt.mp h⟩

theorem Asset.eq_self (l : Asset) : Asset.eq l l := rfl

theorem Asset.min_le (l r : Asset) : (Asset.min l r).amount ≤ l.amount := by
  rcases Asset.min_cases l r with ⟨hmin, -⟩ | ⟨hmin, hlt⟩ <;> rw [hmin]
  exact hlt.le

/-- What an order pays is all that it has, or an amount of `int64_t`. -/
def Payable (balance : Int) (paid : Asset) : Prop := paid.amount = balance ∨ Fits paid.amount

theorem Payable.rest {balance : Int} {paid : Asset} (h : Payable balance paid)
    (hbalance : 0 ≤ balance) (hmax : balance ≤ 9223372036854775807) (hpaid : 0 ≤ paid.amount) :
    int64 (balance - paid.amount) = balance - paid.amount := by
  apply int64_of_fits
  unfold Payable at h
  unfold Fits at h ⊢
  omega

theorem shortPays_zero {received forSale balance collateral : Asset} {rate : Price}
    (h : shortPays received forSale balance rate = .ok collateral) (hzero : received.amount = 0) :
    collateral.amount = 0 ∨ collateral.amount = balance.amount := by
  unfold shortPays at h
  split at h
  · cases h
    exact Or.inr rfl
  · exact Or.inl (multiply_zero hzero h)

/-- What a short can sell at half of the feed. -/
def shortSale (feed : Price) (bid : MarketOrder) : Except ChainError Asset := do
  let balance ← bid.getBalance
  multiply balance (halfFeed feed)

/-- The collateral a short gives for what it sells. -/
def shortStake (feed : Price) (bid : MarketOrder) (exchanged : Asset) : Except ChainError Asset := do
  let balance ← bid.getBalance
  let forSale ← multiply balance (halfFeed feed)
  shortPays exchanged forSale balance (halfFeed feed)

variable {feed : Price} {t : MarketTransaction}

theorem shortStake_zero {bid : MarketOrder} {exchanged collateral : Asset}
    (hbid : bid.type = .shortOrder) (h : shortStake feed bid exchanged = .ok collateral)
    (hzero : exchanged.amount = 0) :
    collateral.amount = 0 ∨ collateral.amount = bid.state.balance := by
  simp only [shortStake, bind_eq_ok] at h
  obtain ⟨balance, hbalance, forSale, -, hpays⟩ := h
  have hall := shortPays_zero hpays hzero
  cases (getBalance_short hbid).symm.trans hbalance
  exact hall

section Verdicts

variable {bid ask : MarketOrder} {mtrx mtrx' : MarketTransaction}

theorem judgeRelative_ok (h : judgeRelative bid ask mtrx = .ok (.trade mtrx')) : mtrx' = mtrx := by
  unfold judgeRelative at h
  split at h
  · cases h
  · split at h
    · cases h
    · cases h
      rfl

theorem andThen_trade {v : Verdict} {f : MarketTransaction → Except ChainError Verdict}
    (h : v.andThen f = .ok (.trade mtrx)) : ∃ mtrx', v = .trade mtrx' ∧ f mtrx' = .ok (.trade mtrx) := by
  cases v with
  | trade mtrx' => exact ⟨mtrx', rfl, h⟩
  | skipBid | skipAsk | stop => cases h

end Verdicts

variable [Fc] {m : Market} {e e' : EngineState} {bid ask : MarketOrder}
  {mtrx mtrx' : MarketTransaction}

/-- What the judge leaves to the trade: the prices, and nothing paid yet. -/
structure Judged (m : Market) (bid ask : MarketOrder) (mtrx : MarketTransaction) : Prop where
  fees : mtrx.feesCollected = {}
  bidType : mtrx.bidType = bid.type
  askType : mtrx.askType = ask.type
  askPrice : ask.type = .askOrder → mtrx.askPrice = ask.marketIndex.orderPrice
  coverPrice : ask.type = .coverOrder → mtrx.askPrice = mtrx.bidPrice
  shortPrice : bid.type = .shortOrder → m.isPair mtrx.bidPrice

theorem isPair_of_assetPair {p q : Price} (h : p.assetPair = q.assetPair) (hq : m.isPair q) :
    m.isPair p := by
  simp only [Price.assetPair, Prod.mk.injEq] at h
  exact ⟨h.1.trans hq.1, h.2.trans hq.2⟩

theorem judgeShort_ok (hm : Setting m) (hask : m.isPair mtrx.askPrice)
    (h : judgeShort m e bid mtrx = .ok (.trade mtrx')) :
    ∃ price, mtrx' = { mtrx with bidPrice := price } ∧
      (bid.type = .shortOrder → m.isPair price) := by
  unfold judgeShort at h
  split at h
  · simp only [bind_eq_ok] at h
    obtain ⟨-, -, h⟩ := h
    split at h
    · cases h
    next feed hfeed _ =>
      cases h
      exact ⟨_, rfl, fun _ => hm.feed feed hfeed⟩
    next feed limit hfeed _ =>
      split at h
      · cases h
      next hlimit =>
        cases h
        have hpair := hm.feed feed hfeed
        have hsame : feed.assetPair = mtrx.askPrice.assetPair := by
          simp only [Price.assetPair, Prod.mk.injEq]
          exact ⟨hpair.1.trans hask.1.symm, hpair.2.trans hask.2.symm⟩
        exact ⟨_, rfl, fun _ => isPair_of_assetPair (Price.min_pair hsame hlimit) hask⟩
  next htype =>
    cases h
    exact ⟨_, rfl, fun hshort => absurd hshort htype⟩

theorem judgeAsk_ok (h : judgeAsk m e ask mtrx = .ok (.trade mtrx')) :
    (ask.type = .coverOrder ∧ mtrx' = { mtrx with askPrice := mtrx.bidPrice }) ∨
      (ask.type ≠ .coverOrder ∧ mtrx' = mtrx) := by
  unfold judgeAsk at h
  split at h
  next htype =>
    simp only [bind_eq_ok] at h
    obtain ⟨-, -, h⟩ := h
    split at h
    · cases h
    · split at h
      · cases h
      · cases h
        exact Or.inl ⟨htype, rfl⟩
  next htype =>
    split at h
    · cases h
    · cases h
      exact Or.inr ⟨htype, rfl⟩

theorem orderPrice_ask {price : Price} (htype : ask.type = .askOrder ∨ ask.type = .coverOrder)
    (h : orderPrice m ask = .ok price) : price = ask.marketIndex.orderPrice := by
  unfold orderPrice MarketOrder.getPrice at h
  rcases htype with htype | htype <;> rw [htype] at h <;> split at h <;>
    exact (Except.ok.inj h).symm

theorem judge_ok (hm : Setting m) (hask : ask.type = .askOrder ∨ ask.type = .coverOrder)
    (hpair : m.isPair ask.marketIndex.orderPrice) (h : judge m e bid ask = .ok (.trade mtrx)) :
    Judged m bid ask mtrx := by
  simp only [judge, bind_eq_ok] at h
  obtain ⟨bidPrice, -, askPrice, hprice, v, hshort, w, hrelative, h⟩ := h
  have hprice' := orderPrice_ask hask hprice
  obtain ⟨t, rfl, h⟩ := andThen_trade h
  obtain ⟨u, rfl, hrelative⟩ := andThen_trade hrelative
  obtain ⟨price, rfl, hshort'⟩ := judgeShort_ok hm (by rw [hprice']; exact hpair) hshort
  cases judgeRelative_ok hrelative
  rcases judgeAsk_ok h with ⟨htype, rfl⟩ | ⟨htype, rfl⟩
  · refine ⟨rfl, rfl, rfl, fun hask => ?_, fun _ => rfl, hshort'⟩
    rw [htype] at hask
    cases hask
  · exact ⟨rfl, rfl, rfl, fun _ => hprice', fun hcover => absurd hcover htype, hshort'⟩

theorem judgeShort_bid (h : bid.type ≠ .shortOrder) :
    judgeShort m e bid t = .ok (.trade t) := if_neg h

omit [Fc] in
theorem judgeRelative_plain (hbid : bid.type ≠ .relativeBidOrder)
    (hask : ask.type ≠ .relativeAskOrder) : judgeRelative bid ask t = .ok (.trade t) := by
  unfold judgeRelative
  rw [if_neg fun h => hbid h.1, if_neg fun h => hask h.1]
  rfl

theorem judge_bid {bidPrice askPrice : Price} (hbid : bid.type = .bidOrder)
    (hask : ask.type ≠ .relativeAskOrder) (hbidPrice : orderPrice m bid = .ok bidPrice)
    (haskPrice : orderPrice m ask = .ok askPrice)
    (ht : t = { bidOwner := bid.getOwner, askOwner := ask.getOwner, bidPrice, askPrice
                bidType := bid.type, askType := ask.type }) :
    judge m e bid ask = judgeAsk m e ask t := by
  subst ht
  have hshort : bid.type ≠ .shortOrder := by rw [hbid]; decide
  have hrelative : bid.type ≠ .relativeBidOrder := by rw [hbid]; decide
  unfold judge
  rw [hbidPrice, haskPrice]
  change (judgeShort m e bid _ >>= _) = _
  rw [judgeShort_bid hshort]
  change (judgeRelative bid ask _ >>= _) = _
  rw [judgeRelative_plain hrelative hask]
  rfl

theorem orderPrice_plain {o : MarketOrder}
    (htype : o.type = .bidOrder ∨ o.type = .askOrder ∨ o.type = .coverOrder) :
    orderPrice m o = .ok o.marketIndex.orderPrice := by
  unfold orderPrice MarketOrder.getPrice
  rcases htype with htype | htype | htype <;> rw [htype] <;> split <;> rfl

/-- What the judge makes of a bid and an ask that cross. -/
def crossing (bid ask : MarketOrder) : MarketTransaction :=
  { bidOwner := bid.getOwner, askOwner := ask.getOwner
    bidPrice := bid.marketIndex.orderPrice, askPrice := ask.marketIndex.orderPrice
    bidType := bid.type, askType := ask.type }

theorem judge_plain (hbid : bid.type = .bidOrder) (hask : ask.type = .askOrder) :
    judge m e bid ask = .ok
      (if Price.lt bid.marketIndex.orderPrice ask.marketIndex.orderPrice then .stop
        else .trade (crossing bid ask)) := by
  rw [judge_bid (t := crossing bid ask) hbid (by rw [hask]; decide)
    (orderPrice_plain (Or.inl hbid)) (orderPrice_plain (Or.inr (Or.inl hask))) rfl]
  unfold judgeAsk
  rw [if_neg (by rw [hask]; decide)]
  change (if Price.lt bid.marketIndex.orderPrice ask.marketIndex.orderPrice then _ else _) = _
  split <;> rfl

theorem tradeAskBid_ok (hask : ask.type = .askOrder) (hpair : m.isPair ask.marketIndex.orderPrice)
    (hbidPair : m.isPair bid.marketIndex.orderPrice) (hbid : isBid bid.type)
    (hj : Judged m bid ask mtrx) (h : tradeAskBid m e bid ask mtrx = .ok (e', mtrx')) :
    ∃ d, m.payCurrentBid e bid mtrx' = .ok d ∧ m.payCurrentAsk d ask mtrx' false = .ok e' ∧
      mtrx'.bidReceived.amount = mtrx'.askPaid.amount ∧
      mtrx'.feesCollected.assetId = m.quoteId ∧
      mtrx'.feesCollected.amount = int64 (mtrx'.bidPaid.amount - mtrx'.askReceived.amount) ∧
      Payable bid.state.balance mtrx'.bidPaid ∧ Payable ask.state.balance mtrx'.askPaid ∧
      Fits mtrx'.askReceived.amount := by
  simp only [tradeAskBid, eq_ok_iff, Prod.mk.injEq] at h
  obtain ⟨bidQuantity, hbidQ, askQuantity, haskQ, askReceived, hreceived, bidPays, hpays,
    bidBalance, hbidB, askBalance, haskB, fees, hfees, d, hd, d', hd', rfl, rfl⟩ := h
  have haskQ' := Except.ok.inj ((getQuantity_ask {} (Or.inl hask)).symm.trans haskQ)
  have haskB' : askBalance = askQuantity := by
    unfold MarketOrder.getBalance at haskB
    rw [hask] at haskB
    exact (Except.ok.inj haskB).symm.trans haskQ'
  have hbidB' : bidBalance.assetId = m.quoteId ∧ bidBalance.amount = bid.state.balance := by
    unfold MarketOrder.getBalance at hbidB
    rcases hbid with hbid | hbid <;> rw [hbid] at hbidB <;> cases hbidB <;> exact ⟨hbidPair.1, rfl⟩
  have hbidQ' : Fits bidQuantity.amount := by
    unfold MarketOrder.getQuantity at hbidQ
    rcases hbid with hbid | hbid <;> rw [hbid] at hbidQ <;> simp only [bind_eq_ok] at hbidQ <;>
      obtain ⟨_, -, _, -, hmultiply⟩ := hbidQ <;> exact multiply_fits hmultiply
  obtain ⟨hsame, rfl⟩ := Asset.sub_eq_ok hfees
  refine ⟨d, hd, hd', ?_, ?_, rfl, ?_, ?_, multiply_fits hreceived⟩
  · dsimp only
    split
    next heq =>
      rw [haskB']
      exact heq
    next => rfl
  · split
    · exact hbidB'.1
    next hne =>
      rw [if_neg hne] at hsame
      rw [hsame]
      rcases Asset.min_cases bidQuantity askQuantity with ⟨hmin, -⟩ | ⟨hmin, -⟩
      · rw [hmin] at hne
        exact absurd rfl hne
      · rw [hmin, ← haskQ'] at hreceived
        rw [hj.askPrice hask] at hreceived
        rcases multiply_asset hreceived with ⟨-, hr⟩ | ⟨hbase, hr⟩
        · exact hr.trans hpair.1
        · rw [hr]
          exact hbase.trans hpair.1
  · split
    · exact Or.inl hbidB'.2
    · exact Or.inr (multiply_fits hpays)
  · dsimp only
    split
    · rw [haskB', ← haskQ']
      exact Or.inl rfl
    next hne =>
      rcases Asset.min_cases bidQuantity askQuantity with ⟨hmin, -⟩ | ⟨hmin, -⟩
      · rw [hmin]
        exact Or.inr hbidQ'
      · rw [hmin] at hne
        exact absurd rfl hne

/-- What an ask that is filled by a short receives and pays. -/
def shortFill (feed : Price) (bid ask : MarketOrder) (mtrx : MarketTransaction) :
    Except ChainError (Asset × Asset) := do
  let askQuantity ← ask.getQuoteQuantity
  let balance ← bid.getBalance
  let shortQuantity ← multiply balance (halfFeed feed)
  let exchanged := Asset.min shortQuantity askQuantity
  let askBalance ← ask.getBalance
  let askPaid ← tradeAskShort.shortFills mtrx exchanged shortQuantity askBalance
  pure (exchanged, askPaid)

/-- What a cover receives and pays where `forSale` is offered to it. -/
def coverFill (m : Market) (e : EngineState) (ask : MarketOrder) (mtrx : MarketTransaction)
    (forSale : Asset) : Except ChainError (Asset × Asset) := do
  let amount ← orThrow ask.collateral (.assertion "")
  let collateral : Asset := { amount, assetId := m.baseId }
  let afford ← multiply collateral mtrx.bidPrice
  let debt ← m.getCurrentCoverDebt e ask
  let exchanged := Asset.min (Asset.min forSale afford) debt
  let askPaid ← coverPays mtrx exchanged afford collateral
  pure (exchanged, askPaid)

theorem halfFeed_pair (hpair : m.isPair feed) : m.isPair (halfFeed feed) := hpair

theorem multiply_base {a r : Asset} {p : Price} (ha : a.assetId = m.baseId) (hp : m.isPair p)
    (h : multiply a p = .ok r) : r.assetId = m.quoteId := by
  rcases multiply_asset h with ⟨-, hr⟩ | ⟨hq, hr⟩
  · exact hr.trans hp.1
  · rw [hr, hp.2, ← ha, hq, hp.1]

theorem askQuote_ok {quantity balance : Asset} (hask : ask.type = .askOrder)
    (hpair : m.isPair ask.marketIndex.orderPrice) (hquantity : ask.getQuoteQuantity = .ok quantity)
    (hbalance : ask.getBalance = .ok balance) :
    balance = { amount := ask.state.balance, assetId := m.baseId } ∧
      multiply balance ask.marketIndex.orderPrice = .ok quantity := by
  simp only [MarketOrder.getQuoteQuantity, MarketOrder.getPrice, hask, hbalance, eq_ok_iff] at hquantity
  obtain ⟨b, hb, price, rfl, hmultiply⟩ := hquantity
  cases hb
  unfold MarketOrder.getBalance at hbalance
  rw [hask, hpair.2] at hbalance
  exact ⟨(Except.ok.inj hbalance).symm, hmultiply⟩

theorem shortFill_ok {exchanged paid : Asset} (hfeed : m.isPair feed) (hask : ask.type = .askOrder)
    (hpair : m.isPair ask.marketIndex.orderPrice) (hbid : bid.type = .shortOrder)
    (hbidPair : m.isPair bid.marketIndex.orderPrice)
    (h : shortFill feed bid ask mtrx = .ok (exchanged, paid)) :
    exchanged.assetId = m.quoteId ∧ Fits exchanged.amount ∧ Payable ask.state.balance paid ∧
      ∃ forSale, shortSale feed bid = .ok forSale ∧ exchanged.amount ≤ forSale.amount := by
  simp only [shortFill, eq_ok_iff, Prod.mk.injEq] at h
  obtain ⟨askQuantity, haskQ, balance, hbalance, shortQuantity, hshortQ, askBalance, haskB, askPaid,
    hpaid, rfl, rfl⟩ := h
  have hbalance' : balance.assetId = m.baseId := by
    cases (getBalance_short hbid).symm.trans hbalance
    exact hbidPair.2
  obtain ⟨haskB', hmultiply⟩ := askQuote_ok hask hpair haskQ haskB
  have hshortQ' := multiply_base hbalance' (halfFeed_pair hfeed) hshortQ
  refine ⟨?_, ?_, ?_, shortQuantity, ?_, ?_⟩
  · rcases Asset.min_cases shortQuantity askQuantity with ⟨hmin, -⟩ | ⟨hmin, -⟩ <;> rw [hmin]
    · exact hshortQ'
    · exact multiply_base (by rw [haskB']) hpair hmultiply
  · rcases Asset.min_cases shortQuantity askQuantity with ⟨hmin, -⟩ | ⟨hmin, -⟩ <;> rw [hmin]
    · exact multiply_fits hshortQ
    · exact multiply_fits hmultiply
  · unfold tradeAskShort.shortFills at hpaid
    split at hpaid
    · exact Or.inr (multiply_fits hpaid)
    · cases hpaid
      rw [haskB']
      exact Or.inl rfl
  · simp only [shortSale, bind_eq_ok]
    exact ⟨balance, hbalance, hshortQ⟩
  · exact Asset.min_le _ _

section

variable (hask : ask.type = .coverOrder) (hpair : m.isPair ask.marketIndex.orderPrice)
include hask hpair

theorem getCurrentCoverDebt_ok {debt : Asset} (h : m.getCurrentCoverDebt e ask = .ok debt) :
    debt.assetId = m.quoteId ∧ Fits debt.amount := by
  simp only [Market.getCurrentCoverDebt, getInterestOwed, MarketOrder.getBalance, hask, eq_ok_iff] at h
  obtain ⟨_, _, _, rfl, owed, ⟨_, _, _, _, rfl⟩, hadd⟩ := h
  obtain ⟨-, rfl⟩ := Asset.add_eq_ok hadd
  exact ⟨hpair.1, int64_fits _⟩

theorem coverFill_ok {forSale exchanged paid : Asset}
    (h : coverFill m e ask mtrx forSale = .ok (exchanged, paid)) :
    (exchanged = forSale ∨ Fits exchanged.amount) ∧ exchanged.amount ≤ forSale.amount ∧
      (forSale.assetId = m.quoteId → m.isPair mtrx.bidPrice → exchanged.assetId = m.quoteId) ∧
      ∃ collateral, ask.collateral = some collateral ∧ Payable collateral paid := by
  simp only [coverFill, eq_ok_iff, Prod.mk.injEq] at h
  obtain ⟨collateral, hcollateral, afford, hafford, debt, hdebt, askPaid, hpaid, rfl, rfl⟩ := h
  obtain ⟨hdebtId, hdebtFits⟩ := getCurrentCoverDebt_ok hask hpair hdebt
  have hmin : Asset.min (Asset.min forSale afford) debt = forSale ∨
      Asset.min (Asset.min forSale afford) debt = afford ∨
      Asset.min (Asset.min forSale afford) debt = debt := by
    rcases Asset.min_cases (Asset.min forSale afford) debt with ⟨hmin, -⟩ | ⟨hmin, -⟩
    · rcases Asset.min_cases forSale afford with ⟨hmin', -⟩ | ⟨hmin', -⟩
      · exact Or.inl (hmin.trans hmin')
      · exact Or.inr (Or.inl (hmin.trans hmin'))
    · exact Or.inr (Or.inr hmin)
  have hle : (Asset.min (Asset.min forSale afford) debt).amount ≤ forSale.amount :=
    (Asset.min_le _ _).trans (Asset.min_le _ _)
  refine ⟨?_, hle, fun hforSale hprice => ?_, collateral, hcollateral, ?_⟩
  · rcases hmin with hmin | hmin | hmin <;> rw [hmin]
    · exact Or.inl rfl
    · exact Or.inr (multiply_fits hafford)
    · exact Or.inr hdebtFits
  · rcases hmin with hmin | hmin | hmin <;> rw [hmin]
    · exact hforSale
    · exact multiply_base rfl hprice hafford
    · exact hdebtId
  · unfold coverPays at hpaid
    split at hpaid
    · cases hpaid
      exact Or.inl rfl
    · exact Or.inr (multiply_fits hpaid)

theorem coverFill_max {forSale exchanged paid : Asset}
    (h : coverFill m e ask mtrx forSale = .ok (exchanged, paid)) :
    exchanged.amount ≤ 9223372036854775807 := by
  simp only [coverFill, eq_ok_iff, Prod.mk.injEq] at h
  obtain ⟨_, _, afford, _, debt, hdebt, _, _, rfl, rfl⟩ := h
  have hfits := (getCurrentCoverDebt_ok hask hpair hdebt).2
  unfold Fits at hfits
  rcases Asset.min_cases (Asset.min forSale afford) debt with ⟨hmin, hle⟩ | ⟨hmin, -⟩ <;>
    rw [hmin] <;> omega

end

/-- The transaction of a trade in which the ask receives what the bid pays and the other
way round. -/
def filled (mtrx : MarketTransaction) (exchanged paid : Asset) (collateral : Option Asset) :
    MarketTransaction :=
  { mtrx with
    askReceived := exchanged
    askPaid := paid
    bidReceived := paid
    bidPaid := exchanged
    shortCollateral := collateral }

theorem tradeAskShort_ok (h : tradeAskShort m e bid ask mtrx = .ok (e', mtrx')) :
    ∃ feed exchanged paid collateral d, m.feedPrice = some feed ∧
      shortFill feed bid ask mtrx = .ok (exchanged, paid) ∧
      shortStake feed bid exchanged = .ok collateral ∧
      m.payCurrentShort e bid (filled mtrx exchanged paid (some collateral)) = .ok (d, mtrx') ∧
      m.payCurrentAsk d ask mtrx' true = .ok e' := by
  simp only [tradeAskShort, eq_ok_iff, Prod.mk.injEq] at h
  obtain ⟨feed, hfeed, askQuantity, haskQ, balance, hbalance, shortQuantity, hshortQ, askBalance,
    haskB, paid, hpaid, collateral, hcollateral, ⟨d, t⟩, hshort, d', hask, rfl, rfl⟩ := h
  refine ⟨feed, Asset.min shortQuantity askQuantity, paid, collateral, d, hfeed, ?_, ?_, hshort, hask⟩
  · simp only [shortFill, eq_ok_iff]
    exact ⟨askQuantity, haskQ, balance, hbalance, shortQuantity, hshortQ, askBalance, haskB, paid,
      hpaid, rfl⟩
  · simp only [shortStake, bind_eq_ok]
    exact ⟨balance, hbalance, shortQuantity, hshortQ, hcollateral⟩

theorem tradeCoverShort_ok (h : tradeCoverShort m e bid ask mtrx = .ok (e', mtrx')) :
    ∃ feed forSale exchanged paid collateral d t, m.feedPrice = some feed ∧
      shortSale feed bid = .ok forSale ∧ coverFill m e ask mtrx forSale = .ok (exchanged, paid) ∧
      shortStake feed bid exchanged = .ok collateral ∧
      m.payCurrentShort e bid (filled mtrx exchanged paid (some collateral)) = .ok (d, t) ∧
      m.payCurrentCover d ask t = .ok (e', mtrx') := by
  simp only [tradeCoverShort, eq_ok_iff] at h
  obtain ⟨feed, hfeed, amount, hamount, afford, hafford, debt, hdebt, balance, hbalance, forSale,
    hforSale, paid, hpaid, collateral, hcollateral, ⟨d, t⟩, hshort, hcover⟩ := h
  refine ⟨feed, forSale, _, paid, collateral, d, t, hfeed, ?_, ?_, ?_, hshort, hcover⟩
  · simp only [shortSale, bind_eq_ok]
    exact ⟨balance, hbalance, hforSale⟩
  · simp only [coverFill, eq_ok_iff]
    exact ⟨amount, hamount, afford, hafford, debt, hdebt, paid, hpaid, rfl⟩
  · simp only [shortStake, bind_eq_ok]
    exact ⟨balance, hbalance, forSale, hforSale, hcollateral⟩

theorem tradeCoverBid_ok (h : tradeCoverBid m e bid ask mtrx = .ok (e', mtrx')) :
    ∃ forSale exchanged paid d, bid.getBalance = .ok forSale ∧
      coverFill m e ask mtrx forSale = .ok (exchanged, paid) ∧
      m.payCurrentBid e bid (filled mtrx exchanged paid mtrx.shortCollateral) = .ok d ∧
      m.payCurrentCover d ask (filled mtrx exchanged paid mtrx.shortCollateral) =
        .ok (e', mtrx') := by
  simp only [tradeCoverBid, eq_ok_iff] at h
  obtain ⟨amount, hamount, afford, hafford, debt, hdebt, forSale, hforSale, paid, hpaid, d, hbid,
    hcover⟩ := h
  refine ⟨forSale, _, paid, d, hforSale, ?_, hbid, hcover⟩
  simp only [coverFill, eq_ok_iff]
  exact ⟨amount, hamount, afford, hafford, debt, hdebt, paid, hpaid, rfl⟩

theorem shortSale_ok {forSale : Asset} (hfeed : m.isPair feed) (hbid : bid.type = .shortOrder)
    (hpair : m.isPair bid.marketIndex.orderPrice) (h : shortSale feed bid = .ok forSale) :
    forSale.assetId = m.quoteId ∧ Fits forSale.amount := by
  simp only [shortSale, bind_eq_ok] at h
  obtain ⟨balance, hbalance, hmultiply⟩ := h
  cases (getBalance_short hbid).symm.trans hbalance
  exact ⟨multiply_base hpair.2 (halfFeed_pair hfeed) hmultiply, multiply_fits hmultiply⟩

theorem trade_cases (h : trade m e bid ask mtrx = .ok (e', mtrx')) :
    (ask.type = .coverOrder ∧ bid.type = .shortOrder ∧
      tradeCoverShort m e bid ask mtrx = .ok (e', mtrx')) ∨
    (ask.type = .coverOrder ∧ isBid bid.type ∧ tradeCoverBid m e bid ask mtrx = .ok (e', mtrx')) ∨
    ((ask.type = .askOrder ∨ ask.type = .relativeBidOrder) ∧ bid.type = .shortOrder ∧
      tradeAskShort m e bid ask mtrx = .ok (e', mtrx')) ∨
    ((ask.type = .askOrder ∨ ask.type = .relativeAskOrder) ∧ isBid bid.type ∧
      tradeAskBid m e bid ask mtrx = .ok (e', mtrx')) ∨
    (¬ (ask.type = .coverOrder ∧ (bid.type = .shortOrder ∨ isBid bid.type)) ∧
      ¬ (ask.type = .askOrder ∧ (bid.type = .shortOrder ∨ isBid bid.type))) := by
  unfold trade at h
  split at h
  next hkind => exact Or.inl ⟨hkind.1, hkind.2, h⟩
  split at h
  next hkind => exact Or.inr (Or.inl ⟨hkind.2, hkind.1, h⟩)
  split at h
  next hkind => exact Or.inr (Or.inr (Or.inl ⟨hkind.1, hkind.2, h⟩))
  split at h
  next hkind => exact Or.inr (Or.inr (Or.inr (Or.inl ⟨hkind.1, hkind.2, h⟩)))
  next h₁ h₂ h₃ h₄ =>
    refine Or.inr (Or.inr (Or.inr (Or.inr ⟨?_, ?_⟩)))
    · rintro ⟨hask, hbid | hbid⟩
      · exact h₁ ⟨hask, hbid⟩
      · exact h₂ ⟨hbid, hask⟩
    · rintro ⟨hask, hbid | hbid⟩
      · exact h₃ ⟨Or.inl hask, hbid⟩
      · exact h₄ ⟨Or.inl hask, hbid⟩

end Bts.Blockchain.MarketTrades
