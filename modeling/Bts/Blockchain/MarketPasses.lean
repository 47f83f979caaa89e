import Bts.Blockchain.MarketBooks
import Bts.Blockchain.MarketSync

namespace Bts.Blockchain.MarketPasses

open Base Word Maps Cursors Amounts MarketRecords Transactions Database Layers MarketEngine
  MarketMatch MarketLoop MarketRuns MarketBooks MarketEffects MarketTrades MarketSync Holdings

variable [Fc]

/-- A bid and an ask of the market are at hand. -/
structure Hand (m : Market) (e : EngineState) (bid ask : MarketOrder) : Prop where
  setting : Setting m
  synced : Synced m e
  hasBid : e.currentBid = some bid
  hasAsk : e.currentAsk = some ask
  askPair : m.isPair ask.marketIndex.orderPrice

/-- A pass in which a bid and an ask pay: `d` is between the payments and `d'` after them. -/
structure AskBid (m : Market) (e : EngineState) (bid ask : MarketOrder) (t mtrx : MarketTransaction)
    (d d' : EngineState) : Prop extends Hand m e bid ask where
  type : ask.type = .askOrder
  isBid : isBid bid.type
  judged : judge m e bid ask = .ok (.trade t)
  bidPays : m.payCurrentBid e bid mtrx = .ok d
  askPays : m.payCurrentAsk d ask mtrx false = .ok d'
  received : mtrx.bidReceived.amount = mtrx.askPaid.amount
  feesAsset : mtrx.feesCollected.assetId = m.quoteId
  fees : mtrx.feesCollected.amount = int64 (mtrx.bidPaid.amount - mtrx.askReceived.amount)
  bidPayable : Payable bid.state.balance mtrx.bidPaid
  askPayable : Payable ask.state.balance mtrx.askPaid
  fits : Fits mtrx.askReceived.amount
  checked : Checked mtrx

structure AskShort (m : Market) (e : EngineState) (bid ask : MarketOrder)
    (t mtrx : MarketTransaction) (feed : Price) (exchanged paid collateral : Asset)
    (d d' : EngineState) : Prop extends Hand m e bid ask where
  type : ask.type = .askOrder
  isShort : bid.type = .shortOrder
  judged : judge m e bid ask = .ok (.trade t)
  hasFeed : m.feedPrice = some feed
  fill : shortFill feed bid ask t = .ok (exchanged, paid)
  stake : shortStake feed bid exchanged = .ok collateral
  shortPays : m.payCurrentShort e bid (filled t exchanged paid (some collateral)) = .ok (d, mtrx)
  askPays : m.payCurrentAsk d ask mtrx true = .ok d'
  checked : Checked mtrx

structure CoverBid (m : Market) (e : EngineState) (bid ask : MarketOrder)
    (t mtrx : MarketTransaction) (forSale exchanged paid : Asset) (d d' : EngineState) : Prop
    extends Hand m e bid ask where
  type : ask.type = .coverOrder
  isBid : isBid bid.type
  judged : judge m e bid ask = .ok (.trade t)
  sale : bid.getBalance = .ok forSale
  fill : coverFill m e ask t forSale = .ok (exchanged, paid)
  bidPays : m.payCurrentBid e bid (filled t exchanged paid t.shortCollateral) = .ok d
  coverPays : m.payCurrentCover d ask (filled t exchanged paid t.shortCollateral) = .ok (d', mtrx)
  checked : Checked mtrx

structure CoverShort (m : Market) (e : EngineState) (bid ask : MarketOrder)
    (t t' mtrx : MarketTransaction) (feed : Price) (forSale exchanged paid collateral : Asset)
    (d d' : EngineState) : Prop extends Hand m e bid ask where
  type : ask.type = .coverOrder
  isShort : bid.type = .shortOrder
  judged : judge m e bid ask = .ok (.trade t)
  hasFeed : m.feedPrice = some feed
  sale : shortSale feed bid = .ok forSale
  fill : coverFill m e ask t forSale = .ok (exchanged, paid)
  stake : shortStake feed bid exchanged = .ok collateral
  shortPays : m.payCurrentShort e bid (filled t exchanged paid (some collateral)) = .ok (d, t')
  coverPays : m.payCurrentCover d ask t' = .ok (d', mtrx)
  checked : Checked mtrx

/-- The end of a pass with a trade: the statistics change, and the fees are collected. -/
structure Booked (mtrx : MarketTransaction) (d e' : EngineState) : Prop where
  layer : e'.layer = d.layer
  cursors : SameCursors d e'
  currentBid : e'.currentBid = d.currentBid
  currentAsk : e'.currentAsk = d.currentAsk
  record : e'.currentCollatRecord = d.currentCollatRecord
  base : e'.baseAsset = if mtrx.feesCollected.assetId = d.baseAsset.id then
    collect d.baseAsset mtrx.feesCollected.amount else d.baseAsset
  quote : d.quoteAsset.id ≠ d.baseAsset.id → e'.quoteAsset =
    if mtrx.feesCollected.assetId = d.quoteAsset.id then
      collect d.quoteAsset mtrx.feesCollected.amount else d.quoteAsset

/-- What a pass of the loop does with the orders at hand: it puts one of them aside, or
both of them pay, and the fees are collected. -/
inductive Passed (m : Market) (e : EngineState) (bid ask : MarketOrder) : EngineState → Prop
  | bidDropped (judged : judge m e bid ask = .ok .skipBid) :
    Passed m e bid ask { e with currentBid := none }
  | askDropped (judged : judge m e bid ask = .ok .skipAsk) :
    Passed m e bid ask { e with currentAsk := none }
  | askBid {t mtrx : MarketTransaction} {d d' e' : EngineState}
    (deal : AskBid m e bid ask t mtrx d d') (booked : Booked mtrx d' e') : Passed m e bid ask e'
  | askShort {t mtrx : MarketTransaction} {feed : Price} {exchanged paid collateral : Asset}
    {d d' e' : EngineState} (deal : AskShort m e bid ask t mtrx feed exchanged paid collateral d d')
    (booked : Booked mtrx d' e') : Passed m e bid ask e'
  | coverBid {t mtrx : MarketTransaction} {forSale exchanged paid : Asset} {d d' e' : EngineState}
    (deal : CoverBid m e bid ask t mtrx forSale exchanged paid d d')
    (booked : Booked mtrx d' e') : Passed m e bid ask e'
  | coverShort {t t' mtrx : MarketTransaction} {feed : Price}
    {forSale exchanged paid collateral : Asset} {d d' e' : EngineState}
    (deal : CoverShort m e bid ask t t' mtrx feed forSale exchanged paid collateral d d')
    (booked : Booked mtrx d' e') : Passed m e bid ask e'

variable {m : Market} {e e' d d' : EngineState} {bid ask : MarketOrder}
  {t t' mtrx : MarketTransaction} {feed : Price} {forSale exchanged paid collateral : Asset}

theorem booked_collectFees {transactions : List MarketTransaction} {volume : Asset}
    {opening closing : Price} :
    Booked mtrx d (collectFees (withStatistics d transactions volume opening closing) mtrx) := by
  unfold collectFees
  split
  next hbase =>
    refine ⟨rfl, ⟨rfl, rfl, rfl, rfl, rfl, rfl, rfl⟩, rfl, rfl, rfl, (if_pos hbase).symm, fun hne => ?_⟩
    exact (if_neg fun hquote => hne (hquote.symm.trans hbase)).symm
  next hbase =>
    split
    next hquote =>
      exact ⟨rfl, ⟨rfl, rfl, rfl, rfl, rfl, rfl, rfl⟩, rfl, rfl, rfl, (if_neg hbase).symm,
        fun _ => (if_pos hquote).symm⟩
    next hquote =>
      exact ⟨rfl, ⟨rfl, rfl, rfl, rfl, rfl, rfl, rfl⟩, rfl, rfl, rfl, (if_neg hbase).symm,
        fun _ => (if_neg hquote).symm⟩

section

variable (h : Hand m e bid ask)
include h

theorem Hand.bidStored : BidStored m e bid := h.synced.currentBid bid h.hasBid

theorem Hand.askStored : AskStored m e ask := h.synced.currentAsk ask h.hasAsk

theorem Hand.bidPair : m.isPair bid.marketIndex.orderPrice :=
  h.bidStored.type_pair.2

theorem Hand.judge_ok (hjudge : judge m e bid ask = .ok (.trade t)) : Judged m bid ask t :=
  MarketTrades.judge_ok h.setting h.askStored.is_ask h.askPair hjudge

theorem matchPair_passed (hpass : matchPair m e bid ask = .ok (some e')) :
    Passed m e bid ask e' := by
  have hbidType := h.bidStored.type_pair.1
  have haskType := h.askStored.is_ask
  rcases MarketWrites.matchPair_ok hpass with ⟨t, hjudge, hrecord⟩ | ⟨hjudge, rfl⟩ | ⟨hjudge, rfl⟩
  · obtain ⟨d', mtrx, transactions, volume, opening, closing, htrade, hchecked, rfl⟩ :=
      recordTrade_ok hrecord
    have haskOrder {x : MarketRecords.OrderType} (hother : ask.type = .askOrder ∨ ask.type = x)
        (hx : x ≠ .coverOrder) : ask.type = .askOrder :=
      hother.elim id fun hsame => haskType.resolve_right fun hcover => hx (hsame.symm.trans hcover)
    rcases trade_cases htrade with ⟨hcover, hshort, htrade⟩ | ⟨hcover, hisBid, htrade⟩ |
      ⟨hother, hshort, htrade⟩ | ⟨hother, hisBid, htrade⟩ | ⟨hcover, hother⟩
    · obtain ⟨feed, forSale, exchanged, paid, collateral, d, t', hfeed, hsale, hfill, hstake,
        hshortPays, hcoverPays⟩ := tradeCoverShort_ok htrade
      exact .coverShort ⟨h, hcover, hshort, hjudge, hfeed, hsale, hfill, hstake, hshortPays,
        hcoverPays, hchecked⟩ booked_collectFees
    · obtain ⟨forSale, exchanged, paid, d, hsale, hfill, hbidPays, hcoverPays⟩ :=
        tradeCoverBid_ok htrade
      exact .coverBid ⟨h, hcover, hisBid, hjudge, hsale, hfill, hbidPays, hcoverPays, hchecked⟩
        booked_collectFees
    · obtain ⟨feed, exchanged, paid, collateral, d, hfeed, hfill, hstake, hshortPays, haskPays⟩ :=
        tradeAskShort_ok htrade
      exact .askShort ⟨h, haskOrder hother nofun, hshort, hjudge, hfeed, hfill, hstake, hshortPays,
        haskPays, hchecked⟩ booked_collectFees
    · obtain ⟨d, hbidPays, haskPays, hreceived, hfeesAsset, hfees, hbidPayable, haskPayable, hfits⟩ :=
        tradeAskBid_ok (haskOrder hother nofun) h.askPair h.bidPair hisBid (h.judge_ok hjudge) htrade
      exact .askBid ⟨h, haskOrder hother nofun, hisBid, hjudge, hbidPays, haskPays, hreceived, hfeesAsset,
        hfees, hbidPayable, haskPayable, hfits, hchecked⟩ booked_collectFees
    · rcases haskType with haskType | haskType
      · exact absurd ⟨haskType, hbidType.symm⟩ hother
      · exact absurd ⟨haskType, hbidType.symm⟩ hcover
  · exact .bidDropped hjudge
  · exact .askDropped hjudge

end

theorem Booked.baseAsset (h : Booked mtrx d e') (hd : Synced m d) :
    e'.baseAsset = if mtrx.feesCollected.assetId = m.baseId then
      collect d.baseAsset mtrx.feesCollected.amount else d.baseAsset := by
  rw [h.base, hd.baseId]

theorem Booked.quoteAsset (h : Booked mtrx d e') (hm : Setting m) (hd : Synced m d) :
    e'.quoteAsset = if mtrx.feesCollected.assetId = m.quoteId then
      collect d.quoteAsset mtrx.feesCollected.amount else d.quoteAsset := by
  rw [h.quote (by rw [hd.quoteId, hd.baseId]; exact ne_of_gt hm.ordered), hd.quoteId]

theorem Booked.quoteSupply (h : Booked mtrx d e') (hm : Setting m) (hd : Synced m d) :
    e'.quoteAsset.currentShareSupply = d.quoteAsset.currentShareSupply := by
  rw [h.quoteAsset hm hd]
  split <;> rfl

theorem Booked.synced (h : Booked mtrx d e') (hm : Setting m) (hd : Synced m d) : Synced m e' := by
  refine hd.frame h.cursors (by rw [h.layer]) (by rw [h.layer]) (by rw [h.layer]) (by rw [h.layer])
    h.currentBid h.currentAsk ?_ ?_
  · rw [h.quoteAsset hm hd]
    split
    · exact (hd.collect _).1
    · exact ⟨hd.quoteFees, hd.quoteId⟩
  · rw [h.baseAsset hd]
    split
    · exact (hd.collect _).2
    · exact ⟨hd.baseFees, hd.baseId⟩

theorem AskBid.between (h : AskBid m e bid ask t mtrx d d') :
    Synced m d ∧ d.currentAsk = some ask := by
  obtain ⟨hd, hcurrent⟩ := h.synced.payCurrentBid h.setting h.hasBid h.bidPays
  exact ⟨hd, hcurrent.trans h.hasAsk⟩

theorem AskBid.after (h : AskBid m e bid ask t mtrx d d') : Synced m d' :=
  h.between.1.payCurrentAsk h.setting h.between.2 h.askPays

theorem AskShort.between (h : AskShort m e bid ask t mtrx feed exchanged paid collateral d d') :
    Synced m d ∧ d.currentAsk = some ask := by
  obtain ⟨hd, hcurrent, -⟩ :=
    h.synced.payCurrentShort h.hasBid (wholeOrNothing h.isShort h.stake) h.shortPays
  exact ⟨hd, hcurrent.trans h.hasAsk⟩

theorem AskShort.after (h : AskShort m e bid ask t mtrx feed exchanged paid collateral d d') :
    Synced m d' := h.between.1.payCurrentAsk h.setting h.between.2 h.askPays

theorem CoverBid.between (h : CoverBid m e bid ask t mtrx forSale exchanged paid d d') :
    Synced m d ∧ d.currentAsk = some ask ∧ d.currentCollatRecord = e.currentCollatRecord := by
  obtain ⟨hd, hcurrent⟩ := h.synced.payCurrentBid h.setting h.hasBid h.bidPays
  obtain ⟨-, -, rfl⟩ := payCurrentBid_ok h.setting.current h.synced.quoteFees h.bidPays
  exact ⟨hd, hcurrent.trans h.hasAsk, rfl⟩

theorem CoverShort.between
    (h : CoverShort m e bid ask t t' mtrx feed forSale exchanged paid collateral d d') :
    Synced m d ∧ d.currentAsk = some ask ∧ d.currentCollatRecord = e.currentCollatRecord := by
  obtain ⟨hd, hcurrent, hrecord⟩ :=
    h.synced.payCurrentShort h.hasBid (wholeOrNothing h.isShort h.stake) h.shortPays
  exact ⟨hd, hcurrent.trans h.hasAsk, hrecord⟩

theorem Passed.synced (hpass : Passed m e bid ask e') (hm : Setting m) (h : Synced m e) :
    Synced m e' := by
  cases hpass with
  | bidDropped => exact h.bidDropped
  | askDropped => exact h.askDropped
  | askBid deal booked => exact booked.synced hm deal.after
  | askShort deal booked => exact booked.synced hm deal.after
  | coverBid deal booked =>
    exact booked.synced hm (deal.between.1.payCurrentCover deal.coverPays)
  | coverShort deal booked =>
    exact booked.synced hm (deal.between.1.payCurrentCover deal.coverPays)

/-- The ask that is left after a pass is the one that was at hand. -/
theorem Passed.ask_index (hpass : Passed m e bid ask e') (hand : Hand m e bid ask) :
    ∀ a ∈ e'.currentAsk, a.marketIndex = ask.marketIndex := by
  have hcover {d d' : EngineState} {t' mtrx : MarketTransaction}
      (hpays : m.payCurrentCover d ask t' = .ok (d', mtrx)) :
      ∀ a ∈ d'.currentAsk, a.marketIndex = ask.marketIndex := by
    obtain ⟨-, expiration, debt, payment, old, -, -, -, -, -, -, -, -, hcases⟩ :=
      payCurrentCover_ok hpays
    rcases hcases with ⟨-, rfl, -⟩ | ⟨-, -, charged, returned, -, rfl, -⟩ <;>
      · rintro _ ⟨⟩
        rfl
  have hask {d d' : EngineState} {mtrx : MarketTransaction} {toQuote : Bool} (hd : Synced m d)
      (hpays : m.payCurrentAsk d ask mtrx toQuote = .ok d') :
      ∀ a ∈ d'.currentAsk, a.marketIndex = ask.marketIndex := by
    obtain ⟨-, -, rfl⟩ := payCurrentAsk_ok hand.setting.current hd.quoteFees hd.baseFees hpays
    rintro _ ⟨⟩
    rfl
  cases hpass with
  | bidDropped =>
    intro a ha
    rw [hand.hasAsk] at ha
    cases ha
    rfl
  | askDropped =>
    intro a ha
    cases ha
  | askBid deal booked =>
    rw [booked.currentAsk]
    exact hask deal.between.1 deal.askPays
  | askShort deal booked =>
    rw [booked.currentAsk]
    exact hask deal.between.1 deal.askPays
  | coverBid deal booked =>
    rw [booked.currentAsk]
    exact hcover deal.coverPays
  | coverShort deal booked =>
    rw [booked.currentAsk]
    exact hcover deal.coverPays

/-- The positions that the engine takes are of its market. -/
structure CoverPairs (m : Market) (e : EngineState) : Prop where
  expirations : ∀ x ∈ e.collateralExpirationItr, x.quoteId = m.quoteId → m.isPair x.key.orderPrice
  current : ∀ ask ∈ e.currentAsk, m.isPair ask.marketIndex.orderPrice

section

variable (h : CoverPairs m e)
include h

theorem CoverPairs.bidTaken
    (ht : BidTaken m { e with ordersFilled := e.ordersFilled + 1, currentBid := none } e') :
    CoverPairs m e' := by
  cases ht <;> exact ⟨h.expirations, h.current⟩

theorem CoverPairs.askTaken
    (ht : AskTaken m { e with ordersFilled := e.ordersFilled + 1, currentAsk := none } e') :
    CoverPairs m e' := by
  cases ht with
  | called bid itr pair above =>
    refine ⟨h.expirations, ?_⟩
    rintro _ ⟨⟩
    exact pair
  | @expired _ skipped rest x r called uncalled first expirations quote =>
    have hexp : e.collateralExpirationItr = skipped ++ x :: rest := expirations
    have hsub : (x :: rest).Sublist e.collateralExpirationItr := by
      rw [hexp]
      exact List.sublist_append_right _ _
    refine ⟨fun y hy => h.expirations y (hsub.subset (List.mem_cons_of_mem _ hy)), ?_⟩
    rintro _ ⟨⟩
    exact h.expirations x (hsub.subset List.mem_cons_self) quote
  | ask called passed asks pair =>
    refine ⟨fun y hy => h.expirations y (passed.subset hy), ?_⟩
    rintro _ ⟨⟩
    exact pair
  | none called passed =>
    refine ⟨fun y hy => h.expirations y (passed.subset hy), ?_⟩
    intro a ha
    cases ha

theorem CoverPairs.matchPair (hand : Hand m e bid ask)
    (hmatch : matchPair m e bid ask = .ok (some e')) : CoverPairs m e' := by
  refine ⟨?_, fun a ha => ?_⟩
  · rw [(matchPair_cursors hmatch).expirations]
    exact h.expirations
  · rw [(matchPair_passed hand hmatch).ask_index hand a ha]
    exact hand.askPair

end

def OfMarket (quoteId baseId : Int) (key : MarketIndexKey) : Prop :=
  key.orderPrice.quoteAssetId = quoteId ∧ key.orderPrice.baseAssetId = baseId
  deriving Decidable

/-- The orders of a market are those of the database, which the iterators visit, and the
amounts are ones of `int64_t`. -/
structure OrderBook (prior : ChainInterface) (quoteId baseId : Int) : Prop where
  bids : ∀ k, OfMarket quoteId baseId k → bids.get prior k = prior.root.bidDb.lookup k
  relativeBids : ∀ k, OfMarket quoteId baseId k →
    relativeBids.get prior k = prior.root.relativeBidDb.lookup k
  asks : ∀ k, OfMarket quoteId baseId k → asks.get prior k = prior.root.askDb.lookup k
  shorts : ∀ k, OfMarket quoteId baseId k → shorts.get prior k = prior.root.shortDb.lookup k
  shortsFit : Holdings.shorts.All (fun _ r => Fits r.balance) prior
  feesFit : Holdings.assets.All (fun _ a => Fits a.collectedFees) prior

/-- The positions in the quote asset are those of the market, each with one entry in the
index of the expirations. -/
structure CoverBook (prior : ChainInterface) (quoteId baseId : Int) : Prop where
  positions : ∀ k, OfMarket quoteId baseId k →
    positions.get prior k = prior.root.collateralDb.lookup k
  expirations : ∀ x ∈ prior.root.collateralExpirationIndex, x.quoteId = quoteId →
    OfMarket quoteId baseId x.key
  once : (prior.root.collateralExpirationIndex.map ExpirationIndex.key).Nodup

variable {quoteId baseId : Int}

theorem inStep_of_book {V : Type} {prior : ChainInterface} {shelf : Shelf MarketIndexKey V}
    {book : Map MarketIndexKey V} {itr : List (MarketIndexKey × V)}
    (hbook : ∀ k, OfMarket quoteId baseId k → shelf.get prior k = book.lookup k)
    (hitr : InStep (fun k => book.lookup k) (fun _ => True) itr) (hempty : shelf.own {} = ∅) :
    InStep (shelf.get (.pending {} prior)) (fun k => OfMarket quoteId baseId k) itr := by
  refine ⟨hitr.nodup, fun x hx hpair => ?_⟩
  rw [Shelf.get_pending, hempty, AList.lookup_empty, Option.none_or, hbook _ hpair]
  exact hitr.stored x hx trivial

theorem orderBook_database {db : ChainDatabase}
    (hshorts : Holdings.shorts.All (fun _ r => Fits r.balance) (.pending {} (.database db)))
    (hfees : Holdings.assets.All (fun _ a => Fits a.collectedFees) (.pending {} (.database db))) :
    OrderBook (.pending {} (.database db)) quoteId baseId := by
  refine ⟨fun k _ => ?_, fun k _ => ?_, fun k _ => ?_, fun k _ => ?_, hshorts, hfees⟩ <;>
    rw [Shelf.get_blank _ _ rfl] <;> rfl

theorem coverBook_database {db : ChainDatabase}
    (hexpirations : ∀ x ∈ db.collateralExpirationIndex, x.quoteId = quoteId →
      OfMarket quoteId baseId x.key)
    (honce : (db.collateralExpirationIndex.map ExpirationIndex.key).Nodup) :
    CoverBook (.pending {} (.database db)) quoteId baseId := by
  refine ⟨fun k _ => ?_, hexpirations, honce⟩
  rfl

theorem opened_synced {prior : ChainInterface} (h : Opened prior quoteId baseId m e)
    (hbook : OrderBook prior quoteId baseId) : Synced m e := by
  obtain ⟨rfl, rfl, rfl⟩ : m.quoteId = quoteId ∧ m.baseId = baseId ∧ m.prior = prior :=
    ⟨h.quote, h.base, h.below⟩
  have hlayer : m.pendingState e = .pending {} m.prior := by
    unfold Market.pendingState
    rw [h.layer]
  refine ⟨?_, ?_, ?_, ?_, fun k r hr => ?_, fun b hb => ?_, fun a ha => ?_,
    hbook.feesFit _ _ h.quoteAsset, hbook.feesFit _ _ h.baseAsset,
    Effects.getAssetRecord_id h.quoteAsset, Effects.getAssetRecord_id h.baseAsset⟩
  · rw [hlayer]
    exact inStep_of_book hbook.bids h.bids rfl
  · rw [hlayer]
    exact inStep_of_book hbook.relativeBids h.relativeBids rfl
  · rw [hlayer]
    exact inStep_of_book hbook.asks h.asks rfl
  · rw [hlayer]
    exact inStep_of_book hbook.shorts h.shorts rfl
  · rw [hlayer, Shelf.get_pending] at hr
    exact hbook.shortsFit k r hr
  · rw [h.currentBid] at hb
    cases hb
  · rw [h.currentAsk] at ha
    cases ha

theorem opened_pairs {prior : ChainInterface} (h : Opened prior quoteId baseId m e)
    (hexpirations : ∀ x ∈ prior.root.collateralExpirationIndex, x.quoteId = quoteId →
      OfMarket quoteId baseId x.key) : CoverPairs m e := by
  obtain ⟨rfl, rfl⟩ : m.quoteId = quoteId ∧ m.baseId = baseId := ⟨h.quote, h.base⟩
  obtain ⟨l, hsub, hperm⟩ := h.expirations
  refine ⟨fun x hx => hexpirations x (hsub.subset (hperm.mem_iff.mp hx)), fun a ha => ?_⟩
  rw [h.currentAsk] at ha
  cases ha

end Bts.Blockchain.MarketPasses
