import Bts.Blockchain.MarketLedger
import Bts.Blockchain.MatchAmounts
import Bts.Blockchain.PlainBooks

namespace Bts.Blockchain.UncrossedBooks

open Base Result Maps Cursors Amounts MarketRecords Transactions Pending Database Layers Conversions
  MarketEngine MarketMatch MarketExecute MarketLoop MarketRuns MarketBooks MarketEffects
  MarketTrades MarketSync MarketPasses PlainBooks MarketLedger MatchAmounts Holdings

def quantityOf (key : MarketIndexKey) (r : OrderRecord) : Int :=
  r.balance * pricePrecision / key.orderPrice.ratio

/-- The bids are visited from the highest one down, and the asks from the lowest one up. -/
def notBelow (a b : MarketIndexKey) : Prop := ¬ Price.lt a.orderPrice b.orderPrice

def notAbove (a b : MarketIndexKey) : Prop := ¬ Price.lt b.orderPrice a.orderPrice

def bidDone (key : MarketIndexKey) (r : OrderRecord) : Prop := quantityOf key r ≤ 0

def askDone (_ : MarketIndexKey) (r : OrderRecord) : Prop := r.balance ≤ 0

section Iterators

variable {quoteId baseId : Int}

theorem amounts_update {P Q : MarketIndexKey → Prop} {view : MarketIndexKey → Option OrderRecord}
    {key : MarketIndexKey} {new : OrderRecord}
    (h : ∀ k r, P k → view k = some r → 0 ≤ r.balance ∧ Q k) (hkey : Q key)
    (hnew : 0 ≤ new.balance) (k : MarketIndexKey) (r : OrderRecord) (hk : P k)
    (hr : Function.update view key (some new) k = some r) : 0 ≤ r.balance ∧ Q k := by
  rw [Function.update_apply] at hr
  split at hr
  next heq =>
    cases hr
    exact ⟨hnew, heq ▸ hkey⟩
  next => exact h k r hk hr

end Iterators

section Model

variable [Fc]

/-- What a bid and an ask of the book pay: the ask receives the value of what it gives, rounded
down, and the bid pays less than the value of one more unit than it receives. -/
structure Filled (c : ChainInterface) (t : MarketTransaction) : Prop where
  isBid : (bids.get c { orderPrice := t.bidPrice, owner := t.bidOwner }).isSome
  isAsk : (asks.get c { orderPrice := t.askPrice, owner := t.askOwner }).isSome
  askLimit : t.askPaid.amount * t.askPrice.ratio / pricePrecision ≤ t.askReceived.amount
  bidLimit : t.bidPaid.amount * pricePrecision < (t.bidReceived.amount + 1) * t.bidPrice.ratio

/-- The key of the ask at hand, where that is not a cover of another market. -/
def askKey (e : EngineState) : Option MarketIndexKey :=
  (e.currentAsk.filter (·.type = .askOrder)).map MarketOrder.marketIndex

structure Walking (m : Market) (e : EngineState) : Prop extends Plain m e where
  synced : Synced m e
  relativeBids : e.relativeBidItr = []
  isBid : ∀ bid ∈ e.currentBid, bid.type = .bidOrder
  bids : Walk (bids.get (m.pendingState e)) (fun k => m.isPair k.orderPrice) notBelow bidDone
    (e.currentBid.map MarketOrder.marketIndex) e.bidItr
  asks : Walk (asks.get (m.pendingState e)) (fun k => m.isPair k.orderPrice) notAbove askDone
    (askKey e) e.askItr
  bidAmounts : ∀ k r, m.isPair k.orderPrice → Holdings.bids.get (m.pendingState e) k = some r →
    0 ≤ r.balance ∧ 0 < k.orderPrice.ratio ∧ (Holdings.bids.get m.prior k).isSome
  askAmounts : ∀ k r, m.isPair k.orderPrice → Holdings.asks.get (m.pendingState e) k = some r →
    0 ≤ r.balance ∧ (Holdings.asks.get m.prior k).isSome
  fills : ∀ t ∈ e.marketTransactions, Filled m.prior t

variable {m : Market} {e e' d : EngineState} {bid ask : MarketOrder}

theorem askKey_ask (hask : e.currentAsk = some ask) (htype : ask.type = .askOrder) :
    askKey e = some ask.marketIndex := by
  unfold askKey
  rw [hask, Option.filter_some, if_pos (decide_eq_true htype)]
  rfl

theorem askKey_cover (hask : e.currentAsk = some ask) (htype : ask.type = .coverOrder) :
    askKey e = none := by
  unfold askKey
  rw [hask, Option.filter_some, if_neg (by rw [htype]; decide)]
  rfl

theorem Walking.bidStored (h : Walking m e) (hbid : e.currentBid = some bid) :
    bid.type = .bidOrder ∧ m.isPair bid.marketIndex.orderPrice ∧
      Holdings.bids.get (m.pendingState e) bid.marketIndex = some bid.state ∧
      bid.marketIndex ∉ e.bidItr.map Prod.fst := by
  have htype := h.isBid bid hbid
  cases h.synced.currentBid bid hbid with
  | bid type pair stored visited => exact ⟨type, pair, stored, visited⟩
  | relativeBid type | short type =>
    rw [type] at htype
    cases htype

/-- Without shorts and relative bids the next bid is the one of `_bid_itr`. -/
def takenBid (m : Market) (e : EngineState) : EngineState :=
  match e.bidItr with
  | [] => e
  | (key, order) :: rest =>
    if m.isPair key.orderPrice then
      { e with
        bidItr := rest
        currentBid := some { type := .bidOrder, marketIndex := key, state := order } }
    else e

theorem takenBid_cases (m : Market) (e : EngineState) :
    (takenBid m e = e ∧ ∀ x ∈ e.bidItr.head?, ¬ m.isPair x.1.orderPrice) ∨
      ∃ key order rest, e.bidItr = (key, order) :: rest ∧ m.isPair key.orderPrice ∧
        takenBid m e = { e with
          bidItr := rest
          currentBid := some { type := .bidOrder, marketIndex := key, state := order } } := by
  unfold takenBid
  cases hitr : e.bidItr with
  | nil =>
    refine Or.inl ⟨rfl, fun x hx => ?_⟩
    cases hx
  | cons x rest =>
    obtain ⟨key, order⟩ := x
    by_cases hpair : m.isPair key.orderPrice
    · exact Or.inr ⟨key, order, rest, rfl, hpair, if_pos hpair⟩
    · refine Or.inl ⟨if_neg hpair, ?_⟩
      rintro _ ⟨⟩
      exact hpair

theorem advanceBid_plain (hshorts : ∀ x ∈ e.shortItr, ¬ m.isPair x.1.orderPrice)
    (hrelative : e.relativeBidItr = []) : m.advanceBid e = .ok (takenBid m e) := by
  have hshort : m.getNextShort e = none := by
    unfold Market.getNextShort
    cases hitr : e.shortItr with
    | nil => rfl
    | cons x rest =>
      obtain ⟨key, order⟩ := x
      exact if_neg (hshorts (key, order) (by rw [hitr]; exact List.mem_cons_self))
  have hnone : m.relativeBid e = .ok none := by
    unfold Market.relativeBid
    rw [hrelative]
    cases m.legacy <;> rfl
  have htake (bid : MarketOrder) :
      m.takeBid e bid = { e with bidItr := e.bidItr.tail, currentBid := some bid } := by
    unfold Market.takeBid
    rw [hshort]
    cases m.feedPrice with
    | none => rfl
    | some feed => exact ite_self _
  unfold Market.advanceBid Market.bestBid takenBid
  rw [hnone, hshort]
  cases hitr : e.bidItr with
  | nil => rfl
  | cons x rest =>
    obtain ⟨key, order⟩ := x
    simp only [bind, Except.bind, pure, Except.pure]
    by_cases hpair : m.isPair key.orderPrice
    · rw [if_pos hpair, if_pos hpair]
      dsimp only
      rw [if_neg (by decide), htake, hitr]
      rfl
    · rw [if_neg hpair, if_neg hpair]
      rfl

theorem Walking.bid_behind (h : Walking m e) (hm : Setting m)
    (hhas : Market.hasQuantity e.currentBid = .ok false) (k : MarketIndexKey)
    (hk : k ∈ e.currentBid.map MarketOrder.marketIndex) (r : OrderRecord)
    (hr : Holdings.bids.get (m.pendingState e) k = some r) : bidDone k r := by
  obtain ⟨bid, hbid, rfl⟩ := Option.map_eq_some_iff.mp hk
  obtain ⟨htype, hpair, hstored, -⟩ := h.bidStored hbid
  cases hstored.symm.trans hr
  obtain ⟨hnonneg, hratio, -⟩ := h.bidAmounts _ _ hpair hstored
  simp only [hbid, Market.hasQuantity, eq_ok_iff, decide_eq_false_iff_not] at hhas
  obtain ⟨q, hq, hnone⟩ := hhas
  rw [getQuantity_bid _ htype] at hq
  have hne : bid.marketIndex.orderPrice.baseAssetId ≠ bid.marketIndex.orderPrice.quoteAssetId := by
    rw [hpair.1, hpair.2]
    exact hm.ordered.ne
  have hlt := (multiply_toBase hne rfl hnonneg hq).2.1 hratio
  have hone : bid.state.balance * pricePrecision < 1 * bid.marketIndex.orderPrice.ratio :=
    hlt.trans_le (Int.mul_le_mul_of_nonneg_right (by omega) (Int.natCast_nonneg _))
  exact Int.lt_add_one_iff.mp (Int.ediv_lt_of_lt_mul (Int.natCast_pos.mpr hratio) hone)

theorem Walking.nextBid (h : Walking m e) (hm : Setting m) (hnext : m.getNextBid e = .ok e') :
    Walking m e' ∧ (e'.currentBid = none → ∀ k r, m.isPair k.orderPrice →
      Holdings.bids.get (m.pendingState e') k = some r → bidDone k r) := by
  simp only [Market.getNextBid, bind_eq_ok] at hnext
  obtain ⟨has, hhas, hnext⟩ := hnext
  cases has with
  | true =>
    cases hnext
    refine ⟨h, fun hnone => ?_⟩
    rw [hnone] at hhas
    cases hhas
  | false =>
    have hdone := h.bid_behind hm hhas
    have htaken := advanceBid_taken hm hnext
    have hsynced := h.synced.bidTaken htaken
    have hplain := h.toPlain.bidTaken htaken
    cases (advanceBid_plain (by exact h.shorts) (by exact h.relativeBids)).symm.trans hnext
    rcases takenBid_cases m { e with ordersFilled := e.ordersFilled + 1, currentBid := none } with
      ⟨hsame, hhead⟩ | ⟨key, order, rest, hitr, hpair, htaken⟩
    · rw [hsame] at hsynced hplain ⊢
      refine ⟨{ h with
        toPlain := hplain
        synced := hsynced
        isBid := ?_
        bids := h.bids.stop hhead hdone (List.Sublist.refl _) }, fun _ => h.bids.all_done hhead hdone⟩
      intro bid hbid
      cases hbid
    · rw [htaken] at hsynced hplain ⊢
      have hbids := h.bids
      rw [show e.bidItr = (key, order) :: rest from hitr] at hbids
      refine ⟨{ h with
        toPlain := hplain
        synced := hsynced
        isBid := ?_
        bids := hbids.next hdone }, fun hnone => ?_⟩
      · rintro _ ⟨⟩
        rfl
      · cases hnone

theorem Walking.ask_behind (h : Walking m e) (hnone : ¬ ∃ ask ∈ e.currentAsk, 0 < ask.state.balance)
    (k : MarketIndexKey) (hk : k ∈ askKey e) (r : OrderRecord)
    (hr : Holdings.asks.get (m.pendingState e) k = some r) : askDone k r := by
  obtain ⟨ask, hask, rfl⟩ := Option.map_eq_some_iff.mp hk
  obtain ⟨hask, htype⟩ := Option.filter_eq_some_iff.mp hask
  have hstored := (h.synced.currentAsk ask hask).get_ask (of_decide_eq_true htype)
  cases hstored.symm.trans hr
  exact Int.not_lt.mp fun hpos => hnone ⟨ask, hask, hpos⟩

theorem Walking.askTaken (h : Walking m e) (hnone : ¬ ∃ ask ∈ e.currentAsk, 0 < ask.state.balance)
    (htaken : AskTaken m { e with ordersFilled := e.ordersFilled + 1, currentAsk := none } e') :
    Walking m e' ∧ e'.currentBid = e.currentBid ∧
      (e'.currentAsk = none → ∀ k r, m.isPair k.orderPrice →
        Holdings.asks.get (m.pendingState e') k = some r → askDone k r) := by
  have hdone := h.ask_behind hnone
  have hsynced := h.synced.askTaken htaken
  have hplain := h.toPlain.askTaken htaken
  cases htaken with
  | @called key r rest bid itr pair above =>
    have hitr : e.collateralItr = (key, r) :: rest := itr
    exact absurd pair (h.called (key, r) (by rw [hitr]; exact List.mem_cons_self))
  | expired =>
    refine ⟨{ h with toPlain := hplain, synced := hsynced, asks := h.asks.leave hdone }, rfl, ?_⟩
    intro hask
    cases hask
  | @ask itr expirations key order rest called passed asks pair =>
    have hasks := h.asks
    rw [show e.askItr = (key, order) :: rest from asks] at hasks
    refine ⟨{ h with toPlain := hplain, synced := hsynced, asks := hasks.next hdone }, rfl, ?_⟩
    intro hask
    cases hask
  | none called passed left beyond =>
    exact ⟨{ h with toPlain := hplain, synced := hsynced, asks := h.asks.stop beyond hdone left }, rfl,
      fun _ => h.asks.all_done beyond hdone⟩

theorem Walking.nextAsk (h : Walking m e) (hm : Setting m) (hnext : m.getNextAsk e = .ok e') :
    Walking m e' ∧ e'.currentBid = e.currentBid ∧
      (e'.currentAsk = none → ∀ k r, m.isPair k.orderPrice →
        Holdings.asks.get (m.pendingState e') k = some r → askDone k r) := by
  unfold Market.getNextAsk at hnext
  split at hnext
  next hhas =>
    cases hnext
    refine ⟨h, rfl, fun hnone => ?_⟩
    obtain ⟨ask, hask, -⟩ := hhas
    rw [hnone] at hask
    cases hask
  next hhas => exact h.askTaken hhas (advanceAsk_taken hm rfl hnext)

structure Crossed (m : Market) (e : EngineState) (bid ask : MarketOrder) (t : MarketTransaction)
    (e' : EngineState) : Prop where
  fill : Filled m.prior t
  bidRest : 0 ≤ bidRest bid t
  askRest : 0 ≤ askRest ask t
  left : ∃ volume opening closing, e' = collectFees (withStatistics
    (afterAsk m (afterBid m e bid t) ask t false) (e.marketTransactions ++ [t]) volume opening
      closing) t

theorem Walking.crossed (h : Walking m e) (hm : Setting m) (hbid : e.currentBid = some bid)
    (hask : e.currentAsk = some ask) (haskType : ask.type = .askOrder)
    (hcross : ¬ Price.lt bid.marketIndex.orderPrice ask.marketIndex.orderPrice)
    (hrecord : recordTrade m e bid ask (crossing bid ask) = .ok e') :
    ∃ t, Crossed m e bid ask t e' := by
  obtain ⟨hbidType, hbidPair, hbidStored, -⟩ := h.bidStored hbid
  obtain ⟨haskPair, haskStored, -⟩ := (h.synced.currentAsk ask hask).of_ask haskType
  obtain ⟨hbidNonneg, hratio, hbidBook⟩ := h.bidAmounts _ _ hbidPair hbidStored
  obtain ⟨haskNonneg, haskBook⟩ := h.askAmounts _ _ haskPair haskStored
  have hjudge : judge m e bid ask = .ok (.trade (crossing bid ask)) := by
    rw [judge_plain hbidType haskType, if_neg hcross]
  have hkind : trade m e bid ask (crossing bid ask) = tradeAskBid m e bid ask (crossing bid ask) := by
    unfold trade MarketMatch.isBid
    simp only [hbidType, haskType, reduceCtorEq, and_true, and_false, or_false, if_true, if_false]
  simp only [recordTrade, hkind, Market.pushMarketTransaction, eq_ok_iff] at hrecord
  obtain ⟨⟨d, t⟩, htrade, pushed, ⟨-, -, rfl⟩, volume, -, rfl⟩ := hrecord
  simp only [tradeAskBid, eq_ok_iff, Prod.mk.injEq] at htrade
  obtain ⟨bidQuantity, hbidQ, askQuantity, haskQ, received, hreceived, bidPays, hpays, bidBalance,
    hbidB, askBalance, haskB, fees, -, d, hd, d', hd', rfl, rfl⟩ := htrade
  have hfill := bidFill hm hbidType hbidPair haskType haskPair hjudge hbidNonneg haskNonneg hbidQ
    haskQ hreceived hpays hbidB haskB
  obtain ⟨-, hbidRest, rfl⟩ := payCurrentBid_ok hm.current h.synced.quoteFees hd
  have hpaid (t : MarketTransaction) : Synced m (afterBid m e bid t) :=
    h.synced.afterBid (h.synced.currentBid bid hbid) (Or.inl hbidType)
  obtain ⟨-, haskRest, rfl⟩ := payCurrentAsk_ok hm.current (hpaid _).quoteFees (hpaid _).baseFees hd'
  refine ⟨_, ⟨⟨hbidBook, haskBook, ?_, ?_⟩, hbidRest, haskRest, volume, _, _, rfl⟩⟩
  · have hlt := (multiply_toQuote (hfill.isBase.trans haskPair.2.symm) hfill.nonneg hreceived).2.1
    rw [hfill.askPays]
    exact Int.lt_add_one_iff.mp (Int.ediv_lt_of_lt_mul (by decide) hlt)
  · exact hfill.limit hratio

theorem collectFees_fields (e : EngineState) (t : MarketTransaction) :
    ∃ quoteAsset baseAsset, collectFees e t = { e with quoteAsset, baseAsset } := by
  unfold collectFees
  split
  · exact ⟨_, _, rfl⟩
  · split <;> exact ⟨_, _, rfl⟩

theorem crossed_views (hbid : bid.type = .bidOrder) (hask : ask.type = .askOrder)
    (t : MarketTransaction) :
    Holdings.bids.get (m.pendingState (afterAsk m (afterBid m e bid t) ask t false)) =
        Function.update (Holdings.bids.get (m.pendingState e)) bid.marketIndex
          (some (withBalance bid (bidRest bid t - bidDust bid t)).state) ∧
      Holdings.asks.get (m.pendingState (afterAsk m (afterBid m e bid t) ask t false)) =
        Function.update (Holdings.asks.get (m.pendingState e)) ask.marketIndex
          (some (withBalance ask (askRest ask t - askDust ask t)).state) := by
  have hisBid : isBid bid.type := Or.inl hbid
  have hbidLayer := afterBid_layer m e t hisBid
  have haskLayer := afterAsk_layer m (afterBid m e bid t) t false hask
  dsimp only at hbidLayer
  rw [hbid] at hbidLayer
  refine ⟨Shelf.get_store _ _ ?_, Shelf.get_store _ _ ?_⟩
  · change (afterAsk m (afterBid m e bid t) ask t false).layer.bids = _
    rw [haskLayer]
    change (afterBid m e bid t).layer.bids = _
    rw [hbidLayer]
    rfl
  · change (afterAsk m (afterBid m e bid t) ask t false).layer.asks = _
    rw [haskLayer]
    change (afterBid m e bid t).layer.asks.insert _ _ = _
    rw [hbidLayer]
    rfl

omit [Fc] in
theorem rest_nonneg {rest id : Int} {price : Price} (h : 0 ≤ rest) :
    0 ≤ rest - dust ⟨rest, id⟩ price := by
  rcases dust_cases ⟨rest, id⟩ price with hzero | hall
  · omega
  · rw [hall]
    dsimp only
    omega

theorem judge_cover {v : Verdict} (hbid : bid.type = .bidOrder) (hask : ask.type = .coverOrder)
    (h : judge m e bid ask = .ok v) : v = .skipAsk ∨ ∃ t, v = .trade t := by
  rw [judge_bid (t := crossing bid ask) hbid (by rw [hask]; decide)
    (orderPrice_plain (Or.inl hbid)) (orderPrice_plain (Or.inr (Or.inr hask))) rfl] at h
  unfold judgeAsk at h
  rw [if_pos hask] at h
  simp only [bind_eq_ok] at h
  obtain ⟨-, -, h⟩ := h
  split at h
  · cases h
    exact Or.inl rfl
  · split at h
    · cases h
      exact Or.inl rfl
    · cases h
      exact Or.inr ⟨_, rfl⟩

/-- A cover of another market is put aside, and leaves the book as it is. -/
theorem Walking.cover_passed (h : Walking m e) (hm : Setting m) (hbid : e.currentBid = some bid)
    (hask : e.currentAsk = some ask) (hcover : ask.type = .coverOrder)
    (hpass : matchPair m e bid ask = .ok (some e')) : Walking m e' := by
  rcases h.toPlain.cover_dropped hm h.synced hbid hcover hpass with ⟨hjudge, -⟩ | ⟨-, rfl⟩
  · rcases judge_cover (h.isBid bid hbid) hcover hjudge with hskip | ⟨t, htrade⟩
    · cases hskip
    · cases htrade
  · have hasks := h.asks
    rw [askKey_cover hask hcover] at hasks
    exact { h with toPlain := { h.toPlain with }, synced := h.synced.askDropped, asks := hasks }

/-- A bid and an ask that pass as a pair are crossed, and they have been traded. -/
theorem matchPair_crossed (hbid : bid.type = .bidOrder) (hask : ask.type = .askOrder)
    (h : matchPair m e bid ask = .ok (some e')) :
    ¬ Price.lt bid.marketIndex.orderPrice ask.marketIndex.orderPrice ∧
      recordTrade m e bid ask (crossing bid ask) = .ok e' := by
  rcases MarketWrites.matchPair_ok h with ⟨t, ht, hrecord⟩ | ⟨ht, -⟩ | ⟨ht, -⟩ <;>
    rw [judge_plain hbid hask] at ht <;> split at ht <;> cases ht
  next hcross => exact ⟨hcross, hrecord⟩

theorem Walking.ask_passed (h : Walking m e) (hm : Setting m) (hbid : e.currentBid = some bid)
    (hask : e.currentAsk = some ask) (haskType : ask.type = .askOrder)
    (hpass : matchPair m e bid ask = .ok (some e')) : Walking m e' := by
  obtain ⟨hbidType, hbidPair, hbidStored, -⟩ := h.bidStored hbid
  obtain ⟨haskPair, haskStored, -⟩ := (h.synced.currentAsk ask hask).of_ask haskType
  have hsynced := (matchPair_passed ⟨hm, h.synced, hbid, hask, haskPair⟩ hpass).synced hm h.synced
  obtain ⟨hcross, hrecord⟩ := matchPair_crossed hbidType haskType hpass
  obtain ⟨t, hfill, hbidRest, haskRest, volume, opening, closing, rfl⟩ :=
    h.crossed hm hbid hask haskType hcross hrecord
  obtain ⟨hbids, hasks⟩ := crossed_views (m := m) (e := e) hbidType haskType t
  obtain ⟨quoteAsset, baseAsset, hfees⟩ := collectFees_fields (withStatistics
    (afterAsk m (afterBid m e bid t) ask t false) (e.marketTransactions ++ [t]) volume opening
      closing) t
  rw [hfees] at hsynced ⊢
  have hbidWalk := h.bids
  have haskWalk := h.asks
  rw [hbid] at hbidWalk
  rw [askKey_ask hask haskType] at haskWalk
  refine { h with
    toPlain := ⟨h.shorts, h.called, h.record, ?_⟩
    synced := hsynced
    isBid := ?_
    bids := ?_
    asks := ?_
    bidAmounts := fun k r hk hr => ?_
    askAmounts := fun k r hk hr => ?_
    fills := ?_ }
  · rintro _ ⟨⟩
    exact Or.inl hbidType
  · rintro _ ⟨⟩
    exact hbidType
  · change Walk (Holdings.bids.get
      (m.pendingState (afterAsk m (afterBid m e bid t) ask t false))) _ _ _ _ _
    rw [hbids]
    exact hbidWalk.update _
  · have hnext : (withBalance ask (askRest ask t - askDust ask t)).type = .askOrder := haskType
    rw [askKey_ask rfl hnext]
    change Walk (Holdings.asks.get
      (m.pendingState (afterAsk m (afterBid m e bid t) ask t false))) _ _ _ _ _
    rw [hasks]
    exact haskWalk.update _
  · exact amounts_update h.bidAmounts (h.bidAmounts _ _ hbidPair hbidStored).2
      (rest_nonneg hbidRest) k r hk ((congrFun hbids k).symm.trans hr)
  · exact amounts_update h.askAmounts (h.askAmounts _ _ haskPair haskStored).2
      (rest_nonneg haskRest) k r hk ((congrFun hasks k).symm.trans hr)
  · intro u hu
    rcases List.mem_append.mp hu with hu | hu
    · exact h.fills u hu
    · rw [List.mem_singleton.mp hu]
      exact hfill

theorem Walking.pass (h : Walking m e) (hm : Setting m) (hbid : e.currentBid = some bid)
    (hask : e.currentAsk = some ask) (hpass : matchPair m e bid ask = .ok (some e')) :
    Walking m e' := by
  rcases (h.synced.currentAsk ask hask).is_ask with htype | htype
  · exact h.ask_passed hm hbid hask htype hpass
  · exact h.cover_passed hm hbid hask htype hpass

end Model

end Bts.Blockchain.UncrossedBooks
