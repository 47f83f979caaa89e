import Bts.Base.Cursors
import Bts.Blockchain.MarketTrades

namespace Bts.Blockchain.MarketSync

open Base Word Cursors Amounts MarketRecords Transactions MarketEngine MarketMatch MarketLoop
  MarketRuns MarketEffects MarketTrades Holdings

/-- A short that sells nothing is put aside as a whole, or not at all. -/
def WholeOrNothing (bid : MarketOrder) (mtrx : MarketTransaction) : Prop :=
  mtrx.bidPaid.amount = 0 → ∀ collateral ∈ mtrx.shortCollateral,
    collateral.amount = 0 ∨ collateral.amount = bid.state.balance

theorem wholeOrNothing {bid : MarketOrder} {t : MarketTransaction} {feed : Price}
    {exchanged paid collateral : Asset} (hbid : bid.type = .shortOrder)
    (hstake : shortStake feed bid exchanged = .ok collateral) :
    WholeOrNothing bid (filled t exchanged paid (some collateral)) := by
  rintro hzero _ ⟨⟩
  exact shortStake_zero hbid hstake hzero

theorem noSale_rest {bid : MarketOrder} {collateral sc : Asset} {precision : Nat}
    (hfits : Fits bid.state.balance)
    (hwhole : collateral.amount = 0 ∨ collateral.amount = bid.state.balance)
    (hround : Market.roundCollateral { amount := bid.state.balance
                                       assetId := bid.marketIndex.orderPrice.baseAssetId }
      collateral precision = .ok sc) :
    int64 (bid.state.balance - sc.amount) = 0 ∨
      int64 (bid.state.balance - sc.amount) = bid.state.balance := by
  obtain ⟨-, -, hsame | ⟨hall, -⟩⟩ := roundCollateral_ok hround
  · rw [hsame]
    rcases hwhole with hzero | hall
    · rw [hzero, Int.sub_zero]
      exact Or.inr (int64_of_fits hfits)
    · rw [hall, Int.sub_self]
      exact Or.inl rfl
  · rw [hall, int64_of_fits hfits, Int.sub_self]
    exact Or.inl rfl

variable [Fc]

/-- The bid at hand is stored as it is, and will not be visited again. A short that has
sold nothing is not stored, but then it has nothing left. -/
inductive BidStored (m : Market) (e : EngineState) (o : MarketOrder) : Prop
  | bid (type : o.type = .bidOrder) (pair : m.isPair o.marketIndex.orderPrice)
    (stored : bids.get (m.pendingState e) o.marketIndex = some o.state)
    (visited : o.marketIndex ∉ e.bidItr.map Prod.fst)
  | relativeBid (type : o.type = .relativeBidOrder) (pair : m.isPair o.marketIndex.orderPrice)
    (stored : relativeBids.get (m.pendingState e) o.marketIndex = some o.state)
    (visited : o.marketIndex ∉ e.relativeBidItr.map Prod.fst)
  | short (type : o.type = .shortOrder) (pair : m.isPair o.marketIndex.orderPrice)
    (stored : o.state.balance = 0 ∨ shorts.get (m.pendingState e) o.marketIndex = some o.state)
    (visited : o.marketIndex ∉ e.shortItr.map Prod.fst)

inductive AskStored (m : Market) (e : EngineState) (o : MarketOrder) : Prop
  | ask (type : o.type = .askOrder) (pair : m.isPair o.marketIndex.orderPrice)
    (stored : asks.get (m.pendingState e) o.marketIndex = some o.state)
    (visited : o.marketIndex ∉ e.askItr.map Prod.fst)
  | cover (type : o.type = .coverOrder)

/-- The engine reads the orders of the market as the layers have them. -/
structure Synced (m : Market) (e : EngineState) : Prop where
  bids : InStep (bids.get (m.pendingState e)) (fun k => m.isPair k.orderPrice) e.bidItr
  relativeBids : InStep (relativeBids.get (m.pendingState e)) (fun k => m.isPair k.orderPrice)
    e.relativeBidItr
  asks : InStep (asks.get (m.pendingState e)) (fun k => m.isPair k.orderPrice) e.askItr
  shorts : InStep (shorts.get (m.pendingState e)) (fun k => m.isPair k.orderPrice) e.shortItr
  shortsFit : ∀ k r, Holdings.shorts.get (m.pendingState e) k = some r → Fits r.balance
  currentBid : ∀ bid ∈ e.currentBid, BidStored m e bid
  currentAsk : ∀ ask ∈ e.currentAsk, AskStored m e ask
  quoteFees : Fits e.quoteAsset.collectedFees
  baseFees : Fits e.baseAsset.collectedFees
  quoteId : e.quoteAsset.id = m.quoteId
  baseId : e.baseAsset.id = m.baseId

variable {m : Market} {e e' : EngineState} {bid ask : MarketOrder}
  {mtrx mtrx' : MarketTransaction}

theorem inStep_stored {K V : Type} [DecidableEq K] {s : Shelf K V}
    {l n : Pending.PendingState} {prev : Layers.ChainInterface} {P : K → Prop} {itr : List (K × V)} {k : K} {v : V}
    (h : InStep (s.get (.pending l prev)) P itr) (hk : k ∉ itr.map Prod.fst)
    (hown : s.own n = (s.own l).insert k v) :
    InStep (s.get (.pending n prev)) P itr ∧ s.get (.pending n prev) k = some v := by
  rw [s.get_store prev hown]
  exact ⟨h.update hk _, Function.update_self ..⟩

theorem AskStored.of_asks (h : AskStored m e ask)
    (hasks : Holdings.asks.get (m.pendingState e') = Holdings.asks.get (m.pendingState e))
    (hitr : e'.askItr = e.askItr) : AskStored m e' ask := by
  cases h with
  | ask type pair stored visited =>
    refine .ask type pair ?_ ?_
    · rw [hasks]
      exact stored
    · rw [hitr]
      exact visited
  | cover type => exact .cover type

theorem BidStored.type_pair (h : BidStored m e bid) :
    (isBid bid.type ∨ bid.type = .shortOrder) ∧ m.isPair bid.marketIndex.orderPrice := by
  cases h with
  | bid type pair => exact ⟨Or.inl (Or.inl type), pair⟩
  | relativeBid type pair => exact ⟨Or.inl (Or.inr type), pair⟩
  | short type pair => exact ⟨Or.inr type, pair⟩

theorem AskStored.is_ask (h : AskStored m e ask) :
    ask.type = .askOrder ∨ ask.type = .coverOrder := by
  cases h with
  | ask type => exact Or.inl type
  | cover type => exact Or.inr type

section

variable (h : AskStored m e ask) (htype : ask.type = .askOrder)
include h htype

theorem AskStored.of_ask : m.isPair ask.marketIndex.orderPrice ∧
    Holdings.asks.get (m.pendingState e) ask.marketIndex = some ask.state ∧
    ask.marketIndex ∉ e.askItr.map Prod.fst := by
  cases h with
  | ask type pair stored visited => exact ⟨pair, stored, visited⟩
  | cover type =>
    rw [type] at htype
    cases htype

theorem AskStored.get_ask :
    Holdings.asks.get (m.pendingState e) ask.marketIndex = some ask.state :=
  (h.of_ask htype).2.1

end

theorem Synced.bidTaken (h : Synced m e)
    (ht : BidTaken m { e with ordersFilled := e.ordersFilled + 1, currentBid := none } e') :
    Synced m e' := by
  cases ht with
  | none =>
    refine { h with
      currentBid := ?_
      currentAsk := fun a ha => (h.currentAsk a ha).of_asks rfl rfl }
    intro b hb
    cases hb
  | bid itr pair =>
    obtain ⟨hrest, hstored, hvisited⟩ := h.bids.taken itr pair
    refine { h with
      bids := hrest
      currentBid := ?_
      currentAsk := fun a ha => (h.currentAsk a ha).of_asks rfl rfl }
    rintro _ ⟨⟩
    exact .bid rfl pair hstored hvisited
  | relativeBid itr pair =>
    obtain ⟨hrest, hstored, hvisited⟩ := h.relativeBids.taken itr pair
    refine { h with
      relativeBids := hrest
      currentBid := ?_
      currentAsk := fun a ha => (h.currentAsk a ha).of_asks rfl rfl }
    rintro _ ⟨⟩
    exact .relativeBid rfl pair hstored hvisited
  | short itr pair =>
    obtain ⟨hrest, hstored, hvisited⟩ := h.shorts.taken itr pair
    refine { h with
      shorts := hrest
      currentBid := ?_
      currentAsk := fun a ha => (h.currentAsk a ha).of_asks rfl rfl }
    rintro _ ⟨⟩
    exact .short rfl pair (Or.inr hstored) hvisited

theorem BidStored.of_bids (h : BidStored m e bid)
    (hbids : Holdings.bids.get (m.pendingState e') = Holdings.bids.get (m.pendingState e))
    (hrelative : Holdings.relativeBids.get (m.pendingState e') =
      Holdings.relativeBids.get (m.pendingState e))
    (hshorts : Holdings.shorts.get (m.pendingState e') = Holdings.shorts.get (m.pendingState e))
    (hcursors : e'.bidItr = e.bidItr ∧ e'.relativeBidItr = e.relativeBidItr ∧
      e'.shortItr = e.shortItr) : BidStored m e' bid := by
  obtain ⟨hbidItr, hrelativeItr, hshortItr⟩ := hcursors
  cases h with
  | bid type pair stored visited =>
    refine .bid type pair ?_ ?_
    · rw [hbids]
      exact stored
    · rw [hbidItr]
      exact visited
  | relativeBid type pair stored visited =>
    refine .relativeBid type pair ?_ ?_
    · rw [hrelative]
      exact stored
    · rw [hrelativeItr]
      exact visited
  | short type pair stored visited =>
    refine .short type pair ?_ ?_
    · rw [hshorts]
      exact stored
    · rw [hshortItr]
      exact visited

section

variable (h : Synced m e)
include h

theorem Synced.askTaken
    (ht : AskTaken m { e with ordersFilled := e.ordersFilled + 1, currentAsk := none } e') :
    Synced m e' := by
  cases ht with
  | called =>
    refine { h with
      currentBid := fun b hb => (h.currentBid b hb).of_bids rfl rfl rfl ⟨rfl, rfl, rfl⟩
      currentAsk := ?_ }
    rintro _ ⟨⟩
    exact .cover rfl
  | expired =>
    refine { h with
      currentBid := fun b hb => (h.currentBid b hb).of_bids rfl rfl rfl ⟨rfl, rfl, rfl⟩
      currentAsk := ?_ }
    rintro _ ⟨⟩
    exact .cover rfl
  | ask called passed asks pair =>
    obtain ⟨hrest, hstored, hvisited⟩ := h.asks.taken asks pair
    refine { h with
      asks := hrest
      currentBid := fun b hb => (h.currentBid b hb).of_bids rfl rfl rfl ⟨rfl, rfl, rfl⟩
      currentAsk := ?_ }
    rintro _ ⟨⟩
    exact .ask rfl pair hstored hvisited
  | none called passed left =>
    refine { h with
      asks := h.asks.sublist left
      currentBid := fun b hb => (h.currentBid b hb).of_bids rfl rfl rfl ⟨rfl, rfl, rfl⟩
      currentAsk := ?_ }
    intro a ha
    cases ha

theorem Synced.bidDropped : Synced m { e with currentBid := none } := by
  refine { h with
    currentBid := ?_
    currentAsk := fun a ha => (h.currentAsk a ha).of_asks rfl rfl }
  intro b hb
  cases hb

theorem Synced.askDropped : Synced m { e with currentAsk := none } := by
  refine { h with
    currentBid := fun b hb => (h.currentBid b hb).of_bids rfl rfl rfl ⟨rfl, rfl, rfl⟩
    currentAsk := ?_ }
  intro a ha
  cases ha

theorem Synced.frame {d : EngineState} (hcursors : SameCursors e d)
    (hbids : d.layer.bids = e.layer.bids) (hrelative : d.layer.relativeBids = e.layer.relativeBids)
    (hasks : d.layer.asks = e.layer.asks) (hshorts : d.layer.shorts = e.layer.shorts)
    (hbid : d.currentBid = e.currentBid) (hask : d.currentAsk = e.currentAsk)
    (hquote : Fits d.quoteAsset.collectedFees ∧ d.quoteAsset.id = m.quoteId)
    (hbase : Fits d.baseAsset.collectedFees ∧ d.baseAsset.id = m.baseId) : Synced m d := by
  have hbids' := Shelf.get_congr Holdings.bids m.prior hbids
  have hrelative' := Shelf.get_congr Holdings.relativeBids m.prior hrelative
  have hasks' := Shelf.get_congr Holdings.asks m.prior hasks
  have hshorts' := Shelf.get_congr Holdings.shorts m.prior hshorts
  refine ⟨?_, ?_, ?_, ?_, ?_, fun b hb => ?_, fun a ha => ?_, hquote.1, hbase.1, hquote.2,
    hbase.2⟩
  · rw [Market.pendingState, hbids', hcursors.bids]
    exact h.bids
  · rw [Market.pendingState, hrelative', hcursors.relativeBids]
    exact h.relativeBids
  · rw [Market.pendingState, hasks', hcursors.asks]
    exact h.asks
  · rw [Market.pendingState, hshorts', hcursors.shorts]
    exact h.shorts
  · rw [Market.pendingState, hshorts']
    exact h.shortsFit
  · rw [hbid] at hb
    exact (h.currentBid b hb).of_bids hbids' hrelative' hshorts'
      ⟨hcursors.bids, hcursors.relativeBids, hcursors.shorts⟩
  · rw [hask] at ha
    exact (h.currentAsk a ha).of_asks hasks' hcursors.asks

theorem Synced.storeBid (bid : MarketOrder) (htype : bid.type = .bidOrder)
    (hpair : m.isPair bid.marketIndex.orderPrice)
    (hvisited : bid.marketIndex ∉ e.bidItr.map Prod.fst) :
    Synced m { e with
      layer := e.layer.storeBidRecord bid.marketIndex bid.state, currentBid := some bid } := by
  obtain ⟨hstep, hget⟩ := inStep_stored
    (n := e.layer.storeBidRecord bid.marketIndex bid.state) h.bids hvisited rfl
  refine { h with
    bids := hstep
    currentBid := ?_
    currentAsk := fun a ha => (h.currentAsk a ha).of_asks rfl rfl }
  rintro _ ⟨⟩
  exact .bid htype hpair hget hvisited

theorem Synced.storeRelativeBid (bid : MarketOrder)
    (htype : bid.type = .relativeBidOrder)
    (hpair : m.isPair bid.marketIndex.orderPrice)
    (hvisited : bid.marketIndex ∉ e.relativeBidItr.map Prod.fst) :
    Synced m { e with
      layer := e.layer.storeRelativeBidRecord bid.marketIndex bid.state, currentBid := some bid } := by
  obtain ⟨hstep, hget⟩ := inStep_stored
    (n := e.layer.storeRelativeBidRecord bid.marketIndex bid.state) h.relativeBids hvisited rfl
  refine { h with
    relativeBids := hstep
    currentBid := ?_
    currentAsk := fun a ha => (h.currentAsk a ha).of_asks rfl rfl }
  rintro _ ⟨⟩
  exact .relativeBid htype hpair hget hvisited

theorem Synced.storeShort (bid : MarketOrder) (htype : bid.type = .shortOrder)
    (hpair : m.isPair bid.marketIndex.orderPrice)
    (hvisited : bid.marketIndex ∉ e.shortItr.map Prod.fst) (hfits : Fits bid.state.balance) :
    Synced m { e with
      layer := e.layer.storeShortRecord bid.marketIndex bid.state, currentBid := some bid } := by
  obtain ⟨hstep, hget⟩ := inStep_stored
    (n := e.layer.storeShortRecord bid.marketIndex bid.state) h.shorts hvisited rfl
  refine { h with
    shorts := hstep
    shortsFit := Shelf.All.store (s := Holdings.shorts) h.shortsFit rfl hfits
    currentBid := ?_
    currentAsk := fun a ha => (h.currentAsk a ha).of_asks rfl rfl }
  rintro _ ⟨⟩
  exact .short htype hpair (Or.inr hget) hvisited

theorem Synced.storeAsk (ask : MarketOrder) (htype : ask.type = .askOrder)
    (hpair : m.isPair ask.marketIndex.orderPrice)
    (hvisited : ask.marketIndex ∉ e.askItr.map Prod.fst) :
    Synced m { e with
      layer := e.layer.storeAskRecord ask.marketIndex ask.state, currentAsk := some ask } := by
  obtain ⟨hstep, hget⟩ := inStep_stored
    (n := e.layer.storeAskRecord ask.marketIndex ask.state) h.asks hvisited rfl
  refine { h with
    asks := hstep
    currentBid := fun b hb => (h.currentBid b hb).of_bids rfl rfl rfl ⟨rfl, rfl, rfl⟩
    currentAsk := ?_ }
  rintro _ ⟨⟩
  exact .ask htype hpair hget hvisited

theorem Synced.collect (amount : Int) :
    (Fits (MarketEffects.collect e.quoteAsset amount).collectedFees ∧
      (MarketEffects.collect e.quoteAsset amount).id = m.quoteId) ∧
    Fits (MarketEffects.collect e.baseAsset amount).collectedFees ∧
      (MarketEffects.collect e.baseAsset amount).id = m.baseId :=
  ⟨⟨int64_fits _, h.quoteId⟩, int64_fits _, h.baseId⟩

theorem Synced.afterBid (hbid : BidStored m e bid) (htype : isBid bid.type) :
    Synced m (afterBid m e bid mtrx) := by
  have hpaid : Synced m { m.payOut e mtrx.bidOwner m.baseId mtrx.bidReceived.amount with
      quoteAsset := MarketEffects.collect e.quoteAsset (bidDust bid mtrx) } :=
    h.frame ⟨rfl, rfl, rfl, rfl, rfl, rfl, rfl⟩ rfl rfl rfl rfl rfl rfl (h.collect _).1
      ⟨h.baseFees, h.baseId⟩
  unfold MarketEffects.afterBid Market.storeOrder withBalance
  cases hbid with
  | bid type pair stored visited =>
    have hstored := hpaid.storeBid (withBalance bid (bidRest bid mtrx - bidDust bid mtrx))
      type pair visited
    rw [type]
    rw [withBalance, type] at hstored
    exact hstored
  | relativeBid type pair stored visited =>
    have hstored := hpaid.storeRelativeBid
      (withBalance bid (bidRest bid mtrx - bidDust bid mtrx)) type pair visited
    rw [type]
    rw [withBalance, type] at hstored
    exact hstored
  | short type => rcases htype with htype | htype <;> rw [type] at htype <;> cases htype

theorem Synced.afterAsk {toQuote : Bool} (hask : AskStored m e ask)
    (htype : ask.type = .askOrder) : Synced m (afterAsk m e ask mtrx toQuote) := by
  have hpaid : Synced m { m.payOut e mtrx.askOwner m.quoteId mtrx.askReceived.amount with
      quoteAsset := if toQuote then MarketEffects.collect e.quoteAsset (askDust ask mtrx)
        else e.quoteAsset
      baseAsset := if toQuote then e.baseAsset
        else MarketEffects.collect e.baseAsset (askDust ask mtrx) } := by
    refine h.frame ⟨rfl, rfl, rfl, rfl, rfl, rfl, rfl⟩ rfl rfl rfl rfl rfl rfl ?_ ?_
    · cases toQuote
      · exact ⟨h.quoteFees, h.quoteId⟩
      · exact (h.collect _).1
    · cases toQuote
      · exact (h.collect _).2
      · exact ⟨h.baseFees, h.baseId⟩
  unfold MarketEffects.afterAsk Market.storeOrder withBalance
  cases hask with
  | ask type pair stored visited =>
    have hstored := hpaid.storeAsk (withBalance ask (askRest ask mtrx - askDust ask mtrx))
      type pair visited
    rw [type]
    rw [withBalance, type] at hstored
    exact hstored
  | cover type =>
    rw [type] at htype
    cases htype

theorem Synced.payCurrentBid (hm : Setting m) (hbid : e.currentBid = some bid)
    (hpay : m.payCurrentBid e bid mtrx = .ok e') :
    Synced m e' ∧ e'.currentAsk = e.currentAsk := by
  obtain ⟨htype, -, rfl⟩ := payCurrentBid_ok hm.current h.quoteFees hpay
  exact ⟨h.afterBid (h.currentBid bid hbid) htype, rfl⟩

theorem Synced.payCurrentAsk {toQuote : Bool} (hm : Setting m)
    (hask : e.currentAsk = some ask) (hpay : m.payCurrentAsk e ask mtrx toQuote = .ok e') :
    Synced m e' := by
  obtain ⟨htype, -, rfl⟩ := payCurrentAsk_ok hm.current h.quoteFees h.baseFees hpay
  have hstored := h.currentAsk ask hask
  refine h.afterAsk hstored ?_
  cases hstored with
  | ask type => exact type
  | cover type => rcases htype with htype | htype <;> rw [type] at htype <;> cases htype

theorem Synced.payCurrentShort (hbid : e.currentBid = some bid)
    (hwhole : WholeOrNothing bid mtrx) (hpay : m.payCurrentShort e bid mtrx = .ok (e', mtrx')) :
    Synced m e' ∧ e'.currentAsk = e.currentAsk ∧
      e'.currentCollatRecord = e.currentCollatRecord := by
  obtain ⟨htype, collateral, sc, hcollateral, hround, -, hcases⟩ := payCurrentShort_ok hpay
  have hstored := h.currentBid bid hbid
  cases hstored with
  | bid type | relativeBid type =>
    rw [type] at htype
    cases htype
  | short type pair stored visited =>
    rcases hcases with ⟨hzero, rfl⟩ | ⟨-, -, key, total, -, -, -, -, -, rfl⟩
    · refine ⟨{ h with
        quoteFees := h.quoteFees
        quoteId := h.quoteId
        currentBid := ?_
        currentAsk := fun a ha => (h.currentAsk a ha).of_asks rfl rfl }, rfl, rfl⟩
      rintro _ ⟨⟩
      refine .short type pair ?_ visited
      have hfits : Fits bid.state.balance := by
        rcases stored with hnone | hsome
        · rw [hnone]
          decide
        · exact h.shortsFit _ _ hsome
      rcases noSale_rest hfits (hwhole hzero collateral hcollateral) hround with hnone | hsame
      · exact Or.inl hnone
      · rcases stored with hnone | hsome
        · exact Or.inl (hsame.trans hnone)
        · rw [hsame]
          exact Or.inr hsome
    · have hopened : Synced m { e with
          quoteAsset := issue e.quoteAsset mtrx.bidPaid.amount
          layer := e.layer.storeCollateralRecord key
            (openedCover m e bid key total.amount mtrx.bidPaid.amount) } :=
        h.frame ⟨rfl, rfl, rfl, rfl, rfl, rfl, rfl⟩ rfl rfl rfl rfl rfl rfl
          ⟨h.quoteFees, h.quoteId⟩ ⟨h.baseFees, h.baseId⟩
      refine ⟨?_, rfl, rfl⟩
      exact hopened.storeShort (withBalance bid (int64 (bid.state.balance - sc.amount)))
        type pair visited (int64_fits _)

theorem Synced.settleCover {collateral owed : Int} (htype : ask.type = .coverOrder) :
    Synced m (settleCover e ask collateral owed) := by
  refine { h with
    currentBid := fun b hb => (h.currentBid b hb).of_bids rfl rfl rfl ⟨rfl, rfl, rfl⟩
    currentAsk := ?_ }
  rintro _ ⟨⟩
  exact .cover htype

theorem Synced.payCurrentCover (hpay : m.payCurrentCover e ask mtrx = .ok (e', mtrx')) :
    Synced m e' := by
  obtain ⟨htype, expiration, debt, payment, old, -, -, -, -, -, -, -, -, hcases⟩ :=
    payCurrentCover_ok hpay
  have hredeemed : Synced m { e with
      quoteAsset := redeem e.quoteAsset payment (unpaid (coverRest old mtrx) payment) } :=
    h.frame ⟨rfl, rfl, rfl, rfl, rfl, rfl, rfl⟩ rfl rfl rfl rfl rfl rfl
      ⟨int64_fits _, h.quoteId⟩ ⟨h.baseFees, h.baseId⟩
  rcases hcases with ⟨-, rfl, -⟩ | ⟨-, -, charged, returned, -, rfl, -⟩
  · exact hredeemed.settleCover htype
  · have hpaid : Synced m (m.payOut { e with
        quoteAsset := redeem e.quoteAsset payment (unpaid (coverRest old mtrx) payment) }
        ask.getOwner m.baseId returned) :=
      hredeemed.frame ⟨rfl, rfl, rfl, rfl, rfl, rfl, rfl⟩ rfl rfl rfl rfl rfl rfl
        ⟨hredeemed.quoteFees, h.quoteId⟩ ⟨h.baseFees, h.baseId⟩
    exact hpaid.settleCover htype

end

end Bts.Blockchain.MarketSync
