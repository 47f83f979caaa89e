import Bts.Blockchain.PlainBooks
import Bts.Blockchain.QuoteLedger

namespace Bts.Blockchain.SpotLedger

open Base Word Maps MarketRecords Transactions Pending Database Layers MarketEngine MarketMatch
  MarketExecute MarketLoop MarketRuns MarketBooks MarketEffects MarketSync MarketPasses PlainBooks
  MarketLedger QuoteLedger Holdings

section Model

variable [Fc]

/-- The base asset in balances and asks, as the engine has it. -/
def baseOut (m : Market) (e : EngineState) : Int :=
  heldBalances m.baseId (m.pendingState e) + heldAsks m.baseId (m.pendingState e)

structure AskSound (m : Market) (e : EngineState) : Prop where
  balances : Holdings.balances.Nonneg (inBalance m.baseId) (m.pendingState e)
  asks : Holdings.asks.Nonneg (inAsk m.baseId) (m.pendingState e)

variable {m : Market} {e d : EngineState} {bid ask : MarketOrder} {mtrx : MarketTransaction}

section

variable (h : AskSound m e)
include h

theorem AskSound.parts :
    0 ≤ heldBalances m.baseId (m.pendingState e) ∧ 0 ≤ heldAsks m.baseId (m.pendingState e) :=
  ⟨h.balances.held_nonneg, h.asks.held_nonneg⟩

theorem AskSound.frame (hbalances : d.layer.balances = e.layer.balances)
    (hasks : d.layer.asks = e.layer.asks) : AskSound m d ∧ baseOut m d = baseOut m e := by
  obtain ⟨hb, hb'⟩ := h.balances.keep (congrArg Table.rows hbalances)
  obtain ⟨ha, ha'⟩ := h.asks.keep hasks
  refine ⟨⟨hb, ha⟩, ?_⟩
  unfold baseOut heldBalances heldAsks Market.pendingState
  rw [hb', ha']

theorem AskSound.afterBid (mtrx : MarketTransaction) (hapart : AddressesApart)
    (htype : isBid bid.type) (hreceived : 0 ≤ mtrx.bidReceived.amount)
    (hroom : heldBalances m.baseId (m.pendingState e) + mtrx.bidReceived.amount ≤
      9223372036854775807) :
    AskSound m (afterBid m e bid mtrx) ∧
      baseOut m (afterBid m e bid mtrx) = baseOut m e + mtrx.bidReceived.amount := by
  obtain ⟨hb, hb'⟩ := afterBid_balances mtrx htype
    (payOut_credit mtrx.bidOwner hapart h.balances hreceived hroom)
  obtain ⟨ha, ha'⟩ := h.asks.keep (afterBid_asks mtrx htype)
  refine ⟨⟨hb, ha⟩, ?_⟩
  have hsame : heldAsks m.baseId (m.pendingState (MarketEffects.afterBid m e bid mtrx)) =
    heldAsks m.baseId (m.pendingState e) := ha'
  unfold baseOut
  omega

theorem AskSound.afterAsk (mtrx : MarketTransaction) (hapart : AddressesApart)
    (hm : Setting m) (htype : ask.type = .askOrder) (hpair : m.isPair ask.marketIndex.orderPrice)
    (hstored : Holdings.asks.get (m.pendingState e) ask.marketIndex = some ask.state)
    (hrest : 0 ≤ askRest ask mtrx) :
    AskSound m (afterAsk m e ask mtrx false) ∧ baseOut m (afterAsk m e ask mtrx false) =
      baseOut m e - ask.state.balance + (askRest ask mtrx - askDust ask mtrx) := by
  obtain ⟨hdust, hdust'⟩ := askDust_le hrest
  have hweight : ∀ r : OrderRecord, inAsk m.baseId ask.marketIndex r = r.balance :=
    fun _ => if_pos hpair.2
  obtain ⟨hb, hb'⟩ := afterAsk_balances mtrx false htype
    (payOut_other hapart (ne_of_gt hm.ordered) h.balances)
  obtain ⟨ha, ha'⟩ := afterAsk_asks mtrx false htype hstored h.asks (by
    rw [hweight]
    dsimp only [withBalance]
    omega)
  rw [hweight, hweight] at ha'
  refine ⟨⟨hb, ha⟩, ?_⟩
  unfold baseOut
  rw [hb', ha']
  dsimp only [withBalance]
  omega

theorem askBid_base {t : MarketTransaction} {d' e' : EngineState}
    (hdeal : AskBid m e bid ask t mtrx d d') (hbooked : Booked mtrx d' e') (hapart : AddressesApart)
    (hroom : baseOut m e ≤ 9223372036854775807)
    (hroom' : e.baseAsset.collectedFees + baseOut m e ≤ 9223372036854775807) :
    AskSound m e' ∧ e'.baseAsset.currentShareSupply = e.baseAsset.currentShareSupply ∧
      baseOut m e' + e'.baseAsset.collectedFees = baseOut m e + e.baseAsset.collectedFees ∧
      e.baseAsset.collectedFees ≤ e'.baseAsset.collectedFees := by
  obtain ⟨hbalances, hasks⟩ := h.parts
  obtain ⟨-, hpaid, -⟩ := hdeal.checked.nonneg
  obtain ⟨hd, hcurrent⟩ := hdeal.between
  have hasset := hbooked.baseAsset hdeal.after
  rw [hdeal.feesAsset, if_neg (ne_of_gt hdeal.setting.ordered)] at hasset
  have hreceived := hdeal.received
  have hfits := hdeal.synced.baseFees
  unfold Fits at hfits
  obtain ⟨-, -, rfl⟩ := payCurrentBid_ok hdeal.setting.current hdeal.synced.quoteFees hdeal.bidPays
  obtain ⟨-, hrest, rfl⟩ :=
    payCurrentAsk_ok hdeal.setting.current hd.quoteFees hd.baseFees hdeal.askPays
  obtain ⟨hdust, hdust'⟩ := askDust_le hrest
  have hstored := hdeal.askStored.get_ask hdeal.type
  have hnonneg := h.asks _ _ hstored
  have hle := h.asks.le_held hstored
  have hweight : inAsk m.baseId ask.marketIndex ask.state = ask.state.balance := if_pos hdeal.askPair.2
  rw [hweight] at hnonneg hle
  change _ ≤ heldAsks m.baseId (m.pendingState e) at hle
  have hout : heldBalances m.baseId (m.pendingState e) + ask.state.balance ≤ baseOut m e := by
    unfold baseOut
    omega
  have heq : askRest ask mtrx = ask.state.balance - mtrx.askPaid.amount :=
    hdeal.askPayable.rest hnonneg (by omega) hpaid
  obtain ⟨hsound, hheld⟩ := h.afterBid mtrx hapart hdeal.isBid (by omega) (by omega)
  obtain ⟨hsound', hheld'⟩ := hsound.afterAsk mtrx hapart hdeal.setting hdeal.type hdeal.askPair
    ((hd.currentAsk ask hcurrent).get_ask hdeal.type) hrest
  have hfees : (afterAsk m (afterBid m e bid mtrx) ask mtrx false).baseAsset.collectedFees =
      e.baseAsset.collectedFees + askDust ask mtrx := by
    apply int64_of_fits
    change Fits (e.baseAsset.collectedFees + askDust ask mtrx)
    unfold Fits
    omega
  obtain ⟨hsound'', hheld''⟩ := hsound'.frame (d := e') (by rw [hbooked.layer]) (by rw [hbooked.layer])
  refine ⟨hsound'', by rw [hasset]; rfl, ?_, by rw [hasset, hfees]; omega⟩
  rw [hheld'', hheld', hheld, hasset, hfees, hreceived]
  omega

end

/-- The orders in the two assets that are of other markets. -/
structure Others (m : Market) (e : EngineState) : Prop where
  asks : Holdings.asks.Nonneg (inAsk m.quoteId) (m.pendingState e)
  bids : Holdings.bids.Nonneg (inBid m.baseId) (m.pendingState e)
  relativeBids : Holdings.relativeBids.Nonneg (inBid m.baseId) (m.pendingState e)

structure SameOthers (m : Market) (e d : EngineState) : Prop where
  asks : heldAsks m.quoteId (m.pendingState d) = heldAsks m.quoteId (m.pendingState e)
  bids : heldBids m.baseId (m.pendingState d) = heldBids m.baseId (m.pendingState e)

theorem SameOthers.trans {d' : EngineState} (h : SameOthers m e d) (h' : SameOthers m d d') :
    SameOthers m e d' := ⟨h'.asks.trans h.asks, h'.bids.trans h.bids⟩

theorem Others.frame (h : Others m e) (hasks : d.layer.asks = e.layer.asks)
    (hbids : d.layer.bids = e.layer.bids) (hrelative : d.layer.relativeBids = e.layer.relativeBids) :
    Others m d ∧ SameOthers m e d := by
  obtain ⟨ha, ha'⟩ := h.asks.keep hasks
  obtain ⟨hb, hb'⟩ := h.bids.keep hbids
  obtain ⟨hr, hr'⟩ := h.relativeBids.keep hrelative
  refine ⟨⟨ha, hb, hr⟩, ha', ?_⟩
  unfold heldBids Market.pendingState
  rw [hb', hr']

theorem Others.afterBid (h : Others m e) (mtrx : MarketTransaction) (hm : Setting m)
    (htype : isBid bid.type) (hstored : BidStored m e bid) :
    Others m (afterBid m e bid mtrx) ∧ SameOthers m e (afterBid m e bid mtrx) := by
  have hweight : ∀ r, inBid m.baseId bid.marketIndex r = 0 := by
    intro r
    unfold inBid
    rw [hstored.type_pair.2.1]
    exact if_neg (ne_of_gt hm.ordered)
  obtain ⟨ha, ha'⟩ := h.asks.keep (afterBid_asks mtrx htype)
  obtain ⟨hb, hr, hheld⟩ := afterBid_bids mtrx hstored htype h.bids h.relativeBids (hweight _).ge
  rw [hweight, hweight, Int.sub_zero, Int.add_zero] at hheld
  exact ⟨⟨ha, hb, hr⟩, ha', hheld⟩

theorem Others.afterAsk (h : Others m e) (mtrx : MarketTransaction) (toQuote : Bool) (hm : Setting m)
    (htype : ask.type = .askOrder) (hpair : m.isPair ask.marketIndex.orderPrice)
    (hstored : Holdings.asks.get (m.pendingState e) ask.marketIndex = some ask.state) :
    Others m (afterAsk m e ask mtrx toQuote) ∧ SameOthers m e (afterAsk m e ask mtrx toQuote) := by
  have hweight : ∀ r, inAsk m.quoteId ask.marketIndex r = 0 := by
    intro r
    unfold inAsk
    rw [hpair.2]
    exact if_neg (ne_of_lt hm.ordered)
  obtain ⟨ha, ha'⟩ := afterAsk_asks mtrx toQuote htype hstored h.asks (hweight _).ge
  obtain ⟨hb, hb'⟩ := h.bids.keep
    (afterAsk_frame PendingState.bids mtrx toQuote htype fun _ _ _ => rfl)
  obtain ⟨hr, hr'⟩ := h.relativeBids.keep
    (afterAsk_frame PendingState.relativeBids mtrx toQuote htype fun _ _ _ => rfl)
  rw [hweight, hweight, Int.sub_zero, Int.add_zero] at ha'
  refine ⟨⟨ha, hb, hr⟩, ha', ?_⟩
  unfold heldBids Market.pendingState
  rw [hb', hr']

structure SpotState (m : Market) (start e : EngineState) : Prop where
  synced : Synced m e
  plain : Plain m e
  quote : QuoteSound m e
  base : AskSound m e
  others : Others m e
  same : SameOthers m start e
  quoteKept : quoteOut m e + e.quoteAsset.collectedFees =
    quoteOut m start + start.quoteAsset.collectedFees
  quoteFees : start.quoteAsset.collectedFees ≤ e.quoteAsset.collectedFees
  quoteSupply : e.quoteAsset.currentShareSupply = start.quoteAsset.currentShareSupply
  baseKept : baseOut m e + e.baseAsset.collectedFees = baseOut m start + start.baseAsset.collectedFees
  baseFees : start.baseAsset.collectedFees ≤ e.baseAsset.collectedFees
  baseSupply : e.baseAsset.currentShareSupply = start.baseAsset.currentShareSupply

/-- The amounts at the start are ones of `int64_t`, with the fees and without them. -/
structure SpotRoom (m : Market) (start : EngineState) : Prop where
  quote : quoteOut m start ≤ 9223372036854775807
  quoteFees : quoteOut m start + start.quoteAsset.collectedFees ≤ 9223372036854775807
  base : baseOut m start ≤ 9223372036854775807
  baseFees : baseOut m start + start.baseAsset.collectedFees ≤ 9223372036854775807

theorem SpotState.frame {start : EngineState} (h : SpotState m start e) (hs : Synced m d)
    (hp : Plain m d) (hlayer : d.layer = e.layer) (hquote : d.quoteAsset = e.quoteAsset)
    (hbase : d.baseAsset = e.baseAsset) : SpotState m start d := by
  obtain ⟨hq, hq'⟩ := h.quote.frame (d := d) (by rw [hlayer]) (by rw [hlayer]) (by rw [hlayer])
  obtain ⟨hb, hb'⟩ := h.base.frame (d := d) (by rw [hlayer]) (by rw [hlayer])
  obtain ⟨ho, ho'⟩ := h.others.frame (d := d) (by rw [hlayer]) (by rw [hlayer]) (by rw [hlayer])
  refine ⟨hs, hp, hq, hb, ho, h.same.trans ho', ?_, ?_, ?_, ?_, ?_, ?_⟩
  · rw [hq', hquote]
    exact h.quoteKept
  · rw [hquote]
    exact h.quoteFees
  · rw [hquote]
    exact h.quoteSupply
  · rw [hb', hbase]
    exact h.baseKept
  · rw [hbase]
    exact h.baseFees
  · rw [hbase]
    exact h.baseSupply

theorem SpotState.bidDropped {start : EngineState} (h : SpotState m start e) :
    SpotState m start { e with currentBid := none } := by
  refine h.frame h.synced.bidDropped { h.plain with bid := ?_ } rfl rfl rfl
  intro b hb
  cases hb

theorem SpotState.askDropped {start : EngineState} (h : SpotState m start e) :
    SpotState m start { e with currentAsk := none } :=
  h.frame h.synced.askDropped { h.plain with } rfl rfl rfl

theorem SpotState.trade {t : MarketTransaction} {start d' e' : EngineState} (h : SpotState m start e)
    (hroom : SpotRoom m start) (hdeal : AskBid m e bid ask t mtrx d d') (hbooked : Booked mtrx d' e')
    (hapart : AddressesApart) : SpotState m start e' := by
  obtain ⟨hbalances, hbids⟩ := h.quote.parts
  have hout : 0 ≤ quoteOut m e := Int.add_nonneg hbalances hbids
  have hkept := h.quoteKept
  have hgrown := h.quoteFees
  have hkeptBase := h.baseKept
  have hgrownBase := h.baseFees
  obtain ⟨hq, hqf, hb, hbf⟩ := hroom
  have hfits := h.synced.quoteFees
  unfold Fits at hfits
  obtain ⟨hquote, hquoteSupply, hquoteSame, hquoteGrown⟩ := quote_askBid hapart hbooked h.quote hdeal
    (by omega) (by unfold Fits; omega)
  obtain ⟨hbase, hbaseSupply, hbaseSame, hbaseGrown⟩ := askBid_base h.base hdeal hbooked hapart
    (by omega) (by omega)
  obtain ⟨hd, hcurrent⟩ := hdeal.between
  have hsynced := hbooked.synced hdeal.setting hdeal.after
  obtain ⟨-, -, rfl⟩ := payCurrentBid_ok hdeal.setting.current h.synced.quoteFees hdeal.bidPays
  obtain ⟨-, -, rfl⟩ := payCurrentAsk_ok hdeal.setting.current hd.quoteFees hd.baseFees hdeal.askPays
  obtain ⟨ho, ho'⟩ := h.others.afterBid mtrx hdeal.setting hdeal.isBid hdeal.bidStored
  obtain ⟨hoa, hoa'⟩ := ho.afterAsk mtrx false hdeal.setting hdeal.type hdeal.askPair
    ((hd.currentAsk ask hcurrent).get_ask hdeal.type)
  obtain ⟨hoe, hoe'⟩ := hoa.frame (d := e') (by rw [hbooked.layer]) (by rw [hbooked.layer])
    (by rw [hbooked.layer])
  have hpaid : Plain m (afterAsk m (afterBid m e bid mtrx) ask mtrx false) := by
    refine ⟨h.plain.shorts, h.plain.called, h.plain.record, ?_⟩
    rintro _ ⟨⟩
    exact hdeal.isBid
  have hplain : Plain m e' := by
    refine hpaid.frame hbooked.cursors hbooked.record ?_
    rw [hbooked.currentBid]
    exact hpaid.bid
  exact ⟨hsynced, hplain, hquote, hbase, hoe, h.same.trans (ho'.trans (hoa'.trans hoe')),
    hquoteSame.trans hkept, hgrown.trans hquoteGrown, hquoteSupply.trans h.quoteSupply,
    hbaseSame.trans hkeptBase, hgrownBase.trans hbaseGrown, hbaseSupply.trans h.baseSupply⟩

theorem spot_accounts {start : EngineState} (hapart : AddressesApart) (hm : Setting m)
    (hroom : SpotRoom m start) :
    Accounts m (fun _ _ _ => True) (SpotState m start) (fun _ => 0) (fun _ _ _ => True) where
  bid e e' h ht := by
    obtain ⟨hlayer, hquote, hbase⟩ := bidTaken_same ht
    exact ⟨h.frame (h.synced.bidTaken ht) (h.plain.bidTaken ht) hlayer hquote hbase, rfl⟩
  ask e e' h ht := by
    obtain ⟨hlayer, hquote, hbase⟩ := askTaken_same ht
    exact ⟨h.frame (h.synced.askTaken ht) (h.plain.askTaken ht) hlayer hquote hbase, rfl⟩
  pass e e' bid ask h _ hbid hask hmatch := by
    refine ⟨?_, le_rfl, iff_of_true rfl trivial⟩
    have hisBid := h.plain.bid bid hbid
    have hstored := h.synced.currentAsk ask hask
    rcases hstored.is_ask with hisAsk | hcover
    · have hpassed := matchPair_passed ⟨hm, h.synced, hbid, hask, (hstored.of_ask hisAsk).1⟩ hmatch
      cases hpassed with
      | bidDropped => exact h.bidDropped
      | askDropped => exact h.askDropped
      | askBid deal booked => exact h.trade hroom deal booked hapart
      | askShort deal => exact absurd deal.isShort (not_short_of_isBid hisBid)
      | coverBid deal => exact absurd deal.type (not_cover_of_ask hisAsk)
      | coverShort deal => exact absurd deal.type (not_cover_of_ask hisAsk)
    · rcases h.plain.cover_dropped hm h.synced hbid hcover hmatch with ⟨-, rfl⟩ | ⟨-, rfl⟩
      · exact h.bidDropped
      · exact h.askDropped

/-- An asset in balances, bids, asks and fees. -/
def spotTotal (id : Int) (c : ChainInterface) : Int :=
  heldBalances id c + heldBids id c + heldAsks id c + collectedFees id c

structure Sound (id : Int) (c : ChainInterface) : Prop where
  balances : Holdings.balances.Nonneg (inBalance id) c
  bids : Holdings.bids.Nonneg (inBid id) c
  relativeBids : Holdings.relativeBids.Nonneg (inBid id) c
  asks : Holdings.asks.Nonneg (inAsk id) c

/-- What there is of an asset is an amount of `int64_t`, with the fees and without them. -/
def InRange (id : Int) (c : ChainInterface) : Prop :=
  heldBalances id c + heldBids id c + heldAsks id c ≤ 9223372036854775807 ∧
    spotTotal id c ≤ 9223372036854775807
  deriving Decidable

section Ends

variable {prior c : ChainInterface} {quoteId baseId : Int}

theorem opened_spotState (h : Opened prior quoteId baseId m e)
    (hbook : OrderBook prior quoteId baseId) (hplain : PlainBook prior quoteId baseId)
    (hquote : Sound quoteId prior) (hbase : Sound baseId prior) : SpotState m e e ∧
      quoteOut m e + heldAsks m.quoteId (m.pendingState e) + e.quoteAsset.collectedFees =
        spotTotal quoteId prior ∧
      baseOut m e + heldBids m.baseId (m.pendingState e) + e.baseAsset.collectedFees =
        spotTotal baseId prior ∧
      e.quoteAsset.currentShareSupply = shareSupply quoteId prior ∧
      e.baseAsset.currentShareSupply = shareSupply baseId prior ∧
      collectedFees quoteId prior = e.quoteAsset.collectedFees ∧
      collectedFees baseId prior = e.baseAsset.collectedFees := by
  have hsynced := opened_synced h hbook
  have hplain' := opened_plain h hplain
  have hbalances := h.get Holdings.balances rfl
  have hbids := h.get Holdings.bids rfl
  have hrelative := h.get Holdings.relativeBids rfl
  have hasks := h.get Holdings.asks rfl
  obtain ⟨rfl, rfl⟩ : m.quoteId = quoteId ∧ m.baseId = baseId := ⟨h.quote, h.base⟩
  have hquoteFees : collectedFees m.quoteId prior = e.quoteAsset.collectedFees := by
    unfold collectedFees
    rw [h.quoteAsset]
    rfl
  have hbaseFees : collectedFees m.baseId prior = e.baseAsset.collectedFees := by
    unfold collectedFees
    rw [h.baseAsset]
    rfl
  refine ⟨⟨hsynced, hplain', ⟨hquote.balances.congr hbalances, hquote.bids.congr hbids,
    hquote.relativeBids.congr hrelative⟩, ⟨hbase.balances.congr hbalances, hbase.asks.congr hasks⟩,
    ⟨hquote.asks.congr hasks, hbase.bids.congr hbids, hbase.relativeBids.congr hrelative⟩, ⟨rfl, rfl⟩,
    rfl, le_rfl, rfl, rfl, le_rfl, rfl⟩, ?_, ?_, ?_, ?_, hquoteFees, hbaseFees⟩
  · unfold spotTotal quoteOut heldBalances heldBids heldAsks
    rw [Shelf.held_of_get hbalances, Shelf.held_of_get hbids, Shelf.held_of_get hrelative,
      Shelf.held_of_get hasks, hquoteFees]
  · unfold spotTotal baseOut heldBalances heldBids heldAsks
    rw [Shelf.held_of_get hbalances, Shelf.held_of_get hbids, Shelf.held_of_get hrelative,
      Shelf.held_of_get hasks, hbaseFees]
    omega
  · unfold shareSupply
    rw [h.quoteAsset]
    rfl
  · unfold shareSupply
    rw [h.baseAsset]
    rfl

theorem left_spot (h : Left m d c) (hs : SpotState m e d) (hm : Setting m) :
    Sound m.quoteId c ∧ Sound m.baseId c ∧
      quoteOut m d + heldAsks m.quoteId (m.pendingState d) + d.quoteAsset.collectedFees =
        spotTotal m.quoteId c ∧
      baseOut m d + heldBids m.baseId (m.pendingState d) + d.baseAsset.collectedFees =
        spotTotal m.baseId c ∧
      shareSupply m.quoteId c = d.quoteAsset.currentShareSupply ∧
      shareSupply m.baseId c = d.baseAsset.currentShareSupply := by
  obtain ⟨hquote, hbase⟩ := left_assets h hs.synced hm
  refine ⟨⟨hs.quote.balances.congr h.balances, hs.quote.bids.congr h.bids,
    hs.quote.relativeBids.congr h.relativeBids, hs.others.asks.congr h.asks⟩,
    ⟨hs.base.balances.congr h.balances, hs.others.bids.congr h.bids,
    hs.others.relativeBids.congr h.relativeBids, hs.base.asks.congr h.asks⟩, ?_, ?_, ?_, ?_⟩
  · unfold spotTotal quoteOut heldBalances heldBids heldAsks collectedFees
    rw [Shelf.held_of_get h.balances, Shelf.held_of_get h.bids, Shelf.held_of_get h.relativeBids,
      Shelf.held_of_get h.asks, hquote]
    rfl
  · unfold spotTotal baseOut heldBalances heldBids heldAsks collectedFees
    rw [Shelf.held_of_get h.balances, Shelf.held_of_get h.bids, Shelf.held_of_get h.relativeBids,
      Shelf.held_of_get h.asks, hbase]
    dsimp only [Option.elim]
    omega
  · unfold shareSupply
    rw [hquote]
    rfl
  · unfold shareSupply
    rw [hbase]
    rfl

end Ends

/-- A market of bids and asks keeps both assets. -/
theorem execute_keeps_spot {layer layer' : PendingState} {prev : ChainInterface}
    {quoteId baseId : Int} {timestamp : Nat} {trxs : List MarketTransaction}
    (hapart : AddressesApart) (hfork : forkBlockNumV0429 ≤ prev.getHeadBlockNum)
    (hbook : OrderBook (.pending layer prev) quoteId baseId)
    (hplain : PlainBook (.pending layer prev) quoteId baseId)
    (hquote : Sound quoteId (.pending layer prev)) (hbase : Sound baseId (.pending layer prev))
    (hquoteRange : InRange quoteId (.pending layer prev))
    (hbaseRange : InRange baseId (.pending layer prev))
    (hopen : openMarket (.pending layer prev) quoteId baseId = .ok (m, e))
    (hrun : runAndApply m e layer prev timestamp = .ok (layer', trxs)) :
    spotTotal quoteId (.pending layer' prev) = spotTotal quoteId (.pending layer prev) ∧
      spotTotal baseId (.pending layer' prev) = spotTotal baseId (.pending layer prev) ∧
      Sound quoteId (.pending layer' prev) ∧ Sound baseId (.pending layer' prev) ∧
      shareSupply quoteId (.pending layer' prev) = shareSupply quoteId (.pending layer prev) ∧
      shareSupply baseId (.pending layer' prev) = shareSupply baseId (.pending layer prev) := by
  have hopened := openMarket_ok hopen
  have hm : Setting m := hopened.setting hfork
  obtain ⟨hstate, hquoteTotal, hbaseTotal, hquoteSupply, hbaseSupply, hquoteFees, hbaseFees⟩ :=
    opened_spotState hopened hbook hplain hquote hbase
  have hasks := hstate.others.asks.held_nonneg
  have hbids := Int.add_nonneg hstate.others.bids.held_nonneg hstate.others.relativeBids.held_nonneg
  change 0 ≤ heldAsks m.quoteId (m.pendingState e) at hasks
  change 0 ≤ heldBids m.baseId (m.pendingState e) at hbids
  have hroom : SpotRoom m e := by
    unfold InRange at hquoteRange hbaseRange
    unfold spotTotal at hquoteTotal hbaseTotal hquoteRange hbaseRange
    exact ⟨by omega, by omega, by omega, by omega⟩
  obtain ⟨d, hmatch, hleft⟩ := runAndApply_left hopen hrun
  obtain ⟨hd, -⟩ := (spot_accounts hapart hm hroom).matchMarket hm marketMeets_true hmatch hstate
  obtain ⟨hquoteSound, hbaseSound, hquoteLeft, hbaseLeft, hquoteEnd, hbaseEnd⟩ := left_spot hleft hd hm
  have hquoteKept := hd.quoteKept
  have hbaseKept := hd.baseKept
  have hsameAsks := hd.same.asks
  have hsameBids := hd.same.bids
  have hq : m.quoteId = quoteId := hopened.quote
  have hb : m.baseId = baseId := hopened.base
  rw [hq] at hquoteSound hquoteLeft hquoteEnd hsameAsks hquoteTotal
  rw [hb] at hbaseSound hbaseLeft hbaseEnd hsameBids hbaseTotal
  refine ⟨by omega, by omega, hquoteSound, hbaseSound, ?_, ?_⟩
  · rw [hquoteEnd, hd.quoteSupply, hquoteSupply]
  · rw [hbaseEnd, hd.baseSupply, hbaseSupply]

end Model

/-- A bid of a hundred dollars and an ask of a thousand units of gold, where the
owner of the bid has some gold. -/
def spotMarket (balance : Int) : @ChainDatabase Fc.separate :=
  letI := Fc.separate
  { goldMarket with
    balanceDb := Table.empty.store { condition := ownedBy 7 5, balance }
    bidDb := (∅ : Map _ _).insert ⟨goldPrice, 7⟩ { balance := 100 }
    askDb := (∅ : Map _ _).insert ⟨goldPrice, 8⟩ { balance := 1000 } }

theorem executed_spotMarket :
    letI := Fc.separate
    Executed {} (.database (spotMarket 5)) 22 5 1000000010 fun _ _ layer =>
      spotTotal 5 (.pending layer (.database (spotMarket 5))) = 1005 := by
  decide +kernel

theorem sound_spotMarket :
    letI := Fc.separate
    Sound 22 (.pending {} (.database (spotMarket 5))) ∧
      Sound 5 (.pending {} (.database (spotMarket 5))) := by
  refine ⟨?_, ?_⟩ <;> apply @Sound.mk Fc.separate <;> decide +kernel

theorem inRange_spotMarket :
    letI := Fc.separate
    InRange 22 (.pending {} (.database (spotMarket 5))) ∧
      InRange 5 (.pending {} (.database (spotMarket 5))) := by
  decide +kernel

theorem execute_keeps_spot_spotMarket :
    letI := Fc.separate
    let prev := ChainInterface.database (spotMarket 5)
    ∃ m e layer trxs, openMarket (.pending {} prev) 22 5 = .ok (m, e) ∧
      runAndApply m e {} prev 1000000010 = .ok (layer, trxs) ∧
      spotTotal 22 (.pending layer prev) = spotTotal 22 (.pending {} prev) ∧
      spotTotal 5 (.pending layer prev) = spotTotal 5 (.pending {} prev) := by
  let := Fc.separate
  intro prev
  obtain ⟨m, e, layer, trxs, hopen, hrun, -⟩ := executed_spotMarket.exists
  have hbook : OrderBook (.pending {} prev) 22 5 :=
    orderBook_database (by decide +kernel) (by decide +kernel)
  have hplain : PlainBook (.pending {} prev) 22 5 := ⟨by decide, by decide⟩
  obtain ⟨hquote, hbase, -⟩ := execute_keeps_spot separate_apart (by decide) hbook hplain
    sound_spotMarket.1 sound_spotMarket.2 inRange_spotMarket.1 inRange_spotMarket.2 hopen hrun
  exact ⟨m, e, layer, trxs, hopen, hrun, hquote, hbase⟩

/-- A balance with the largest amount of `int64_t` that is paid a thousand more becomes
negative. -/
theorem execute_wraps_balance :
    letI := Fc.separate
    Executed {} (.database (spotMarket 9223372036854775807)) 22 5 1000000010 fun _ _ layer =>
      spotTotal 5 (.pending {} (.database (spotMarket 9223372036854775807))) =
          9223372036854776807 ∧
        spotTotal 5 (.pending layer (.database (spotMarket 9223372036854775807))) =
          -9223372036854774809 ∧
        ¬ Holdings.balances.Nonneg (inBalance 5)
          (.pending layer (.database (spotMarket 9223372036854775807))) := by
  decide +kernel

end Bts.Blockchain.SpotLedger
