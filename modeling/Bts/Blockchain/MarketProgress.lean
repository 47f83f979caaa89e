import Bts.Blockchain.MarketLedger

namespace Bts.Blockchain.MarketProgress

open Base Result Word Amounts MarketRecords Transactions Rules MarketEngine MarketMatch MarketLoop
  MarketRuns MarketEffects MarketTrades MarketLedger

variable [Fc] {m : Market} {e e' : EngineState} {bid ask : MarketOrder}
  {mtrx mtrx' : MarketTransaction}

section Payments

theorem payCurrentBid_left (h : m.payCurrentBid e bid mtrx = .ok e') :
    e'.currentAsk = e.currentAsk ∧ e'.currentCollatRecord = e.currentCollatRecord ∧
      ∃ rest, e'.currentBid = some (withBalance bid rest) ∧
        (mtrx.bidPaid.amount = bid.state.balance → rest = 0) := by
  simp only [Market.payCurrentBid, bind_eq_ok] at h
  obtain ⟨-, -, -, -, -, -, quantity, -, price, -, rest, -, h⟩ := h
  split at h
  · cases h
    exact ⟨rfl, rfl, 0, rfl, fun _ => rfl⟩
  · cases h
    refine ⟨rfl, rfl, _, rfl, fun hpaid => ?_⟩
    rw [hpaid, Int.sub_self]
    rfl

theorem payCurrentAsk_left {toQuote : Bool} (h : m.payCurrentAsk e ask mtrx toQuote = .ok e') :
    e'.currentBid = e.currentBid ∧ ∃ rest, e'.currentAsk = some (withBalance ask rest) ∧
      (mtrx.askPaid.amount = ask.state.balance → rest = 0) := by
  simp only [Market.payCurrentAsk, bind_eq_ok] at h
  obtain ⟨-, -, -, -, -, -, quantity, -, price, -, rest, -, h⟩ := h
  split at h
  · cases h
    exact ⟨rfl, 0, rfl, fun _ => rfl⟩
  · cases h
    refine ⟨rfl, _, rfl, fun hpaid => ?_⟩
    rw [hpaid, Int.sub_self]
    rfl

theorem payCurrentShort_left {collateral : Asset} (hcollateral : mtrx.shortCollateral = some collateral)
    (h : m.payCurrentShort e bid mtrx = .ok (e', mtrx')) :
    e'.currentAsk = e.currentAsk ∧ e'.currentCollatRecord = e.currentCollatRecord ∧
      mtrx'.askPaid = mtrx.askPaid ∧ mtrx'.askReceived = mtrx.askReceived ∧
      ∃ rest, e'.currentBid = some (withBalance bid rest) ∧
        (collateral.amount = bid.state.balance → rest = 0) := by
  obtain ⟨-, collateral', sc, hcollateral', hround, rfl, hcases⟩ := payCurrentShort_ok h
  cases hcollateral.symm.trans hcollateral'
  have hrest : collateral.amount = bid.state.balance → int64 (bid.state.balance - sc.amount) = 0 := by
    intro hall
    rcases (roundCollateral_ok hround).2.2 with hsc | ⟨-, hlt⟩
    · rw [hsc, hall, Int.sub_self]
      rfl
    · exact absurd hall hlt.ne
  rcases hcases with ⟨-, rfl⟩ | ⟨-, -, key, total, -, -, -, -, -, rfl⟩
  · exact ⟨rfl, rfl, rfl, rfl, _, rfl, hrest⟩
  · exact ⟨rfl, rfl, rfl, rfl, _, rfl, hrest⟩

theorem payCurrentCover_left (h : m.payCurrentCover e ask mtrx = .ok (e', mtrx')) :
    e'.currentBid = e.currentBid ∧ ∃ a, e'.currentAsk = some a ∧ a.type = ask.type ∧
      (ask.collateral = some mtrx.askPaid.amount → a.state.balance = 0) ∧
      (m.getCurrentCoverDebt e ask = .ok mtrx.askReceived → a.state.balance = 0) := by
  obtain ⟨-, expiration, debt, payment, old, -, hdebt, hpayment, -, -, -, hold, -, hcases⟩ :=
    payCurrentCover_ok h
  have hspent : ask.collateral = some mtrx.askPaid.amount →
      payment.payoffBalance - unpaid (coverRest old mtrx) payment = 0 := by
    intro hall
    cases hold.symm.trans hall
    have hrest : coverRest mtrx.askPaid.amount mtrx = 0 := by
      unfold coverRest
      rw [Int.sub_self]
      rfl
    unfold unpaid
    rw [if_pos hrest, Int.sub_self]
  have hpaid : m.getCurrentCoverDebt e ask = .ok mtrx.askReceived →
      payment.payoffBalance - unpaid (coverRest old mtrx) payment = 0 := by
    intro hall
    cases hdebt.symm.trans hall
    have hzero : payment.payoffBalance = 0 := by
      unfold payDebt at hpayment
      rw [if_pos ⟨rfl, le_rfl⟩] at hpayment
      simp only [eq_ok_iff] at hpayment
      obtain ⟨_, -, rfl⟩ := hpayment
      rfl
    unfold unpaid
    rw [hzero, ite_self]
    rfl
  rcases hcases with ⟨-, rfl, -⟩ | ⟨-, -, charged, returned, -, rfl, -⟩
  · exact ⟨rfl, _, rfl, rfl, hspent, hpaid⟩
  · exact ⟨rfl, _, rfl, rfl, hspent, hpaid⟩

end Payments

section Fills

theorem coverFill_uses {forSale exchanged paid : Asset}
    (h : coverFill m e ask mtrx forSale = .ok (exchanged, paid)) :
    exchanged.amount = forSale.amount ∨ ask.collateral = some paid.amount ∨
      m.getCurrentCoverDebt e ask = .ok exchanged := by
  simp only [coverFill, eq_ok_iff, Prod.mk.injEq] at h
  obtain ⟨collateral, hcollateral, afford, -, debt, hdebt, askPaid, hpaid, rfl, rfl⟩ := h
  rcases Asset.min_cases (Asset.min forSale afford) debt with ⟨hmin, -⟩ | ⟨hmin, -⟩
  · rcases Asset.min_cases forSale afford with ⟨hmin', -⟩ | ⟨hmin', -⟩
    · rw [hmin, hmin']
      exact Or.inl rfl
    · rw [hmin, hmin'] at hpaid
      unfold coverPays at hpaid
      rw [if_pos (Asset.eq_self _)] at hpaid
      cases hpaid
      exact Or.inr (Or.inl hcollateral)
  · rw [hmin]
    exact Or.inr (Or.inr hdebt)

omit [Fc] in
theorem shortStake_all {feed : Price} {forSale exchanged collateral : Asset}
    (hbid : bid.type = .shortOrder) (hsale : shortSale feed bid = .ok forSale)
    (hstake : shortStake feed bid exchanged = .ok collateral)
    (hall : exchanged.amount = forSale.amount) : collateral.amount = bid.state.balance := by
  simp only [shortSale, bind_eq_ok] at hsale
  obtain ⟨balance, hbalance, hforSale⟩ := hsale
  simp only [shortStake, bind_eq_ok] at hstake
  obtain ⟨balance', hbalance', forSale', hforSale', hpays⟩ := hstake
  cases hbalance.symm.trans hbalance'
  cases hforSale.symm.trans hforSale'
  unfold shortPays at hpays
  rw [if_pos (show Asset.eq exchanged forSale from hall)] at hpays
  cases hpays
  cases (getBalance_short hbid).symm.trans hbalance
  rfl

omit [Fc] in
theorem shortFill_uses {feed : Price} {exchanged paid : Asset} (hask : ask.type = .askOrder)
    (h : shortFill feed bid ask mtrx = .ok (exchanged, paid)) :
    (∃ forSale, shortSale feed bid = .ok forSale ∧ exchanged.amount = forSale.amount) ∨
      paid.amount = ask.state.balance := by
  simp only [shortFill, eq_ok_iff, Prod.mk.injEq] at h
  obtain ⟨askQuantity, -, balance, hbalance, shortQuantity, hshortQ, askBalance, haskB, askPaid,
    hpaid, rfl, rfl⟩ := h
  rcases Asset.min_cases shortQuantity askQuantity with ⟨hmin, -⟩ | ⟨hmin, hlt⟩
  · refine Or.inl ⟨shortQuantity, ?_, by rw [hmin]⟩
    simp only [shortSale, bind_eq_ok]
    exact ⟨balance, hbalance, hshortQ⟩
  · rw [hmin] at hpaid
    unfold tradeAskShort.shortFills at hpaid
    rw [if_neg (show ¬ Asset.eq askQuantity shortQuantity from hlt.ne)] at hpaid
    cases hpaid
    unfold MarketOrder.getBalance at haskB
    rw [hask] at haskB
    cases haskB
    exact Or.inr rfl

end Fills

/-- What a trade leaves of the orders at hand, of which one is used up. -/
structure UsedUp (bid ask : MarketOrder) (e' : EngineState) : Prop where
  left : ∃ rest a, e'.currentBid = some (withBalance bid rest) ∧ e'.currentAsk = some a ∧
    a.type = ask.type ∧ (rest = 0 ∨ a.state.balance = 0)

theorem tradeAskBid_uses (hask : ask.type = .askOrder) (hbid : isBid bid.type)
    (h : tradeAskBid m e bid ask mtrx = .ok (e', mtrx')) : UsedUp bid ask e' := by
  simp only [tradeAskBid, eq_ok_iff, Prod.mk.injEq] at h
  obtain ⟨bidQuantity, -, askQuantity, -, askReceived, -, bidPays, -, bidBalance, hbidB, askBalance,
    haskB, fees, -, d, hd, d', hd', rfl, rfl⟩ := h
  have hbidB' : bidBalance.amount = bid.state.balance := by
    unfold MarketOrder.getBalance at hbidB
    rcases hbid with hbid | hbid <;> rw [hbid] at hbidB <;> cases hbidB <;> rfl
  have haskB' : askBalance.amount = ask.state.balance := by
    unfold MarketOrder.getBalance at haskB
    rw [hask] at haskB
    cases haskB
    rfl
  obtain ⟨-, -, rest, hcurrent, hrest⟩ := payCurrentBid_left hd
  obtain ⟨hsame, askRest, hcurrent', haskRest⟩ := payCurrentAsk_left hd'
  refine ⟨rest, _, hsame.trans hcurrent, hcurrent', rfl, ?_⟩
  rcases Asset.min_cases bidQuantity askQuantity with ⟨hmin, -⟩ | ⟨hmin, -⟩
  · refine Or.inl (hrest ?_)
    rw [hmin, if_pos (Asset.eq_self _)]
    exact hbidB'
  · refine Or.inr (haskRest ?_)
    rw [hmin, if_pos (Asset.eq_self _)]
    exact haskB'

theorem tradeAskShort_uses (hask : ask.type = .askOrder) (hbid : bid.type = .shortOrder)
    (h : tradeAskShort m e bid ask mtrx = .ok (e', mtrx')) : UsedUp bid ask e' := by
  obtain ⟨feed, exchanged, paid, collateral, d, -, hfill, hstake, hshort, haskPays⟩ :=
    tradeAskShort_ok h
  obtain ⟨-, -, hpaid, -, rest, hcurrent, hrest⟩ := payCurrentShort_left rfl hshort
  obtain ⟨hsame, askRest, hcurrent', haskRest⟩ := payCurrentAsk_left haskPays
  refine ⟨rest, _, hsame.trans hcurrent, hcurrent', rfl, ?_⟩
  rcases shortFill_uses hask hfill with ⟨forSale, hsale, hall⟩ | hall
  · exact Or.inl (hrest (shortStake_all hbid hsale hstake hall))
  · refine Or.inr (haskRest ?_)
    rw [hpaid]
    exact hall

theorem tradeCoverBid_uses (hbid : isBid bid.type)
    (h : tradeCoverBid m e bid ask mtrx = .ok (e', mtrx')) : UsedUp bid ask e' := by
  obtain ⟨forSale, exchanged, paid, d, hsale, hfill, hbidPays, hcoverPays⟩ := tradeCoverBid_ok h
  have hsale' : forSale.amount = bid.state.balance := by
    unfold MarketOrder.getBalance at hsale
    rcases hbid with hbid | hbid <;> rw [hbid] at hsale <;> cases hsale <;> rfl
  obtain ⟨-, hrecord, rest, hcurrent, hrest⟩ := payCurrentBid_left hbidPays
  obtain ⟨hsame, a, hcurrent', htype, hspent, hpaid⟩ := payCurrentCover_left hcoverPays
  refine ⟨rest, a, hsame.trans hcurrent, hcurrent', htype, ?_⟩
  rcases coverFill_uses hfill with hall | hall | hall
  · exact Or.inl (hrest (hall.trans hsale'))
  · exact Or.inr (hspent hall)
  · refine Or.inr (hpaid ?_)
    rw [getCurrentCoverDebt_congr ask hrecord]
    exact hall

theorem tradeCoverShort_uses (hbid : bid.type = .shortOrder)
    (h : tradeCoverShort m e bid ask mtrx = .ok (e', mtrx')) : UsedUp bid ask e' := by
  obtain ⟨feed, forSale, exchanged, paid, collateral, d, t, -, hsale, hfill, hstake, hshort,
    hcoverPays⟩ := tradeCoverShort_ok h
  obtain ⟨-, hrecord, hpaid', hreceived, rest, hcurrent, hrest⟩ := payCurrentShort_left rfl hshort
  obtain ⟨hsame, a, hcurrent', htype, hspent, hpaid⟩ := payCurrentCover_left hcoverPays
  refine ⟨rest, a, hsame.trans hcurrent, hcurrent', htype, ?_⟩
  rcases coverFill_uses hfill with hall | hall | hall
  · exact Or.inl (hrest (shortStake_all hbid hsale hstake hall))
  · refine Or.inr (hspent ?_)
    rw [hpaid']
    exact hall
  · refine Or.inr (hpaid ?_)
    rw [hreceived, getCurrentCoverDebt_congr ask hrecord]
    exact hall

structure Kinds (e : EngineState) : Prop where
  bid : ∀ b ∈ e.currentBid, b.type = .shortOrder ∨ isBid b.type
  ask : ∀ a ∈ e.currentAsk, a.type = .askOrder ∨ a.type = .coverOrder

theorem Kinds.bidTaken (h : Kinds e)
    (htaken : BidTaken m { e with ordersFilled := e.ordersFilled + 1, currentBid := none } e') :
    Kinds e' := by
  refine ⟨fun b hb => ?_, fun a ha => ?_⟩
  · cases htaken with
    | none => cases hb
    | bid => cases hb; exact Or.inr (Or.inl rfl)
    | relativeBid => cases hb; exact Or.inr (Or.inr rfl)
    | short => cases hb; exact Or.inl rfl
  · refine h.ask a ?_
    cases htaken <;> exact ha

theorem Kinds.askTaken (h : Kinds e)
    (htaken : AskTaken m { e with ordersFilled := e.ordersFilled + 1, currentAsk := none } e') :
    Kinds e' := by
  refine ⟨fun b hb => ?_, fun a ha => ?_⟩
  · refine h.bid b ?_
    cases htaken <;> exact hb
  · cases htaken with
    | none => cases ha
    | ask => cases ha; exact Or.inl rfl
    | called | expired => cases ha; exact Or.inr rfl

theorem Kinds.getNextBid (h : Kinds e) (hm : Setting m) (hnext : m.getNextBid e = .ok e') :
    Kinds e' := by
  rcases getNextBid_cases hm hnext with ⟨rfl, -⟩ | htaken
  · exact h
  · exact h.bidTaken htaken

theorem Kinds.getNextAsk (h : Kinds e) (hm : Setting m) (hnext : m.getNextAsk e = .ok e') :
    Kinds e' := by
  rcases getNextAsk_cases hm hnext with ⟨rfl, -⟩ | htaken
  · exact h
  · exact h.askTaken htaken

theorem Kinds.nextPair {next : Option (MarketOrder × MarketOrder)} (h : Kinds e) (hm : Setting m)
    (hnext : nextPair m e = .ok (e', next)) : Kinds e' := by
  rcases nextPair_ok hnext with ⟨-, hbid, -⟩ | ⟨d, bid, hbid, -, hask, -⟩
  · exact h.getNextBid hm hbid
  · exact (h.getNextBid hm hbid).getNextAsk hm hask

theorem trade_uses (hbid : bid.type = .shortOrder ∨ isBid bid.type)
    (hask : ask.type = .askOrder ∨ ask.type = .coverOrder)
    (h : trade m e bid ask mtrx = .ok (e', mtrx')) : UsedUp bid ask e' := by
  have haskOrder {t : MarketRecords.OrderType} (ht : t ≠ .coverOrder)
      (hother : ask.type = .askOrder ∨ ask.type = t) : ask.type = .askOrder := by
    rcases hask with hask | hask
    · exact hask
    · rcases hother with hother | hother
      · exact hother
      · exact absurd (hother.symm.trans hask) ht
  rcases trade_cases h with ⟨-, hshort, h⟩ | ⟨-, hisBid, h⟩ | ⟨hother, hshort, h⟩ |
    ⟨hother, hisBid, h⟩ | ⟨hcover, hother⟩
  · exact tradeCoverShort_uses hshort h
  · exact tradeCoverBid_uses hisBid h
  · exact tradeAskShort_uses (haskOrder (by decide) hother) hshort h
  · exact tradeAskBid_uses (haskOrder (by decide) hother) hisBid h
  · rcases hask with hask | hask
    · exact absurd ⟨hask, hbid⟩ hother
    · exact absurd ⟨hask, hbid⟩ hcover

theorem collectFees_orders (e : EngineState) (mtrx : MarketTransaction) :
    (collectFees e mtrx).currentBid = e.currentBid ∧
    (collectFees e mtrx).currentAsk = e.currentAsk := by
  unfold collectFees
  split
  · exact ⟨rfl, rfl⟩
  · split <;> exact ⟨rfl, rfl⟩

theorem matchPair_uses (hbid : bid.type = .shortOrder ∨ isBid bid.type)
    (hask : ask.type = .askOrder ∨ ask.type = .coverOrder)
    (h : matchPair m e bid ask = .ok (some e')) :
    (e'.currentBid = none ∧ e'.currentAsk = e.currentAsk) ∨
      (e'.currentAsk = none ∧ e'.currentBid = e.currentBid) ∨ UsedUp bid ask e' := by
  rcases MarketWrites.matchPair_ok h with ⟨t, -, hrecord⟩ | ⟨-, rfl⟩ | ⟨-, rfl⟩
  · obtain ⟨d, mtrx', transactions, volume, opening, closing, htrade, -, rfl⟩ := recordTrade_ok hrecord
    obtain ⟨rest, a, hrest, ha, htype, hdone⟩ := trade_uses hbid hask htrade
    obtain ⟨hsame, hsame'⟩ := collectFees_orders
      (withStatistics d transactions volume opening closing) mtrx'
    exact Or.inr (Or.inr ⟨rest, a, hsame.trans hrest, hsame'.trans ha, htype, hdone⟩)
  · exact Or.inl ⟨rfl, rfl⟩
  · exact Or.inr (Or.inl ⟨rfl, rfl⟩)

theorem Kinds.matchPair (h : Kinds e) (hbid : e.currentBid = some bid)
    (hask : e.currentAsk = some ask) (hpass : matchPair m e bid ask = .ok (some e')) : Kinds e' := by
  have hbidKind := h.bid bid hbid
  have haskKind := h.ask ask hask
  rcases matchPair_uses hbidKind haskKind hpass with ⟨hnone, hsame⟩ | ⟨hnone, hsame⟩ |
    ⟨rest, a, hrest, ha, htype, -⟩
  · refine ⟨fun b hb => ?_, fun a ha => h.ask a (hsame ▸ ha)⟩
    rw [hnone] at hb
    cases hb
  · refine ⟨fun b hb => h.bid b (hsame ▸ hb), fun a ha => ?_⟩
    rw [hnone] at ha
    cases ha
  · refine ⟨fun b hb => ?_, fun a' ha' => ?_⟩
    · cases hrest.symm.trans hb
      exact hbidKind
    · cases ha.symm.trans ha'
      rw [htype]
      exact haskKind

/-- The bid at hand has nothing left, so that `get_next_bid` moves on. -/
def BidDone (e : EngineState) : Prop := ∀ b ∈ e.currentBid, b.state.balance = 0

def AskDone (e : EngineState) : Prop := ∀ a ∈ e.currentAsk, a.state.balance = 0

theorem matchPair_done (h : Kinds e) (hbid : e.currentBid = some bid)
    (hask : e.currentAsk = some ask) (hpass : matchPair m e bid ask = .ok (some e')) :
    BidDone e' ∨ AskDone e' := by
  rcases matchPair_uses (h.bid bid hbid) (h.ask ask hask) hpass with ⟨hnone, -⟩ | ⟨hnone, -⟩ |
    ⟨rest, a, hrest, ha, -, hdone⟩
  · refine Or.inl fun b hb => ?_
    rw [hnone] at hb
    cases hb
  · refine Or.inr fun a ha => ?_
    rw [hnone] at ha
    cases ha
  · rcases hdone with hdone | hdone
    · refine Or.inl fun b hb => ?_
      cases hrest.symm.trans hb
      exact hdone
    · refine Or.inr fun a' ha' => ?_
      cases ha.symm.trans ha'
      exact hdone

omit [Fc] in
theorem hasQuantity_done {o : MarketOrder} {has : Bool} (hkind : o.type = .shortOrder ∨ isBid o.type)
    (hzero : o.state.balance = 0) (h : Market.hasQuantity (some o) = .ok has) : has = false := by
  simp only [Market.hasQuantity, eq_ok_iff] at h
  obtain ⟨quantity, hquantity, rfl⟩ := h
  have hnone : quantity.amount = 0 := by
    unfold MarketOrder.getQuantity at hquantity
    rcases hkind with hkind | hkind | hkind <;> rw [hkind] at hquantity <;> dsimp only at hquantity
    · cases (getBalance_short hkind).symm.trans hquantity
      exact hzero
    all_goals
      simp only [eq_ok_iff, MarketOrder.getBalance, hkind] at hquantity
      obtain ⟨_, rfl, _, -, hmultiply⟩ := hquantity
      exact multiply_zero hzero hmultiply
  rw [hnone]
  rfl

theorem getNextBid_moves (hm : Setting m) (hkinds : Kinds e) (hdone : BidDone e)
    (h : m.getNextBid e = .ok e') : e'.ordersFilled = e.ordersFilled + 1 := by
  simp only [Market.getNextBid, bind_eq_ok] at h
  obtain ⟨has, hhas, h⟩ := h
  have hno : has = false := by
    cases hbid : e.currentBid with
    | none =>
      rw [hbid] at hhas
      cases hhas
      rfl
    | some b =>
      rw [hbid] at hhas
      exact hasQuantity_done (hkinds.bid b hbid) (hdone b hbid) hhas
  rw [hno, if_neg Bool.false_ne_true] at h
  exact (bidTaken_left (advanceBid_taken hm h)).2.1

theorem getNextAsk_moves (hm : Setting m) (hdone : AskDone e) (h : m.getNextAsk e = .ok e') :
    e'.ordersFilled = e.ordersFilled + 1 := by
  unfold Market.getNextAsk at h
  split at h
  next hask =>
    obtain ⟨ask, hsome, hpos⟩ := hask
    have hzero := hdone ask hsome
    omega
  next => exact (askTaken_left (advanceAsk_taken hm rfl h)).2.1

theorem getNextBid_filled (hm : Setting m) (h : m.getNextBid e = .ok e') :
    e.ordersFilled ≤ e'.ordersFilled ∧ e'.currentAsk = e.currentAsk := by
  rcases getNextBid_cases hm h with ⟨rfl, -⟩ | htaken
  · exact ⟨le_rfl, rfl⟩
  · have hfilled := (bidTaken_left htaken).2.1
    dsimp only at hfilled
    refine ⟨by omega, ?_⟩
    cases htaken <;> rfl

theorem getNextAsk_filled (hm : Setting m) (h : m.getNextAsk e = .ok e') :
    e.ordersFilled ≤ e'.ordersFilled := by
  rcases getNextAsk_cases hm h with ⟨rfl, -⟩ | htaken
  · exact le_rfl
  · have hfilled := (askTaken_left htaken).2.1
    dsimp only at hfilled
    omega

theorem nextPair_moves (hm : Setting m) (hkinds : Kinds e) (hdone : BidDone e ∨ AskDone e)
    (h : nextPair m e = .ok (e', some (bid, ask))) : e.ordersFilled < e'.ordersFilled := by
  rcases nextPair_ok h with ⟨hnone, -⟩ | ⟨d, b, hbid, -, hask, -⟩
  · cases hnone
  · obtain ⟨hle, hsame⟩ := getNextBid_filled hm hbid
    have hle' := getNextAsk_filled hm hask
    rcases hdone with hdone | hdone
    · have hmoves := getNextBid_moves hm hkinds hdone hbid
      omega
    · have hmoves := getNextAsk_moves hm (by unfold AskDone; rwa [hsame]) hask
      omega

end Bts.Blockchain.MarketProgress
