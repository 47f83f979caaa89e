import Bts.Blockchain.MarketLedger

namespace Bts.Blockchain.BaseLedger

open Base Word Maps Amounts MarketRecords Transactions Pending Database Layers MarketEngine
  MarketMatch MarketExecute MarketLoop MarketRuns MarketBooks MarketEffects MarketTrades MarketSync
  MarketPasses MarketCovers MarketLedger Holdings

/-- A position has at least the collateral that the engine has seen. -/
def AtLeast (old stored : CollateralRecord) : Prop :=
  0 ≤ old.collateralBalance ∧ old.collateralBalance ≤ stored.collateralBalance

def HandAtLeast (ask : MarketOrder) (_ stored : CollateralRecord) : Prop :=
  ∃ old, ask.collateral = some old ∧ 0 ≤ old ∧ old ≤ stored.collateralBalance

theorem atLeast_reading : Reading AtLeast HandAtLeast :=
  ⟨fun _ r _ h => ⟨r.collateralBalance, rfl, h⟩, fun _ _ _ _ h _ => ⟨_, rfl, h, le_rfl⟩⟩

section Model

variable [Fc]

def baseHeld (m : Market) (e : EngineState) : Int :=
  heldBalances m.baseId (m.pendingState e) + heldAsks m.baseId (m.pendingState e) +
    heldShorts m.baseId (m.pendingState e) + heldCollateral m.baseId (m.pendingState e) +
    e.baseAsset.collectedFees

structure BaseSound (m : Market) (e : EngineState) : Prop where
  balances : Holdings.balances.Nonneg (inBalance m.baseId) (m.pendingState e)
  asks : Holdings.asks.Nonneg (inAsk m.baseId) (m.pendingState e)
  shorts : Holdings.shorts.Nonneg (inAsk m.baseId) (m.pendingState e)
  positions : Holdings.positions.Nonneg (inCollateral m.baseId) (m.pendingState e)
  fees : 0 ≤ e.baseAsset.collectedFees

variable {m : Market} {e d : EngineState} {bid ask : MarketOrder} {mtrx mtrx' : MarketTransaction}

theorem BaseSound.parts (h : BaseSound m e) :
    (0 ≤ heldBalances m.baseId (m.pendingState e) ∧ 0 ≤ heldAsks m.baseId (m.pendingState e) ∧
      0 ≤ heldShorts m.baseId (m.pendingState e) ∧
      0 ≤ heldCollateral m.baseId (m.pendingState e)) ∧ 0 ≤ e.baseAsset.collectedFees :=
  ⟨⟨h.balances.held_nonneg, h.asks.held_nonneg, h.shorts.held_nonneg, h.positions.held_nonneg⟩,
    h.fees⟩

theorem BaseSound.of_parts {balances asks shorts collateral fees : Int}
    (hbalances : Holdings.balances.Nonneg (inBalance m.baseId) (m.pendingState d) ∧
      heldBalances m.baseId (m.pendingState d) = balances)
    (hasks : Holdings.asks.Nonneg (inAsk m.baseId) (m.pendingState d) ∧
      heldAsks m.baseId (m.pendingState d) = asks)
    (hshorts : Holdings.shorts.Nonneg (inAsk m.baseId) (m.pendingState d) ∧
      heldShorts m.baseId (m.pendingState d) = shorts)
    (hcollateral : Holdings.positions.Nonneg (inCollateral m.baseId) (m.pendingState d) ∧
      heldCollateral m.baseId (m.pendingState d) = collateral)
    (hfees : 0 ≤ fees ∧ d.baseAsset.collectedFees = fees) : BaseSound m d ∧
      baseHeld m d = balances + asks + shorts + collateral + fees := by
  refine ⟨⟨hbalances.1, hasks.1, hshorts.1, hcollateral.1, hfees.2 ▸ hfees.1⟩, ?_⟩
  unfold baseHeld
  rw [hbalances.2, hasks.2, hshorts.2, hcollateral.2, hfees.2]

section

variable (h : BaseSound m e)
include h

theorem BaseSound.refee (hbalances : d.layer.balances = e.layer.balances)
    (hasks : d.layer.asks = e.layer.asks) (hshorts : d.layer.shorts = e.layer.shorts)
    (hcollateral : d.layer.collateral = e.layer.collateral) (hfees : 0 ≤ d.baseAsset.collectedFees) :
    BaseSound m d ∧ baseHeld m d =
      baseHeld m e - e.baseAsset.collectedFees + d.baseAsset.collectedFees := by
  obtain ⟨hsound, hheld⟩ := BaseSound.of_parts (h.balances.keep (congrArg Table.rows hbalances))
    (h.asks.keep hasks) (h.shorts.keep hshorts) (h.positions.keep hcollateral) ⟨hfees, rfl⟩
  refine ⟨hsound, hheld.trans ?_⟩
  unfold baseHeld heldBalances heldAsks heldShorts heldCollateral Market.pendingState
  omega

theorem BaseSound.frame (hbalances : d.layer.balances = e.layer.balances)
    (hasks : d.layer.asks = e.layer.asks) (hshorts : d.layer.shorts = e.layer.shorts)
    (hcollateral : d.layer.collateral = e.layer.collateral)
    (hfees : d.baseAsset.collectedFees = e.baseAsset.collectedFees) :
    BaseSound m d ∧ baseHeld m d = baseHeld m e := by
  obtain ⟨hsound, hheld⟩ := h.refee hbalances hasks hshorts hcollateral (by rw [hfees]; exact h.fees)
  exact ⟨hsound, by omega⟩

theorem BaseSound.payOut {amount : Int} (owner : Nat) (hapart : AddressesApart)
    (hamount : 0 ≤ amount) (hroom : baseHeld m e + amount ≤ 9223372036854775807) :
    BaseSound m (m.payOut e owner m.baseId amount) ∧
      baseHeld m (m.payOut e owner m.baseId amount) = baseHeld m e + amount := by
  obtain ⟨⟨hb, ha, hs, hc⟩, hf⟩ := h.parts
  unfold baseHeld at hroom
  obtain ⟨hsound, hheld⟩ := BaseSound.of_parts
    (payOut_credit owner hapart h.balances hamount (by omega)) (h.asks.keep rfl)
    (h.shorts.keep rfl) (h.positions.keep rfl) ⟨h.fees, rfl⟩
  refine ⟨hsound, hheld.trans ?_⟩
  unfold baseHeld heldBalances heldAsks heldShorts heldCollateral Market.pendingState
  omega

theorem BaseSound.afterBid (mtrx : MarketTransaction) (hapart : AddressesApart)
    (htype : isBid bid.type)
    (hreceived : 0 ≤ mtrx.bidReceived.amount)
    (hroom : baseHeld m e + mtrx.bidReceived.amount ≤ 9223372036854775807) :
    BaseSound m (afterBid m e bid mtrx) ∧
      baseHeld m (afterBid m e bid mtrx) = baseHeld m e + mtrx.bidReceived.amount := by
  obtain ⟨⟨hb, ha, hs, hc⟩, hf⟩ := h.parts
  unfold baseHeld at hroom
  obtain ⟨hsound, hheld⟩ := BaseSound.of_parts (afterBid_balances mtrx htype
      (payOut_credit mtrx.bidOwner hapart h.balances hreceived (by omega)))
    (h.asks.keep (afterBid_asks mtrx htype)) (h.shorts.keep
      (afterBid_frame PendingState.shorts mtrx htype (fun _ _ _ => rfl) fun _ _ _ => rfl))
    (h.positions.keep (afterBid_positions mtrx htype)) ⟨h.fees, rfl⟩
  refine ⟨hsound, hheld.trans ?_⟩
  unfold baseHeld heldBalances heldAsks heldShorts heldCollateral Market.pendingState
  omega

theorem BaseSound.ask_le (hpair : m.isPair ask.marketIndex.orderPrice)
    (hstored : Holdings.asks.get (m.pendingState e) ask.marketIndex = some ask.state) :
    0 ≤ ask.state.balance ∧ ask.state.balance ≤ heldAsks m.baseId (m.pendingState e) := by
  have hnonneg := h.asks _ _ hstored
  have hle := h.asks.le_held hstored
  have hweight : inAsk m.baseId ask.marketIndex ask.state = ask.state.balance := if_pos hpair.2
  rw [hweight] at hnonneg hle
  exact ⟨hnonneg, hle⟩

theorem BaseSound.afterAsk (toQuote : Bool) (hapart : AddressesApart)
    (hm : Setting m) (htype : ask.type = .askOrder) (hpair : m.isPair ask.marketIndex.orderPrice)
    (hstored : Holdings.asks.get (m.pendingState e) ask.marketIndex = some ask.state)
    (hpaid : askRest ask mtrx = ask.state.balance - mtrx.askPaid.amount)
    (hnonneg : 0 ≤ mtrx.askPaid.amount) (hrest : 0 ≤ askRest ask mtrx)
    (hroom : baseHeld m e ≤ 9223372036854775807) :
    BaseSound m (afterAsk m e ask mtrx toQuote) ∧
      baseHeld m (afterAsk m e ask mtrx toQuote) = baseHeld m e - mtrx.askPaid.amount -
        if toQuote then askDust ask mtrx else 0 := by
  obtain ⟨hdust, hdust'⟩ := askDust_le hrest
  obtain ⟨⟨hb, ha, hs, hc⟩, hf⟩ := h.parts
  obtain ⟨-, hask⟩ := h.ask_le hpair hstored
  have hweight : ∀ r : OrderRecord, inAsk m.baseId ask.marketIndex r = r.balance :=
    fun _ => if_pos hpair.2
  have hfees : (MarketEffects.afterAsk m e ask mtrx toQuote).baseAsset.collectedFees =
      e.baseAsset.collectedFees + if toQuote then 0 else askDust ask mtrx := by
    cases toQuote
    · unfold baseHeld at hroom
      have hfit : Fits (e.baseAsset.collectedFees + askDust ask mtrx) := by
        unfold Fits
        omega
      exact int64_of_fits hfit
    · exact (Int.add_zero _).symm
  have hasks := afterAsk_asks mtrx toQuote htype hstored h.asks (by
    rw [hweight]
    dsimp only [withBalance]
    omega)
  rw [hweight, hweight] at hasks
  obtain ⟨hsound, hheld⟩ := BaseSound.of_parts
    (afterAsk_balances mtrx toQuote htype (payOut_other hapart (ne_of_gt hm.ordered) h.balances)) hasks
    (h.shorts.keep (afterAsk_frame PendingState.shorts mtrx toQuote htype fun _ _ _ => rfl))
    (h.positions.keep (afterAsk_frame PendingState.collateral mtrx toQuote htype fun _ _ _ => rfl))
    ⟨by split <;> omega, hfees⟩
  refine ⟨hsound, hheld.trans ?_⟩
  dsimp only [withBalance]
  unfold baseHeld heldBalances heldAsks heldShorts heldCollateral Market.pendingState
  cases toQuote <;> simp only [Bool.false_eq_true, if_true, if_false] <;> omega

end

theorem inCollateral_base {key : MarketIndexKey} (hkey : key.orderPrice.baseAssetId = m.baseId) :
    inCollateral m.baseId key = CollateralRecord.collateralBalance := by
  funext r
  exact if_pos hkey

theorem BaseSound.afterShort {key : MarketIndexKey} {sc total : Asset} {paid : Int}
    (h : BaseSound m e) (mtrx : MarketTransaction) (hpair : m.isPair bid.marketIndex.orderPrice)
    (hstored : Holdings.shorts.get (m.pendingState e) bid.marketIndex = some bid.state)
    (hkey : key.orderPrice.baseAssetId = m.baseId) (hsc : 0 ≤ sc.amount)
    (hrest : sc.amount ≤ bid.state.balance) (hpaid : 0 ≤ paid)
    (htotal : total.amount = sc.amount + paid)
    (hroom : baseHeld m e + paid ≤ 9223372036854775807) :
    BaseSound m (afterShort m e bid mtrx key sc total) ∧
      baseHeld m (afterShort m e bid mtrx key sc total) = baseHeld m e + paid := by
  obtain ⟨⟨hb, ha, hs, hc⟩, hf⟩ := h.parts
  have hweight : ∀ r : OrderRecord, inAsk m.baseId bid.marketIndex r = r.balance :=
    fun _ => if_pos hpair.2
  have hshort := h.shorts.le_held hstored
  have hold := h.positions.elim_le key
  rw [hweight] at hshort
  rw [inCollateral_base hkey] at hold
  unfold baseHeld at hroom
  change _ ≤ heldShorts m.baseId (m.pendingState e) at hshort
  change _ ∧ _ ≤ heldCollateral m.baseId (m.pendingState e) at hold
  have hbalance : int64 (bid.state.balance - sc.amount) = bid.state.balance - sc.amount :=
    int64_self
  have hcover : (openedCover m e bid key total.amount mtrx.bidPaid.amount).collateralBalance =
      (Holdings.positions.get (m.pendingState e) key).elim 0 CollateralRecord.collateralBalance +
        total.amount := by
    rw [openedCover_amounts.1]
    exact int64_self
  have hshortsOwn : Holdings.shorts.own (MarketEffects.afterShort m e bid mtrx key sc total).layer =
      (Holdings.shorts.own e.layer).insert bid.marketIndex
        (withBalance bid (int64 (bid.state.balance - sc.amount))).state := rfl
  have hpositionsOwn :
      Holdings.positions.own (MarketEffects.afterShort m e bid mtrx key sc total).layer =
        (Holdings.positions.own e.layer).insert key
          (openedCover m e bid key total.amount mtrx.bidPaid.amount) := rfl
  have hshorts := h.shorts.store hshortsOwn (by rw [hweight]; dsimp only [withBalance]; omega)
  have hpositions := h.positions.store hpositionsOwn (by rw [inCollateral_base hkey]; omega)
  have hstored' : Holdings.shorts.get (.pending e.layer m.prior) bid.marketIndex = some bid.state :=
    hstored
  rw [hstored', Option.elim_some, hweight, hweight] at hshorts
  rw [inCollateral_base hkey, hcover] at hpositions
  obtain ⟨hsound, hheld⟩ := BaseSound.of_parts
    (d := MarketEffects.afterShort m e bid mtrx key sc total) (h.balances.keep rfl)
    (h.asks.keep rfl) hshorts hpositions ⟨h.fees, rfl⟩
  refine ⟨hsound, hheld.trans ?_⟩
  dsimp only [withBalance]
  unfold baseHeld heldBalances heldAsks heldShorts heldCollateral Market.pendingState
  omega

theorem BaseSound.settleCover {stored : CollateralRecord} {collateral : Int}
    (h : BaseSound m e) (owed : Int) (hpair : m.isPair ask.marketIndex.orderPrice)
    (hstored : Holdings.positions.get (m.pendingState e) ask.marketIndex = some stored)
    (hcollateral : 0 ≤ collateral) :
    BaseSound m (settleCover e ask collateral owed) ∧
      baseHeld m (settleCover e ask collateral owed) =
        baseHeld m e - stored.collateralBalance + collateral := by
  have hown : Holdings.positions.own (MarketEffects.settleCover e ask collateral owed).layer =
      (Holdings.positions.own e.layer).insert ask.marketIndex
        (settled e.currentCollatRecord collateral owed) := rfl
  have hpositions := h.positions.store hown (by rw [inCollateral_base hpair.2]; exact hcollateral)
  have hstored' : Holdings.positions.get (.pending e.layer m.prior) ask.marketIndex = some stored :=
    hstored
  rw [hstored', Option.elim_some, inCollateral_base hpair.2] at hpositions
  obtain ⟨hsound, hheld⟩ := BaseSound.of_parts
    (d := MarketEffects.settleCover e ask collateral owed) (h.balances.keep rfl)
    (h.asks.keep rfl) (h.shorts.keep rfl) hpositions ⟨h.fees, rfl⟩
  refine ⟨hsound, hheld.trans ?_⟩
  dsimp only [settled]
  unfold baseHeld heldBalances heldAsks heldShorts heldCollateral Market.pendingState
  omega

theorem charged_ok {rest returned : Int} (hrest : 0 < rest) (hmax : rest ≤ maxShares)
    (hfees : mtrx.feesCollected.amount = 0)
    (h : m.chargeMarginCall e mtrx rest = .ok (mtrx', returned)) :
    0 ≤ returned ∧ 0 ≤ mtrx'.feesCollected.amount ∧ returned + mtrx'.feesCollected.amount = rest ∧
      (mtrx'.feesCollected.amount = 0 ∨ mtrx'.feesCollected.assetId = m.baseId) := by
  unfold maxShares at hmax
  rcases chargeMarginCall_ok h with ⟨rfl, rfl⟩ | ⟨-, -, rfl, rfl⟩
  · exact ⟨hrest.le, hfees.ge, by omega, Or.inl hfees⟩
  · have hproduct : int64 (rest * 5000) = rest * 5000 := int64_self
    have hfee : (int64 (rest * 5000)).tdiv 100000 = rest * 5000 / 100000 := by
      rw [hproduct]
      exact Int.tdiv_eq_ediv_of_nonneg (by omega)
    have hleft : int64 (rest - rest * 5000 / 100000) = rest - rest * 5000 / 100000 := int64_self
    have hcharged : int64 (rest * 5000 / 100000) = rest * 5000 / 100000 := int64_self
    rw [hfee, hleft, hcharged]
    exact ⟨by omega, by dsimp only; omega, by dsimp only; omega, Or.inr rfl⟩

/-- What the cover at hand pays, and what it gets back, comes out of its position. What the
position has on top of the cover is lost. -/
theorem BaseSound.payCurrentCover {stored : CollateralRecord} {old : Int} (hapart : AddressesApart)
    (h : BaseSound m e) (hpair : m.isPair ask.marketIndex.orderPrice)
    (hstored : Holdings.positions.get (m.pendingState e) ask.marketIndex = some stored)
    (hold : ask.collateral = some old) (hnonneg : 0 ≤ old)
    (hmax : old ≤ maxShares) (hpayable : Payable old mtrx.askPaid) (hpaid : 0 ≤ mtrx.askPaid.amount)
    (hfees : mtrx.feesCollected.amount = 0) (hroom : baseHeld m e ≤ 9000000000000000000)
    (hpay : m.payCurrentCover e ask mtrx = .ok (d, mtrx')) :
    BaseSound m d ∧ 0 ≤ mtrx'.feesCollected.amount ∧
      (mtrx'.feesCollected.amount = 0 ∨ mtrx'.feesCollected.assetId = m.baseId) ∧
      baseHeld m d + mtrx'.feesCollected.amount =
        baseHeld m e - (stored.collateralBalance - old) - mtrx.askPaid.amount := by
  unfold maxShares at hmax
  obtain ⟨-, expiration, debt, payment, old', -, -, -, -, -, -, hold', hrest, hcases⟩ :=
    payCurrentCover_ok hpay
  cases hold.symm.trans hold'
  have hleft : coverRest old mtrx = old - mtrx.askPaid.amount :=
    hpayable.rest hnonneg (by omega) hpaid
  obtain ⟨hsound, hheld⟩ := h.frame (d := { e with
    quoteAsset := redeem e.quoteAsset payment (unpaid (coverRest old mtrx) payment) })
    rfl rfl rfl rfl rfl
  rcases hcases with ⟨-, rfl, hmtrx⟩ | ⟨-, hpos, charged, returned, hcharge, rfl, rfl⟩
  · obtain ⟨hsound', hheld'⟩ := hsound.settleCover
      (payment.payoffBalance - unpaid (coverRest old mtrx) payment) hpair hstored hrest
    rw [hmtrx]
    refine ⟨hsound', hfees.ge, Or.inl hfees, ?_⟩
    omega
  · obtain ⟨hreturned, hfee, hsum, hasset⟩ :=
      charged_ok hpos (by unfold maxShares; omega) hfees hcharge
    obtain ⟨hpaidOut, hheldOut⟩ := hsound.payOut ask.getOwner hapart hreturned
      (by rw [hheld]; omega)
    obtain ⟨hsound', hheld'⟩ := hpaidOut.settleCover
      (payment.payoffBalance - unpaid (coverRest old mtrx) payment) hpair hstored (le_refl 0)
    refine ⟨hsound', hfee, hasset, ?_⟩
    dsimp only
    omega

theorem BaseSound.booked {e' : EngineState} (h : BaseSound m e) (hs : Synced m e)
    (hbooked : Booked mtrx e e')
    (hfees : mtrx.feesCollected.assetId = m.baseId → 0 ≤ mtrx.feesCollected.amount ∧
      baseHeld m e + mtrx.feesCollected.amount ≤ 9223372036854775807) :
    BaseSound m e' ∧ baseHeld m e' = baseHeld m e +
      if mtrx.feesCollected.assetId = m.baseId then mtrx.feesCollected.amount else 0 := by
  obtain ⟨⟨hb, ha, hshorts, hc⟩, hf⟩ := h.parts
  have hcollected : 0 ≤ e'.baseAsset.collectedFees ∧
      e'.baseAsset.collectedFees = e.baseAsset.collectedFees +
        if mtrx.feesCollected.assetId = m.baseId then mtrx.feesCollected.amount else 0 := by
    rw [hbooked.baseAsset hs]
    split
    next hasset =>
      obtain ⟨hnonneg, hroom⟩ := hfees hasset
      unfold baseHeld at hroom
      have hfit : (MarketEffects.collect e.baseAsset mtrx.feesCollected.amount).collectedFees =
          e.baseAsset.collectedFees + mtrx.feesCollected.amount := int64_self
      exact ⟨by omega, hfit⟩
    next => exact ⟨hf, (Int.add_zero _).symm⟩
  obtain ⟨hsound, hheld⟩ := h.refee (d := e') (by rw [hbooked.layer]) (by rw [hbooked.layer])
    (by rw [hbooked.layer]) (by rw [hbooked.layer]) hcollected.1
  exact ⟨hsound, by omega⟩

structure BaseState (m : Market) (e : EngineState) : Prop where
  synced : Synced m e
  covers : Covers AtLeast HandAtLeast m e
  pairs : CoverPairs m e
  sound : BaseSound m e
  bound : baseHeld m e ≤ maxShares

theorem BaseState.parts (h : BaseState m e) :
    (0 ≤ heldBalances m.baseId (m.pendingState e) ∧ 0 ≤ heldAsks m.baseId (m.pendingState e) ∧
      0 ≤ heldShorts m.baseId (m.pendingState e) ∧ 0 ≤ heldCollateral m.baseId (m.pendingState e)) ∧
    (heldAsks m.baseId (m.pendingState e) ≤ baseHeld m e ∧
      heldShorts m.baseId (m.pendingState e) ≤ baseHeld m e ∧
      heldCollateral m.baseId (m.pendingState e) ≤ baseHeld m e) ∧
    baseHeld m e ≤ 1000000000000000 := by
  obtain ⟨⟨hb, ha, hs, hc⟩, hf⟩ := h.sound.parts
  refine ⟨⟨hb, ha, hs, hc⟩, ?_, h.bound⟩
  unfold baseHeld
  exact ⟨by omega, by omega, by omega⟩

/-- The collateral of a short stays in the base asset, and so does what it is paid where it
sells anything. The position that it opens may be one that the engine has seen. -/
theorem BaseState.payCurrentShort {t : MarketTransaction} {feed : Price}
    {exchanged paid collateral : Asset} (h : BaseState m e) (hand : Hand m e bid ask)
    (ht : ShortTrade m e bid ask t feed exchanged paid collateral) (hpaid : 0 ≤ paid.amount)
    (hpaidMax : paid.amount ≤ maxShares)
    (hpay : m.payCurrentShort e bid (filled t exchanged paid (some collateral)) = .ok (d, mtrx)) :
    Covers AtLeast HandAtLeast m d ∧ BaseSound m d ∧
      baseHeld m d = baseHeld m e + (if exchanged.amount = 0 then 0 else paid.amount) ∧
      Grown CollateralRecord.collateralBalance m e d (openedKey m e bid ask t).toOption := by
  obtain ⟨⟨hb, ha, hs, hc⟩, ⟨hasks, hwhole, hcollateral⟩, hbound⟩ := h.parts
  unfold maxShares at hpaidMax
  rcases ht.pays hand hpay with ⟨hzero, hkey, sc, rfl⟩ |
    ⟨hpos, key, sc, total, hkey, hpair, hstored, hamounts, rfl⟩
  · obtain ⟨hsound, hheld⟩ := h.sound.frame (d := afterNoSale e bid sc) rfl rfl rfl rfl rfl
    rw [hkey, if_pos hzero, Int.add_zero]
    exact ⟨h.covers.same rfl rfl rfl rfl rfl, hsound, hheld, grown_noSale⟩
  · have hbalance := h.sound.shorts _ _ hstored
    have hbalance' := h.sound.shorts.le_held hstored
    have hweight : inAsk m.baseId bid.marketIndex bid.state = bid.state.balance :=
      if_pos hand.bidPair.2
    rw [hweight] at hbalance hbalance'
    change _ ≤ heldShorts m.baseId (m.pendingState e) at hbalance'
    obtain ⟨hscPos, hscLe, hsum, htotalPos⟩ := hamounts hbalance (by omega) hpaid (by omega)
    obtain ⟨hsound, hheld⟩ := h.sound.afterShort (filled t exchanged paid (some collateral))
      hand.bidPair hstored hpair.2 hscPos hscLe hpaid hsum (by omega)
    obtain ⟨hcovers, hgrown⟩ := covers_grown CollateralRecord.collateralBalance bid
      (filled t exchanged paid (some collateral)) key sc _ h.covers
      (fun _ _ _ hold hle => ⟨hold.1, hold.2.trans hle⟩)
      (fun _ _ _ _ ⟨c, hask, hnonneg, hold⟩ hle => ⟨c, hask, hnonneg, hold.trans hle⟩) htotalPos
      (fun r hr => by
        have hr' := h.sound.positions.le_held hr
        have hr'' := h.sound.positions _ _ hr
        rw [inCollateral_base hpair.2] at hr' hr''
        change _ ≤ heldCollateral m.baseId (m.pendingState e) at hr'
        rw [openedCover_amounts.1, hr, Option.elim_some]
        apply int64_of_fits
        unfold Fits
        omega)
    rw [hkey, if_neg (by omega)]
    exact ⟨hcovers, hsound, hheld, hgrown⟩

def shortKeeps (m : Market) (e : EngineState) (bid ask : MarketOrder) (t : MarketTransaction) : Prop :=
  match shortTrade m e bid ask t with
  | .ok (exchanged, paid) =>
    (exchanged.amount = 0 → paid.amount = 0) ∧
    (ask.type = .askOrder → askDust ask (filled t exchanged paid none) = 0) ∧
    (ask.type = .coverOrder → (openedKey m e bid ask t).toOption ≠ some ask.marketIndex)
  | .error _ => True

instance (m : Market) (e : EngineState) (bid ask : MarketOrder) (t : MarketTransaction) :
    Decidable (shortKeeps m e bid ask t) := by
  unfold shortKeeps
  split <;> infer_instance

/-- A pass keeps the base asset: the cover at hand is the one that is stored, a short that
sells nothing takes nothing, and an ask that is filled by a short leaves nothing. -/
def keepsBase (m : Market) (e : EngineState) (bid ask : MarketOrder) : Prop :=
  match judge m e bid ask with
  | .ok (.trade t) =>
    (ask.type = .coverOrder → ask.collateral =
      (Holdings.positions.get (m.pendingState e) ask.marketIndex).map (·.collateralBalance)) ∧
    (bid.type = .shortOrder → shortKeeps m e bid ask t)
  | _ => True

instance (m : Market) (e : EngineState) (bid ask : MarketOrder) :
    Decidable (keepsBase m e bid ask) := by
  unfold keepsBase
  exact decidableTrade (judge m e bid ask) _

theorem keepsBase_trade {t : MarketTransaction} (h : judge m e bid ask = .ok (.trade t)) :
    keepsBase m e bid ask ↔
      (ask.type = .coverOrder → ask.collateral =
        (Holdings.positions.get (m.pendingState e) ask.marketIndex).map (·.collateralBalance)) ∧
      (bid.type = .shortOrder → shortKeeps m e bid ask t) := by
  unfold keepsBase
  rw [h]

/-- What a pass does to the base asset: it takes something exactly if it is not one of those
that keep it. -/
structure Accounted (m : Market) (e : EngineState) (bid ask : MarketOrder) (e' : EngineState) :
    Prop where
  covers : Covers AtLeast HandAtLeast m e'
  sound : BaseSound m e'
  le : baseHeld m e' ≤ baseHeld m e
  keeps : baseHeld m e' = baseHeld m e ↔ keepsBase m e bid ask

section Passes

variable {t : MarketTransaction} {d' e' : EngineState} {feed : Price}
  {forSale exchanged paid collateral : Asset}

theorem BaseState.hand (h : BaseState m e) (hand : Hand m e bid ask)
    (htype : ask.type = .coverOrder) : ∃ stored old,
      Holdings.positions.get (m.pendingState e) ask.marketIndex = some stored ∧
      ask.collateral = some old ∧ 0 ≤ old ∧ old ≤ stored.collateralBalance ∧ old ≤ maxShares := by
  obtain ⟨-, ⟨-, -, hle'⟩, hbound⟩ := h.parts
  obtain ⟨-, stored, hstored, old, hold, hnonneg, hle⟩ := h.covers.current ask hand.hasAsk htype
  have hcollateral := h.sound.positions.le_held hstored
  rw [inCollateral_base hand.askPair.2] at hcollateral
  change _ ≤ heldCollateral m.baseId (m.pendingState e) at hcollateral
  exact ⟨stored, old, hstored, hold, hnonneg, hle, by unfold maxShares; omega⟩

theorem paid_le_collateral {F : MarketTransaction} {old : Int}
    (hc : Covering m e bid ask t F mtrx exchanged paid d d') (hold : ask.collateral = some old)
    (hnonneg : 0 ≤ old) (hmax : old ≤ maxShares) : Payable old paid ∧ paid.amount ≤ old := by
  unfold maxShares at hmax
  obtain ⟨_, hold', hpayable⟩ := hc.payable
  cases hold.symm.trans hold'
  obtain ⟨-, _, _, _, old', -, -, -, -, -, -, hold', hrest, -⟩ := payCurrentCover_ok hc.coverPays
  cases hold.symm.trans hold'
  unfold coverRest at hrest
  rw [hc.pays, hpayable.rest hnonneg (by omega) hc.nonneg.2] at hrest
  exact ⟨hpayable, by omega⟩

variable (h : BaseState m e) (hapart : AddressesApart) (hbooked : Booked mtrx d' e')
include h hapart hbooked

theorem BaseState.accounted_askBid (hdeal : AskBid m e bid ask t mtrx d d') :
    Accounted m e bid ask e' := by
  have hne : m.quoteId ≠ m.baseId := ne_of_gt hdeal.setting.ordered
  obtain ⟨-, hpaid, -⟩ := hdeal.checked.nonneg
  obtain ⟨⟨hb, ha, hs, hc⟩, ⟨hwhole, -, -⟩, hbound⟩ := h.parts
  obtain ⟨hd, hcurrent⟩ := hdeal.between
  have hd' := hdeal.after
  have hcovers := (h.covers.payCurrentBid h.synced hdeal.setting hdeal.bidPays).payCurrentAsk hd
    hdeal.setting hdeal.askPays
  have hreceived := hdeal.received
  obtain ⟨hisBid, -, rfl⟩ := payCurrentBid_ok hdeal.setting.current h.synced.quoteFees hdeal.bidPays
  obtain ⟨-, hrest, rfl⟩ :=
    payCurrentAsk_ok hdeal.setting.current hd.quoteFees hd.baseFees hdeal.askPays
  obtain ⟨hnonneg, hle⟩ := h.sound.ask_le hdeal.askPair (hdeal.askStored.get_ask hdeal.type)
  have heq : askRest ask mtrx = ask.state.balance - mtrx.askPaid.amount :=
    hdeal.askPayable.rest hnonneg (by omega) hpaid
  obtain ⟨hsound, hheld⟩ := h.sound.afterBid mtrx hapart hisBid (by omega) (by omega)
  obtain ⟨hsound', hheld'⟩ := hsound.afterAsk false hapart hdeal.setting hdeal.type hdeal.askPair
    ((hd.currentAsk ask hcurrent).get_ask hdeal.type) heq hpaid hrest (by omega)
  rw [if_neg Bool.false_ne_true] at hheld'
  obtain ⟨hsound'', hheld''⟩ := hsound'.booked hd' hbooked
    (fun hbase => absurd (hdeal.feesAsset.symm.trans hbase) hne)
  rw [if_neg (by rw [hdeal.feesAsset]; exact hne)] at hheld''
  have hsame : baseHeld m e' = baseHeld m e := by omega
  refine ⟨hcovers.booked hbooked, hsound'', hsame.le, iff_of_true hsame ?_⟩
  rw [keepsBase_trade hdeal.judged]
  exact ⟨fun hcover => absurd hcover (not_cover_of_ask hdeal.type),
    fun hshort => absurd hshort (not_short_of_isBid hdeal.isBid)⟩

theorem BaseState.accounted_askShort
    (hdeal : AskShort m e bid ask t mtrx feed exchanged paid collateral d d') :
    Accounted m e bid ask e' := by
  obtain ⟨⟨hb, ha, hs, hc⟩, ⟨hwhole, -, -⟩, hbound⟩ := h.parts
  obtain ⟨hd, hcurrent⟩ := hdeal.between
  have hd' := hdeal.after
  have ht := askShort_trade hdeal
  obtain ⟨-, -, hpayable, -⟩ := shortFill_ok (hdeal.setting.feed feed hdeal.hasFeed) hdeal.type
    hdeal.askPair hdeal.isShort hdeal.bidPair hdeal.fill
  obtain ⟨hpaidEq, -, hfees⟩ := shortPaid_fields hdeal.shortPays
  have hpaid := hdeal.checked.nonneg.2.1
  rw [hpaidEq] at hpaid
  have hdust : askDust ask mtrx = askDust ask (filled t exchanged paid none) := by
    obtain ⟨-, -, sc, -, -, rfl, -⟩ := payCurrentShort_ok hdeal.shortPays
    rfl
  obtain ⟨hnonneg, hle⟩ := h.sound.ask_le hdeal.askPair (hdeal.askStored.get_ask hdeal.type)
  have heq : askRest ask mtrx = ask.state.balance - mtrx.askPaid.amount := by
    unfold askRest
    rw [hpaidEq]
    exact hpayable.rest hnonneg (by omega) hpaid
  have haskPays := hdeal.askPays
  obtain ⟨-, hrest, hd'eq⟩ :=
    payCurrentAsk_ok hdeal.setting.current hd.quoteFees hd.baseFees haskPays
  obtain ⟨hcovers, hsound, hheld, -⟩ := h.payCurrentShort hdeal.toHand ht hpaid
    (by unfold maxShares; rw [heq, hpaidEq] at hrest; omega) hdeal.shortPays
  have hcovers' := hcovers.payCurrentAsk hd hdeal.setting haskPays
  subst hd'eq
  obtain ⟨hdustNonneg, hdustLe⟩ := askDust_le hrest
  rw [heq, hpaidEq] at hdustLe
  obtain ⟨hsound', hheld'⟩ := hsound.afterAsk true hapart hdeal.setting hdeal.type hdeal.askPair
    ((hd.currentAsk ask hcurrent).get_ask hdeal.type) heq (by rw [hpaidEq]; exact hpaid) hrest
    (by rw [hheld]; split <;> omega)
  rw [if_pos rfl, hpaidEq, hheld] at hheld'
  have hzero : mtrx.feesCollected.amount = 0 := by
    rw [hfees, (hdeal.judge_ok hdeal.judged).fees]
  obtain ⟨hsound'', hheld''⟩ := hsound'.booked hd' hbooked
    (fun _ => by rw [hzero, hheld']; exact ⟨le_rfl, by split <;> omega⟩)
  rw [hzero, ite_self, Int.add_zero, hheld', hdust] at hheld''
  refine ⟨hcovers'.booked hbooked, hsound'', by rw [hheld'']; split <;> omega, ?_⟩
  rw [hheld'', keepsBase_trade hdeal.judged]
  unfold shortKeeps
  rw [ht.trade]
  constructor
  · intro hsame
    refine ⟨fun hcover => absurd hcover (not_cover_of_ask hdeal.type), fun _ =>
      ⟨fun hexchanged => ?_, fun _ => ?_, fun hcover => absurd hcover (not_cover_of_ask hdeal.type)⟩⟩
    · omega
    · split at hsame <;> omega
  · rintro ⟨-, hkeep⟩
    obtain ⟨hpaidZero, hdustZero, -⟩ := hkeep hdeal.isShort
    rw [hdustZero hdeal.type]
    split
    next hexchanged =>
      omega
    next => omega

/-- What the cover at hand pays comes out of its position, and what the position has on top
of the cover is lost. -/
theorem BaseState.accounted_cover {F : MarketTransaction} {stored stored' : CollateralRecord} {x : Int}
    (hc : Covering m e bid ask t F mtrx exchanged paid d d')
    (hcovers : Covers AtLeast HandAtLeast m d) (hsound : BaseSound m d)
    (hheld : baseHeld m d = baseHeld m e + x) (hx : 0 ≤ x ∧ x ≤ paid.amount)
    (hstored : Holdings.positions.get (m.pendingState e) ask.marketIndex = some stored)
    (hstored' : Holdings.positions.get (m.pendingState d) ask.marketIndex = some stored')
    (hgrown : stored.collateralBalance ≤ stored'.collateralBalance)
    (hkeep : x = paid.amount ∧ stored'.collateralBalance = stored.collateralBalance ↔
      (bid.type = .shortOrder → shortKeeps m e bid ask t)) : Accounted m e bid ask e' := by
  obtain ⟨-, -, hbound⟩ := h.parts
  obtain ⟨_, old, hstored'', hold, hnonneg, hle, hmax⟩ := h.hand hc.toHand hc.type
  cases hstored.symm.trans hstored''
  obtain ⟨hpayable, hpaidLe⟩ := paid_le_collateral hc hold hnonneg hmax
  have hmax' := hmax
  unfold maxShares at hmax'
  have hpaid := hc.nonneg.2
  have hpays := hc.pays
  obtain ⟨hsound', hfee, hasset, hsum⟩ := hsound.payCurrentCover hapart hc.askPair hstored' hold
    hnonneg hmax (by rw [hpays]; exact hpayable) (by rw [hpays]; exact hpaid) hc.noFees (by omega)
    hc.coverPays
  rw [hpays, hheld] at hsum
  obtain ⟨hsound'', hheld''⟩ := hsound'.booked hc.after hbooked (fun _ => ⟨hfee, by omega⟩)
  have hall : baseHeld m e' = baseHeld m e + x - (stored'.collateralBalance - old) - paid.amount := by
    rw [hheld'', ← hsum]
    split
    · rfl
    next hne =>
      omega
  refine ⟨(hcovers.payCurrentCover atLeast_reading hc.current hc.coverPays).booked hbooked, hsound'',
    by omega, ?_⟩
  rw [hall, keepsBase_trade hc.judged, hstored, hold, Option.map_some, Option.some.injEq, ← hkeep]
  constructor
  · intro hsame
    exact ⟨fun _ => by omega, by omega, by omega⟩
  · rintro ⟨hsame, hpaidAll, hsame'⟩
    have heq := hsame hc.type
    omega

theorem BaseState.accounted_coverBid
    (hdeal : CoverBid m e bid ask t mtrx forSale exchanged paid d d') :
    Accounted m e bid ask e' := by
  have hc := coverBid_covering hdeal
  obtain ⟨-, -, hbound⟩ := h.parts
  obtain ⟨stored, old, hstored, hold, hnonneg, -, hmax⟩ := h.hand hdeal.toHand hdeal.type
  obtain ⟨-, hpaidLe⟩ := paid_le_collateral hc hold hnonneg hmax
  unfold maxShares at hmax
  have hcovers := h.covers.payCurrentBid h.synced hdeal.setting hdeal.bidPays
  obtain ⟨hisBid, -, rfl⟩ := payCurrentBid_ok hdeal.setting.current h.synced.quoteFees hdeal.bidPays
  obtain ⟨hsound, hheld⟩ := h.sound.afterBid (filled t exchanged paid t.shortCollateral) hapart
    hisBid hc.nonneg.2 (by dsimp only [filled]; omega)
  refine h.accounted_cover hapart hbooked hc hcovers hsound hheld ⟨hc.nonneg.2, le_rfl⟩ hstored ?_
    le_rfl (iff_of_true ⟨rfl, rfl⟩ fun hshort => absurd hshort (not_short_of_isBid hisBid))
  rw [Market.pendingState, Shelf.get_congr Holdings.positions m.prior (afterBid_positions _ hisBid)]
  exact hstored

theorem BaseState.accounted_coverShort {t' : MarketTransaction}
    (hdeal : CoverShort m e bid ask t t' mtrx feed forSale exchanged paid collateral d d') :
    Accounted m e bid ask e' := by
  have hc := coverShort_covering hdeal
  have ht := coverShort_trade hdeal
  have hpaid := hc.nonneg.2
  obtain ⟨stored, old, hstored, hold, hnonneg, -, hmax⟩ := h.hand hdeal.toHand hdeal.type
  obtain ⟨-, hpaidLe⟩ := paid_le_collateral hc hold hnonneg hmax
  obtain ⟨hcovers, hsound, hheld, hgrown⟩ := h.payCurrentShort hdeal.toHand ht hpaid
    (hpaidLe.trans hmax) hdeal.shortPays
  obtain ⟨stored', hstored', hlarger, hopened⟩ := hgrown ask.marketIndex stored hstored
  refine h.accounted_cover hapart hbooked hc hcovers hsound hheld ⟨by split <;> omega,
    by split <;> omega⟩ hstored hstored' hlarger ?_
  rw [hopened]
  unfold shortKeeps
  rw [ht.trade]
  constructor
  · rintro ⟨hall, hkey⟩ -
    refine ⟨fun hzero => ?_, fun hask => absurd hdeal.type (not_cover_of_ask hask), fun _ => hkey⟩
    rw [if_pos hzero] at hall
    exact hall.symm
  · intro hshort
    obtain ⟨hpaidZero, -, hkey⟩ := hshort hdeal.isShort
    refine ⟨?_, hkey hdeal.type⟩
    split
    next hzero => exact (hpaidZero hzero).symm
    next => rfl

end Passes

theorem BaseState.pass {e' : EngineState} (h : BaseState m e) (hapart : AddressesApart)
    (hand : Hand m e bid ask) (hmatch : matchPair m e bid ask = .ok (some e')) :
    BaseState m e' ∧ baseHeld m e' ≤ baseHeld m e ∧
      (baseHeld m e' = baseHeld m e ↔ keepsBase m e bid ask) := by
  have hpassed := matchPair_passed hand hmatch
  have hall : Accounted m e bid ask e' := by
    cases hpassed with
    | bidDropped judged =>
      obtain ⟨hsound, hheld⟩ := h.sound.frame (d := { e with currentBid := none }) rfl rfl rfl rfl rfl
      refine ⟨h.covers.same rfl rfl rfl rfl rfl, hsound, hheld.le, iff_of_true hheld ?_⟩
      unfold keepsBase
      rw [judged]
      exact trivial
    | askDropped judged =>
      obtain ⟨hsound, hheld⟩ := h.sound.frame (d := { e with currentAsk := none }) rfl rfl rfl rfl rfl
      refine ⟨h.covers.frame rfl (List.Sublist.refl _) (List.Sublist.refl _) ?_, hsound, hheld.le,
        iff_of_true hheld ?_⟩
      · intro a hnone
        cases hnone
      · unfold keepsBase
        rw [judged]
        exact trivial
    | askBid deal booked => exact h.accounted_askBid hapart booked deal
    | askShort deal booked => exact h.accounted_askShort hapart booked deal
    | coverBid deal booked => exact h.accounted_coverBid hapart booked deal
    | coverShort deal booked => exact h.accounted_coverShort hapart booked deal
  exact ⟨⟨hpassed.synced hand.setting h.synced, hall.covers, h.pairs.matchPair hand hmatch,
    hall.sound, hall.le.trans h.bound⟩, hall.le, hall.keeps⟩

theorem base_accounts (hapart : AddressesApart) (hm : Setting m) :
    Accounts m (fun _ _ _ => True) (BaseState m) (baseHeld m) (keepsBase m) where
  bid e e' h ht := by
    have hsound : BaseSound m e' ∧ baseHeld m e' = baseHeld m e := by
      cases ht <;> exact h.sound.frame rfl rfl rfl rfl rfl
    exact ⟨⟨h.synced.bidTaken ht, h.covers.bidTaken ht, h.pairs.bidTaken ht, hsound.1,
      hsound.2.trans_le h.bound⟩, hsound.2⟩
  ask e e' h ht := by
    have hsound : BaseSound m e' ∧ baseHeld m e' = baseHeld m e := by
      cases ht <;> exact h.sound.frame rfl rfl rfl rfl rfl
    refine ⟨⟨h.synced.askTaken ht, h.covers.askTaken atLeast_reading ?_ ht,
      h.pairs.askTaken ht, hsound.1, hsound.2.trans_le h.bound⟩, hsound.2⟩
    intro _ key old r _ _ hR
    exact ⟨old.collateralBalance, rfl, hR⟩
  pass e e' bid ask h _ hbid hask hmatch :=
    h.pass hapart ⟨hm, h.synced, hbid, hask, h.pairs.current ask hask⟩ hmatch

/-- The base asset in balances, asks, shorts, collateral and fees. -/
def baseTotal (id : Int) (c : ChainInterface) : Int :=
  heldBalances id c + heldAsks id c + heldShorts id c + heldCollateral id c + collectedFees id c

/-- No amount of an asset is negative, and there is no more of it than there may be. -/
structure Solvent (id : Int) (c : ChainInterface) : Prop where
  balances : Holdings.balances.Nonneg (inBalance id) c
  asks : Holdings.asks.Nonneg (inAsk id) c
  shorts : Holdings.shorts.Nonneg (inAsk id) c
  positions : Holdings.positions.Nonneg (inCollateral id) c
  fees : 0 ≤ collectedFees id c
  bound : baseTotal id c ≤ maxShares

theorem opened_baseState {prior : ChainInterface} {quoteId baseId : Int}
    (h : Opened prior quoteId baseId m e) (hbook : OrderBook prior quoteId baseId)
    (hcovers : CoverBook prior quoteId baseId) (hsolvent : Solvent baseId prior) :
    BaseState m e ∧ baseHeld m e = baseTotal baseId prior := by
  have hsynced := opened_synced h hbook
  have hpairs := opened_pairs h hcovers.expirations
  have hstart : Covers AtLeast HandAtLeast m e := by
    refine opened_covers h hcovers fun k r hpair hr => ⟨?_, le_rfl⟩
    have hnonneg := hsolvent.positions k r hr
    unfold inCollateral at hnonneg
    rw [if_pos hpair.2] at hnonneg
    exact hnonneg
  have hbalances := h.get Holdings.balances rfl
  have hasks := h.get Holdings.asks rfl
  have hshorts := h.get Holdings.shorts rfl
  have hpositions := h.get Holdings.positions rfl
  obtain rfl : m.baseId = baseId := h.base
  have hfees : collectedFees m.baseId prior = e.baseAsset.collectedFees := by
    unfold collectedFees
    rw [h.baseAsset]
    rfl
  have hheld : baseHeld m e = baseTotal m.baseId prior := by
    unfold baseHeld baseTotal heldBalances heldAsks heldShorts heldCollateral
    rw [Shelf.held_of_get hbalances, Shelf.held_of_get hasks, Shelf.held_of_get hshorts,
      Shelf.held_of_get hpositions, hfees]
  exact ⟨⟨hsynced, hstart, hpairs, ⟨hsolvent.balances.congr hbalances, hsolvent.asks.congr hasks,
    hsolvent.shorts.congr hshorts, hsolvent.positions.congr hpositions, hfees ▸ hsolvent.fees⟩,
    hheld ▸ hsolvent.bound⟩, hheld⟩

theorem left_baseTotal {c : ChainInterface} (h : Left m d c) (hid : d.baseAsset.id = m.baseId) :
    baseTotal m.baseId c = baseHeld m d := by
  have hfees : collectedFees m.baseId c = d.baseAsset.collectedFees := by
    unfold collectedFees
    rw [h.assets, if_pos hid.symm]
    rfl
  unfold baseHeld baseTotal heldBalances heldAsks heldShorts heldCollateral
  rw [Shelf.held_of_get h.balances, Shelf.held_of_get h.asks, Shelf.held_of_get h.shorts,
    Shelf.held_of_get h.positions, hfees]

/-- A market keeps the base asset exactly if every pass does. -/
theorem execute_keeps_base_iff {layer layer' : PendingState} {prev : ChainInterface}
    {quoteId baseId : Int} {timestamp : Nat} {trxs : List MarketTransaction}
    (hapart : AddressesApart) (hfork : forkBlockNumV0429 ≤ prev.getHeadBlockNum)
    (hbook : OrderBook (.pending layer prev) quoteId baseId)
    (hcovers : CoverBook (.pending layer prev) quoteId baseId)
    (hsolvent : Solvent baseId (.pending layer prev))
    (hopen : openMarket (.pending layer prev) quoteId baseId = .ok (m, e))
    (hrun : runAndApply m e layer prev timestamp = .ok (layer', trxs)) :
    baseTotal baseId (.pending layer' prev) = baseTotal baseId (.pending layer prev) ↔
      MarketMeets m (keepsBase m) e := by
  have hopened := openMarket_ok hopen
  have hm : Setting m := hopened.setting hfork
  obtain ⟨hstate, hheld⟩ := opened_baseState hopened hbook hcovers hsolvent
  obtain ⟨d, hmatch, hleft⟩ := runAndApply_left hopen hrun
  obtain ⟨hd, -, hkeeps⟩ :=
    (base_accounts hapart hm).matchMarket hm marketMeets_true hmatch hstate
  have hleft' := left_baseTotal hleft hd.synced.baseId
  have hbase : m.baseId = baseId := hopened.base
  rw [hbase] at hleft'
  rw [hleft', ← hheld]
  exact hkeeps

end Model

theorem solvent_shortedAsk :
    letI := Fc.separate
    Solvent 0 (.pending {} (.database (shortedAsk 500))) := by
  apply @Solvent.mk Fc.separate <;> decide +kernel

theorem executed_shortedAsk :
    letI := Fc.separate
    Executed {} (.database (shortedAsk 500)) 22 0 1000000010 fun m e _ =>
      MarketMeets m (keepsBase m) e := by
  decide +kernel

theorem execute_keeps_base_iff_shortedAsk :
    letI := Fc.separate
    let prev := ChainInterface.database (shortedAsk 500)
    ∃ m e layer trxs, openMarket (.pending {} prev) 22 0 = .ok (m, e) ∧
      runAndApply m e {} prev 1000000010 = .ok (layer, trxs) ∧
      baseTotal 0 (.pending layer prev) = baseTotal 0 (.pending {} prev) := by
  let := Fc.separate
  intro prev
  obtain ⟨m, e, layer, trxs, hopen, hrun, hmeets⟩ := executed_shortedAsk.exists
  have hbook : OrderBook (.pending {} prev) 22 0 :=
    orderBook_database (by decide +kernel) (by decide +kernel)
  have hcovers : CoverBook (.pending {} prev) 22 0 := coverBook_database (by decide) (by decide)
  exact ⟨m, e, layer, trxs, hopen, hrun, (execute_keeps_base_iff separate_apart (by decide) hbook
    hcovers solvent_shortedAsk hopen hrun).mpr hmeets⟩

/-- The last five units of an ask that is filled by a short are worth less than a dollar.
They are collected as a fee of five dollars, and are no longer part of the base asset. -/
theorem execute_loses_base :
    letI := Fc.separate
    Executed {} (.database (shortedAsk 505)) 22 0 1000000010 fun _ _ layer =>
      baseTotal 0 (.pending {} (.database (shortedAsk 505))) = 1505 ∧
        baseTotal 0 (.pending layer (.database (shortedAsk 505))) = 1500 := by
  decide +kernel

end Bts.Blockchain.BaseLedger
