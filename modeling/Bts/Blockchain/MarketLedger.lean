import Mathlib.Data.Nat.Pairing
import Bts.Blockchain.MarketCovers

namespace Bts.Blockchain.MarketLedger

open Base Result Word Maps Errors Amounts Records MarketRecords Transactions Pending Database Layers
  Rules MarketEngine MarketMatch MarketLoop MarketRuns MarketBooks MarketEffects MarketTrades
  MarketSync MarketPasses MarketCovers Holdings

def encodeId : Int → Nat
  | .ofNat n => 2 * n
  | .negSucc n => 2 * n + 1

/-- Stand-ins for the library with which balances in different assets are apart. -/
@[reducible] def Fc.separate : Fc where
  __ := Fc.plain
  conditionAddress c := Nat.pair (encodeId c.assetId)
    (match c.data with
      | .signature owner _ => owner
      | _ => 0)

theorem dust_le {rest : Asset} (price : Price) (hrest : 0 ≤ rest.amount) :
    0 ≤ dust rest price ∧ dust rest price ≤ rest.amount := by
  rcases dust_cases rest price with h | h <;> rw [h] <;> omega

theorem bidDust_le {bid : MarketOrder} {mtrx : MarketTransaction} (hrest : 0 ≤ bidRest bid mtrx) :
    0 ≤ bidDust bid mtrx ∧ bidDust bid mtrx ≤ bidRest bid mtrx := dust_le _ hrest

theorem askDust_le {ask : MarketOrder} {mtrx : MarketTransaction} (hrest : 0 ≤ askRest ask mtrx) :
    0 ≤ askDust ask mtrx ∧ askDust ask mtrx ≤ askRest ask mtrx := dust_le _ hrest

theorem not_short_of_isBid {bid : MarketOrder} (h : isBid bid.type) : bid.type ≠ .shortOrder := by
  intro hshort
  rcases h with h | h <;> rw [h] at hshort <;> cases hshort

theorem not_cover_of_ask {ask : MarketOrder} (h : ask.type = .askOrder) :
    ask.type ≠ .coverOrder := by
  rw [h]
  exact nofun

section Model

variable [Fc]

/-- Balances in different assets have different addresses. -/
def AddressesApart : Prop := ∀ c c' : WithdrawCondition,
  Fc.conditionAddress c = Fc.conditionAddress c' → c.assetId = c'.assetId

variable {m : Market} {e : EngineState} {owner : Nat} {assetId amount id : Int}

theorem payee_address (m : Market) (e : EngineState) (owner : Nat) (assetId amount : Int) :
    Fc.conditionAddress (payee m e owner assetId amount).condition =
    Fc.conditionAddress (ownedBy owner assetId) := by
  unfold payee
  cases hr : (m.pendingState e).getBalanceRecord (Fc.conditionAddress (ownedBy owner assetId)) with
  | none => rfl
  | some r =>
    have hid : Fc.conditionAddress r.condition = _ := getBalanceRecord_id hr
    exact hid

theorem payOut_own : Holdings.balances.own (m.payOut e owner assetId amount).layer =
    (Holdings.balances.own e.layer).insert (Fc.conditionAddress (ownedBy owner assetId))
      (payee m e owner assetId amount) := by
  rw [← payee_address m e owner assetId amount]
  rfl

variable (id) in
def paidInto (m : Market) (e : EngineState) (owner : Nat) (assetId : Int) : Int :=
  (Holdings.balances.get (m.pendingState e) (Fc.conditionAddress (ownedBy owner assetId))).elim 0
    (inBalance id (Fc.conditionAddress (ownedBy owner assetId)))

section

variable (hapart : AddressesApart)
include hapart

theorem inBalance_payee :
    inBalance id (Fc.conditionAddress (ownedBy owner assetId)) (payee m e owner assetId amount) =
      if assetId = id then int64 (paidInto id m e owner assetId + amount) else 0 := by
  have hasset : (payee m e owner assetId amount).condition.assetId = assetId :=
    hapart _ _ (payee_address ..)
  unfold inBalance
  rw [hasset]
  split
  next hid =>
    unfold paidInto payee at *
    cases hr : (m.pendingState e).getBalanceRecord (Fc.conditionAddress (ownedBy owner assetId)) with
    | none =>
      have hget : Holdings.balances.get (m.pendingState e)
        (Fc.conditionAddress (ownedBy owner assetId)) = none := hr
      rw [hget]
      rfl
    | some r =>
      have hget : Holdings.balances.get (m.pendingState e)
        (Fc.conditionAddress (ownedBy owner assetId)) = some r := hr
      rw [hr] at hasset
      have hcondition : r.condition.assetId = id := hasset.trans hid
      rw [hget]
      dsimp only [Option.elim, Option.getD]
      unfold inBalance
      rw [if_pos hcondition]
  next => rfl

theorem payOut_held :
    heldBalances id (m.pendingState (m.payOut e owner assetId amount)) =
      heldBalances id (m.pendingState e) - paidInto id m e owner assetId +
        if assetId = id then int64 (paidInto id m e owner assetId + amount) else 0 := by
  unfold heldBalances Market.pendingState
  rw [Shelf.held_store _ payOut_own, inBalance_payee hapart]
  rfl

theorem paidInto_other (hid : assetId ≠ id) : paidInto id m e owner assetId = 0 := by
  unfold paidInto
  cases hr : Holdings.balances.get (m.pendingState e)
    (Fc.conditionAddress (ownedBy owner assetId)) with
  | none => rfl
  | some r =>
    have hasset : r.condition.assetId = assetId := hapart _ _ (getBalanceRecord_id hr)
    have hne : ¬ r.condition.assetId = id := by
      rw [hasset]
      exact hid
    exact if_neg hne

theorem payOut_other (hid : assetId ≠ id)
    (h : Holdings.balances.Nonneg (inBalance id) (m.pendingState e)) :
    Holdings.balances.Nonneg (inBalance id)
        (m.pendingState (m.payOut e owner assetId amount)) ∧
      heldBalances id (m.pendingState (m.payOut e owner assetId amount)) =
        heldBalances id (m.pendingState e) := by
  refine ⟨(Shelf.Nonneg.store (l := e.layer) h payOut_own ?_).1, ?_⟩
  · rw [inBalance_payee hapart, if_neg hid]
  · rw [payOut_held hapart, paidInto_other hapart hid, if_neg hid, Int.sub_zero, Int.add_zero]

end

theorem payOut_credit (owner : Nat) (hapart : AddressesApart)
    (h : Holdings.balances.Nonneg (inBalance assetId) (m.pendingState e)) (hamount : 0 ≤ amount)
    (hroom : heldBalances assetId (m.pendingState e) + amount ≤ 9223372036854775807) :
    Holdings.balances.Nonneg (inBalance assetId)
        (m.pendingState (m.payOut e owner assetId amount)) ∧
      heldBalances assetId (m.pendingState (m.payOut e owner assetId amount)) =
        heldBalances assetId (m.pendingState e) + amount := by
  have hold := h.elim_le (Fc.conditionAddress (ownedBy owner assetId))
  change 0 ≤ paidInto assetId m e owner assetId ∧
    paidInto assetId m e owner assetId ≤ heldBalances assetId (m.pendingState e) at hold
  have hsum : int64 (paidInto assetId m e owner assetId + amount) =
      paidInto assetId m e owner assetId + amount := int64_self
  refine ⟨(Shelf.Nonneg.store (l := e.layer) h payOut_own ?_).1, ?_⟩
  · rw [inBalance_payee hapart, if_pos rfl, hsum]
    omega
  · rw [payOut_held hapart, if_pos rfl, hsum]
    omega

variable {key : MarketIndexKey} {payment : Payment}

theorem openedCover_amounts {bid : MarketOrder} {collateral debt : Int} :
    (openedCover m e bid key collateral debt).collateralBalance =
        int64 ((Holdings.positions.get (m.pendingState e) key).elim 0
          CollateralRecord.collateralBalance + collateral) ∧
      (openedCover m e bid key collateral debt).payoffBalance =
        int64 ((Holdings.positions.get (m.pendingState e) key).elim 0
          CollateralRecord.payoffBalance + debt) := by
  have hget : Holdings.positions.get (m.pendingState e) key =
    (m.pendingState e).getCollateralRecord key := rfl
  unfold openedCover
  rw [hget]
  cases (m.pendingState e).getCollateralRecord key with
  | none => exact ⟨rfl, rfl⟩
  | some r => exact ⟨rfl, rfl⟩

theorem stored_of_sale {bid : MarketOrder} {feed : Price} {forSale : Asset} {exchanged : Int}
    (h : BidStored m e bid) (htype : bid.type = .shortOrder)
    (hsale : shortSale feed bid = .ok forSale) (hle : exchanged ≤ forSale.amount)
    (hpos : 0 < exchanged) :
    Holdings.shorts.get (m.pendingState e) bid.marketIndex = some bid.state := by
  cases h with
  | bid type | relativeBid type =>
    rw [type] at htype
    cases htype
  | short type pair stored visited =>
    rcases stored with hzero | hstored
    · simp only [shortSale, bind_eq_ok] at hsale
      obtain ⟨balance, hbalance, hmultiply⟩ := hsale
      cases (getBalance_short htype).symm.trans hbalance
      have hnone := multiply_zero hzero hmultiply
      omega
    · exact hstored

section

variable {bid : MarketOrder} {precision : Nat} {exchanged paid collateral sc total : Asset}
  (hm : Setting m) (hpair : m.isPair bid.marketIndex.orderPrice)
  (hexchanged : exchanged.assetId = m.quoteId)
  (hround : Market.roundCollateral { amount := bid.state.balance
                                     assetId := bid.marketIndex.orderPrice.baseAssetId }
    collateral precision = .ok sc) (htotal : Asset.add sc paid = .ok total)
include hm hpair hexchanged hround htotal

theorem opened_pair {callAmount : Int}
    (hkey : divide exchanged { total with amount := callAmount } = .ok key.orderPrice) :
    m.isPair key.orderPrice := by
  obtain ⟨hsc, hbase, -⟩ := roundCollateral_ok hround
  obtain ⟨-, rfl⟩ := Asset.add_eq_ok htotal
  have hscBase : sc.assetId = m.baseId := hsc.trans (hbase.symm.trans hpair.2)
  have hordered := hm.ordered
  obtain ⟨hquote, hbase'⟩ := divide_pair hkey
  dsimp only at hquote hbase'
  exact ⟨by omega, by omega⟩

/-- The position that a short opens has the collateral of the short and what the short is paid. -/
theorem opened_ok {feed : Price} (htype : bid.type = .shortOrder) (hbalance : 0 ≤ bid.state.balance)
    (hmax : bid.state.balance ≤ 4000000000000000000) (hpos : 0 < exchanged.amount)
    (hpaid : 0 ≤ paid.amount) (hpaidMax : paid.amount ≤ 4000000000000000000)
    (hstake : shortStake feed bid exchanged = .ok collateral)
    (hrest : 0 ≤ int64 (bid.state.balance - sc.amount))
    (hkey : divide exchanged { total with amount := (int64 (total.amount * 2)).tdiv 3 } =
      .ok key.orderPrice) :
    0 ≤ sc.amount ∧ sc.amount ≤ bid.state.balance ∧ total.amount = sc.amount + paid.amount ∧
      0 < total.amount := by
  obtain ⟨hsc, hbase, hcases⟩ := roundCollateral_ok hround
  simp only [shortStake, bind_eq_ok] at hstake
  obtain ⟨balance, hbal, forSale, -, hpays⟩ := hstake
  cases (getBalance_short htype).symm.trans hbal
  have hcollateral : collateral.amount = bid.state.balance ∨
      (0 ≤ collateral.amount ∧ Fits collateral.amount) := by
    unfold shortPays at hpays
    split at hpays
    · cases hpays
      exact Or.inl rfl
    · exact Or.inr ⟨multiply_nonneg hpos.le hpays, multiply_fits hpays⟩
  have hint : int64 bid.state.balance = bid.state.balance := int64_self
  rw [hint] at hcases
  have hscRange : 0 ≤ sc.amount ∧ sc.amount ≤ bid.state.balance := by
    unfold Fits at hcollateral
    unfold int64 at hrest
    omega
  obtain ⟨hids, rfl⟩ := Asset.add_eq_ok htotal
  have hsum : int64 (sc.amount + paid.amount) = sc.amount + paid.amount := int64_self
  have hscBase : sc.assetId = m.baseId := hsc.trans (hbase.symm.trans hpair.2)
  have hordered := hm.ordered
  have hnonzero := divide_ne_zero (by dsimp only; omega) hkey
  rw [hsum] at hnonzero ⊢
  refine ⟨hscRange.1, hscRange.2, rfl, ?_⟩
  rcases lt_or_ge 0 (sc.amount + paid.amount) with hlt | hge
  · exact hlt
  · have hzero : sc.amount + paid.amount = 0 := by omega
    rw [hzero] at hnonzero
    exact absurd rfl hnonzero

end

theorem payDebt_ok {paid principle totalDebt : Asset} {apr : Price} {age : Nat} {owed : Int}
    (hpaid : Fits paid.amount) (h : payDebt paid principle totalDebt apr age owed = .ok payment) :
    payment.principlePaid.amount + payment.interestPaid.amount = paid.amount ∧
      ((payment.principlePaid = principle ∧ payment.payoffBalance = 0) ∨
        payment.payoffBalance = int64 (owed - payment.principlePaid.amount)) := by
  unfold payDebt at h
  split at h
  · simp only [eq_ok_iff] at h
    obtain ⟨interest, hinterest, rfl⟩ := h
    have hamount := Asset.sub_amount hpaid hinterest
    exact ⟨by dsimp only; omega, Or.inl ⟨rfl, rfl⟩⟩
  · simp only [eq_ok_iff] at h
    obtain ⟨interest, -, paidBack, hpaidBack, rfl⟩ := h
    have hamount := Asset.sub_amount hpaid hpaidBack
    exact ⟨by dsimp only; omega, Or.inr rfl⟩

/-- What the cover at hand pays on its debt with what it receives. -/
def coverPayment (m : Market) (e : EngineState) (ask : MarketOrder) (received : Asset) :
    Except ChainError Payment := do
  let expiration ← orThrow ask.expiration (.assertion "")
  let debt ← m.getCurrentCoverDebt e ask
  payDebt received { amount := e.currentCollatRecord.payoffBalance, assetId := m.quoteId } debt
    e.currentCollatRecord.interestRate (m.getCurrentCoverAge expiration) ask.state.balance

theorem coverPayment_owed {ask : MarketOrder} {received : Asset} (hreceived : Fits received.amount)
    (hbalance : 0 ≤ ask.state.balance) (hmax : ask.state.balance ≤ 9223372036854775807)
    (hhand : e.currentCollatRecord.payoffBalance = ask.state.balance)
    (hinterest : 0 ≤ payment.interestPaid.amount) (hprinciple : 0 ≤ payment.principlePaid.amount)
    (h : coverPayment m e ask received = .ok payment) :
    payment.payoffBalance = ask.state.balance - payment.principlePaid.amount := by
  simp only [coverPayment, bind_eq_ok] at h
  obtain ⟨_, _, _, _, hpay⟩ := h
  obtain ⟨hsum, hcases⟩ := payDebt_ok hreceived hpay
  rcases hcases with ⟨hall, hpayoff⟩ | hpayoff
  · rw [hpayoff, hall]
    dsimp only
    omega
  · rw [hpayoff]
    apply int64_of_fits
    unfold Fits at hreceived ⊢
    omega

theorem coverPayment_sum {ask : MarketOrder} {received : Asset} (hreceived : Fits received.amount)
    (h : coverPayment m e ask received = .ok payment) :
    payment.principlePaid.amount + payment.interestPaid.amount = received.amount := by
  simp only [coverPayment, bind_eq_ok] at h
  obtain ⟨_, _, _, _, hpay⟩ := h
  exact (payDebt_ok hreceived hpay).1

def coverTrade (m : Market) (e : EngineState) (bid ask : MarketOrder) (t : MarketTransaction) :
    Except ChainError (Asset × Asset) :=
  if bid.type = .shortOrder then shortTrade m e bid ask t
  else do
    let forSale ← bid.getBalance
    coverFill m e ask t forSale

/-- The debt that is written off where the cover at hand runs out of collateral. -/
def writtenOff (m : Market) (e : EngineState) (bid ask : MarketOrder) : Int :=
  match judge m e bid ask with
  | .ok (.trade t) =>
    if ask.type = .coverOrder then
      match coverTrade m e bid ask t with
      | .ok (received, paid) =>
        match coverPayment m e ask received with
        | .ok payment =>
          unpaid (coverRest (ask.collateral.getD 0) (filled t received paid none)) payment
        | .error _ => 0
      | .error _ => 0
    else 0
  | _ => 0

/-- An amount of the trade of a short, and nothing where there is no such trade. -/
def ofShort (f : MarketTransaction → Asset → Asset → Int) (m : Market) (e : EngineState)
    (bid ask : MarketOrder) : Int :=
  match judge m e bid ask with
  | .ok (.trade t) =>
    if bid.type = .shortOrder then
      match shortTrade m e bid ask t with
      | .ok (exchanged, paid) => f t exchanged paid
      | .error _ => 0
    else 0
  | _ => 0

/-- What the short at hand sells. -/
def soldShort (m : Market) (e : EngineState) (bid ask : MarketOrder) : Int :=
  ofShort (fun _ exchanged _ => exchanged.amount) m e bid ask

section Amounts

variable {bid ask : MarketOrder} {t : MarketTransaction} {exchanged paid : Asset}
  {f : MarketTransaction → Asset → Asset → Int}

theorem ofShort_trade (hjudge : judge m e bid ask = .ok (.trade t)) (htype : bid.type = .shortOrder)
    (htrade : shortTrade m e bid ask t = .ok (exchanged, paid)) :
    ofShort f m e bid ask = f t exchanged paid := by
  unfold ofShort
  rw [hjudge]
  dsimp only
  rw [if_pos htype, htrade]

theorem coverTrade_short (htype : bid.type = .shortOrder)
    (htrade : shortTrade m e bid ask t = .ok (exchanged, paid)) :
    coverTrade m e bid ask t = .ok (exchanged, paid) := by
  unfold coverTrade
  rw [if_pos htype, htrade]

theorem coverTrade_bid {forSale : Asset} (htype : bid.type ≠ .shortOrder)
    (hsale : bid.getBalance = .ok forSale)
    (hfill : coverFill m e ask t forSale = .ok (exchanged, paid)) :
    coverTrade m e bid ask t = .ok (exchanged, paid) := by
  unfold coverTrade
  rw [if_neg htype, bind_eq_ok]
  exact ⟨forSale, hsale, hfill⟩

theorem ofShort_bid (htype : bid.type ≠ .shortOrder) : ofShort f m e bid ask = 0 := by
  unfold ofShort
  split
  · exact if_neg htype
  · rfl

theorem ofShort_dropped (hjudge : ∀ t, judge m e bid ask ≠ .ok (.trade t)) :
    ofShort f m e bid ask = 0 := by
  unfold ofShort
  split
  next t ht => exact absurd ht (hjudge t)
  next => rfl

theorem getCurrentCoverDebt_congr {d : EngineState} (ask : MarketOrder)
    (h : d.currentCollatRecord = e.currentCollatRecord) :
    m.getCurrentCoverDebt d ask = m.getCurrentCoverDebt e ask := by
  unfold Market.getCurrentCoverDebt
  rw [h]

theorem writtenOff_eq {d d' : EngineState} {F mtrx : MarketTransaction}
    (hjudge : judge m e bid ask = .ok (.trade t)) (htype : ask.type = .coverOrder)
    (htrade : coverTrade m e bid ask t = .ok (exchanged, paid))
    (hrecord : d.currentCollatRecord = e.currentCollatRecord) (hid : d.quoteAsset.id = m.quoteId)
    (hreceived : F.askReceived = exchanged) (hpaid : F.askPaid = paid)
    (hpay : m.payCurrentCover d ask F = .ok (d', mtrx)) :
    ∃ payment, coverPayment m e ask exchanged = .ok payment ∧
      0 ≤ payment.principlePaid.amount ∧ 0 ≤ payment.interestPaid.amount ∧
      0 ≤ payment.payoffBalance ∧
      d'.quoteAsset = redeem d.quoteAsset payment (writtenOff m e bid ask) ∧
      0 ≤ writtenOff m e bid ask ∧ writtenOff m e bid ask ≤ payment.payoffBalance ∧
      ∃ rest, d'.layer.collateral = d.layer.collateral.insert ask.marketIndex
        (settled d.currentCollatRecord rest (payment.payoffBalance - writtenOff m e bid ask)) := by
  obtain ⟨-, expiration, debt, payment, old, hexpiration, hdebt, hpayment, hprinciple, hinterest,
    hpayoff, hold, -, hcases⟩ := payCurrentCover_ok hpay
  rw [getCurrentCoverDebt_congr ask hrecord] at hdebt
  rw [hreceived, hrecord, hid] at hpayment
  have hcover : coverPayment m e ask exchanged = .ok payment := by
    simp only [coverPayment, eq_ok_iff]
    exact ⟨expiration, hexpiration, debt, hdebt, hpayment⟩
  have hoff : writtenOff m e bid ask = unpaid (coverRest old F) payment := by
    unfold writtenOff
    rw [hjudge]
    dsimp only
    rw [if_pos htype, htrade]
    dsimp only
    rw [hcover, hold]
    unfold coverRest
    rw [hpaid]
    rfl
  have hrange : 0 ≤ unpaid (coverRest old F) payment ∧
      unpaid (coverRest old F) payment ≤ payment.payoffBalance := by
    unfold unpaid
    split
    · exact ⟨hpayoff, le_rfl⟩
    · exact ⟨le_rfl, hpayoff⟩
  rw [hoff]
  refine ⟨payment, hcover, hprinciple, hinterest, hpayoff, ?_, hrange.1, hrange.2, ?_⟩
  · rcases hcases with ⟨-, rfl, -⟩ | ⟨-, -, _, _, -, rfl, -⟩ <;> rfl
  · rcases hcases with ⟨-, rfl, -⟩ | ⟨-, -, _, _, -, rfl, -⟩
    · exact ⟨_, rfl⟩
    · exact ⟨0, rfl⟩

structure ShortTrade (m : Market) (e : EngineState) (bid ask : MarketOrder) (t : MarketTransaction)
    (feed : Price) (exchanged paid collateral : Asset) : Prop where
  isShort : bid.type = .shortOrder
  hasFeed : m.feedPrice = some feed
  trade : shortTrade m e bid ask t = .ok (exchanged, paid)
  sale : ∃ forSale, shortSale feed bid = .ok forSale ∧ exchanged.amount ≤ forSale.amount
  asset : exchanged.assetId = m.quoteId
  stake : shortStake feed bid exchanged = .ok collateral

theorem ShortTrade.of_judge {feed : Price} {collateral : Asset} (h : Hand m e bid ask)
    (hisShort : bid.type = .shortOrder) (hjudge : judge m e bid ask = .ok (.trade t))
    (hfeed : m.feedPrice = some feed) (htrade : shortTrade m e bid ask t = .ok (exchanged, paid))
    (hstake : shortStake feed bid exchanged = .ok collateral) :
    ShortTrade m e bid ask t feed exchanged paid collateral := by
  have hpair := h.setting.feed feed hfeed
  have hparts := htrade
  simp only [shortTrade, hfeed, eq_ok_iff] at hparts
  obtain ⟨_, ⟨⟩, hparts⟩ := hparts
  rcases h.askStored.is_ask with haskType | haskType
  · rw [if_neg (by rw [haskType]; decide)] at hparts
    obtain ⟨hasset, -, -, hsale⟩ := shortFill_ok hpair haskType h.askPair hisShort h.bidPair hparts
    exact ⟨hisShort, hfeed, htrade, hsale, hasset, hstake⟩
  · rw [if_pos haskType, bind_eq_ok] at hparts
    obtain ⟨forSale, hsale, hfill⟩ := hparts
    obtain ⟨-, hle, hasset, -⟩ := coverFill_ok haskType h.askPair hfill
    exact ⟨hisShort, hfeed, htrade, ⟨forSale, hsale, hle⟩,
      hasset (shortSale_ok hpair hisShort h.bidPair hsale).1
        ((h.judge_ok hjudge).shortPrice hisShort), hstake⟩

theorem ShortTrade.openedKey_none {feed : Price} {collateral : Asset}
    (h : ShortTrade m e bid ask t feed exchanged paid collateral)
    (hzero : exchanged.amount = 0) : (openedKey m e bid ask t).toOption = none := by
  have hnone : ∀ key, openedKey m e bid ask t ≠ .ok key := by
    intro key hkey
    simp only [openedKey, eq_ok_iff] at hkey
    obtain ⟨_, _, ⟨x, p⟩, htrade, _, hpos, -⟩ := hkey
    cases htrade.symm.trans h.trade
    dsimp only at hpos
    omega
  cases hkey : openedKey m e bid ask t with
  | error _ => rfl
  | ok key => exact absurd hkey (hnone key)

section Deals

variable {d d' : EngineState} {feed : Price} {forSale collateral : Asset}
  {t' mtrx : MarketTransaction} {R : CollateralRecord → CollateralRecord → Prop}
  {S : MarketOrder → CollateralRecord → CollateralRecord → Prop} {amount : CollateralRecord → Int}

theorem shortPaid_fields
    (hpay : m.payCurrentShort e bid (filled t exchanged paid (some collateral)) = .ok (d, mtrx)) :
    mtrx.askPaid = paid ∧ mtrx.askReceived = exchanged ∧ mtrx.feesCollected = t.feesCollected := by
  obtain ⟨-, -, sc, -, -, rfl, -⟩ := payCurrentShort_ok hpay
  exact ⟨rfl, rfl, rfl⟩

/-- A short sells nothing, or it opens the position of its key with what it has of the base
asset and what it is paid. -/
theorem ShortTrade.pays (h : Hand m e bid ask)
    (ht : ShortTrade m e bid ask t feed exchanged paid collateral)
    (hpay : m.payCurrentShort e bid (filled t exchanged paid (some collateral)) = .ok (d, mtrx)) :
    (exchanged.amount = 0 ∧ (openedKey m e bid ask t).toOption = none ∧
        ∃ sc, d = afterNoSale e bid sc) ∨
      0 < exchanged.amount ∧ ∃ key sc total, (openedKey m e bid ask t).toOption = some key ∧
        m.isPair key.orderPrice ∧
        Holdings.shorts.get (m.pendingState e) bid.marketIndex = some bid.state ∧
        (0 ≤ bid.state.balance → bid.state.balance ≤ 4000000000000000000 → 0 ≤ paid.amount →
          paid.amount ≤ 4000000000000000000 → 0 ≤ sc.amount ∧ sc.amount ≤ bid.state.balance ∧
            total.amount = sc.amount + paid.amount ∧ 0 < total.amount) ∧
        d = afterShort m e bid (filled t exchanged paid (some collateral)) key sc total := by
  obtain ⟨-, collateral', sc, hcollateral, hround, -, hcases⟩ := payCurrentShort_ok hpay
  cases hcollateral
  rcases hcases with ⟨hzero, rfl⟩ | ⟨hpos, hrest, key, total, htotal, howner, hkey, -, -, rfl⟩
  · exact Or.inl ⟨hzero, ht.openedKey_none hzero, sc, rfl⟩
  · have hpos' : 0 < exchanged.amount := hpos
    have hopened := openedKey_eq ht.isShort ht.hasFeed ht.trade hpos' ht.stake hround htotal howner hkey
    obtain ⟨forSale, hsale, hle⟩ := ht.sale
    refine Or.inr ⟨hpos', key, sc, total, by rw [hopened]; rfl,
      opened_pair h.setting h.bidPair ht.asset hround htotal hkey,
      stored_of_sale h.bidStored ht.isShort hsale hle hpos', ?_, rfl⟩
    intro hbalance hmax hpaid hpaidMax
    exact opened_ok h.setting h.bidPair ht.asset hround htotal ht.isShort hbalance hmax hpos' hpaid
      hpaidMax ht.stake hrest hkey

/-- The position that is opened has more than before, and the others have as much. -/
def Grown (amount : CollateralRecord → Int) (m : Market) (e d : EngineState)
    (key : Option MarketIndexKey) : Prop :=
  ∀ k stored, Holdings.positions.get (m.pendingState e) k = some stored →
    ∃ stored', Holdings.positions.get (m.pendingState d) k = some stored' ∧
      amount stored ≤ amount stored' ∧ (amount stored' = amount stored ↔ key ≠ some k)

theorem grown_noSale {sc : Asset} : Grown amount m e (afterNoSale e bid sc) none :=
  fun _ stored hk => ⟨stored, hk, le_rfl, iff_of_true rfl nofun⟩

theorem covers_grown (amount : CollateralRecord → Int) (bid : MarketOrder) (mtrx : MarketTransaction)
    (key : MarketIndexKey) (sc total : Asset) {x : Int} (h : Covers R S m e)
    (hR : ∀ old r r', R old r → amount r ≤ amount r' → R old r')
    (hS : ∀ ask c r r', S ask c r → amount r ≤ amount r' → S ask c r') (hx : 0 < x)
    (hnew : ∀ r, Holdings.positions.get (m.pendingState e) key = some r →
      amount (openedCover m e bid key total.amount mtrx.bidPaid.amount) = amount r + x) :
    Covers R S m (afterShort m e bid mtrx key sc total) ∧
      Grown amount m e (afterShort m e bid mtrx key sc total) (some key) := by
  have hle : ∀ r, Holdings.positions.get (m.pendingState e) key = some r →
      amount r ≤ amount (openedCover m e bid key total.amount mtrx.bidPaid.amount) := by
    intro r hr
    rw [hnew r hr]
    omega
  refine ⟨h.afterShort (fun _ old r hr hold => hR old r _ hold (hle r hr))
    (fun a _ _ _ r hr hhand => hS a _ r _ hhand (hle r hr)), fun k stored hk => ?_⟩
  have hown : Holdings.positions.own (afterShort m e bid mtrx key sc total).layer =
      (Holdings.positions.own e.layer).insert key
        (openedCover m e bid key total.amount mtrx.bidPaid.amount) := rfl
  rw [Market.pendingState, Shelf.get_store Holdings.positions m.prior hown]
  by_cases hsame : k = key
  · subst hsame
    have hlarger := hnew stored hk
    exact ⟨_, Function.update_self .., hle stored hk, iff_of_false (by omega) (not_not_intro rfl)⟩
  · refine ⟨stored, ?_, le_rfl, iff_of_true rfl fun heq => hsame (Option.some.inj heq).symm⟩
    rw [Function.update_of_ne hsame]
    exact hk

theorem afterBid_frame {β : Type} (g : PendingState → β) (mtrx : MarketTransaction)
    (htype : isBid bid.type) (hbid : ∀ l k r, g (PendingState.storeBidRecord l k r) = g l)
    (hrelative : ∀ l k r, g (PendingState.storeRelativeBidRecord l k r) = g l) :
    g (afterBid m e bid mtrx).layer =
      g (m.payOut e mtrx.bidOwner m.baseId mtrx.bidReceived.amount).layer := by
  have hlayer := afterBid_layer m e mtrx htype
  rcases htype with htype | htype <;> rw [htype] at hlayer <;> rw [hlayer]
  · exact hbid _ _ _
  · exact hrelative _ _ _

theorem afterBid_positions (mtrx : MarketTransaction) (htype : isBid bid.type) :
    (afterBid m e bid mtrx).layer.collateral = e.layer.collateral :=
  afterBid_frame PendingState.collateral mtrx htype (fun _ _ _ => rfl) fun _ _ _ => rfl

theorem afterBid_asks (mtrx : MarketTransaction) (htype : isBid bid.type) :
    (afterBid m e bid mtrx).layer.asks = e.layer.asks :=
  afterBid_frame PendingState.asks mtrx htype (fun _ _ _ => rfl) fun _ _ _ => rfl

theorem afterBid_balances {id x : Int} (mtrx : MarketTransaction) (htype : isBid bid.type)
    (h : Holdings.balances.Nonneg (inBalance id)
        (m.pendingState (m.payOut e mtrx.bidOwner m.baseId mtrx.bidReceived.amount)) ∧
      heldBalances id
        (m.pendingState (m.payOut e mtrx.bidOwner m.baseId mtrx.bidReceived.amount)) = x) :
    Holdings.balances.Nonneg (inBalance id) (m.pendingState (afterBid m e bid mtrx)) ∧
      heldBalances id (m.pendingState (afterBid m e bid mtrx)) = x := by
  obtain ⟨hb, hb'⟩ := h.1.keep
    (afterBid_frame Holdings.balances.own mtrx htype (fun _ _ _ => rfl) fun _ _ _ => rfl)
  exact ⟨hb, hb'.trans h.2⟩

/-- A bid that pays is stored again, among the bids of its kind. -/
theorem afterBid_bids {id : Int} (mtrx : MarketTransaction) (hstored : BidStored m e bid)
    (htype : isBid bid.type) (hbids : Holdings.bids.Nonneg (inBid id) (m.pendingState e))
    (hrelative : Holdings.relativeBids.Nonneg (inBid id) (m.pendingState e))
    (hrest : 0 ≤ inBid id bid.marketIndex
      (withBalance bid (bidRest bid mtrx - bidDust bid mtrx)).state) :
    Holdings.bids.Nonneg (inBid id) (m.pendingState (afterBid m e bid mtrx)) ∧
      Holdings.relativeBids.Nonneg (inBid id) (m.pendingState (afterBid m e bid mtrx)) ∧
      heldBids id (m.pendingState (afterBid m e bid mtrx)) = heldBids id (m.pendingState e) -
        inBid id bid.marketIndex bid.state + inBid id bid.marketIndex
          (withBalance bid (bidRest bid mtrx - bidDust bid mtrx)).state := by
  have hlayer := afterBid_layer m e mtrx htype
  unfold heldBids
  cases hstored with
  | bid type pair stored =>
    rw [type] at hlayer
    obtain ⟨hb, hb'⟩ := hbids.store (congrArg PendingState.bids hlayer) hrest
    have hkept : (afterBid m e bid mtrx).layer.relativeBids = e.layer.relativeBids := by
      rw [hlayer]
      rfl
    obtain ⟨hr, hr'⟩ := hrelative.keep hkept
    refine ⟨hb, hr, ?_⟩
    change Holdings.bids.get (.pending e.layer m.prior) bid.marketIndex = some bid.state at stored
    unfold Market.pendingState
    rw [hb', hr', stored, Option.elim_some]
    omega
  | relativeBid type pair stored =>
    rw [type] at hlayer
    have hkept : (afterBid m e bid mtrx).layer.bids = e.layer.bids := by
      rw [hlayer]
      rfl
    obtain ⟨hb, hb'⟩ := hbids.keep hkept
    obtain ⟨hr, hr'⟩ := hrelative.store (congrArg PendingState.relativeBids hlayer) hrest
    refine ⟨hb, hr, ?_⟩
    change Holdings.relativeBids.get (.pending e.layer m.prior) bid.marketIndex =
      some bid.state at stored
    unfold Market.pendingState
    rw [hb', hr', stored, Option.elim_some]
    omega
  | short type => exact absurd type (not_short_of_isBid htype)

theorem afterAsk_frame {β : Type} (g : PendingState → β) (mtrx : MarketTransaction) (toQuote : Bool)
    (htype : ask.type = .askOrder) (hg : ∀ l k r, g (PendingState.storeAskRecord l k r) = g l) :
    g (afterAsk m e ask mtrx toQuote).layer =
      g (m.payOut e mtrx.askOwner m.quoteId mtrx.askReceived.amount).layer := by
  rw [afterAsk_layer m e mtrx toQuote htype]
  exact hg _ _ _

theorem afterAsk_balances {id x : Int} (mtrx : MarketTransaction) (toQuote : Bool)
    (htype : ask.type = .askOrder)
    (h : Holdings.balances.Nonneg (inBalance id)
        (m.pendingState (m.payOut e mtrx.askOwner m.quoteId mtrx.askReceived.amount)) ∧
      heldBalances id
        (m.pendingState (m.payOut e mtrx.askOwner m.quoteId mtrx.askReceived.amount)) = x) :
    Holdings.balances.Nonneg (inBalance id) (m.pendingState (afterAsk m e ask mtrx toQuote)) ∧
      heldBalances id (m.pendingState (afterAsk m e ask mtrx toQuote)) = x := by
  obtain ⟨hb, hb'⟩ := h.1.keep
    (afterAsk_frame Holdings.balances.own mtrx toQuote htype fun _ _ _ => rfl)
  exact ⟨hb, hb'.trans h.2⟩

theorem afterAsk_asks {id : Int} (mtrx : MarketTransaction) (toQuote : Bool)
    (htype : ask.type = .askOrder)
    (hstored : Holdings.asks.get (m.pendingState e) ask.marketIndex = some ask.state)
    (hasks : Holdings.asks.Nonneg (inAsk id) (m.pendingState e))
    (hrest : 0 ≤ inAsk id ask.marketIndex
      (withBalance ask (askRest ask mtrx - askDust ask mtrx)).state) :
    Holdings.asks.Nonneg (inAsk id) (m.pendingState (afterAsk m e ask mtrx toQuote)) ∧
      heldAsks id (m.pendingState (afterAsk m e ask mtrx toQuote)) = heldAsks id (m.pendingState e) -
        inAsk id ask.marketIndex ask.state + inAsk id ask.marketIndex
          (withBalance ask (askRest ask mtrx - askDust ask mtrx)).state := by
  obtain ⟨ha, ha'⟩ := hasks.store
    (congrArg PendingState.asks (afterAsk_layer m e mtrx toQuote htype)) hrest
  refine ⟨ha, ha'.trans ?_⟩
  change Holdings.asks.get (.pending e.layer m.prior) ask.marketIndex = some ask.state at hstored
  rw [hstored]
  rfl

theorem askShort_trade (h : AskShort m e bid ask t mtrx feed exchanged paid collateral d d') :
    ShortTrade m e bid ask t feed exchanged paid collateral :=
  .of_judge h.toHand h.isShort h.judged h.hasFeed (shortTrade_ask h.type h.hasFeed h.fill) h.stake

theorem coverShort_trade
    (h : CoverShort m e bid ask t t' mtrx feed forSale exchanged paid collateral d d') :
    ShortTrade m e bid ask t feed exchanged paid collateral :=
  .of_judge h.toHand h.isShort h.judged h.hasFeed
    (shortTrade_cover h.type h.hasFeed h.sale h.fill) h.stake

/-- A pass in which the cover at hand pays with the transaction `F`, after the other order
has paid. -/
structure Covering (m : Market) (e : EngineState) (bid ask : MarketOrder)
    (t F mtrx : MarketTransaction) (exchanged paid : Asset) (d d' : EngineState) : Prop
    extends Hand m e bid ask where
  type : ask.type = .coverOrder
  judged : judge m e bid ask = .ok (.trade t)
  trade : coverTrade m e bid ask t = .ok (exchanged, paid)
  between : Synced m d
  current : d.currentAsk = some ask
  record : d.currentCollatRecord = e.currentCollatRecord
  received : F.askReceived = exchanged
  pays : F.askPaid = paid
  noFees : F.feesCollected.amount = 0
  coverPays : m.payCurrentCover d ask F = .ok (d', mtrx)
  checked : Checked mtrx
  nonneg : 0 ≤ exchanged.amount ∧ 0 ≤ paid.amount
  max : exchanged.amount ≤ 9223372036854775807
  payable : ∃ old, ask.collateral = some old ∧ Payable old paid

theorem Covering.after {F : MarketTransaction}
    (h : Covering m e bid ask t F mtrx exchanged paid d d') : Synced m d' :=
  h.between.payCurrentCover h.coverPays

theorem covered_nonneg {F : MarketTransaction} (hpay : m.payCurrentCover d ask F = .ok (d', mtrx))
    (hchecked : Checked mtrx) (hreceived : F.askReceived = exchanged) (hpaid : F.askPaid = paid) :
    0 ≤ exchanged.amount ∧ 0 ≤ paid.amount := by
  obtain ⟨-, hnonneg, hnonneg'⟩ := hchecked.nonneg
  have htrade := payCurrentCover_trade hpay
  rw [htrade.askPaid, hpaid] at hnonneg
  rw [htrade.askReceived, hreceived] at hnonneg'
  exact ⟨hnonneg', hnonneg⟩

theorem coverBid_covering (h : CoverBid m e bid ask t mtrx forSale exchanged paid d d') :
    Covering m e bid ask t (filled t exchanged paid t.shortCollateral) mtrx exchanged paid d d' := by
  obtain ⟨hd, hcurrent, hrecord⟩ := h.between
  refine ⟨h.toHand, h.type, h.judged, coverTrade_bid (not_short_of_isBid h.isBid) h.sale h.fill, hd,
    hcurrent, hrecord, rfl, rfl, ?_, h.coverPays, h.checked,
    covered_nonneg h.coverPays h.checked rfl rfl, coverFill_max h.type h.askPair h.fill,
    (coverFill_ok h.type h.askPair h.fill).2.2.2⟩
  dsimp only [filled]
  rw [(h.judge_ok h.judged).fees]

theorem coverShort_covering
    (h : CoverShort m e bid ask t t' mtrx feed forSale exchanged paid collateral d d') :
    Covering m e bid ask t t' mtrx exchanged paid d d' := by
  obtain ⟨hd, hcurrent, hrecord⟩ := h.between
  obtain ⟨hpaid, hreceived, hfees⟩ := shortPaid_fields h.shortPays
  refine ⟨h.toHand, h.type, h.judged, coverTrade_short h.isShort (coverShort_trade h).trade, hd, hcurrent,
    hrecord, hreceived, hpaid, ?_, h.coverPays, h.checked,
    covered_nonneg h.coverPays h.checked hreceived hpaid, coverFill_max h.type h.askPair h.fill,
    (coverFill_ok h.type h.askPair h.fill).2.2.2⟩
  rw [hfees, (h.judge_ok h.judged).fees]

theorem bidTaken_same {e' : EngineState}
    (h : BidTaken m { e with ordersFilled := e.ordersFilled + 1, currentBid := none } e') :
    e'.layer = e.layer ∧ e'.quoteAsset = e.quoteAsset ∧ e'.baseAsset = e.baseAsset := by
  cases h <;> exact ⟨rfl, rfl, rfl⟩

theorem askTaken_same {e' : EngineState}
    (h : AskTaken m { e with ordersFilled := e.ordersFilled + 1, currentAsk := none } e') :
    e'.layer = e.layer ∧ e'.quoteAsset = e.quoteAsset ∧ e'.baseAsset = e.baseAsset := by
  cases h <;> exact ⟨rfl, rfl, rfl⟩

theorem left_assets {c : ChainInterface} (h : Left m d c) (hs : Synced m d) (hm : Setting m) :
    c.getAssetRecord m.quoteId = some d.quoteAsset ∧ c.getAssetRecord m.baseId = some d.baseAsset := by
  have hne : m.quoteId ≠ d.baseAsset.id := by
    rw [hs.baseId]
    exact ne_of_gt hm.ordered
  exact ⟨by rw [h.assets, if_neg hne, if_pos hs.quoteId.symm], by rw [h.assets, if_pos hs.baseId.symm]⟩

end Deals

end Amounts

end Model

theorem separate_apart : @AddressesApart Fc.separate := by
  intro c c' h
  have hid := (Nat.pair_eq_pair.mp h).1
  revert hid
  cases c.assetId <;> cases c'.assetId <;> simp only [encodeId] <;> intro hid <;> congr 1 <;> omega

def dollarFeed : Price := ⟨100000000000000000, 0, 22⟩

def dollarChain : @ChainDatabase Fc.separate :=
  letI := Fc.separate
  { headBlockHeader := { blockNum := forkBlockNumV0429, timestamp := 1000000000 }
    propertyDb := (∅ : Map _ _).insert .activeDelegateListId
      (.accounts ((List.range 51).map Int.ofNat))
    assetDb := (Table.empty.store { id := 0, symbol := "BTS", issuerAccountId := 0 }).store
      { id := 22, symbol := "USD", issuerAccountId := AssetRecord.marketIssuerId }
    feedDb := ((List.range 51).map Int.ofNat).foldl (fun t n => t.store
      { feed := ⟨22, n⟩, value := .price dollarFeed, lastUpdate := 1000000000 }) .empty }

def dollarEngine : @EngineState Fc.separate :=
  letI := Fc.separate
  { bidItr := [], askItr := [], relativeBidItr := [], shortItr := [], collateralItr := []
    collateralExpirationItr := []
    quoteAsset := { id := 22, symbol := "USD", issuerAccountId := AssetRecord.marketIssuerId }
    baseAsset := { id := 0, symbol := "BTS", issuerAccountId := 0 }
    tradingVolume := {} }

/-- The dollar has another market, beside the one where a position has expired. -/
def goldMarket : @ChainDatabase Fc.separate :=
  letI := Fc.separate
  { dollarChain with
    assetDb := dollarChain.assetDb.store
      { id := 5, symbol := "GOLD", issuerAccountId := AssetRecord.marketIssuerId }
    collateralDb := (∅ : Map _ _).insert ⟨dollarFeed, 9⟩
      { collateralBalance := 30, payoffBalance := 1, interestRate := ⟨0, 0, 22⟩, expiration := 1 }
    collateralExpirationIndex := [⟨22, 1, ⟨dollarFeed, 9⟩⟩] }

def goldPrice : Price := ⟨100000000000000000, 5, 22⟩

/-- A short of a thousand fills an ask in the market of the dollar. -/
def shortedAsk (balance : Int) : @ChainDatabase Fc.separate :=
  letI := Fc.separate
  { dollarChain with
    askDb := (∅ : Map _ _).insert ⟨dollarFeed, 7⟩ { balance }
    shortDb := (∅ : Map _ _).insert ⟨⟨0, 0, 22⟩, 8⟩ { balance := 1000 } }

/-- A position that owes a hundred dollars is called, and there is a bid of a thousand. -/
def calledPosition (collateralBalance : Int) : @ChainDatabase Fc.separate :=
  letI := Fc.separate
  let key : MarketIndexKey := ⟨⟨200000000000000000, 0, 22⟩, 9⟩
  { dollarChain with
    assetDb := dollarChain.assetDb.store
      { id := 22, symbol := "USD", issuerAccountId := AssetRecord.marketIssuerId
        currentShareSupply := 100 }
    bidDb := (∅ : Map _ _).insert ⟨dollarFeed, 7⟩ { balance := 1000 }
    collateralDb := (∅ : Map _ _).insert key
      { collateralBalance, payoffBalance := 100, interestRate := ⟨0, 0, 22⟩
        expiration := 1001000000 }
    collateralExpirationIndex := [⟨22, 1001000000, key⟩] }

end Bts.Blockchain.MarketLedger
