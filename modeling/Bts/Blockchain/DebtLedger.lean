import Bts.Blockchain.MarketLedger

namespace Bts.Blockchain.DebtLedger

open Base.Word Amounts MarketRecords Transactions Pending Database Layers MarketEngine MarketMatch
  MarketExecute MarketLoop MarketRuns MarketBooks MarketEffects MarketTrades MarketSync MarketPasses
  MarketCovers MarketLedger Holdings

def OwesAtLeast (old stored : CollateralRecord) : Prop :=
  0 ≤ old.payoffBalance ∧ old.payoffBalance ≤ stored.payoffBalance

def HandOwes (ask : MarketOrder) (_ stored : CollateralRecord) : Prop :=
  0 ≤ ask.state.balance ∧ ask.state.balance ≤ stored.payoffBalance

theorem owes_reading : Reading OwesAtLeast HandOwes :=
  ⟨fun _ _ _ h => h, fun _ _ _ _ _ howed => ⟨howed, le_rfl⟩⟩

section Model

variable [Fc]

/-- What the positions owe above the supply. -/
def debtGap (m : Market) (e : EngineState) : Int :=
  owedDebt m.quoteId (m.pendingState e) - e.quoteAsset.currentShareSupply

structure DebtState (m : Market) (e : EngineState) : Prop where
  synced : Synced m e
  covers : Covers OwesAtLeast HandOwes m e
  pairs : CoverPairs m e
  positions : Holdings.positions.Nonneg (inDebt m.quoteId) (m.pendingState e)

/-- A trade with a cover finds the debt of the cover in the record at hand. -/
def recordOwes (m : Market) (e : EngineState) (bid ask : MarketOrder) : Prop :=
  match judge m e bid ask with
  | .ok (.trade _) =>
    ask.type = .coverOrder → e.currentCollatRecord.payoffBalance = ask.state.balance
  | _ => True

instance (m : Market) (e : EngineState) (bid ask : MarketOrder) :
    Decidable (recordOwes m e bid ask) := by
  unfold recordOwes
  exact decidableTrade (judge m e bid ask) _

/-- The record at hand is that of the cover, and the sums of the pass are ones of
`int64_t`. -/
def DebtRoom (m : Market) (e : EngineState) (bid ask : MarketOrder) : Prop :=
  recordOwes m e bid ask ∧
    owedDebt m.quoteId (m.pendingState e) + soldShort m e bid ask ≤ 9223372036854775807 ∧
    Fits (e.quoteAsset.currentShareSupply + soldShort m e bid ask) ∧
    Fits (e.quoteAsset.currentShareSupply - owedDebt m.quoteId (m.pendingState e))
  deriving Decidable

/-- A pass keeps the debt equal to the supply: the cover at hand owes what its position
owes, nothing of it is written off, and a short does not add to it. -/
def keepsDebt (m : Market) (e : EngineState) (bid ask : MarketOrder) : Prop :=
  match judge m e bid ask with
  | .ok (.trade t) => ask.type = .coverOrder →
    (Holdings.positions.get (m.pendingState e) ask.marketIndex).map (·.payoffBalance) =
        some ask.state.balance ∧
      writtenOff m e bid ask = 0 ∧
      (bid.type = .shortOrder → (openedKey m e bid ask t).toOption ≠ some ask.marketIndex)
  | _ => True

instance (m : Market) (e : EngineState) (bid ask : MarketOrder) :
    Decidable (keepsDebt m e bid ask) := by
  unfold keepsDebt
  exact decidableTrade (judge m e bid ask) _

variable {m : Market} {e d : EngineState} {bid ask : MarketOrder} {mtrx : MarketTransaction}

theorem keepsDebt_trade {t : MarketTransaction} (h : judge m e bid ask = .ok (.trade t)) :
    keepsDebt m e bid ask ↔ (ask.type = .coverOrder →
      (Holdings.positions.get (m.pendingState e) ask.marketIndex).map (·.payoffBalance) =
          some ask.state.balance ∧
        writtenOff m e bid ask = 0 ∧
        (bid.type = .shortOrder → (openedKey m e bid ask t).toOption ≠ some ask.marketIndex)) := by
  unfold keepsDebt
  rw [h]

theorem inDebt_quote {key : MarketIndexKey} (hkey : key.orderPrice.quoteAssetId = m.quoteId) :
    inDebt m.quoteId key = CollateralRecord.payoffBalance := by
  funext r
  exact if_pos hkey

/-- No position owes a negative amount of the quote asset. -/
abbrev DebtSound (m : Market) (e : EngineState) : Prop :=
  Holdings.positions.Nonneg (inDebt m.quoteId) (m.pendingState e)

theorem debt_frame (h : DebtSound m e)
    (hcollateral : d.layer.collateral = e.layer.collateral)
    (hsupply : d.quoteAsset.currentShareSupply = e.quoteAsset.currentShareSupply) :
    DebtSound m d ∧ debtGap m d = debtGap m e := by
  obtain ⟨hpositions, hheld⟩ := h.keep hcollateral
  refine ⟨hpositions, ?_⟩
  unfold debtGap owedDebt Market.pendingState
  rw [hheld, hsupply]

theorem debt_afterAsk (h : DebtSound m e) (mtrx : MarketTransaction) (toQuote : Bool)
    (htype : ask.type = .askOrder) : DebtSound m (afterAsk m e ask mtrx toQuote) ∧
      debtGap m (afterAsk m e ask mtrx toQuote) = debtGap m e := by
  refine debt_frame h (afterAsk_frame PendingState.collateral mtrx toQuote htype fun _ _ _ => rfl) ?_
  cases toQuote <;> rfl

theorem debt_booked {e' : EngineState} (hm : Setting m) (hs : Synced m e) (h : DebtSound m e)
    (hbooked : Booked mtrx e e') : DebtSound m e' ∧ debtGap m e' = debtGap m e :=
  debt_frame h (by rw [hbooked.layer]) (hbooked.quoteSupply hm hs)

section Passes

variable {t : MarketTransaction} {d' e' : EngineState} {feed : Price}
  {forSale exchanged paid collateral : Asset}

theorem DebtState.payCurrentShort (h : DebtState m e) (hand : Hand m e bid ask)
    (ht : ShortTrade m e bid ask t feed exchanged paid collateral)
    (hroom : owedDebt m.quoteId (m.pendingState e) + exchanged.amount ≤ 9223372036854775807)
    (hsupply : Fits (e.quoteAsset.currentShareSupply + exchanged.amount))
    (hpay : m.payCurrentShort e bid (filled t exchanged paid (some collateral)) = .ok (d, mtrx)) :
    Covers OwesAtLeast HandOwes m d ∧ DebtSound m d ∧ debtGap m d = debtGap m e ∧
      d.quoteAsset.currentShareSupply = e.quoteAsset.currentShareSupply + exchanged.amount ∧
      Grown CollateralRecord.payoffBalance m e d (openedKey m e bid ask t).toOption := by
  rcases ht.pays hand hpay with ⟨hzero, hkey, sc, rfl⟩ | ⟨hpos, key, sc, total, hkey, hpair, -, -, rfl⟩
  · rw [hzero, Int.add_zero] at hsupply ⊢
    have hissued : (afterNoSale e bid sc).quoteAsset.currentShareSupply =
        e.quoteAsset.currentShareSupply := by
      have hissue : (afterNoSale e bid sc).quoteAsset.currentShareSupply =
        int64 (e.quoteAsset.currentShareSupply + 0) := rfl
      rw [hissue, Int.add_zero]
      exact int64_of_fits hsupply
    obtain ⟨hpositions, hgap⟩ := debt_frame (d := afterNoSale e bid sc) h.positions rfl hissued
    rw [hkey]
    exact ⟨h.covers.same rfl rfl rfl rfl rfl, hpositions, hgap, hissued, grown_noSale⟩
  · have hold := h.positions.elim_le key
    rw [inDebt_quote hpair.1] at hold
    change _ ∧ _ ≤ owedDebt m.quoteId (m.pendingState e) at hold
    have hcover : (openedCover m e bid key total.amount exchanged.amount).payoffBalance =
        (Holdings.positions.get (m.pendingState e) key).elim 0 CollateralRecord.payoffBalance +
          exchanged.amount := by
      rw [openedCover_amounts.2]
      exact int64_self
    obtain ⟨hcovers, hgrown⟩ := covers_grown CollateralRecord.payoffBalance bid
      (filled t exchanged paid (some collateral)) key sc total h.covers
      (fun _ _ _ hold hle => ⟨hold.1, hold.2.trans hle⟩)
      (fun _ _ _ _ hhand hle => ⟨hhand.1, hhand.2.trans hle⟩) hpos
      (fun r hr => hcover.trans (by rw [hr, Option.elim_some]))
    have hown : Holdings.positions.own
        (afterShort m e bid (filled t exchanged paid (some collateral)) key sc total).layer =
          (Holdings.positions.own e.layer).insert key
            (openedCover m e bid key total.amount exchanged.amount) := rfl
    have hissued : (afterShort m e bid (filled t exchanged paid (some collateral)) key sc
        total).quoteAsset.currentShareSupply =
          e.quoteAsset.currentShareSupply + exchanged.amount := int64_of_fits hsupply
    obtain ⟨hpositions, hheld⟩ := h.positions.store hown (by rw [inDebt_quote hpair.1]; omega)
    rw [inDebt_quote hpair.1, hcover] at hheld
    rw [hkey]
    refine ⟨hcovers, hpositions, ?_, hissued, hgrown⟩
    unfold debtGap
    unfold owedDebt Market.pendingState
    rw [hheld]
    unfold Market.pendingState
    omega

theorem DebtState.hand (h : DebtState m e) (hand : Hand m e bid ask)
    (htype : ask.type = .coverOrder) : ∃ stored,
      Holdings.positions.get (m.pendingState e) ask.marketIndex = some stored ∧
      0 ≤ ask.state.balance ∧ ask.state.balance ≤ stored.payoffBalance ∧
      stored.payoffBalance ≤ owedDebt m.quoteId (m.pendingState e) := by
  obtain ⟨-, stored, hstored, hnonneg, hle⟩ := h.covers.current ask hand.hasAsk htype
  have hheld := h.positions.le_held hstored
  rw [inDebt_quote hand.askPair.1] at hheld
  exact ⟨stored, hstored, hnonneg, hle, hheld⟩

/-- What a pass does to the debt: it takes something from it exactly if it is not one of those
that keep it. -/
structure Settled (m : Market) (e : EngineState) (bid ask : MarketOrder) (e' : EngineState) :
    Prop where
  covers : Covers OwesAtLeast HandOwes m e'
  positions : Holdings.positions.Nonneg (inDebt m.quoteId) (m.pendingState e')
  le : debtGap m e' ≤ debtGap m e
  keeps : debtGap m e' = debtGap m e ↔ keepsDebt m e bid ask

section

variable (h : DebtState m e) (hbooked : Booked mtrx d' e')
include h hbooked

theorem DebtState.settled_askBid (hdeal : AskBid m e bid ask t mtrx d d') :
    Settled m e bid ask e' := by
  obtain ⟨hd, -⟩ := hdeal.between
  have hafter := hdeal.after
  have hcovers := h.covers.payCurrentBid h.synced hdeal.setting hdeal.bidPays
  have hcovers' := hcovers.payCurrentAsk hd hdeal.setting hdeal.askPays
  obtain ⟨-, -, rfl⟩ := payCurrentBid_ok hdeal.setting.current h.synced.quoteFees hdeal.bidPays
  obtain ⟨-, -, rfl⟩ := payCurrentAsk_ok hdeal.setting.current hd.quoteFees hd.baseFees hdeal.askPays
  obtain ⟨hpositions, hgap⟩ := debt_frame (d := afterBid m e bid mtrx) h.positions
    (afterBid_positions mtrx hdeal.isBid) rfl
  obtain ⟨hpositions', hgap'⟩ := debt_afterAsk hpositions mtrx false hdeal.type
  obtain ⟨hpositions'', hgap''⟩ := debt_booked hdeal.setting hafter hpositions' hbooked
  have hsame := hgap''.trans (hgap'.trans hgap)
  refine ⟨hcovers'.booked hbooked, hpositions'', hsame.le, iff_of_true hsame ?_⟩
  rw [keepsDebt_trade hdeal.judged]
  exact fun hcover => absurd hcover (not_cover_of_ask hdeal.type)

variable (hroom : DebtRoom m e bid ask)
include hroom

theorem DebtState.settled_askShort
    (hdeal : AskShort m e bid ask t mtrx feed exchanged paid collateral d d') :
    Settled m e bid ask e' := by
  obtain ⟨hd, -⟩ := hdeal.between
  have hafter := hdeal.after
  have ht := askShort_trade hdeal
  have hsold : soldShort m e bid ask = exchanged.amount :=
    ofShort_trade hdeal.judged hdeal.isShort ht.trade
  obtain ⟨-, hdebt, hsupply, -⟩ := hroom
  rw [hsold] at hdebt hsupply
  obtain ⟨hcovers, hpositions, hgap, -⟩ := h.payCurrentShort hdeal.toHand ht hdebt hsupply
    hdeal.shortPays
  have hcovers' := hcovers.payCurrentAsk hd hdeal.setting hdeal.askPays
  obtain ⟨-, -, rfl⟩ := payCurrentAsk_ok hdeal.setting.current hd.quoteFees hd.baseFees hdeal.askPays
  obtain ⟨hpositions', hgap'⟩ := debt_afterAsk hpositions mtrx true hdeal.type
  obtain ⟨hpositions'', hgap''⟩ := debt_booked hdeal.setting hafter hpositions' hbooked
  have hsame := hgap''.trans (hgap'.trans hgap)
  refine ⟨hcovers'.booked hbooked, hpositions'', hsame.le, iff_of_true hsame ?_⟩
  rw [keepsDebt_trade hdeal.judged]
  exact fun hcover => absurd hcover (not_cover_of_ask hdeal.type)

/-- What the cover at hand pays comes out of the debt that is stored for it when it pays. -/
theorem DebtState.settled_cover {F : MarketTransaction} {stored stored' : CollateralRecord}
    (hc : Covering m e bid ask t F mtrx exchanged paid d d')
    (hcovers : Covers OwesAtLeast HandOwes m d)
    (hpositions : DebtSound m d) (hgap : debtGap m d = debtGap m e)
    (hsupply : Fits d.quoteAsset.currentShareSupply)
    (hsupply' : Fits (d.quoteAsset.currentShareSupply - ask.state.balance))
    (hstored : Holdings.positions.get (m.pendingState e) ask.marketIndex = some stored)
    (hstored' : Holdings.positions.get (m.pendingState d) ask.marketIndex = some stored')
    (hgrown : stored.payoffBalance ≤ stored'.payoffBalance)
    (hopened : stored'.payoffBalance = stored.payoffBalance ↔
      (bid.type = .shortOrder → (openedKey m e bid ask t).toOption ≠ some ask.marketIndex)) :
    Settled m e bid ask e' := by
  obtain ⟨hhand, hdebt, -⟩ := hroom
  unfold recordOwes at hhand
  rw [hc.judged] at hhand
  obtain ⟨_, hstored'', hnonneg, hle, hheld⟩ := h.hand hc.toHand hc.type
  cases hstored.symm.trans hstored''
  have hsold : 0 ≤ soldShort m e bid ask := by
    by_cases hshort : bid.type = .shortOrder
    · have htrade := hc.trade
      unfold coverTrade at htrade
      rw [if_pos hshort] at htrade
      have heq : soldShort m e bid ask = exchanged.amount := ofShort_trade hc.judged hshort htrade
      rw [heq]
      exact hc.nonneg.1
    · exact (ofShort_bid hshort).ge
  obtain ⟨payment, hpayment, hprinciple, hinterest, hpayoff, hquote, hoff, hoffLe, rest, hlayer⟩ :=
    writtenOff_eq hc.judged hc.type hc.trade hc.record hc.between.quoteId hc.received hc.pays hc.coverPays
  have hfits : Fits exchanged.amount := ⟨by have := hc.nonneg.1; omega, hc.max⟩
  have howed := coverPayment_owed hfits hnonneg (by omega) (hhand hc.type) hinterest hprinciple hpayment
  have hredeemed : d'.quoteAsset.currentShareSupply =
      d.quoteAsset.currentShareSupply - payment.principlePaid.amount := by
    rw [hquote]
    apply int64_of_fits
    unfold Fits at hsupply hsupply' ⊢
    omega
  obtain ⟨hpositions', hheld'⟩ := Shelf.Nonneg.store (l := d.layer) hpositions hlayer (by
    rw [inDebt_quote hc.askPair.1]
    dsimp only [settled]
    omega)
  have hstoredD : Holdings.positions.get (.pending d.layer m.prior) ask.marketIndex = some stored' :=
    hstored'
  rw [hstoredD, Option.elim_some, inDebt_quote hc.askPair.1] at hheld'
  obtain ⟨hpositions'', hgap''⟩ := debt_booked hc.setting hc.after hpositions' hbooked
  have hend : debtGap m e' = debtGap m e - (stored'.payoffBalance - ask.state.balance) -
      writtenOff m e bid ask := by
    rw [hgap'', ← hgap]
    unfold debtGap
    unfold owedDebt Market.pendingState
    rw [hheld']
    dsimp only [settled]
    omega
  refine ⟨(hcovers.payCurrentCover owes_reading hc.current hc.coverPays).booked hbooked, hpositions'',
    by rw [hend]; omega, ?_⟩
  rw [hend, keepsDebt_trade hc.judged, hstored, Option.map_some, Option.some.injEq, ← hopened]
  constructor
  · intro hsame _
    exact ⟨by omega, by omega, by omega⟩
  · intro hkeeps
    obtain ⟨heq, hzero, hsame⟩ := hkeeps hc.type
    omega

theorem DebtState.settled_coverBid
    (hdeal : CoverBid m e bid ask t mtrx forSale exchanged paid d d') : Settled m e bid ask e' := by
  have hnotShort := not_short_of_isBid hdeal.isBid
  have hc := coverBid_covering hdeal
  obtain ⟨stored, hstored, hnonneg, hle, hheld⟩ := h.hand hdeal.toHand hdeal.type
  have hcovers := h.covers.payCurrentBid h.synced hdeal.setting hdeal.bidPays
  have ⟨_, hdebt, hsupply, hsupply'⟩ := hroom
  have hsold : soldShort m e bid ask = 0 := ofShort_bid hnotShort
  rw [hsold, Int.add_zero] at hsupply
  unfold Fits at hsupply hsupply'
  obtain ⟨-, -, rfl⟩ := payCurrentBid_ok hdeal.setting.current h.synced.quoteFees hdeal.bidPays
  have hlayer := afterBid_positions (m := m) (e := e) (filled t exchanged paid t.shortCollateral)
    hdeal.isBid
  obtain ⟨hpositions, hgap⟩ := debt_frame
    (d := afterBid m e bid (filled t exchanged paid t.shortCollateral)) h.positions hlayer rfl
  have hkeep : (afterBid m e bid (filled t exchanged paid t.shortCollateral)).quoteAsset.currentShareSupply =
    e.quoteAsset.currentShareSupply := rfl
  refine h.settled_cover hbooked hroom hc hcovers hpositions hgap (by rw [hkeep]; exact hsupply)
    (by rw [hkeep]; unfold Fits; omega) hstored ?_ le_rfl
    (iff_of_true rfl fun hshort => absurd hshort hnotShort)
  rw [Market.pendingState, Shelf.get_congr Holdings.positions m.prior hlayer]
  exact hstored

theorem DebtState.settled_coverShort {t' : MarketTransaction}
    (hdeal : CoverShort m e bid ask t t' mtrx feed forSale exchanged paid collateral d d') :
    Settled m e bid ask e' := by
  have hc := coverShort_covering hdeal
  have ht := coverShort_trade hdeal
  obtain ⟨stored, hstored, hnonneg, hle, hheld⟩ := h.hand hdeal.toHand hdeal.type
  have ⟨_, hdebt, hsupply, hsupply'⟩ := hroom
  have hsold : soldShort m e bid ask = exchanged.amount :=
    ofShort_trade hdeal.judged hdeal.isShort ht.trade
  rw [hsold] at hdebt hsupply
  obtain ⟨hcovers, hpositions, hgap, hissued, hgrown⟩ := h.payCurrentShort hdeal.toHand ht hdebt hsupply
    hdeal.shortPays
  obtain ⟨stored', hstored', hlarger, hopened⟩ := hgrown ask.marketIndex stored hstored
  have hnonneg' := hc.nonneg.1
  unfold Fits at hsupply hsupply'
  exact h.settled_cover hbooked hroom hc hcovers hpositions hgap (by rw [hissued]; exact hsupply)
    (by rw [hissued]; unfold Fits; omega) hstored hstored' hlarger
    (hopened.trans ⟨fun hkey _ => hkey, fun hkey => hkey hdeal.isShort⟩)

end

end Passes

theorem DebtState.pass {e' : EngineState} (h : DebtState m e) (hand : Hand m e bid ask)
    (hroom : DebtRoom m e bid ask) (hmatch : matchPair m e bid ask = .ok (some e')) :
    DebtState m e' ∧ debtGap m e' ≤ debtGap m e ∧
      (debtGap m e' = debtGap m e ↔ keepsDebt m e bid ask) := by
  have hpassed := matchPair_passed hand hmatch
  have hall : Settled m e bid ask e' := by
    cases hpassed with
    | bidDropped judged =>
      obtain ⟨hpositions, hgap⟩ := debt_frame (d := { e with currentBid := none }) h.positions rfl rfl
      refine ⟨h.covers.same rfl rfl rfl rfl rfl, hpositions, hgap.le, iff_of_true hgap ?_⟩
      unfold keepsDebt
      rw [judged]
      exact trivial
    | askDropped judged =>
      obtain ⟨hpositions, hgap⟩ := debt_frame (d := { e with currentAsk := none }) h.positions rfl rfl
      refine ⟨h.covers.frame rfl (List.Sublist.refl _) (List.Sublist.refl _) ?_, hpositions, hgap.le,
        iff_of_true hgap ?_⟩
      · intro a hnone
        cases hnone
      · unfold keepsDebt
        rw [judged]
        exact trivial
    | askBid deal booked => exact h.settled_askBid booked deal
    | askShort deal booked => exact h.settled_askShort booked hroom deal
    | coverBid deal booked => exact h.settled_coverBid booked hroom deal
    | coverShort deal booked => exact h.settled_coverShort booked hroom deal
  exact ⟨⟨hpassed.synced hand.setting h.synced, hall.covers, h.pairs.matchPair hand hmatch,
    hall.positions⟩, hall.le, hall.keeps⟩

theorem debt_accounts (hm : Setting m) :
    Accounts m (DebtRoom m) (DebtState m) (debtGap m) (keepsDebt m) where
  bid e e' h ht := by
    obtain ⟨hlayer, hquote, -⟩ := bidTaken_same ht
    obtain ⟨hpositions, hgap⟩ := debt_frame (d := e') h.positions (by rw [hlayer]) (by rw [hquote])
    exact ⟨⟨h.synced.bidTaken ht, h.covers.bidTaken ht, h.pairs.bidTaken ht, hpositions⟩, hgap⟩
  ask e e' h ht := by
    obtain ⟨hlayer, hquote, -⟩ := askTaken_same ht
    obtain ⟨hpositions, hgap⟩ := debt_frame (d := e') h.positions (by rw [hlayer]) (by rw [hquote])
    exact ⟨⟨h.synced.askTaken ht, h.covers.askTaken owes_reading (fun _ _ _ _ _ _ hR => hR) ht,
      h.pairs.askTaken ht, hpositions⟩, hgap⟩
  pass e e' bid ask h hC hbid hask hmatch :=
    h.pass ⟨hm, h.synced, hbid, hask, h.pairs.current ask hask⟩ hC hmatch

theorem opened_debtState {prior : ChainInterface} {quoteId baseId : Int}
    (h : Opened prior quoteId baseId m e) (hbook : OrderBook prior quoteId baseId)
    (hcovers : CoverBook prior quoteId baseId)
    (hnonneg : Holdings.positions.Nonneg (inDebt quoteId) prior) :
    DebtState m e ∧ debtGap m e = owedDebt quoteId prior - shareSupply quoteId prior := by
  have hsynced := opened_synced h hbook
  have hpairs := opened_pairs h hcovers.expirations
  have hstart : Covers OwesAtLeast HandOwes m e := by
    refine opened_covers h hcovers fun k r hpair hr => ⟨?_, le_rfl⟩
    have hdebt := hnonneg k r hr
    unfold inDebt at hdebt
    rw [if_pos hpair.1] at hdebt
    exact hdebt
  have hpositions := h.get Holdings.positions rfl
  obtain ⟨rfl, -⟩ : m.quoteId = quoteId ∧ m.prior = prior := ⟨h.quote, h.below⟩
  refine ⟨⟨hsynced, hstart, hpairs, hnonneg.congr hpositions⟩, ?_⟩
  unfold debtGap owedDebt shareSupply
  rw [Shelf.held_of_get hpositions, h.quoteAsset]
  rfl

theorem left_debtGap {c : ChainInterface} (h : Left m d c) (hs : Synced m d) (hm : Setting m) :
    owedDebt m.quoteId c - shareSupply m.quoteId c = debtGap m d := by
  unfold debtGap owedDebt shareSupply
  rw [(left_assets h hs hm).1, Shelf.held_of_get h.positions]
  rfl

/-- A supply that is owed by the positions stays so exactly if every pass keeps it. -/
theorem execute_debt_iff {layer layer' : PendingState} {prev : ChainInterface}
    {quoteId baseId : Int} {timestamp : Nat} {trxs : List MarketTransaction}
    (hfork : forkBlockNumV0429 ≤ prev.getHeadBlockNum)
    (hbook : OrderBook (.pending layer prev) quoteId baseId)
    (hcovers : CoverBook (.pending layer prev) quoteId baseId)
    (hnonneg : Holdings.positions.Nonneg (inDebt quoteId) (.pending layer prev))
    (hopen : openMarket (.pending layer prev) quoteId baseId = .ok (m, e))
    (hrun : runAndApply m e layer prev timestamp = .ok (layer', trxs))
    (hroom : MarketMeets m (DebtRoom m) e)
    (howed : shareSupply quoteId (.pending layer prev) = owedDebt quoteId (.pending layer prev)) :
    shareSupply quoteId (.pending layer' prev) = owedDebt quoteId (.pending layer' prev) ↔
      MarketMeets m (keepsDebt m) e := by
  have hopened := openMarket_ok hopen
  have hm : Setting m := hopened.setting hfork
  obtain ⟨hstate, hgap⟩ := opened_debtState hopened hbook hcovers hnonneg
  obtain ⟨d, hmatch, hleft⟩ := runAndApply_left hopen hrun
  obtain ⟨hd, -, hkeeps⟩ := (debt_accounts hm).matchMarket hm hroom hmatch hstate
  have hleft' := left_debtGap hleft hd.synced hm
  have hquote : m.quoteId = quoteId := hopened.quote
  rw [hquote] at hleft'
  rw [← hkeeps, ← hleft', hgap]
  constructor <;> intro h <;> omega

end Model

theorem executed_calledPosition :
    letI := Fc.separate
    Executed {} (.database (calledPosition 3000)) 22 0 1000000010 fun m e _ =>
      MarketMeets m (DebtRoom m) e ∧ MarketMeets m (keepsDebt m) e := by
  decide +kernel

theorem calledPosition_owed :
    letI := Fc.separate
    shareSupply 22 (.pending {} (.database (calledPosition 3000))) =
      owedDebt 22 (.pending {} (.database (calledPosition 3000))) ∧
    Holdings.positions.Nonneg (inDebt 22) (.pending {} (.database (calledPosition 3000))) := by
  decide +kernel

theorem execute_debt_iff_calledPosition :
    letI := Fc.separate
    let prev := ChainInterface.database (calledPosition 3000)
    ∃ m e layer trxs, openMarket (.pending {} prev) 22 0 = .ok (m, e) ∧
      runAndApply m e {} prev 1000000010 = .ok (layer, trxs) ∧
      shareSupply 22 (.pending layer prev) = owedDebt 22 (.pending layer prev) := by
  let := Fc.separate
  intro prev
  obtain ⟨m, e, layer, trxs, hopen, hrun, hroom, hkeeps⟩ := executed_calledPosition.exists
  obtain ⟨howed, hnonneg⟩ := calledPosition_owed
  have hbook : OrderBook (.pending {} prev) 22 0 :=
    orderBook_database (by decide +kernel) (by decide +kernel)
  have hcovers : CoverBook (.pending {} prev) 22 0 := coverBook_database (by decide) (by decide)
  exact ⟨m, e, layer, trxs, hopen, hrun, (execute_debt_iff (by decide) hbook hcovers hnonneg hopen
    hrun hroom howed).mpr hkeeps⟩

/-- The collateral of the position pays half of its debt. The other half is taken from the
fees and from the position, but not from the supply. -/
theorem execute_forgets_debt :
    letI := Fc.separate
    Executed {} (.database (calledPosition 500)) 22 0 1000000010 fun _ _ layer =>
      shareSupply 22 (.pending {} (.database (calledPosition 500))) = 100 ∧
        owedDebt 22 (.pending {} (.database (calledPosition 500))) = 100 ∧
        shareSupply 22 (.pending layer (.database (calledPosition 500))) = 50 ∧
        owedDebt 22 (.pending layer (.database (calledPosition 500))) = 0 := by
  decide +kernel

end Bts.Blockchain.DebtLedger
