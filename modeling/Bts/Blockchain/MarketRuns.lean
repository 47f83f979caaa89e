import Bts.Blockchain.BlockLayer
import Bts.Blockchain.Holdings
import Bts.Blockchain.MarketLoop

namespace Bts.Blockchain.MarketRuns

open Base.Result Amounts MarketRecords Transactions MarketEngine MarketMatch MarketExecute
  MarketLoop MarketWrites Holdings

variable [Fc] {m : Market} {e e' d : EngineState} {bid ask : MarketOrder}
  {mtrx mtrx' : MarketTransaction}

structure SameCursors (e e' : EngineState) : Prop where
  bids : e'.bidItr = e.bidItr
  asks : e'.askItr = e.askItr
  relativeBids : e'.relativeBidItr = e.relativeBidItr
  shorts : e'.shortItr = e.shortItr
  collateral : e'.collateralItr = e.collateralItr
  expirations : e'.collateralExpirationItr = e.collateralExpirationItr
  filled : e'.ordersFilled = e.ordersFilled

def Checked (mtrx : MarketTransaction) : Prop :=
  mtrx.askPaid.amount = 0 ∧ mtrx.askReceived.amount = 0 ∧ mtrx.bidReceived.assetId = 0 ∧
      mtrx.bidPaid.amount = 0 ∨
    0 ≤ mtrx.bidPaid.amount ∧ 0 ≤ mtrx.askPaid.amount ∧ 0 ≤ mtrx.bidReceived.amount ∧
      0 ≤ mtrx.askReceived.amount ∧ Asset.le mtrx.askReceived mtrx.bidPaid ∧
      Asset.le mtrx.bidReceived mtrx.askPaid ∧ 0 ≤ mtrx.feesCollected.amount

omit [Fc] in
theorem Checked.nonneg (h : Checked mtrx) :
    0 ≤ mtrx.bidPaid.amount ∧ 0 ≤ mtrx.askPaid.amount ∧ 0 ≤ mtrx.askReceived.amount := by
  rcases h with ⟨hask, hreceived, -, hbid⟩ | ⟨hbid, hask, -, hreceived, -⟩
  · exact ⟨hbid.ge, hask.ge, hreceived.ge⟩
  · exact ⟨hbid, hask, hreceived⟩

omit [Fc] in
theorem Checked.received_le (h : Checked mtrx) : mtrx.askReceived.amount ≤ mtrx.bidPaid.amount := by
  rcases h with ⟨-, hreceived, -, hbid⟩ | ⟨-, -, -, -, hle, -⟩
  · rw [hreceived, hbid]
  · exact hle.2

def withStatistics (e : EngineState) (transactions : List MarketTransaction) (volume : Asset)
    (opening closing : Price) : EngineState :=
  { e with
    marketTransactions := transactions
    tradingVolume := volume
    openingPrice := opening
    closingPrice := closing }

theorem recordTrade_ok (h : recordTrade m e bid ask mtrx = .ok e') :
    ∃ d mtrx' transactions volume opening closing, trade m e bid ask mtrx = .ok (d, mtrx') ∧
      Checked mtrx' ∧
      e' = collectFees (withStatistics d transactions volume opening closing) mtrx' := by
  simp only [recordTrade, Market.pushMarketTransaction, eq_ok_iff] at h
  obtain ⟨⟨d, mtrx'⟩, htrade, pushed, ⟨-, hchecked, rfl⟩, volume, -, rfl⟩ := h
  exact ⟨d, mtrx', _, volume, _, _, htrade, hchecked, rfl⟩

theorem SameCursors.of_effect (h : TradeEffect e e') : SameCursors e e' := by
  have hsame := h.cursors
  simp only [cursors, Prod.mk.injEq] at hsame
  obtain ⟨hbids, hasks, hrelative, hshorts, hcollateral, hexpirations, hfilled⟩ := hsame
  exact ⟨hbids, hasks, hrelative, hshorts, hcollateral, hexpirations, hfilled⟩

theorem matchPair_cursors (h : matchPair m e bid ask = .ok (some e')) : SameCursors e e' :=
  .of_effect (matchPair_effect h)

def left (e : EngineState) : Nat :=
  e.bidItr.length + e.askItr.length + e.relativeBidItr.length + e.shortItr.length +
    e.collateralItr.length + e.collateralExpirationItr.length

theorem SameCursors.left_eq (h : SameCursors e e') : left e' = left e := by
  unfold left
  rw [h.bids, h.asks, h.relativeBids, h.shorts, h.collateral, h.expirations]

theorem bidTaken_left (h : BidTaken m e e') :
    left e' ≤ left e ∧ e'.ordersFilled = e.ordersFilled ∧
      (e.currentBid = none → e'.currentBid.isSome → left e' < left e) := by
  unfold left
  cases h with
  | none => exact ⟨le_rfl, rfl, fun hnone hsome => by rw [hnone] at hsome; cases hsome⟩
  | bid itr | relativeBid itr | short itr =>
    rw [itr]
    dsimp only [List.length_cons]
    exact ⟨by omega, rfl, fun _ _ => by omega⟩

theorem askTaken_left (h : AskTaken m e e') :
    left e' ≤ left e ∧ e'.ordersFilled = e.ordersFilled ∧ e'.currentBid = e.currentBid ∧
      (e.currentAsk = none → e'.currentAsk.isSome → left e' < left e) := by
  unfold left
  cases h with
  | called bid itr =>
    rw [itr]
    dsimp only [List.length_cons]
    exact ⟨by omega, rfl, rfl, fun _ _ => by omega⟩
  | expired called uncalled first expirations =>
    have hcalled := called.length_le
    rw [expirations, List.length_append]
    dsimp only [List.length_cons]
    exact ⟨by omega, rfl, rfl, fun _ _ => by omega⟩
  | ask called passed asks =>
    have hcalled := called.length_le
    have hpassed := passed.length_le
    rw [asks]
    dsimp only [List.length_cons]
    exact ⟨by omega, rfl, rfl, fun _ _ => by omega⟩
  | none called passed rest =>
    have hcalled := called.length_le
    have hpassed := passed.length_le
    have hrest := rest.length_le
    dsimp only
    exact ⟨by omega, rfl, rfl, fun hnone hsome => by rw [hnone] at hsome; cases hsome⟩

theorem nextPair_ok {next : Option (MarketOrder × MarketOrder)}
    (h : nextPair m e = .ok (e', next)) :
    (next = none ∧ m.getNextBid e = .ok e' ∧ e'.currentBid = none) ∨
      ∃ d bid, m.getNextBid e = .ok d ∧ d.currentBid = some bid ∧ m.getNextAsk d = .ok e' ∧
        next = e'.currentAsk.map fun ask => (bid, ask) := by
  simp only [nextPair, bind_eq_ok] at h
  obtain ⟨d, hbid, h⟩ := h
  split at h
  next hnone =>
    cases h
    exact Or.inl ⟨rfl, hbid, hnone⟩
  next bid hsome =>
    simp only [eq_ok_iff, Prod.mk.injEq] at h
    obtain ⟨d', hask, rfl, rfl⟩ := h
    exact Or.inr ⟨d, bid, hbid, hsome, hask, rfl⟩

theorem getNextBid_left (hm : Setting m) (h : m.getNextBid e = .ok e') :
    left e' ≤ left e ∧ (e'.currentBid.isSome → e'.ordersFilled = e.ordersFilled ∨ left e' < left e) := by
  rcases getNextBid_cases hm h with ⟨rfl, -⟩ | htaken
  · exact ⟨le_rfl, fun _ => Or.inl rfl⟩
  · obtain ⟨hle, -, hlt⟩ := bidTaken_left htaken
    exact ⟨hle, fun hsome => Or.inr (hlt rfl hsome)⟩

theorem getNextAsk_left (hm : Setting m) (h : m.getNextAsk e = .ok e') :
    left e' ≤ left e ∧ e'.currentBid = e.currentBid ∧
      (e'.currentAsk.isSome → e'.ordersFilled = e.ordersFilled ∨ left e' < left e) := by
  rcases getNextAsk_cases hm h with ⟨rfl, -⟩ | htaken
  · exact ⟨le_rfl, rfl, fun _ => Or.inl rfl⟩
  · obtain ⟨hle, -, hbid, hlt⟩ := askTaken_left htaken
    exact ⟨hle, hbid, fun hsome => Or.inr (hlt rfl hsome)⟩

theorem nextPair_some (hm : Setting m) (h : nextPair m e = .ok (e', some (bid, ask))) :
    (∃ d, m.getNextBid e = .ok d ∧ m.getNextAsk d = .ok e') ∧ e'.currentBid = some bid ∧
      e'.currentAsk = some ask ∧ left e' ≤ left e ∧
      (e'.ordersFilled = e.ordersFilled ∨ left e' < left e) := by
  rcases nextPair_ok h with ⟨hnone, -⟩ | ⟨d, b, hbid, hcurrent, hask, hnext⟩
  · cases hnone
  · obtain ⟨a, ha, hpair⟩ := Option.map_eq_some_iff.mp hnext.symm
    cases hpair
    obtain ⟨hle, hfilled⟩ := getNextBid_left hm hbid
    obtain ⟨hle', hsame, hfilled'⟩ := getNextAsk_left hm hask
    have hbid' := hfilled (Option.isSome_of_eq_some hcurrent)
    have hask' := hfilled' (Option.isSome_of_eq_some ha)
    refine ⟨⟨d, hbid, hask⟩, hsame.trans hcurrent, ha, hle'.trans hle, ?_⟩
    rcases hbid' with hsame | hlt
    · rcases hask' with hsame' | hlt
      · exact Or.inl (hsame'.trans hsame)
      · exact Or.inr (hlt.trans_le hle)
    · exact Or.inr (hle'.trans_lt hlt)

theorem matchOrders_isSome (hm : Setting m) (n : Nat) (k : Int) (e : EngineState)
    (hn : left e + (if e.ordersFilled = k then 0 else 1) < n) :
    (matchOrders m n k e).isSome := by
  induction n generalizing k e with
  | zero => omega
  | succ n ih =>
    unfold matchOrders
    split
    · rfl
    · rfl
    next d bid ask hpair =>
      obtain ⟨-, -, -, hle, hfilled⟩ := nextPair_some hm hpair
      split
      · rfl
      next hk =>
        split
        · rfl
        · rfl
        next next hmatch =>
          have hsame := matchPair_cursors hmatch
          apply ih
          rw [hsame.left_eq, hsame.filled, if_pos rfl]
          split at hn
          next hlast =>
            rw [hlast] at hfilled
            omega
          next => omega

theorem matchOrders_ends (hm : Setting m) (e : EngineState) :
    (matchOrders m (passes e) (-1) e).isSome := by
  refine matchOrders_isSome hm _ _ _ ?_
  unfold left passes
  split <;> omega

theorem matchMarket_ok (hm : Setting m) (h : matchMarket m e = .ok e') :
    ∃ d d', m.getNextBid e = .ok d ∧ m.getNextAsk d = .ok d' ∧
      matchOrders m (passes d') (-1) d' = some (.ok e') := by
  simp only [matchMarket, bind_eq_ok] at h
  obtain ⟨d, hbid, d', hask, h⟩ := h
  obtain ⟨r, hr⟩ := Option.isSome_iff_exists.mp (matchOrders_ends hm d')
  rw [hr] at h
  cases h
  exact ⟨d, d', hbid, hask, hr⟩

variable (m) in
/-- Every pass of the loop that goes on meets a condition on the orders at hand. -/
def PassesMeet (C : EngineState → MarketOrder → MarketOrder → Prop) :
    Nat → Int → EngineState → Prop
  | 0, _, _ => True
  | passes + 1, last, e =>
    match nextPair m e with
    | .ok (d, some (bid, ask)) =>
      if d.ordersFilled = last then True
      else match matchPair m d bid ask with
        | .ok (some next) => C d bid ask ∧ PassesMeet C passes d.ordersFilled next
        | _ => True
    | _ => True

variable (m) in
def MarketMeets (C : EngineState → MarketOrder → MarketOrder → Prop) (e : EngineState) : Prop :=
  match m.getNextBid e with
  | .error _ => True
  | .ok d =>
    match m.getNextAsk d with
    | .error _ => True
    | .ok d' => PassesMeet m C (passes d') (-1) d'

instance decidablePassesMeet {C : EngineState → MarketOrder → MarketOrder → Prop}
    [∀ e bid ask, Decidable (C e bid ask)] : ∀ n k e, Decidable (PassesMeet m C n k e)
  | 0, _, _ => isTrue trivial
  | n + 1, k, e => by
    have := decidablePassesMeet (C := C) n
    unfold PassesMeet
    split
    · split
      · exact isTrue trivial
      · split
        · infer_instance
        · exact isTrue trivial
    · exact isTrue trivial

instance decidableMarketMeets {C : EngineState → MarketOrder → MarketOrder → Prop}
    [∀ e bid ask, Decidable (C e bid ask)] (e : EngineState) : Decidable (MarketMeets m C e) := by
  unfold MarketMeets
  split
  · exact isTrue trivial
  · split
    · exact isTrue trivial
    · infer_instance

theorem passesMeet_true {n : Nat} {k : Int} : PassesMeet m (fun _ _ _ => True) n k e := by
  induction n generalizing k e with
  | zero => exact trivial
  | succ n ih =>
    unfold PassesMeet
    split
    · split
      · exact trivial
      · split
        · exact ⟨trivial, ih⟩
        · exact trivial
    · exact trivial

theorem marketMeets_true : MarketMeets m (fun _ _ _ => True) e := by
  unfold MarketMeets
  split
  · exact trivial
  · split
    · exact trivial
    · exact passesMeet_true

theorem PassesMeet.and {C D : EngineState → MarketOrder → MarketOrder → Prop} {n : Nat} {k : Int}
    (hC : PassesMeet m C n k e) (hD : PassesMeet m D n k e) :
    PassesMeet m (fun e bid ask => C e bid ask ∧ D e bid ask) n k e := by
  induction n generalizing k e with
  | zero => exact trivial
  | succ n ih =>
    unfold PassesMeet at hC hD ⊢
    split
    next hpair =>
      rw [hpair] at hC hD
      dsimp only at hC hD
      split
      · exact trivial
      next hk =>
        rw [if_neg hk] at hC hD
        split
        next hmatch =>
          rw [hmatch] at hC hD
          exact ⟨⟨hC.1, hD.1⟩, ih hC.2 hD.2⟩
        next => exact trivial
    next => exact trivial

theorem MarketMeets.and {C D : EngineState → MarketOrder → MarketOrder → Prop}
    (hC : MarketMeets m C e) (hD : MarketMeets m D e) :
    MarketMeets m (fun e bid ask => C e bid ask ∧ D e bid ask) e := by
  unfold MarketMeets at hC hD ⊢
  split
  · exact trivial
  next hbid =>
    rw [hbid] at hC hD
    dsimp only at hC hD
    split
    · exact trivial
    next hask =>
      rw [hask] at hC hD
      exact PassesMeet.and hC hD

/-- The accounts of a loop: an invariant `I`, an amount `f` that never grows, and the passes
`K` that keep it. -/
structure Accounts (m : Market) (C : EngineState → MarketOrder → MarketOrder → Prop)
    (I : EngineState → Prop) (f : EngineState → Int)
    (K : EngineState → MarketOrder → MarketOrder → Prop) : Prop where
  bid : ∀ e e', I e → BidTaken m { e with ordersFilled := e.ordersFilled + 1, currentBid := none } e' →
    I e' ∧ f e' = f e
  ask : ∀ e e', I e → AskTaken m { e with ordersFilled := e.ordersFilled + 1, currentAsk := none } e' →
    I e' ∧ f e' = f e
  pass : ∀ e e' bid ask, I e → C e bid ask → e.currentBid = some bid → e.currentAsk = some ask →
    matchPair m e bid ask = .ok (some e') → I e' ∧ f e' ≤ f e ∧ (f e' = f e ↔ K e bid ask)

section Loop

variable {C : EngineState → MarketOrder → MarketOrder → Prop} {I : EngineState → Prop}
  {f : EngineState → Int} {K : EngineState → MarketOrder → MarketOrder → Prop}

section

variable (h : Accounts m C I f K)
include h

theorem Accounts.getNextBid (hm : Setting m) (he : I e)
    (hnext : m.getNextBid e = .ok e') : I e' ∧ f e' = f e := by
  rcases getNextBid_cases hm hnext with ⟨rfl, -⟩ | htaken
  · exact ⟨he, rfl⟩
  · exact h.bid e e' he htaken

theorem Accounts.getNextAsk (hm : Setting m) (he : I e)
    (hnext : m.getNextAsk e = .ok e') : I e' ∧ f e' = f e := by
  rcases getNextAsk_cases hm hnext with ⟨rfl, -⟩ | htaken
  · exact ⟨he, rfl⟩
  · exact h.ask e e' he htaken

theorem Accounts.nextPair (hm : Setting m) (he : I e)
    {next : Option (MarketOrder × MarketOrder)} (hnext : nextPair m e = .ok (e', next)) :
    I e' ∧ f e' = f e := by
  rcases nextPair_ok hnext with ⟨-, hbid, -⟩ | ⟨d, b, hbid, -, hask, -⟩
  · exact h.getNextBid hm he hbid
  · obtain ⟨hd, hfd⟩ := h.getNextBid hm he hbid
    obtain ⟨he', hfe'⟩ := h.getNextAsk hm hd hask
    exact ⟨he', hfe'.trans hfd⟩

theorem Accounts.matchOrders (hm : Setting m) {n : Nat} {k : Int}
    (hC : PassesMeet m C n k e) (hrun : matchOrders m n k e = some (.ok e')) (he : I e) :
    I e' ∧ f e' ≤ f e ∧ (f e' = f e ↔ PassesMeet m K n k e) := by
  induction n generalizing k e with
  | zero => cases hrun
  | succ n ih =>
    unfold MarketMatch.matchOrders at hrun
    unfold PassesMeet at hC ⊢
    split at hrun
    · cases hrun
    next d hpair =>
      cases hrun
      obtain ⟨hd, hfd⟩ := h.nextPair hm he hpair
      rw [hpair]
      exact ⟨hd, hfd.le, iff_of_true hfd trivial⟩
    next d bid ask hpair =>
      obtain ⟨hd, hfd⟩ := h.nextPair hm he hpair
      obtain ⟨-, hbid, hask, -, -⟩ := nextPair_some hm hpair
      rw [hpair] at hC ⊢
      dsimp only at hC ⊢
      split at hrun
      · cases hrun
      next hk =>
        rw [if_neg hk] at hC ⊢
        split at hrun
        · cases hrun
        next hmatch =>
          cases hrun
          rw [hmatch]
          exact ⟨hd, hfd.le, iff_of_true hfd trivial⟩
        next next hmatch =>
          rw [hmatch] at hC ⊢
          obtain ⟨hnext, hle, hkeep⟩ := h.pass d next bid ask hd hC.1 hbid hask hmatch
          obtain ⟨he', hle', hiff⟩ := ih hC.2 hrun hnext
          refine ⟨he', by omega, ?_⟩
          dsimp only
          rw [← hiff, ← hkeep]
          omega

theorem Accounts.matchMarket (hm : Setting m) (hC : MarketMeets m C e)
    (hrun : matchMarket m e = .ok e') (he : I e) :
    I e' ∧ f e' ≤ f e ∧ (f e' = f e ↔ MarketMeets m K e) := by
  obtain ⟨d, d', hbid, hask, hrun⟩ := matchMarket_ok hm hrun
  obtain ⟨hd, hfd⟩ := h.getNextBid hm he hbid
  obtain ⟨hd', hfd'⟩ := h.getNextAsk hm hd hask
  unfold MarketMeets at hC ⊢
  rw [hbid] at hC ⊢
  dsimp only at hC ⊢
  rw [hask] at hC ⊢
  obtain ⟨he', hle, hiff⟩ := h.matchOrders hm hC hrun hd'
  rw [hfd', hfd] at hle hiff
  exact ⟨he', hle, hiff⟩

end

end Loop

/-- An invariant of the matching loop: `get_next_bid`, `get_next_ask` and every pass keep it. -/
structure LoopInvariant (m : Market) (I : EngineState → Prop) : Prop where
  nextBid : ∀ {e e'}, I e → m.getNextBid e = .ok e' → I e'
  nextAsk : ∀ {e e'}, I e → m.getNextAsk e = .ok e' → I e'
  pass : ∀ {e e' bid ask}, I e → e.currentBid = some bid → e.currentAsk = some ask →
    matchPair m e bid ask = .ok (some e') → I e'

/-- How the loop ends: without a bid or an ask at hand, or with a bid and an ask that do not
trade. -/
inductive LoopEnd (m : Market) (I : EngineState → Prop) : EngineState → Prop
  | noPair {e d : EngineState} (inv : I e) (next : nextPair m e = .ok (d, none)) : LoopEnd m I d
  | stop {e : EngineState} {bid ask : MarketOrder} (inv : I e) (hasBid : e.currentBid = some bid)
    (hasAsk : e.currentAsk = some ask) (last : matchPair m e bid ask = .ok none) : LoopEnd m I e

section Invariant

variable {I : EngineState → Prop}

theorem LoopInvariant.nextPair (h : LoopInvariant m I) (he : I e)
    {next : Option (MarketOrder × MarketOrder)} (hnext : nextPair m e = .ok (e', next)) : I e' := by
  rcases nextPair_ok hnext with ⟨-, hbid, -⟩ | ⟨d, bid, hbid, -, hask, -⟩
  · exact h.nextBid he hbid
  · exact h.nextAsk (h.nextBid he hbid) hask

theorem LoopInvariant.matchOrders (h : LoopInvariant m I) (hm : Setting m) {n : Nat} {k : Int}
    (he : I e) (hrun : matchOrders m n k e = some (.ok e')) : LoopEnd m I e' := by
  induction n generalizing k e with
  | zero => cases hrun
  | succ n ih =>
    unfold MarketMatch.matchOrders at hrun
    split at hrun
    · cases hrun
    next d hpair =>
      cases hrun
      exact .noPair he hpair
    next d bid ask hpair =>
      obtain ⟨-, hbid, hask, -⟩ := nextPair_some hm hpair
      have hd := h.nextPair he hpair
      split at hrun
      · cases hrun
      split at hrun
      · cases hrun
      next hlast =>
        cases hrun
        exact .stop hd hbid hask hlast
      next next hmatch => exact ih (h.pass hd hbid hask hmatch) hrun

theorem LoopInvariant.matchMarket (h : LoopInvariant m I) (hm : Setting m) (he : I e)
    (hrun : matchMarket m e = .ok e') : LoopEnd m I e' := by
  obtain ⟨d, d', hbid, hask, hrun⟩ := matchMarket_ok hm hrun
  exact h.matchOrders hm (h.nextAsk (h.nextBid he hbid) hask) hrun

end Invariant

end Bts.Blockchain.MarketRuns
