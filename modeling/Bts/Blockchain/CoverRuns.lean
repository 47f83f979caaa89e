import Bts.Blockchain.MarketLedger

namespace Bts.Blockchain.CoverRuns

open Base Result Maps Errors Amounts Records MarketRecords Transactions Pending Database Layers
  MarketEngine MarketMatch MarketExecute MarketLoop MarketRuns MarketBooks MarketEffects MarketTrades
  MarketSync MarketPasses MarketCovers MarketLedger Holdings

section Model

variable [Fc]

inductive EventKind
  | nextBid | nextAsk | shortPaid | matched | stored

/-- A step of the engine. In a pass with a short, the state between its payment and that of
the ask counts as well. -/
structure Event where
  kind : EventKind
  before : EngineState
  after : EngineState

def payShort (m : Market) (e : EngineState) (bid ask : MarketOrder) (t : MarketTransaction) :
    Except ChainError EngineState := do
  let feed ← orThrow m.feedPrice (.assertion "")
  let (exchanged, paid) ← shortTrade m e bid ask t
  let collateral ← shortStake feed bid exchanged
  let (d, _) ← m.payCurrentShort e bid (filled t exchanged paid (some collateral))
  pure d

/-- The engine after the short at hand has paid, in the middle of a pass. -/
def shortState (m : Market) (e : EngineState) (bid ask : MarketOrder) : Option EngineState :=
  match judge m e bid ask with
  | .ok (.trade t) =>
    if bid.type = .shortOrder then
      match payShort m e bid ask t with
      | .ok d => some d
      | .error _ => none
    else none
  | _ => none

def passEvents (m : Market) (e : EngineState) (bid ask : MarketOrder) : List Event :=
  match shortState m e bid ask with
  | some d => [⟨.shortPaid, e, d⟩]
  | none => []

/-- The events of the matching loop, up to its end or to the first error. -/
def loopEvents (m : Market) : Nat → Int → EngineState → List Event
  | 0, _, _ => []
  | passes + 1, last, e =>
    match m.getNextBid e with
    | .error _ => []
    | .ok b => ⟨.nextBid, e, b⟩ ::
      match b.currentBid with
      | none => []
      | some bid =>
        match m.getNextAsk b with
        | .error _ => []
        | .ok a => ⟨.nextAsk, b, a⟩ ::
          match a.currentAsk with
          | none => []
          | some ask =>
            if a.ordersFilled = last then []
            else passEvents m a bid ask ++
              match matchPair m a bid ask with
              | .ok (some next) => ⟨.matched, a, next⟩ :: loopEvents m passes a.ordersFilled next
              | _ => []

def matchEvents (m : Market) (e : EngineState) : List Event :=
  match m.getNextBid e with
  | .error _ => []
  | .ok b => ⟨.nextBid, e, b⟩ ::
    match m.getNextAsk b with
    | .error _ => []
    | .ok a => ⟨.nextAsk, b, a⟩ :: loopEvents m (passes a) (-1) a

/-- The history of a market looks at the next orders once more. -/
def historyEvents (m : Market) (e : EngineState) : List Event :=
  let layer := (e.layer.storeAssetRecord e.quoteAsset).storeAssetRecord e.baseAsset
  match updateMarketStatus m { e with layer } with
  | .error _ => []
  | .ok d => ⟨.stored, e, d⟩ ::
    if 0 < d.tradingVolume.amount then
      match m.getNextBid d with
      | .error _ => []
      | .ok b => ⟨.nextBid, d, b⟩ ::
        match b.currentBid with
        | none => []
        | some _ =>
          match m.getNextAsk b with
          | .error _ => []
          | .ok a => [⟨.nextAsk, b, a⟩]
    else []

def runEvents (m : Market) (e : EngineState) : List Event :=
  matchEvents m e ++
    match matchMarket m e with
    | .ok d => historyEvents m d
    | .error _ => []

/-- The short at hand does not open or enlarge the position of the cover at hand, nor one
that the iterators have still to visit. -/
def opensApart (m : Market) (e : EngineState) (bid ask : MarketOrder) : Prop :=
  match judge m e bid ask with
  | .ok (.trade t) => bid.type = .shortOrder → ∀ key ∈ (openedKey m e bid ask t).toOption,
    ¬ ToVisit m e key ∧ (ask.type = .coverOrder → key ≠ ask.marketIndex)
  | _ => True

instance (m : Market) (e : EngineState) (bid ask : MarketOrder) :
    Decidable (opensApart m e bid ask) := by
  unfold opensApart
  exact decidableTrade (judge m e bid ask) _

/-- An event meets `A` before the next ask, and keeps the positions of shorts and covers
apart in a pass. -/
def Event.Meets (m : Market) (A : EngineState → Prop) (x : Event) : Prop :=
  match x.kind with
  | .nextAsk => A x.before
  | .shortPaid | .matched => ∀ bid ∈ x.before.currentBid, ∀ ask ∈ x.before.currentAsk,
    opensApart m x.before bid ask
  | .nextBid | .stored => True

instance (m : Market) (A : EngineState → Prop) [DecidablePred A] (x : Event) :
    Decidable (x.Meets m A) := by
  unfold Event.Meets
  split <;> infer_instance

variable {m : Market} {e d e' : EngineState} {bid ask : MarketOrder}
  {mtrx : MarketTransaction}

theorem opensApart_trade {t : MarketTransaction} (h : judge m e bid ask = .ok (.trade t))
    (hapart : opensApart m e bid ask) (htype : bid.type = .shortOrder) :
    ∀ key ∈ (openedKey m e bid ask t).toOption,
      ¬ ToVisit m e key ∧ (ask.type = .coverOrder → key ≠ ask.marketIndex) := by
  unfold opensApart at hapart
  rw [h] at hapart
  exact hapart htype

/-- The steps of the engine that events are. -/
def Step (m : Market) : EventKind → EngineState → EngineState → Prop
  | .nextBid, e, d => m.getNextBid e = .ok d
  | .nextAsk, e, d => m.getNextAsk e = .ok d
  | .shortPaid, e, d => ∃ bid ask, e.currentBid = some bid ∧ e.currentAsk = some ask ∧
    shortState m e bid ask = some d
  | .matched, e, d => ∃ bid ask, e.currentBid = some bid ∧ e.currentAsk = some ask ∧
    matchPair m e bid ask = .ok (some d)
  | .stored, e, d => updateMarketStatus m { e with
      layer := (e.layer.storeAssetRecord e.quoteAsset).storeAssetRecord e.baseAsset } = .ok d

/-- An event is a step between two states with the property `I`. -/
def Event.Within (m : Market) (I : EngineState → Prop) (x : Event) : Prop :=
  Step m x.kind x.before x.after ∧ I x.before ∧ I x.after

section Runs

variable {I : EngineState → Prop} {C : Event → Prop}

theorem passEvents_happen (hbid : e.currentBid = some bid) (hask : e.currentAsk = some ask) :
    ∀ x ∈ passEvents m e bid ask, Step m x.kind x.before x.after ∧ x.before = e := by
  unfold passEvents
  split
  next d hshort =>
    intro x hx
    rw [List.mem_singleton] at hx
    subst hx
    exact ⟨⟨bid, ask, hbid, hask, hshort⟩, rfl⟩
  next =>
    intro x hx
    cases hx

variable (hstep : ∀ kind e d, Step m kind e d → C ⟨kind, e, d⟩ → I e → I d)
include hstep

/-- The events of a step, which keeps the invariant, and of what follows it. -/
theorem events_kept (kind : EventKind) {step : Except ChainError EngineState}
    (hkind : ∀ d, step = .ok d → Step m kind e d) {next : EngineState → List Event}
    (h : I e) (hnext : ∀ d, step = .ok d → I d → (∀ x ∈ next d, C x) →
      ∀ x ∈ next d, x.Within m I) :
    let l := match step with
      | .error _ => []
      | .ok d => Event.mk kind e d :: next d
    (∀ x ∈ l, C x) → ∀ x ∈ l, x.Within m I := by
  cases hd : step with
  | error x => exact fun _ x hx => by cases hx
  | ok d =>
    intro l hmeets
    rw [List.forall_mem_cons] at hmeets ⊢
    have hafter := hstep _ _ _ (hkind d hd) hmeets.1 h
    exact ⟨⟨hkind d hd, h, hafter⟩, hnext d hd hafter hmeets.2⟩

variable (hm : Setting m)
include hm

theorem loopEvents_kept (h : I e) {n : Nat} {k : Int} (hmeets : ∀ x ∈ loopEvents m n k e, C x) :
    ∀ x ∈ loopEvents m n k e, x.Within m I := by
  induction n generalizing k e with
  | zero =>
    intro x hx
    cases hx
  | succ n ih =>
    refine events_kept hstep .nextBid (fun _ hb => hb) h (fun b hbid hb => ?_) hmeets
    cases hcurrent : b.currentBid with
    | none => exact fun _ x hx => by cases hx
    | some bid =>
      refine events_kept hstep .nextAsk (fun _ ha => ha) hb fun a hask ha => ?_
      cases hcurrentAsk : a.currentAsk with
      | none => exact fun _ x hx => by cases hx
      | some ask =>
        have hcurrentBid : a.currentBid = some bid := (getNextAsk_left hm hask).2.1.trans hcurrent
        dsimp only
        split
        · exact fun _ x hx => by cases hx
        · intro hmeets
          rw [List.forall_mem_append] at hmeets ⊢
          refine ⟨fun x hx => ?_, ?_⟩
          · obtain ⟨hx', hbefore⟩ := passEvents_happen hcurrentBid hcurrentAsk x hx
            rw [← hbefore] at ha
            exact ⟨hx', ha, hstep _ _ _ hx' (hmeets.1 x hx) ha⟩
          · have hmeets := hmeets.2
            split
            next next hmatch =>
              rw [hmatch] at hmeets
              rw [List.forall_mem_cons] at hmeets ⊢
              have hx : Step m .matched a next :=
                ⟨bid, ask, hcurrentBid, hcurrentAsk, hmatch⟩
              have hnext := hstep _ _ _ hx hmeets.1 ha
              exact ⟨⟨hx, ha, hnext⟩, ih hnext hmeets.2⟩
            next => exact fun x hx => by cases hx

theorem matchEvents_kept (h : I e) (hmeets : ∀ x ∈ matchEvents m e, C x) :
    ∀ x ∈ matchEvents m e, x.Within m I := by
  refine events_kept hstep .nextBid (fun _ hb => hb) h (fun b _ hb => ?_) hmeets
  exact events_kept hstep .nextAsk (fun _ ha => ha) hb fun a _ ha => loopEvents_kept hstep hm ha

omit hm in
theorem historyEvents_kept (h : I e) (hmeets : ∀ x ∈ historyEvents m e, C x) :
    ∀ x ∈ historyEvents m e, x.Within m I := by
  refine events_kept hstep .stored (fun _ hd => hd) h (fun d _ hd => ?_) hmeets
  split
  next =>
    refine events_kept hstep .nextBid (fun _ hb => hb) hd fun b _ hb => ?_
    cases b.currentBid with
    | none => exact fun _ x hx => by cases hx
    | some bid => exact events_kept hstep .nextAsk (fun _ ha => ha) hb fun a _ _ _ x hx => by cases hx
  next => exact fun _ x hx => by cases hx

end Runs

theorem matchOrders_last {n : Nat} {k : Int} (h : matchOrders m n k e = some (.ok e')) :
    ∃ x ∈ loopEvents m n k e, x.after = e' := by
  induction n generalizing k e with
  | zero => cases h
  | succ n ih =>
    unfold matchOrders at h
    unfold loopEvents
    split at h
    · cases h
    next d hpair =>
      cases h
      rcases nextPair_ok hpair with ⟨-, hbid, -⟩ | ⟨b, bid, hbid, hcurrent, hask, -⟩
      · rw [hbid]
        exact ⟨_, List.mem_cons_self, rfl⟩
      · rw [hbid]
        dsimp only
        rw [hcurrent]
        rw [hask]
        exact ⟨_, List.mem_cons_of_mem _ List.mem_cons_self, rfl⟩
    next d bid ask hpair =>
      rcases nextPair_ok hpair with ⟨hnone, -⟩ | ⟨b, bid', hbid, hcurrent, hask, hnext⟩
      · cases hnone
      · obtain ⟨ask', hask', hsame⟩ := Option.map_eq_some_iff.mp hnext.symm
        cases hsame
        rw [hbid]
        dsimp only
        rw [hcurrent]
        rw [hask]
        split at h
        · cases h
        next hlast =>
          split at h
          · cases h
          next =>
            cases h
            exact ⟨_, List.mem_cons_of_mem _ List.mem_cons_self, rfl⟩
          next next hmatch =>
            obtain ⟨x, hx, hafter⟩ := ih h
            refine ⟨x, List.mem_cons_of_mem _ (List.mem_cons_of_mem _ ?_), hafter⟩
            rw [hask']
            dsimp only
            rw [if_neg hlast, hmatch]
            exact List.mem_append_right _ (List.mem_cons_of_mem _ hx)

theorem matchMarket_last (hm : Setting m) (h : matchMarket m e = .ok e') :
    ∃ x ∈ matchEvents m e, x.after = e' := by
  obtain ⟨b, a, hbid, hask, hrun⟩ := matchMarket_ok hm h
  unfold matchEvents
  rw [hbid]
  dsimp only
  rw [hask]
  obtain ⟨x, hx, hafter⟩ := matchOrders_last hrun
  exact ⟨x, List.mem_cons_of_mem _ (List.mem_cons_of_mem _ hx), hafter⟩

/-- What every step of a run keeps holds before and after each of them. -/
theorem runEvents_kept {I : EngineState → Prop} {C : Event → Prop}
    (hstep : ∀ kind e d, Step m kind e d → C ⟨kind, e, d⟩ → I e → I d) (hm : Setting m) (h : I e)
    (hmeets : ∀ x ∈ runEvents m e, C x) :
    ∀ x ∈ runEvents m e, x.Within m I := by
  unfold runEvents at hmeets ⊢
  rw [List.forall_mem_append] at hmeets ⊢
  have hmatched := matchEvents_kept hstep hm h hmeets.1
  refine ⟨hmatched, ?_⟩
  have hmeets := hmeets.2
  split
  next d hmatch =>
    rw [hmatch] at hmeets
    obtain ⟨x, hx, rfl⟩ := matchMarket_last hm hmatch
    exact historyEvents_kept hstep (hmatched x hx).2.2 hmeets
  next => exact fun x hx => by cases hx

theorem shortState_ok (hand : Hand m e bid ask) (h : shortState m e bid ask = some d) :
    ∃ t feed exchanged paid collateral mtrx, judge m e bid ask = .ok (.trade t) ∧
      ShortTrade m e bid ask t feed exchanged paid collateral ∧
      m.payCurrentShort e bid (filled t exchanged paid (some collateral)) = .ok (d, mtrx) := by
  unfold shortState at h
  split at h
  next t hjudge =>
    split at h
    next hisShort =>
      split at h
      next hpays =>
        cases h
        simp only [payShort, eq_ok_iff] at hpays
        obtain ⟨feed, hfeed, ⟨exchanged, paid⟩, htrade, collateral, hstake, ⟨d', mtrx⟩, hpay, rfl⟩ :=
          hpays
        exact ⟨t, feed, exchanged, paid, collateral, mtrx, hjudge,
          ShortTrade.of_judge hand hisShort hjudge hfeed htrade hstake, hpay⟩
      next => cases h
    next => cases h
  next => cases h

/-- The engine reads the orders as they are stored, and the positions as the database has
them. -/
structure Sourced (m : Market) (e : EngineState) : Prop where
  synced : Synced m e
  pairs : CoverPairs m e
  positions : ∀ x ∈ e.collateralItr, m.prior.root.collateralDb.lookup x.1 = some x.2

section Steps

theorem Sourced.hand (h : Sourced m e) (hm : Setting m) (hbid : e.currentBid = some bid)
    (hask : e.currentAsk = some ask) : Hand m e bid ask :=
  ⟨hm, h.synced, hbid, hask, h.pairs.current ask hask⟩

theorem askTaken_positions
    (h : AskTaken m { e with ordersFilled := e.ordersFilled + 1, currentAsk := none } e') :
    e'.collateralItr.Sublist e.collateralItr := by
  cases h with
  | @called key r rest bid itr =>
    have hitr : e.collateralItr = (key, r) :: rest := itr
    rw [hitr]
    exact List.sublist_cons_self _ _
  | expired called => exact called
  | ask called => exact called
  | none called => exact called

theorem Sourced.step (hm : Setting m) {kind : EventKind} (hx : Step m kind e d)
    (h : Sourced m e) : Sourced m d := by
  cases kind with
  | nextBid =>
    rcases getNextBid_cases hm hx with ⟨rfl, -⟩ | htaken
    · exact h
    · refine ⟨h.synced.bidTaken htaken, h.pairs.bidTaken htaken, ?_⟩
      cases htaken <;> exact h.positions
  | nextAsk =>
    rcases getNextAsk_cases hm hx with ⟨rfl, -⟩ | htaken
    · exact h
    · refine ⟨h.synced.askTaken htaken, h.pairs.askTaken htaken, fun y hy => ?_⟩
      exact h.positions y ((askTaken_positions htaken).subset hy)
  | shortPaid =>
    obtain ⟨bid, ask, hbid, hask, hshort⟩ := hx
    obtain ⟨t, feed, exchanged, paid, collateral, mtrx, -, ht, hpay⟩ :=
      shortState_ok (h.hand hm hbid hask) hshort
    obtain ⟨hsynced, hcurrent, -⟩ :=
      h.synced.payCurrentShort hbid (wholeOrNothing ht.isShort ht.stake) hpay
    have hcursors := SameCursors.of_effect (MarketWrites.payCurrentShort_effect hpay)
    refine ⟨hsynced, ⟨?_, ?_⟩, ?_⟩
    · rw [hcursors.expirations]
      exact h.pairs.expirations
    · rw [hcurrent]
      exact h.pairs.current
    · rw [hcursors.collateral]
      exact h.positions
  | matched =>
    obtain ⟨bid, ask, hbid, hask, hmatch⟩ := hx
    have hand := h.hand hm hbid hask
    refine ⟨(matchPair_passed hand hmatch).synced hm h.synced, h.pairs.matchPair hand hmatch, ?_⟩
    rw [(matchPair_cursors hmatch).collateral]
    exact h.positions
  | stored =>
    simp only [Step, updateMarketStatus, eq_ok_iff] at hx
    obtain ⟨status, -, rfl⟩ := hx
    exact ⟨h.synced.frame ⟨rfl, rfl, rfl, rfl, rfl, rfl, rfl⟩ rfl rfl rfl rfl rfl rfl
      ⟨h.synced.quoteFees, h.synced.quoteId⟩ ⟨h.synced.baseFees, h.synced.baseId⟩,
      ⟨h.pairs.expirations, h.pairs.current⟩, h.positions⟩

variable {S : MarketOrder → CollateralRecord → CollateralRecord → Prop} {A : EngineState → Prop}

/-- What `A` gives where an expired position is taken. -/
def Picks (S : MarketOrder → CollateralRecord → CollateralRecord → Prop) (m : Market)
    (A : EngineState → Prop) : Prop :=
  ∀ e, A e → (¬ ∃ ask ∈ e.currentAsk, 0 < ask.state.balance) → ¬ isCalled m e → ∀ key old,
    firstExpired m e.collateralExpirationItr = some key →
    m.prior.root.collateralDb.lookup key = some old → S (Market.coverOrder key old) (atHand m e) old

section

variable (h : Covers Eq S m e)
include h

theorem covers_nextAsk (hm : Setting m) (hread : Reading Eq S) (hA : Picks S m A) (hpick : A e)
    (hnext : m.getNextAsk e = .ok e') : Covers Eq S m e' := by
  have hcases := getNextAsk_cases hm hnext
  by_cases hkept : ∃ ask ∈ e.currentAsk, 0 < ask.state.balance
  · unfold Market.getNextAsk at hnext
    rw [if_pos hkept] at hnext
    cases hnext
    exact h
  · rcases hcases with ⟨-, hask⟩ | htaken
    · exact absurd hask hkept
    · refine h.askTaken hread ?_ htaken
      rintro huncalled key old r hfirst hold rfl
      exact hA e hpick hkept huncalled key old hfirst hold

theorem covers_short {t : MarketTransaction} {feed : Price}
    {exchanged paid collateral : Asset} (hand : Hand m e bid ask)
    (hjudge : judge m e bid ask = .ok (.trade t)) (hapart : opensApart m e bid ask)
    (ht : ShortTrade m e bid ask t feed exchanged paid collateral)
    (hpay : m.payCurrentShort e bid (filled t exchanged paid (some collateral)) = .ok (d, mtrx)) :
    Covers Eq S m d := by
  rcases ht.pays hand hpay with ⟨-, -, sc, rfl⟩ | ⟨-, key, sc, total, hkey, -, -, -, rfl⟩
  · exact h.same rfl rfl rfl rfl rfl
  · obtain ⟨hvisit, hown⟩ := opensApart_trade hjudge hapart ht.isShort key hkey
    refine h.afterShort (fun hto => absurd hto hvisit) ?_
    intro a ha htype hsame
    rw [hand.hasAsk] at ha
    cases ha
    exact absurd hsame.symm (hown htype)

theorem covers_pass (hand : Hand m e bid ask) (hread : Reading Eq S)
    (hapart : opensApart m e bid ask) (hmatch : matchPair m e bid ask = .ok (some e')) :
    Covers Eq S m e' := by
  cases matchPair_passed hand hmatch with
  | bidDropped => exact h.same rfl rfl rfl rfl rfl
  | askDropped =>
    refine h.frame rfl (List.Sublist.refl _) (List.Sublist.refl _) ?_
    intro a hnone
    cases hnone
  | askBid deal booked =>
    have hd := h.payCurrentBid hand.synced deal.setting deal.bidPays
    exact (hd.payCurrentAsk deal.between.1 deal.setting deal.askPays).booked booked
  | askShort deal booked =>
    have hd := covers_short h hand deal.judged hapart (askShort_trade deal) deal.shortPays
    exact (hd.payCurrentAsk deal.between.1 deal.setting deal.askPays).booked booked
  | coverBid deal booked =>
    have hd := h.payCurrentBid hand.synced deal.setting deal.bidPays
    exact (hd.payCurrentCover hread deal.between.2.1 deal.coverPays).booked booked
  | coverShort deal booked =>
    have hd := covers_short h hand deal.judged hapart (coverShort_trade deal) deal.shortPays
    exact (hd.payCurrentCover hread deal.between.2.1 deal.coverPays).booked booked

end

/-- A step that meets `A` and opens positions apart keeps what the engine knows of the
positions. -/
theorem covers_step (hm : Setting m) (hread : Reading Eq S) (hA : Picks S m A) {kind : EventKind}
    (hx : Step m kind e d) (hmeets : (Event.mk kind e d).Meets m A)
    (h : Sourced m e ∧ Covers Eq S m e) : Sourced m d ∧ Covers Eq S m d := by
  obtain ⟨hsource, hcovers⟩ := h
  refine ⟨hsource.step hm hx, ?_⟩
  cases kind with
  | nextBid =>
    rcases getNextBid_cases hm hx with ⟨rfl, -⟩ | htaken
    · exact hcovers
    · exact hcovers.bidTaken htaken
  | nextAsk => exact covers_nextAsk hcovers hm hread hA hmeets hx
  | shortPaid =>
    obtain ⟨bid, ask, hbid, hask, hshort⟩ := hx
    have hand := hsource.hand hm hbid hask
    obtain ⟨t, feed, exchanged, paid, collateral, mtrx, hjudge, ht, hpay⟩ := shortState_ok hand hshort
    exact covers_short hcovers hand hjudge (hmeets bid hbid ask hask) ht hpay
  | matched =>
    obtain ⟨bid, ask, hbid, hask, hmatch⟩ := hx
    exact covers_pass hcovers (hsource.hand hm hbid hask) hread (hmeets bid hbid ask hask) hmatch
  | stored =>
    simp only [Step, updateMarketStatus, eq_ok_iff] at hx
    obtain ⟨status, -, rfl⟩ := hx
    exact hcovers.same rfl rfl rfl rfl rfl

end Steps

theorem opened_sourced {prior : ChainInterface} {quoteId baseId : Int}
    (h : Opened prior quoteId baseId m e) (hbook : OrderBook prior quoteId baseId)
    (hcovers : CoverBook prior quoteId baseId) : Sourced m e := by
  obtain rfl : m.prior = prior := h.below
  exact ⟨opened_synced h hbook, opened_pairs h hcovers.expirations,
    fun x hx => h.positions.stored x hx trivial⟩

/-- The record at hand is the one that is stored for the cover at hand. -/
def HandStored (m : Market) (e : EngineState) : Prop :=
  ∀ ask ∈ e.currentAsk, ask.type = .coverOrder →
    Holdings.positions.get (m.pendingState e) ask.marketIndex = some e.currentCollatRecord

/-- Where `get_next_ask` takes an expired position, the record at hand is its record. -/
def handMatches (m : Market) (e : EngineState) : Prop :=
  (¬ ∃ ask ∈ e.currentAsk, 0 < ask.state.balance) → ¬ isCalled m e →
    ∀ key ∈ firstExpired m e.collateralExpirationItr,
      m.prior.root.collateralDb.lookup key = some (atHand m e)
  deriving Decidable

def amounts (r : CollateralRecord) : Option Int × Int := (some r.collateralBalance, r.payoffBalance)

/-- The cover at hand has the collateral and the debt that are stored for it. -/
def HandCurrent (m : Market) (e : EngineState) : Prop :=
  ∀ ask ∈ e.currentAsk, ask.type = .coverOrder →
    (Holdings.positions.get (m.pendingState e) ask.marketIndex).map amounts =
      some (ask.collateral, ask.state.balance)

/-- A cover at hand was there before, or it is taken with the collateral and the debt that
the database has for it, or it pays, and what it has left is stored over its position. -/
def Event.StartsOld (m : Market) (x : Event) : Prop :=
  ∀ ask ∈ x.after.currentAsk, ask.type = .coverOrder → x.before.currentAsk = some ask ∨
    match x.kind with
    | .nextAsk => (m.prior.root.collateralDb.lookup ask.marketIndex).map amounts =
        some (ask.collateral, ask.state.balance)
    | .matched => (Holdings.positions.get (m.pendingState x.after) ask.marketIndex).map amounts =
        some (ask.collateral, ask.state.balance)
    | _ => False

theorem paid_stored {t : MarketTransaction} (hpay : m.payCurrentCover e ask t = .ok (d, mtrx))
    (hbooked : Booked mtrx d e') : HandCurrent m e' := by
  intro a ha _
  rw [hbooked.currentAsk] at ha
  unfold Market.pendingState
  rw [hbooked.layer]
  obtain ⟨-, expiration, debt, payment, old, -, -, -, -, -, -, -, -, hcases⟩ :=
    payCurrentCover_ok hpay
  rcases hcases with ⟨-, rfl, -⟩ | ⟨-, -, charged, returned, -, rfl, -⟩ <;>
    · cases ha
      rw [Shelf.get_store Holdings.positions m.prior rfl]
      dsimp only [withBalance]
      rw [Function.update_self]
      rfl

theorem paid_ask {toQuote : Bool} (hs : Synced m e) (hm : Setting m) (htype : ask.type = .askOrder)
    (hpay : m.payCurrentAsk e ask mtrx toQuote = .ok d) (hbooked : Booked mtrx d e') :
    ∀ a ∈ e'.currentAsk, a.type = .askOrder := by
  rw [hbooked.currentAsk]
  obtain ⟨-, -, rfl⟩ := payCurrentAsk_ok hm.current hs.quoteFees hs.baseFees hpay
  rintro _ ⟨⟩
  exact htype

theorem starts_old (hm : Setting m) {kind : EventKind} (hx : Step m kind e d)
    (h : Sourced m e) : (Event.mk kind e d).StartsOld m := by
  intro a ha htype
  change d.currentAsk = some a at ha
  cases kind with
  | nextBid =>
    refine Or.inl ?_
    rcases getNextBid_cases hm hx with ⟨rfl, -⟩ | htaken
    · exact ha
    · cases htaken <;> exact ha
  | nextAsk =>
    rcases getNextAsk_cases hm hx with ⟨rfl, -⟩ | htaken
    · exact Or.inl ha
    · cases htaken with
      | @called key r rest bid itr =>
        have hitr : e.collateralItr = (key, r) :: rest := itr
        have hstored := h.positions (key, r) (by rw [hitr]; exact List.mem_cons_self)
        cases ha
        exact Or.inr (congrArg (Option.map amounts) hstored)
      | expired _ _ _ _ _ _ stored =>
        cases ha
        exact Or.inr (congrArg (Option.map amounts) stored)
      | ask =>
        cases ha
        cases htype
      | none => cases ha
  | shortPaid =>
    obtain ⟨bid, ask, hbid, hask, hshort⟩ := hx
    obtain ⟨t, feed, exchanged, paid, collateral, mtrx, -, ht, hpay⟩ :=
      shortState_ok (h.hand hm hbid hask) hshort
    obtain ⟨-, hcurrent, -⟩ :=
      h.synced.payCurrentShort hbid (wholeOrNothing ht.isShort ht.stake) hpay
    exact Or.inl (hcurrent.symm.trans ha)
  | matched =>
    obtain ⟨bid, ask, hbid, hask, hmatch⟩ := hx
    have hpassed : Passed m e bid ask d := matchPair_passed (h.hand hm hbid hask) hmatch
    cases hpassed with
    | bidDropped => exact Or.inl ha
    | askDropped => cases ha
    | askBid deal booked =>
      exact absurd htype (not_cover_of_ask (paid_ask deal.between.1 hm deal.type deal.askPays booked a ha))
    | askShort deal booked =>
      exact absurd htype (not_cover_of_ask (paid_ask deal.between.1 hm deal.type deal.askPays booked a ha))
    | coverBid deal booked => exact Or.inr (paid_stored deal.coverPays booked a ha htype)
    | coverShort deal booked => exact Or.inr (paid_stored deal.coverPays booked a ha htype)
  | stored =>
    simp only [Step, updateMarketStatus, eq_ok_iff] at hx
    obtain ⟨status, -, rfl⟩ := hx
    exact Or.inl ha

section Executions

variable {layer : PendingState} {prev : ChainInterface} {quoteId baseId : Int}

section

variable (hfork : forkBlockNumV0429 ≤ prev.getHeadBlockNum)
  (hbook : OrderBook (.pending layer prev) quoteId baseId)
  (hcovers : CoverBook (.pending layer prev) quoteId baseId)
  (hopen : openMarket (.pending layer prev) quoteId baseId = .ok (m, e))
include hfork hbook hcovers hopen

theorem run_covers {S : MarketOrder → CollateralRecord → CollateralRecord → Prop}
    {A : EngineState → Prop} (hread : Reading Eq S) (hA : Picks S m A)
    (hmeets : ∀ x ∈ runEvents m e, x.Meets m A) : ∀ x ∈ runEvents m e, Covers Eq S m x.after := by
  have hopened := openMarket_ok hopen
  have hm : Setting m := hopened.setting hfork
  have hstart : Sourced m e ∧ Covers Eq S m e :=
    ⟨opened_sourced hopened hbook hcovers, opened_covers hopened hcovers fun _ _ _ _ => rfl⟩
  have hkept := runEvents_kept (I := fun d => Sourced m d ∧ Covers Eq S m d)
    (fun _ _ _ => covers_step hm hread hA) hm hstart hmeets
  exact fun x hx => (hkept x hx).2.2.2

theorem run_starts_old : ∀ x ∈ runEvents m e, x.StartsOld m := by
  have hopened := openMarket_ok hopen
  have hm : Setting m := hopened.setting hfork
  intro x hx
  obtain ⟨hhappens, hbefore, -⟩ := runEvents_kept (C := fun _ => True)
    (fun _ _ _ hstep _ => Sourced.step hm hstep) hm (opened_sourced hopened hbook hcovers)
    (fun _ _ => trivial) x hx
  exact starts_old hm hhappens hbefore

end

/-- In every run in which expired positions are taken with their own records, and shorts
open theirs apart, the record at hand is that of the cover. -/
theorem execute_hand_stored (hfork : forkBlockNumV0429 ≤ prev.getHeadBlockNum)
    (hbook : OrderBook (.pending layer prev) quoteId baseId)
    (hcovers : CoverBook (.pending layer prev) quoteId baseId)
    (hopen : openMarket (.pending layer prev) quoteId baseId = .ok (m, e))
    (hmeets : ∀ x ∈ runEvents m e, x.Meets m (handMatches m)) :
    ∀ x ∈ runEvents m e, HandStored m x.after := by
  have hread : Reading Eq fun _ r stored => stored = r :=
    ⟨fun _ _ _ h => h.symm, fun _ _ _ _ _ _ => rfl⟩
  have hpicks : Picks (fun _ r stored => stored = r) m (handMatches m) := by
    intro d hmatches hkept huncalled key old hfirst hold
    exact Option.some.inj (hold.symm.trans (hmatches hkept huncalled key hfirst))
  intro x hx ask hask htype
  obtain ⟨-, r, hr, rfl⟩ :=
    (run_covers hfork hbook hcovers hopen hread hpicks hmeets x hx).current ask hask htype
  exact hr

/-- In every run in which shorts open their positions apart, a cover starts from what is
stored, since in any run it starts from what the database has. -/
theorem execute_hand_current (hfork : forkBlockNumV0429 ≤ prev.getHeadBlockNum)
    (hbook : OrderBook (.pending layer prev) quoteId baseId)
    (hcovers : CoverBook (.pending layer prev) quoteId baseId)
    (hopen : openMarket (.pending layer prev) quoteId baseId = .ok (m, e)) :
    (∀ x ∈ runEvents m e, x.StartsOld m) ∧
      ((∀ x ∈ runEvents m e, x.Meets m fun _ => True) → ∀ x ∈ runEvents m e, HandCurrent m x.after) := by
  refine ⟨run_starts_old hfork hbook hcovers hopen, fun hmeets => ?_⟩
  have hread : Reading Eq fun ask _ stored =>
      ask.collateral = some stored.collateralBalance ∧ ask.state.balance = stored.payoffBalance := by
    refine ⟨?_, fun _ _ _ _ _ _ => ⟨rfl, rfl⟩⟩
    rintro key r _ rfl
    exact ⟨rfl, rfl⟩
  have hpicks : Picks (fun ask _ stored => ask.collateral = some stored.collateralBalance ∧
      ask.state.balance = stored.payoffBalance) m fun _ => True :=
    fun _ _ _ _ _ _ _ _ => ⟨rfl, rfl⟩
  intro x hx ask hask htype
  obtain ⟨-, r, hr, hcollateral, hbalance⟩ :=
    (run_covers hfork hbook hcovers hopen hread hpicks hmeets x hx).current ask hask htype
  unfold amounts
  rw [hr, hcollateral, hbalance]
  rfl

end Executions

end Model

def dollarPositions (l : List (MarketIndexKey × CollateralRecord)) : @ChainDatabase Fc.separate :=
  letI := Fc.separate
  { dollarChain with
    assetDb := dollarChain.assetDb.store
      { id := 22, symbol := "USD", issuerAccountId := AssetRecord.marketIssuerId
        currentShareSupply := 100 }
    bidDb := (∅ : Map _ _).insert ⟨⟨95000000000000000, 0, 22⟩, 7⟩ { balance := 1000 }
    shortDb := (∅ : Map _ _).insert ⟨⟨0, 0, 22⟩, 8⟩ { balance := 1000 }
    collateralDb := l.foldl (fun db x => db.insert x.1 x.2) ∅
    collateralExpirationIndex := l.map fun x => ⟨22, x.2.expiration, x.1⟩ }

def position (collateralBalance : Int) (expiration : Nat) : CollateralRecord :=
  { collateralBalance, payoffBalance := 50, interestRate := ⟨0, 0, 22⟩, expiration }

def highKey : MarketIndexKey := ⟨⟨60000000000000000, 0, 22⟩, 9⟩

def shortKey : MarketIndexKey := ⟨⟨50000000000000000, 0, 22⟩, 8⟩

def expiredPositions (key : MarketIndexKey) : @ChainDatabase Fc.separate :=
  dollarPositions [(highKey, position 3000 900000000), (key, position 1500 900000001)]

theorem executed_expiredPositions :
    letI := Fc.separate
    Executed {} (.database (expiredPositions ⟨⟨40000000000000000, 0, 22⟩, 10⟩)) 22 0 1000000010
      fun m e _ => ∀ x ∈ runEvents m e, x.Meets m (handMatches m) := by
  decide +kernel

theorem books_expiredPositions :
    letI := Fc.separate
    let prior := ChainInterface.pending {} (.database (expiredPositions ⟨⟨40000000000000000, 0, 22⟩, 10⟩))
    OrderBook prior 22 0 ∧ CoverBook prior 22 0 :=
  letI := Fc.separate
  ⟨orderBook_database (by decide +kernel) (by decide +kernel),
    coverBook_database (by decide) (by decide)⟩

theorem execute_hand_stored_expiredPositions :
    letI := Fc.separate
    let prev := ChainInterface.database (expiredPositions ⟨⟨40000000000000000, 0, 22⟩, 10⟩)
    ∃ m e, openMarket (.pending {} prev) 22 0 = .ok (m, e) ∧
      ∀ x ∈ runEvents m e, HandStored m x.after := by
  let := Fc.separate
  intro prev
  obtain ⟨m, e, layer, trxs, hopen, hrun, hmeets⟩ := executed_expiredPositions.exists
  obtain ⟨hbook, hcovers⟩ := books_expiredPositions
  exact ⟨m, e, hopen, execute_hand_stored (by decide) hbook hcovers hopen hmeets⟩

/-- The look for margin calls leaves the record of the position with the highest call price
at hand, and an expired position is taken with that. -/
theorem execute_mixes_records :
    letI := Fc.separate
    Executed {} (.database (dollarPositions [(highKey, position 3000 1001000000),
        (⟨⟨40000000000000000, 0, 22⟩, 10⟩, position 1500 900000001)])) 22 0 1000000010
      fun m e _ => ∃ x ∈ runEvents m e, ∃ ask ∈ x.after.currentAsk, ask.type = .coverOrder ∧
        ask.marketIndex = ⟨⟨40000000000000000, 0, 22⟩, 10⟩ ∧
        Holdings.positions.get (m.pendingState x.after) ask.marketIndex =
          some (position 1500 900000001) ∧
        x.after.currentCollatRecord = position 3000 1001000000 := by
  decide +kernel

theorem executed_apart :
    letI := Fc.separate
    Executed {} (.database (expiredPositions ⟨⟨40000000000000000, 0, 22⟩, 10⟩)) 22 0 1000000010
      fun m e _ => ∀ x ∈ runEvents m e, x.Meets m fun _ => True := by
  decide +kernel

theorem execute_hand_current_expiredPositions :
    letI := Fc.separate
    let prev := ChainInterface.database (expiredPositions ⟨⟨40000000000000000, 0, 22⟩, 10⟩)
    ∃ m e, openMarket (.pending {} prev) 22 0 = .ok (m, e) ∧
      ∀ x ∈ runEvents m e, x.StartsOld m ∧ HandCurrent m x.after := by
  let := Fc.separate
  intro prev
  obtain ⟨m, e, layer, trxs, hopen, hrun, hmeets⟩ := executed_apart.exists
  obtain ⟨hbook, hcovers⟩ := books_expiredPositions
  obtain ⟨hold, hcurrent⟩ := execute_hand_current (by decide) hbook hcovers hopen
  exact ⟨m, e, hopen, fun x hx => ⟨hold x hx, hcurrent hmeets x hx⟩⟩

/-- A short that covers the first of two expired positions enlarges the second one, which is
then covered as it was in the database. What the short has added to it is gone. -/
theorem execute_loses_update :
    letI := Fc.separate
    Executed {} (.database (expiredPositions shortKey)) 22 0 1000000010 fun m e layer =>
      (∃ x ∈ runEvents m e, ∃ ask ∈ x.after.currentAsk, ask.marketIndex = shortKey ∧
        ask.collateral = some 1500 ∧ ask.state.balance = 50 ∧
        (Holdings.positions.get (m.pendingState x.after) shortKey).map
          (fun r => (r.collateralBalance, r.payoffBalance)) = some (3000, 100)) ∧
      (Holdings.positions.get (.pending layer (.database (expiredPositions shortKey))) shortKey).map
        (fun r => (r.collateralBalance, r.payoffBalance)) = some (0, 0) := by
  decide +kernel

end Bts.Blockchain.CoverRuns
