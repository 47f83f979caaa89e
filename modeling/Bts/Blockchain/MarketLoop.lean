import Bts.Blockchain.MarketExecute

namespace Bts.Blockchain.MarketLoop

open Base.Result Amounts MarketRecords Transactions MarketEngine

variable [Fc]

/-- The engine after the fork, on a pair of assets with a feed of that pair. -/
structure Setting (m : Market) : Prop where
  current : m.legacy = false
  ordered : m.baseId < m.quoteId
  feed : ∀ feed ∈ m.feedPrice, m.isPair feed

inductive BidTaken (m : Market) (e : EngineState) : EngineState → Prop
  | none : BidTaken m e e
  | bid {key : MarketIndexKey} {order : OrderRecord} {rest : List (MarketIndexKey × OrderRecord)}
    (itr : e.bidItr = (key, order) :: rest) (pair : m.isPair key.orderPrice) :
    BidTaken m e { e with
      bidItr := rest
      currentBid := some { type := .bidOrder, marketIndex := key, state := order } }
  | relativeBid {key : MarketIndexKey} {order : OrderRecord}
    {rest : List (MarketIndexKey × OrderRecord)}
    (itr : e.relativeBidItr = (key, order) :: rest) (pair : m.isPair key.orderPrice) :
    BidTaken m e { e with
      relativeBidItr := rest
      currentBid := some { type := .relativeBidOrder, marketIndex := key, state := order } }
  | short {key : MarketIndexKey} {order : OrderRecord} {rest : List (MarketIndexKey × OrderRecord)}
    (itr : e.shortItr = (key, order) :: rest) (pair : m.isPair key.orderPrice) :
    BidTaken m e { e with
      shortItr := rest
      currentBid := some { type := .shortOrder, marketIndex := key, state := order,
                           collateral := order.balance, interestRate := key.orderPrice } }

variable {m : Market} {e e' d : EngineState} {bid ask : MarketOrder}

theorem getNextShort_taken (h : BidTaken m e d) : BidTaken m e ((m.getNextShort e).getD d) := by
  unfold Market.getNextShort
  cases hitr : e.shortItr with
  | nil => exact h
  | cons x rest =>
    dsimp only
    split
    next hpair => exact .short hitr hpair
    next => exact h

theorem relativeBid_ok (hm : Setting m) {price : Price}
    (h : m.relativeBid e = .ok (some (bid, price))) : ∃ key order rest,
      e.relativeBidItr = (key, order) :: rest ∧ m.isPair key.orderPrice ∧
        bid = { type := .relativeBidOrder, marketIndex := key, state := order } := by
  unfold Market.relativeBid at h
  split at h
  next key order rest feed _ hitr hfeed =>
    have hpair := hm.feed feed hfeed
    have hne : feed ≠ {} := by
      rintro rfl
      have hquote : (0 : Int) = m.quoteId := hpair.1
      have hbase : (0 : Int) = m.baseId := hpair.2
      have hordered := hm.ordered
      omega
    simp only [MarketOrder.getPrice, bind_eq_ok] at h
    rw [if_pos hne] at h
    obtain ⟨price', hprice, h⟩ := h
    simp only [bind_eq_ok] at hprice
    obtain ⟨sum, hsum, -⟩ := hprice
    simp only [Price.add, eq_ok_iff] at hsum
    obtain ⟨-, hquote, -, hbase, -⟩ := hsum
    split at h
    · cases h
      exact ⟨key, order, rest, hitr, ⟨hquote.trans hpair.1, hbase.trans hpair.2⟩, rfl⟩
    · cases h
  next => cases h

theorem bestBid_ok (hm : Setting m) (h : m.bestBid e = .ok (some bid)) :
    (∃ key order rest, e.bidItr = (key, order) :: rest ∧ m.isPair key.orderPrice ∧
      bid = { type := .bidOrder, marketIndex := key, state := order }) ∨
    ∃ key order rest, e.relativeBidItr = (key, order) :: rest ∧ m.isPair key.orderPrice ∧
      bid = { type := .relativeBidOrder, marketIndex := key, state := order } := by
  simp only [Market.bestBid, bind_eq_ok] at h
  obtain ⟨relative, hrelative, h⟩ := h
  have hother : relative.map Prod.fst = some bid → ∃ key order rest,
      e.relativeBidItr = (key, order) :: rest ∧ m.isPair key.orderPrice ∧
        bid = { type := .relativeBidOrder, marketIndex := key, state := order } := by
    intro hmap
    obtain ⟨⟨b, price⟩, rfl, rfl⟩ := Option.map_eq_some_iff.mp hmap
    exact relativeBid_ok hm hrelative
  cases hitr : e.bidItr with
  | nil =>
    rw [hitr, pure_eq_ok] at h
    exact Or.inr (hother h)
  | cons x rest =>
    obtain ⟨key, order⟩ := x
    simp only [hitr, pure_eq_ok] at h
    split at h
    next hpair =>
      cases relative with
      | none =>
        cases h
        exact Or.inl ⟨key, order, rest, rfl, hpair, rfl⟩
      | some r =>
        dsimp only at h
        split at h
        · cases h
          exact Or.inl ⟨key, order, rest, rfl, hpair, rfl⟩
        · exact Or.inr (hother h)
    next => exact Or.inr (hother h)

theorem takeBid_taken {key : MarketIndexKey} {order : OrderRecord}
    {rest : List (MarketIndexKey × OrderRecord)} (hitr : e.bidItr = (key, order) :: rest)
    (hpair : m.isPair key.orderPrice) :
    BidTaken m e (m.takeBid e { type := .bidOrder, marketIndex := key, state := order }) := by
  have htaken : BidTaken m e { e with
      bidItr := e.bidItr.tail
      currentBid := some { type := .bidOrder, marketIndex := key, state := order } } := by
    have hbid := BidTaken.bid hitr hpair
    rw [hitr]
    exact hbid
  unfold Market.takeBid
  cases m.feedPrice with
  | none => exact htaken
  | some feed =>
    dsimp only
    split
    · exact getNextShort_taken htaken
    · exact htaken

theorem advanceBid_taken (hm : Setting m) (h : m.advanceBid e = .ok e') : BidTaken m e e' := by
  simp only [Market.advanceBid, bind_eq_ok] at h
  obtain ⟨best, hbest, h⟩ := h
  cases best with
  | none =>
    cases h
    exact getNextShort_taken .none
  | some b =>
    cases h
    rcases bestBid_ok hm hbest with ⟨key, order, rest, hitr, hpair, rfl⟩ |
      ⟨key, order, rest, hitr, hpair, rfl⟩
    · exact takeBid_taken hitr hpair
    · have htaken := BidTaken.relativeBid hitr hpair
      rw [if_pos rfl, hitr]
      exact htaken

theorem getNextBid_cases (hm : Setting m) (h : m.getNextBid e = .ok e') :
    (e' = e ∧ e.currentBid.isSome) ∨
      BidTaken m { e with ordersFilled := e.ordersFilled + 1, currentBid := none } e' := by
  simp only [Market.getNextBid, bind_eq_ok] at h
  obtain ⟨has, hhas, h⟩ := h
  split at h
  next hbid =>
    cases h
    refine Or.inl ⟨rfl, ?_⟩
    cases hcurrent : e.currentBid with
    | none =>
      rw [hcurrent] at hhas
      cases hhas
      cases hbid
    | some b => rfl
  next => exact Or.inr (advanceBid_taken hm h)

/-- The record that a look at the next called position leaves at hand. -/
def atHand (m : Market) (e : EngineState) : CollateralRecord :=
  if e.currentBid.isSome then
    match e.collateralItr with
    | (key, r) :: _ => if m.isPair key.orderPrice then r else e.currentCollatRecord
    | [] => e.currentCollatRecord
  else e.currentCollatRecord

/-- The next position of `_collateral_itr` is called. -/
def isCalled (m : Market) (e : EngineState) : Prop :=
  e.currentBid.isSome ∧
    ∃ x ∈ e.collateralItr.head?, m.isPair x.1.orderPrice ∧ m.isAboveFeed x.1
  deriving Decidable

/-- The first position in the index of the expirations that has expired and is not called. -/
def firstExpired (m : Market) : List ExpirationIndex → Option MarketIndexKey
  | [] => none
  | x :: rest =>
    if x.quoteId ≠ m.quoteId ∨ m.now < x.expiration then none
    else if m.isAboveFeed x.key then firstExpired m rest
    else some x.key

inductive AskTaken (m : Market) (e : EngineState) : EngineState → Prop
  | called {key : MarketIndexKey} {r : CollateralRecord}
    {rest : List (MarketIndexKey × CollateralRecord)} (bid : e.currentBid.isSome)
    (itr : e.collateralItr = (key, r) :: rest) (pair : m.isPair key.orderPrice)
    (above : m.isAboveFeed key) :
    AskTaken m e { e with
      currentCollatRecord := r
      currentAsk := some (Market.coverOrder key r)
      collateralItr := rest }
  | expired {itr : List (MarketIndexKey × CollateralRecord)} {skipped rest : List ExpirationIndex}
    {x : ExpirationIndex} {r : CollateralRecord} (called : itr.Sublist e.collateralItr)
    (uncalled : ¬ isCalled m e) (first : firstExpired m e.collateralExpirationItr = some x.key)
    (expirations : e.collateralExpirationItr = skipped ++ x :: rest)
    (quote : x.quoteId = m.quoteId) (expired : x.expiration ≤ m.now)
    (stored : m.prior.root.collateralDb.lookup x.key = some r) (below : ¬ m.isAboveFeed x.key) :
    AskTaken m e { e with
      collateralItr := itr
      currentCollatRecord := atHand m e
      currentAsk := some (Market.coverOrder x.key r)
      collateralExpirationItr := rest }
  | ask {itr : List (MarketIndexKey × CollateralRecord)} {expirations : List ExpirationIndex}
    {key : MarketIndexKey} {order : OrderRecord} {rest : List (MarketIndexKey × OrderRecord)}
    (called : itr.Sublist e.collateralItr)
    (passed : expirations.Sublist e.collateralExpirationItr)
    (asks : e.askItr = (key, order) :: rest) (pair : m.isPair key.orderPrice) :
    AskTaken m e { e with
      collateralItr := itr
      currentCollatRecord := atHand m e
      collateralExpirationItr := expirations
      askItr := rest
      currentAsk := some { type := .askOrder, marketIndex := key, state := order } }
  | none {itr : List (MarketIndexKey × CollateralRecord)} {expirations : List ExpirationIndex}
    {asks : List (MarketIndexKey × OrderRecord)} (called : itr.Sublist e.collateralItr)
    (passed : expirations.Sublist e.collateralExpirationItr) (left : asks.Sublist e.askItr)
    (beyond : ∀ x ∈ e.askItr.head?, ¬ m.isPair x.1.orderPrice) :
    AskTaken m e { e with
      collateralItr := itr
      currentCollatRecord := atHand m e
      collateralExpirationItr := expirations
      askItr := asks }

theorem look_cases (hm : Setting m) :
    (∃ key r rest, e.currentBid.isSome ∧ e.collateralItr = (key, r) :: rest ∧
      m.isPair key.orderPrice ∧ m.isAboveFeed key ∧
      (if e.currentBid.isSome then m.marginCall e e.collateralItr else e) = { e with
        currentCollatRecord := r
        currentAsk := some (Market.coverOrder key r)
        collateralItr := rest }) ∨
    ∃ itr, itr.Sublist e.collateralItr ∧ ¬ isCalled m e ∧
      (if e.currentBid.isSome then m.marginCall e e.collateralItr else e) = { e with
        collateralItr := itr
        currentCollatRecord := atHand m e } := by
  unfold atHand isCalled
  by_cases hbid : e.currentBid.isSome
  · simp only [if_pos hbid]
    cases hitr : e.collateralItr with
    | nil => exact Or.inr ⟨[], List.Sublist.refl _, by simp, rfl⟩
    | cons x rest =>
      obtain ⟨key, r⟩ := x
      have hlegacy : ¬ m.legacy = true := by
        rw [hm.current]
        exact nofun
      unfold Market.marginCall
      dsimp only
      by_cases hpair : m.isPair key.orderPrice
      · rw [if_neg (not_not.mpr hpair), if_pos hpair, if_neg hlegacy]
        by_cases habove : m.isAboveFeed key
        · rw [if_pos (Or.inl habove)]
          exact Or.inl ⟨key, r, rest, hbid, rfl, hpair, habove, rfl⟩
        · rw [if_neg (not_or.mpr ⟨habove, fun h => hlegacy h.1⟩)]
          exact Or.inr ⟨rest, List.sublist_cons_self _ _, by simp [habove], rfl⟩
      · rw [if_pos hpair, if_neg hpair]
        exact Or.inr ⟨[], List.nil_sublist _, by simp [hpair], rfl⟩
  · simp only [if_neg hbid]
    exact Or.inr ⟨e.collateralItr, List.Sublist.refl _, fun h => hbid h.1, rfl⟩

theorem expiredCover_ok {l : List ExpirationIndex} (h : m.expiredCover e l = .ok e') :
    (∃ skipped x rest r, l = skipped ++ x :: rest ∧ firstExpired m l = some x.key ∧
      x.quoteId = m.quoteId ∧
      x.expiration ≤ m.now ∧ m.prior.root.collateralDb.lookup x.key = some r ∧
      ¬ m.isAboveFeed x.key ∧ e' = { e with
        currentAsk := some (Market.coverOrder x.key r), collateralExpirationItr := rest }) ∨
    ∃ rest, rest.Sublist l ∧ e' = { e with collateralExpirationItr := rest } := by
  induction l with
  | nil =>
    cases h
    exact Or.inr ⟨[], List.Sublist.refl _, rfl⟩
  | cons x rest ih =>
    unfold Market.expiredCover at h
    split at h
    · cases h
      exact Or.inr ⟨x :: rest, List.Sublist.refl _, rfl⟩
    next hnext =>
      simp only [eq_ok_iff] at h
      obtain ⟨r, hr, h⟩ := h
      split at h
      next habove =>
        rcases ih h with ⟨skipped, y, rest', r', rfl, hfirst, hy⟩ | ⟨rest', hrest, rfl⟩
        · refine Or.inl ⟨x :: skipped, y, rest', r', rfl, ?_, hy⟩
          rw [firstExpired, if_neg hnext, if_pos habove]
          exact hfirst
        · exact Or.inr ⟨rest', hrest.cons x, rfl⟩
      next hbelow =>
        cases h
        have hfirst : firstExpired m (x :: rest) = some x.key := by
          rw [firstExpired, if_neg hnext, if_neg hbelow]
        rw [not_or, ne_eq, not_not, Nat.not_lt] at hnext
        exact Or.inl ⟨[], x, rest, r, rfl, hfirst, hnext.1, hnext.2, hr, hbelow, rfl⟩

theorem nextAsk_cases :
    (∃ key order rest, e.askItr = (key, order) :: rest ∧ m.isPair key.orderPrice ∧
      m.nextAsk e = { e with
        askItr := rest
        currentAsk := some { type := .askOrder, marketIndex := key, state := order } }) ∨
    ∃ asks, asks.Sublist e.askItr ∧ (∀ x ∈ e.askItr.head?, ¬ m.isPair x.1.orderPrice) ∧
      m.nextAsk e = { e with askItr := asks } := by
  unfold Market.nextAsk
  cases hitr : e.askItr with
  | nil =>
    refine Or.inr ⟨[], List.Sublist.refl _, fun x hx => ?_,
      congrArg (fun l => ({ e with askItr := l } : EngineState)) hitr⟩
    cases hx
  | cons x rest =>
    obtain ⟨key, order⟩ := x
    dsimp only
    split
    next hpair => exact Or.inl ⟨key, order, rest, rfl, hpair, rfl⟩
    next hpair =>
      refine Or.inr ⟨rest, List.sublist_cons_self _ _, ?_, rfl⟩
      rintro _ ⟨⟩
      exact hpair

theorem nextExpired_some (h : e.currentAsk.isSome) : m.nextExpired e = .ok e := if_pos (Or.inr h)

theorem nextExpired_none (hm : Setting m) (h : e.currentAsk = none) :
    m.nextExpired e = m.expiredCover e e.collateralExpirationItr := by
  refine if_neg ?_
  rw [hm.current, h]
  exact nofun

theorem advanceAsk_taken (hm : Setting m) (hask : e.currentAsk = none)
    (h : m.advanceAsk e = .ok e') : AskTaken m e e' := by
  simp only [Market.advanceAsk, eq_ok_iff] at h
  obtain ⟨expired, hexpired, h⟩ := h
  rcases look_cases hm (e := e) with ⟨key, r, rest, hbid, hitr, hpair, habove, hlook⟩ |
    ⟨itr, hsub, huncalled, hlook⟩
  · rw [hlook] at hexpired
    have hsome := Except.ok.inj ((nextExpired_some rfl).symm.trans hexpired)
    subst hsome
    cases h
    exact .called hbid hitr hpair habove
  · rw [hlook] at hexpired
    have hwalk := (nextExpired_none hm (by exact hask)).symm.trans hexpired
    rcases expiredCover_ok hwalk with
      ⟨skipped, x, rest, r, hexp, hfirst, hquote, hnow, hr, hbelow, rfl⟩ | ⟨rest, hrest, rfl⟩
    · cases h
      exact .expired hsub huncalled hfirst hexp hquote hnow hr hbelow
    · rw [if_neg (by simp [hask])] at h
      rcases nextAsk_cases (m := m) (e := { e with
          collateralItr := itr, currentCollatRecord := atHand m e, collateralExpirationItr := rest })
          with ⟨key, order, asks, hasks, hpair, hnext⟩ | ⟨asks, hasks, hover, hnext⟩
      · rw [hnext] at h
        cases h
        exact .ask hsub hrest hasks hpair
      · rw [hnext] at h
        cases h
        exact .none hsub hrest hasks hover

theorem getNextAsk_cases (hm : Setting m) (h : m.getNextAsk e = .ok e') :
    (e' = e ∧ ∃ ask ∈ e.currentAsk, 0 < ask.state.balance) ∨
      AskTaken m { e with ordersFilled := e.ordersFilled + 1, currentAsk := none } e' := by
  unfold Market.getNextAsk at h
  split at h
  next hask =>
    cases h
    exact Or.inl ⟨rfl, hask⟩
  next => exact Or.inr (advanceAsk_taken hm rfl h)

end Bts.Blockchain.MarketLoop
