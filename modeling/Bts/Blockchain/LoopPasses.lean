import Bts.Blockchain.MarketProgress

namespace Bts.Blockchain.LoopPasses

open Base Result Maps Cursors Errors Records MarketRecords Transactions Database Layers MarketEngine
  MarketMatch MarketExecute MarketLoop MarketRuns MarketBooks MarketTrades MarketPasses MarketLedger
  MarketProgress

section Model

variable [Fc] {m : Market} {e e' d : EngineState} {bid ask : MarketOrder}

/-- The passes of the matching loop: `last_orders_filled`, and the engine with a bid and an
ask at hand. -/
def loopPasses (m : Market) : Nat → Int → EngineState → List (Int × EngineState)
  | 0, _, _ => []
  | n + 1, last, e =>
    match nextPair m e with
    | .ok (d, some (bid, ask)) => (last, d) ::
      if d.ordersFilled = last then []
      else match matchPair m d bid ask with
        | .ok (some next) => loopPasses m n d.ordersFilled next
        | _ => []
    | _ => []

def primed (m : Market) (e : EngineState) : Except ChainError EngineState := do
  let e ← m.getNextBid e
  m.getNextAsk e

/-- The next pass of the loop has taken an order that the last one did not have. -/
def Moves (m : Market) (last : Int) (e : EngineState) : Prop :=
  ∀ d bid ask, nextPair m e = .ok (d, some (bid, ask)) → last < d.ordersFilled

theorem moves_after (hm : Setting m) (hkinds : Kinds d) (hbid : d.currentBid = some bid)
    (hask : d.currentAsk = some ask) (hpass : matchPair m d bid ask = .ok (some e')) :
    Moves m d.ordersFilled e' := by
  intro d' b a hpair
  have hdone := matchPair_done hkinds hbid hask hpass
  have hlt := nextPair_moves hm (hkinds.matchPair hbid hask hpass) hdone hpair
  rw [(matchPair_cursors hpass).filled] at hlt
  exact hlt

theorem loopPasses_move (hm : Setting m) {n : Nat} {k : Int} (hkinds : Kinds e) (hmoves : Moves m k e) :
    ∀ x ∈ loopPasses m n k e, x.1 < x.2.ordersFilled := by
  induction n generalizing k e with
  | zero =>
    intro x hx
    cases hx
  | succ n ih =>
    intro x hx
    unfold loopPasses at hx
    split at hx
    next d bid ask hpair =>
      have hnew := hmoves d bid ask hpair
      obtain ⟨-, hbid, hask, -, -⟩ := nextPair_some hm hpair
      have hd := hkinds.nextPair hm hpair
      rcases List.mem_cons.mp hx with rfl | hx
      · exact hnew
      · rw [if_neg hnew.ne'] at hx
        split at hx
        next next hpass =>
          exact ih (hd.matchPair hbid hask hpass) (moves_after hm hd hbid hask hpass) x hx
        next => cases hx
    next => cases hx

/-- An entry of the index of the expirations that is taken as a cover: the position has
expired and is not called. -/
def isDue (m : Market) (x : ExpirationIndex) : Prop :=
  x.quoteId = m.quoteId ∧ x.expiration ≤ m.now ∧ (m.prior.root.collateralDb.lookup x.key).isSome ∧
    ¬ m.isAboveFeed x.key
  deriving Decidable

def isCall (m : Market) (key : MarketIndexKey) : Prop := m.isPair key.orderPrice ∧ m.isAboveFeed key
  deriving Decidable

def pairs {V : Type} (m : Market) (itr : List (MarketIndexKey × V)) : Nat :=
  itr.countP fun x => m.isPair x.1.orderPrice

def calls (m : Market) (itr : List (MarketIndexKey × CollateralRecord)) : Nat :=
  itr.countP fun x => isCall m x.1

def dues (m : Market) (l : List ExpirationIndex) : Nat := l.countP fun x => isDue m x

def ahead (m : Market) (e : EngineState) : Nat :=
  pairs m e.bidItr + pairs m e.relativeBidItr + pairs m e.shortItr + pairs m e.askItr +
    calls m e.collateralItr + dues m e.collateralExpirationItr

theorem pairs_cons {V : Type} {key : MarketIndexKey} {v : V} {rest : List (MarketIndexKey × V)}
    (hpair : m.isPair key.orderPrice) : pairs m ((key, v) :: rest) = pairs m rest + 1 :=
  List.countP_cons_of_pos (by simpa using hpair)

theorem calls_cons {key : MarketIndexKey} {r : CollateralRecord}
    {rest : List (MarketIndexKey × CollateralRecord)} (hcall : isCall m key) :
    calls m ((key, r) :: rest) = calls m rest + 1 :=
  List.countP_cons_of_pos (by simpa using hcall)

theorem calls_sublist {itr rest : List (MarketIndexKey × CollateralRecord)}
    (h : rest.Sublist itr) : calls m rest ≤ calls m itr := h.countP_le

theorem dues_sublist {l rest : List ExpirationIndex} (h : rest.Sublist l) : dues m rest ≤ dues m l :=
  h.countP_le

theorem dues_split {skipped rest : List ExpirationIndex} {x : ExpirationIndex} (hdue : isDue m x) :
    dues m rest + 1 ≤ dues m (skipped ++ x :: rest) := by
  unfold dues
  rw [List.countP_append, List.countP_cons_of_pos (by simpa using hdue)]
  omega

theorem bidTaken_ahead (h : BidTaken m e e') :
    ahead m e' ≤ ahead m e ∧
      (e.currentBid = none → e'.currentBid.isSome → ahead m e' < ahead m e) := by
  unfold ahead
  cases h with
  | none =>
    refine ⟨le_rfl, fun hnone hsome => ?_⟩
    rw [hnone] at hsome
    cases hsome
  | bid itr pair | relativeBid itr pair | short itr pair =>
    rw [itr, pairs_cons pair]
    dsimp only
    exact ⟨by omega, fun _ _ => by omega⟩

theorem askTaken_ahead (h : AskTaken m e e') :
    ahead m e' ≤ ahead m e ∧
      (e.currentAsk = none → e'.currentAsk.isSome → ahead m e' < ahead m e) := by
  unfold ahead
  cases h with
  | called bid itr pair above =>
    rw [itr, calls_cons ⟨pair, above⟩]
    dsimp only
    exact ⟨by omega, fun _ _ => by omega⟩
  | @expired itr skipped rest x r called uncalled first expirations quote expired stored below =>
    have hcalled := calls_sublist (m := m) called
    have hdue : isDue m x := ⟨quote, expired, Option.isSome_of_eq_some stored, below⟩
    have hdues : dues m rest + 1 ≤ dues m (skipped ++ x :: rest) := dues_split hdue
    rw [expirations]
    dsimp only
    exact ⟨by omega, fun _ _ => by omega⟩
  | ask called passed asks pair =>
    have hcalled := calls_sublist (m := m) called
    have hpassed := dues_sublist (m := m) passed
    rw [asks, pairs_cons pair]
    dsimp only
    exact ⟨by omega, fun _ _ => by omega⟩
  | none called passed rest =>
    have hcalled := calls_sublist (m := m) called
    have hpassed := dues_sublist (m := m) passed
    have hrest := rest.countP_le (p := fun x => decide (m.isPair x.1.orderPrice))
    unfold pairs
    dsimp only
    refine ⟨by omega, fun hnone hsome => ?_⟩
    rw [hnone] at hsome
    cases hsome

theorem getNextBid_ahead (hm : Setting m) (h : m.getNextBid e = .ok e') :
    ahead m e' ≤ ahead m e ∧
      (e'.currentBid.isSome → e'.ordersFilled = e.ordersFilled ∨ ahead m e' < ahead m e) := by
  rcases getNextBid_cases hm h with ⟨rfl, -⟩ | htaken
  · exact ⟨le_rfl, fun _ => Or.inl rfl⟩
  · obtain ⟨hle, hlt⟩ := bidTaken_ahead htaken
    exact ⟨hle, fun hsome => Or.inr (hlt rfl hsome)⟩

theorem getNextAsk_ahead (hm : Setting m) (h : m.getNextAsk e = .ok e') :
    ahead m e' ≤ ahead m e ∧
      (e'.currentAsk.isSome → e'.ordersFilled = e.ordersFilled ∨ ahead m e' < ahead m e) := by
  rcases getNextAsk_cases hm h with ⟨rfl, -⟩ | htaken
  · exact ⟨le_rfl, fun _ => Or.inl rfl⟩
  · obtain ⟨hle, hlt⟩ := askTaken_ahead htaken
    exact ⟨hle, fun hsome => Or.inr (hlt rfl hsome)⟩

theorem nextPair_ahead (hm : Setting m) (h : nextPair m e = .ok (e', some (bid, ask))) :
    ahead m e' ≤ ahead m e ∧ (e'.ordersFilled = e.ordersFilled ∨ ahead m e' < ahead m e) := by
  rcases nextPair_ok h with ⟨hnone, -⟩ | ⟨d, b, hbid, hcurrent, hask, hnext⟩
  · cases hnone
  · obtain ⟨a, ha, -⟩ := Option.map_eq_some_iff.mp hnext.symm
    obtain ⟨hle, hfilled⟩ := getNextBid_ahead hm hbid
    obtain ⟨hle', hfilled'⟩ := getNextAsk_ahead hm hask
    refine ⟨hle'.trans hle, ?_⟩
    rcases hfilled (Option.isSome_of_eq_some hcurrent) with hsame | hlt
    · rcases hfilled' (Option.isSome_of_eq_some ha) with hsame' | hlt
      · exact Or.inl (hsame'.trans hsame)
      · exact Or.inr (hlt.trans_le hle)
    · exact Or.inr (hle'.trans_lt hlt)

theorem ahead_same (h : SameCursors e e') : ahead m e' = ahead m e := by
  unfold ahead
  rw [h.bids, h.asks, h.relativeBids, h.shorts, h.collateral, h.expirations]

theorem loopPasses_length (hm : Setting m) {n : Nat} {k : Int} (hkinds : Kinds e)
    (hmoves : Moves m k e) :
    (loopPasses m n k e).length ≤ ahead m e + if e.ordersFilled = k then 0 else 1 := by
  induction n generalizing k e with
  | zero => exact Nat.zero_le _
  | succ n ih =>
    unfold loopPasses
    split
    next d bid ask hpair =>
      have hnew := hmoves d bid ask hpair
      obtain ⟨hle, hfilled⟩ := nextPair_ahead hm hpair
      obtain ⟨-, hbid, hask, -, -⟩ := nextPair_some hm hpair
      have hd := hkinds.nextPair hm hpair
      have hfirst : ahead m d + 1 ≤ ahead m e + if e.ordersFilled = k then 0 else 1 := by
        split
        next hlast =>
          omega
        next => omega
      rw [List.length_cons, if_neg hnew.ne']
      split
      next next hpass =>
        have hsame := matchPair_cursors hpass
        have hrest := ih (hd.matchPair hbid hask hpass) (moves_after hm hd hbid hask hpass)
        rw [ahead_same hsame, hsame.filled, if_pos rfl] at hrest
        omega
      next =>
        rw [List.length_nil]
        omega
    next => exact Nat.zero_le _

def entriesOf {V : Type} (book : Map MarketIndexKey V) (quoteId baseId : Int) : Nat :=
  book.keys.countP fun k => OfMarket quoteId baseId k

def ordersOf (db : ChainDatabase) (quoteId baseId : Int) : Nat :=
  entriesOf db.bidDb quoteId baseId + entriesOf db.relativeBidDb quoteId baseId +
    entriesOf db.shortDb quoteId baseId + entriesOf db.askDb quoteId baseId +
    entriesOf db.collateralDb quoteId baseId

/-- The expired positions in the quote asset are positions of the market, and each has one
entry in the index. -/
structure OwnExpirations (prior : ChainInterface) (quoteId baseId : Int) : Prop where
  own : ∀ x ∈ prior.root.collateralExpirationIndex, x.quoteId = quoteId → x.expiration ≤ prior.now →
    (prior.root.collateralDb.lookup x.key).isSome → OfMarket quoteId baseId x.key
  once : ((prior.root.collateralExpirationIndex.filter fun x =>
    x.quoteId = quoteId ∧ x.expiration ≤ prior.now).map ExpirationIndex.key).Nodup

variable {quoteId baseId : Int} {prior : ChainInterface}

omit [Fc] in
theorem length_le_entriesOf {V : Type} {book : Map MarketIndexKey V} {l : List MarketIndexKey}
    (hnodup : l.Nodup) (hstored : ∀ k ∈ l, OfMarket quoteId baseId k ∧ (book.lookup k).isSome) :
    l.length ≤ entriesOf book quoteId baseId := by
  unfold entriesOf
  rw [List.countP_eq_length_filter]
  refine (List.subperm_of_subset hnodup fun k hk => ?_).length_le
  obtain ⟨hmarket, hsome⟩ := hstored k hk
  rw [List.mem_filter]
  exact ⟨AList.mem_keys.mp (AList.lookup_isSome.mp hsome), decide_eq_true hmarket⟩

theorem pairs_le {V : Type} {book : Map MarketIndexKey V} {itr : List (MarketIndexKey × V)}
    (h : InStep (fun k => book.lookup k) (fun _ => True) itr) :
    pairs m itr ≤ entriesOf book m.quoteId m.baseId := by
  unfold pairs
  rw [List.countP_eq_length_filter, ← List.length_map Prod.fst]
  refine length_le_entriesOf (h.nodup.sublist (List.filter_sublist.map Prod.fst)) fun k hk => ?_
  obtain ⟨x, hx, rfl⟩ := List.mem_map.mp hk
  obtain ⟨hmem, hpair⟩ := List.mem_filter.mp hx
  exact ⟨of_decide_eq_true hpair, Option.isSome_of_eq_some (h.stored x hmem trivial)⟩

theorem covers_le (h : Opened prior quoteId baseId m e) (hown : OwnExpirations prior quoteId baseId) :
    calls m e.collateralItr + dues m e.collateralExpirationItr ≤
      entriesOf prior.root.collateralDb quoteId baseId := by
  obtain ⟨rfl, rfl, rfl⟩ : m.quoteId = quoteId ∧ m.baseId = baseId ∧ m.prior = prior :=
    ⟨h.quote, h.base, h.below⟩
  have hdues : dues m e.collateralExpirationItr ≤ dues m m.prior.root.collateralExpirationIndex := by
    obtain ⟨l, hsub, hperm⟩ := h.expirations
    unfold dues
    rw [hperm.countP_eq]
    exact hsub.countP_le
  refine (Nat.add_le_add_left hdues _).trans ?_
  unfold calls dues
  rw [List.countP_eq_length_filter, List.countP_eq_length_filter, ← List.length_map Prod.fst,
    ← List.length_map ExpirationIndex.key, ← List.length_append]
  refine length_le_entriesOf (List.Nodup.append ?_ ?_ ?_) fun k hk => ?_
  · exact h.positions.nodup.sublist (List.filter_sublist.map Prod.fst)
  · refine hown.once.sublist (List.Sublist.map _ (List.monotone_filter_right _ fun x hx => ?_))
    have hdue : isDue m x := of_decide_eq_true hx
    exact decide_eq_true ⟨hdue.1, hdue.2.1⟩
  · intro k hcall hdue
    obtain ⟨x, hx, rfl⟩ := List.mem_map.mp hcall
    obtain ⟨y, hy, hkey⟩ := List.mem_map.mp hdue
    have hcall' : isCall m x.1 := of_decide_eq_true (List.mem_filter.mp hx).2
    have hdue' : isDue m y := of_decide_eq_true (List.mem_filter.mp hy).2
    have habove := hdue'.2.2.2
    rw [hkey] at habove
    exact habove hcall'.2
  · rcases List.mem_append.mp hk with hk | hk
    · obtain ⟨x, hx, rfl⟩ := List.mem_map.mp hk
      obtain ⟨hmem, hcall⟩ := List.mem_filter.mp hx
      have hcall' : isCall m x.1 := of_decide_eq_true hcall
      exact ⟨hcall'.1, Option.isSome_of_eq_some (h.positions.stored x hmem trivial)⟩
    · obtain ⟨x, hx, rfl⟩ := List.mem_map.mp hk
      obtain ⟨hmem, hdue⟩ := List.mem_filter.mp hx
      have hdue' : isDue m x := of_decide_eq_true hdue
      exact ⟨hown.own x hmem hdue'.1 hdue'.2.1 hdue'.2.2.1, hdue'.2.2.1⟩

theorem ahead_le (h : Opened prior quoteId baseId m e) (hown : OwnExpirations prior quoteId baseId) :
    ahead m e ≤ ordersOf prior.root quoteId baseId := by
  have hcovers := covers_le h hown
  have hbids := pairs_le (m := m) h.bids
  have hrelative := pairs_le (m := m) h.relativeBids
  have hshorts := pairs_le (m := m) h.shorts
  have hasks := pairs_le (m := m) h.asks
  rw [h.quote, h.base] at hbids hrelative hshorts hasks
  unfold ahead ordersOf
  omega

theorem openMarket_filled (h : openMarket prior quoteId baseId = .ok (m, e)) :
    e.ordersFilled = 0 := by
  simp only [openMarket, openBooks, eq_ok_iff, Prod.mk.injEq] at h
  obtain ⟨_, ⟨_, _, _, _, _, _, _, _, _, _, _, _, rfl⟩, _, _, rfl, rfl⟩ := h
  rfl

/-- The matching loop ends, and each of its passes has taken an order that the pass before
did not have. Where the expired positions in the quote asset are those of the market, it has
no more passes than the market has orders and positions, and one. -/
theorem matching_loop_bounded {prior : ChainInterface} {quoteId baseId : Int}
    (hfork : forkBlockNumV0429 ≤ prior.getHeadBlockNum)
    (hopen : openMarket prior quoteId baseId = .ok (m, e)) (hprimed : primed m e = .ok d) :
    (matchOrders m (passes d) (-1) d).isSome ∧
      (∀ n, ∀ x ∈ loopPasses m n (-1) d, x.1 < x.2.ordersFilled) ∧
      (OwnExpirations prior quoteId baseId →
        ∀ n, (loopPasses m n (-1) d).length ≤ ordersOf prior.root quoteId baseId + 1) := by
  have hopened := openMarket_ok hopen
  have hm : Setting m := hopened.setting hfork
  have hfilled := openMarket_filled hopen
  simp only [primed, bind_eq_ok] at hprimed
  obtain ⟨e₁, hbid, hask⟩ := hprimed
  have hkinds : Kinds e := by
    refine ⟨fun b hb => ?_, fun a ha => ?_⟩
    · rw [hopened.currentBid] at hb
      cases hb
    · rw [hopened.currentAsk] at ha
      cases ha
  have hkinds' : Kinds d := (hkinds.getNextBid hm hbid).getNextAsk hm hask
  have hfilled₁ := (getNextBid_filled hm hbid).1
  have hfilled₂ := getNextAsk_filled hm hask
  have hmoves : Moves m (-1) d := by
    intro d' b a hpair
    obtain ⟨⟨d₁, hbid', hask'⟩, -⟩ := nextPair_some hm hpair
    have hnext := (getNextBid_filled hm hbid').1
    have hnext' := getNextAsk_filled hm hask'
    omega
  refine ⟨?_, fun n => loopPasses_move hm hkinds' hmoves, fun hown n => ?_⟩
  · exact matchOrders_ends hm d
  · have hlength := loopPasses_length hm (n := n) hkinds' hmoves
    have hle := (getNextBid_ahead hm hbid).1
    have hle' := (getNextAsk_ahead hm hask).1
    have hahead := ahead_le hopened hown
    split at hlength <;> omega

theorem nextPair_keeps (hbid : e.currentBid = some bid)
    (hhas : Market.hasQuantity (some bid) = .ok true) (hnext : m.getNextAsk e = .ok d)
    (hask : d.currentAsk = some ask) : nextPair m e = .ok (d, some (bid, ask)) := by
  have hkeep : m.getNextBid e = .ok e := by
    unfold Market.getNextBid
    rw [hbid, hhas]
    rfl
  simp only [nextPair, bind_eq_ok]
  refine ⟨e, hkeep, ?_⟩
  rw [hbid]
  simp only [eq_ok_iff]
  exact ⟨d, hnext, by rw [hask]; rfl⟩

section Skipped

variable (hfeed : m.feedPrice = none)
include hfeed

theorem matchPair_skips {key : MarketIndexKey} {r : CollateralRecord} (hbid : bid.type = .bidOrder)
    (hissued : e.quoteAsset.isMarketIssued) :
    matchPair m e bid (Market.coverOrder key r) = .ok (some { e with currentAsk := none }) := by
  have hprice : orderPrice m bid = .ok bid.marketIndex.orderPrice := by
    unfold orderPrice MarketOrder.getPrice
    rw [hfeed, hbid]
    cases m.legacy <;> rfl
  have hcover : orderPrice m (Market.coverOrder key r) = .ok key.orderPrice := by
    unfold orderPrice
    rw [hfeed]
    cases m.legacy <;> rfl
  have hjudge : judge m e bid (Market.coverOrder key r) = .ok .skipAsk := by
    rw [judge_bid hbid (by simp [Market.coverOrder]) hprice hcover rfl]
    unfold judgeAsk
    rw [if_pos (show (Market.coverOrder key r).type = .coverOrder from rfl), hfeed]
    simp only [bind_eq_ok, require_eq_ok]
    exact ⟨(), hissued, rfl⟩
  simp only [matchPair, hjudge, bind_eq_ok]
  exact ⟨_, rfl, rfl⟩

theorem isAboveFeed_none (key : MarketIndexKey) : ¬ m.isAboveFeed key := by
  unfold Market.isAboveFeed
  rw [hfeed]
  rintro ⟨feed, hnone, -⟩
  cases hnone

omit hfeed in
theorem getNextAsk_due {x : ExpirationIndex} {rest : List ExpirationIndex}
    (hlegacy : m.legacy = false) (hbid : e.currentBid.isSome) (hask : AskDone e)
    (hcalled : ∀ y ∈ e.collateralItr, ¬ m.isPair y.1.orderPrice)
    (hitr : e.collateralExpirationItr = x :: rest) (hdue : isDue m x) :
    ∃ r d, m.prior.root.collateralDb.lookup x.key = some r ∧ m.getNextAsk e = .ok d ∧
      d.currentAsk = some (Market.coverOrder x.key r) ∧ d.currentBid = e.currentBid ∧
      d.quoteAsset = e.quoteAsset ∧ d.ordersFilled = e.ordersFilled + 1 ∧ d.collateralItr = [] ∧
      d.collateralExpirationItr = rest := by
  obtain ⟨hquote, hexpired, hstored, habove⟩ := hdue
  obtain ⟨r, hr⟩ := Option.isSome_iff_exists.mp hstored
  have hnone : ¬ ∃ ask ∈ e.currentAsk, 0 < ask.state.balance := by
    rintro ⟨ask, hsome, hpos⟩
    have hzero := hask ask hsome
    omega
  have hcall (d : EngineState) : m.marginCall d e.collateralItr = { d with collateralItr := [] } := by
    unfold Market.marginCall
    split
    · rfl
    next key r' ys hcons =>
      refine if_pos (hcalled (key, r') ?_)
      rw [hcons]
      exact List.mem_cons_self
  refine ⟨r, { e with
    ordersFilled := e.ordersFilled + 1
    collateralItr := []
    currentAsk := some (Market.coverOrder x.key r)
    collateralExpirationItr := rest }, hr, ?_, rfl, rfl, rfl, rfl, rfl, rfl⟩
  unfold Market.getNextAsk Market.advanceAsk
  rw [if_neg hnone]
  dsimp only
  rw [if_pos hbid, hcall]
  unfold Market.nextExpired
  rw [if_neg (by simp [hlegacy])]
  rw [hitr]
  unfold Market.expiredCover
  rw [if_neg (by simp only [hquote]; omega), hr]
  change ((if m.isAboveFeed x.key then _ else _) >>= _) = _
  rw [if_neg habove]
  rfl

theorem loopPasses_skips (hlegacy : m.legacy = false) {l : List ExpirationIndex} {n : Nat} {k : Int}
    (hissued : e.quoteAsset.isMarketIssued) (hbid : e.currentBid = some bid)
    (hkind : bid.type = .bidOrder) (hhas : Market.hasQuantity (some bid) = .ok true)
    (hask : AskDone e) (hcalled : ∀ y ∈ e.collateralItr, ¬ m.isPair y.1.orderPrice)
    (hitr : e.collateralExpirationItr = l) (hdue : ∀ x ∈ l, isDue m x) (hn : l.length ≤ n)
    (hk : k ≤ e.ordersFilled) : l.length ≤ (loopPasses m n k e).length := by
  induction l generalizing e n k with
  | nil => exact Nat.zero_le _
  | cons x rest ih =>
    cases n with
    | zero => exact absurd hn (by simp)
    | succ n =>
      obtain ⟨r, d, -, hnext, hcover, hsame, hquote, hfilled, hcollateral, hrest⟩ := getNextAsk_due
        hlegacy (Option.isSome_of_eq_some hbid) hask hcalled hitr (hdue x List.mem_cons_self)
      have hpair := nextPair_keeps hbid hhas hnext hcover
      unfold loopPasses
      rw [hpair]
      dsimp only
      rw [if_neg (by omega), matchPair_skips hfeed hkind (by rwa [hquote])]
      refine Nat.succ_le_succ (ih (by rwa [hquote]) (hsame.trans hbid) (fun a ha => ?_)
        (fun y hy => ?_) hrest (fun y hy => hdue y (List.mem_cons_of_mem _ hy))
        (Nat.le_of_succ_le_succ hn) le_rfl)
      · cases ha
      · rw [hcollateral] at hy
        cases hy

theorem loopPasses_expired (hlegacy : m.legacy = false) {l : List ExpirationIndex}
    (hissued : e.quoteAsset.isMarketIssued) (hbid : e.currentBid = some bid)
    (hkind : bid.type = .bidOrder) (hhas : Market.hasQuantity (some bid) = .ok true)
    (hask : AskDone e) (hcalled : ∀ y ∈ e.collateralItr, ¬ m.isPair y.1.orderPrice)
    (hitr : e.collateralExpirationItr = l) (hdue : ∀ x ∈ l, isDue m x) (hl : l ≠ [])
    (hpos : ∀ x ∈ l, ∀ r ∈ m.prior.root.collateralDb.lookup x.key, 0 < r.payoffBalance)
    (hfilled : 0 ≤ e.ordersFilled) :
    ∃ d, m.getNextAsk e = .ok d ∧ l.length ≤ (loopPasses m (passes d) (-1) d).length := by
  obtain ⟨x, rest, rfl⟩ := List.exists_cons_of_ne_nil hl
  obtain ⟨r, d, hr, hnext, hcover, hsame, hquote, hfilled', hcollateral, hrest⟩ := getNextAsk_due
    hlegacy (Option.isSome_of_eq_some hbid) hask hcalled hitr (hdue x List.mem_cons_self)
  refine ⟨d, hnext, ?_⟩
  have hkeep : m.getNextAsk d = .ok d :=
    if_pos ⟨_, hcover, hpos x List.mem_cons_self r hr⟩
  have hpair := nextPair_keeps (hsame.trans hbid) hhas hkeep hcover
  have hpasses : rest.length < passes d := by
    unfold passes
    rw [hrest]
    omega
  obtain ⟨n, hn⟩ := Nat.exists_eq_add_one_of_ne_zero (Nat.ne_zero_of_lt hpasses)
  rw [hn] at hpasses ⊢
  unfold loopPasses
  rw [hpair]
  dsimp only
  rw [if_neg (by omega), matchPair_skips hfeed hkind (by rwa [hquote])]
  refine Nat.succ_le_succ (loopPasses_skips hfeed hlegacy (by rwa [hquote]) (hsame.trans hbid) hkind
    hhas (fun a ha => ?_) (fun y hy => ?_) hrest (fun y hy => hdue y (List.mem_cons_of_mem _ hy))
    (by omega) le_rfl)
  · cases ha
  · rw [hcollateral] at hy
    cases hy

end Skipped

end Model

theorem primed_calledPosition :
    letI := Fc.separate
    (openMarket (.pending {} (.database (calledPosition 500))) 22 0 >>=
      fun r => primed r.1 r.2).isOk := by
  decide +kernel

theorem matching_loop_bounded_calledPosition :
    letI := Fc.separate
    let prior := ChainInterface.pending {} (.database (calledPosition 500))
    ∃ m e d, openMarket prior 22 0 = .ok (m, e) ∧ primed m e = .ok d ∧
      (matchOrders m (passes d) (-1) d).isSome ∧
      (∀ n, ∀ x ∈ loopPasses m n (-1) d, x.1 < x.2.ordersFilled) ∧
      ∀ n, (loopPasses m n (-1) d).length ≤ ordersOf prior.root 22 0 + 1 := by
  let := Fc.separate
  intro prior
  obtain ⟨d, hd⟩ := exists_ok_of_isOk primed_calledPosition
  obtain ⟨⟨m, e⟩, hopen, hprimed⟩ := bind_eq_ok.mp hd
  have hown : OwnExpirations prior 22 0 := ⟨by decide, by decide⟩
  obtain ⟨hends, hmoves, hbounded⟩ := matching_loop_bounded (by decide) hopen hprimed
  exact ⟨m, e, d, hopen, hprimed, hends, hmoves, hbounded hown⟩

def expiredKey (i : Nat) : MarketIndexKey := ⟨⟨i + 1, 0, 22⟩, 9⟩

def expiredRecord : CollateralRecord :=
  { collateralBalance := 30, payoffBalance := 1, interestRate := ⟨0, 0, 22⟩, expiration := 1 }

def expiredRecords (n : Nat) : Map MarketIndexKey CollateralRecord where
  entries := (List.range n).map fun i => ⟨expiredKey i, expiredRecord⟩
  nodupKeys := by
    unfold List.NodupKeys List.keys
    rw [List.map_map]
    refine List.nodup_range.map fun i j h => ?_
    have hratio : i + 1 = j + 1 := congrArg (fun k : MarketIndexKey => k.orderPrice.ratio) h
    omega

/-- A bid for another asset in dollars, and the expired positions. -/
def crossMarket (n : Nat) : @ChainDatabase Fc.separate :=
  letI := Fc.separate
  { headBlockHeader := { blockNum := forkBlockNumV0429, timestamp := 1000000000 }
    propertyDb := (∅ : Map _ _).insert .activeDelegateListId (.accounts [])
    assetDb := (Table.empty.store
      { id := 5, symbol := "GOLD", issuerAccountId := AssetRecord.marketIssuerId }).store
      { id := 22, symbol := "USD", issuerAccountId := AssetRecord.marketIssuerId }
    bidDb := (∅ : Map _ _).insert ⟨⟨1000000000000000000, 5, 22⟩, 7⟩ { balance := 1000 }
    collateralDb := expiredRecords n
    collateralExpirationIndex := (List.range n).map fun i => ⟨22, 1, expiredKey i⟩ }

theorem open_crossMarket (n : Nat) :
    letI := Fc.separate
    let prior := ChainInterface.pending {} (.database (crossMarket n))
    ∃ quoteAsset baseAsset, quoteAsset.isMarketIssued ∧
      openMarket prior 22 5 = .ok ({ quoteId := 22, baseId := 5, feedPrice := none, prior }, {
        bidItr := [(⟨⟨1000000000000000000, 5, 22⟩, 7⟩, { balance := 1000 })]
        askItr := [], relativeBidItr := [], shortItr := []
        collateralItr := below (expiredRecords n) { orderPrice := ⟨0, 6, 22⟩ }
        collateralExpirationItr := expirationsFrom ((List.range n).map fun i => ⟨22, 1, expiredKey i⟩)
          { quoteId := 22, expiration := 0, key := { orderPrice := ⟨0, 5, 22⟩ } }
        quoteAsset, baseAsset, tradingVolume := { assetId := 5 } }) := by
  refine ⟨_, _, ?_, rfl⟩
  decide

theorem lookup_expiredRecords {n i : Nat} (hi : i < n) :
    (expiredRecords n).lookup (expiredKey i) = some expiredRecord :=
  lookup_of_mem (e := ⟨expiredKey i, expiredRecord⟩)
    (List.mem_map.mpr ⟨i, List.mem_range.mpr hi, rfl⟩)

theorem expirations_crossMarket (n : Nat) :
    (expirationsFrom ((List.range n).map fun i => ⟨22, 1, expiredKey i⟩)
      { quoteId := 22, expiration := 0, key := { orderPrice := ⟨0, 5, 22⟩ } }).Perm
      ((List.range n).map fun i => ⟨22, 1, expiredKey i⟩) := by
  refine (List.perm_insertionSort _ _).trans (List.Perm.of_eq (List.filter_eq_self.mpr ?_))
  intro x hx
  obtain ⟨i, -, rfl⟩ := List.mem_map.mp hx
  refine decide_eq_true ?_
  rintro (h | ⟨-, h | ⟨h, -⟩⟩) <;> dsimp only at h <;> omega

theorem orders_crossMarket (n : Nat) :
    letI := Fc.separate
    ordersOf (crossMarket n) 22 5 = 1 := by
  have hnone : entriesOf (expiredRecords n) 22 5 = 0 := by
    refine List.countP_eq_zero.mpr fun k hk => ?_
    obtain ⟨x, hx, rfl⟩ := List.mem_map.mp hk
    obtain ⟨i, -, rfl⟩ := List.mem_map.mp hx
    simp [OfMarket, expiredKey]
  exact congrArg (1 + ·) hnone

def cross (n : Nat) : @Market Fc.separate :=
  letI := Fc.separate
  { quoteId := 22, baseId := 5, feedPrice := none
    prior := .pending {} (.database (crossMarket n)) }

theorem due_crossMarket {n : Nat} {x : ExpirationIndex}
    (hx : x ∈ (List.range n).map fun i => (⟨22, 1, expiredKey i⟩ : ExpirationIndex)) :
    letI := Fc.separate
    isDue (cross n) x ∧ ∀ r ∈ (cross n).prior.root.collateralDb.lookup x.key, 0 < r.payoffBalance := by
  let := Fc.separate
  obtain ⟨i, hi, rfl⟩ := List.mem_map.mp hx
  have hlookup : (cross n).prior.root.collateralDb.lookup (expiredKey i) = some expiredRecord :=
    lookup_expiredRecords (List.mem_range.mp hi)
  refine ⟨⟨rfl, ?_, Option.isSome_of_eq_some hlookup, isAboveFeed_none rfl _⟩, fun r hr => ?_⟩
  · change 1 ≤ 1000000000
    decide
  · cases hlookup.symm.trans hr
    decide

/-- Each expired position of another market of the quote asset takes a pass of the loop, so
that no constant bounds the passes of a market with one order and no position. -/
theorem other_positions_visited :
    letI := Fc.separate
    ∃ book : Nat → ChainDatabase, ∀ n, ordersOf (book n) 22 5 = 1 ∧
      ∃ m e d, openMarket (.pending {} (.database (book n))) 22 5 = .ok (m, e) ∧
        primed m e = .ok d ∧ n ≤ (loopPasses m (passes d) (-1) d).length := by
  let := Fc.separate
  refine ⟨fun n => crossMarket (n + 1), fun n => ⟨orders_crossMarket _, ?_⟩⟩
  obtain ⟨quoteAsset, baseAsset, hissued, hopen⟩ := open_crossMarket (n + 1)
  have hperm := expirations_crossMarket (n + 1)
  have hlength := hperm.length_eq
  rw [List.length_map, List.length_range] at hlength
  have hitr : ∀ y ∈ below (expiredRecords (n + 1)) { orderPrice := ⟨0, 6, 22⟩ },
      ¬ (cross (n + 1)).isPair y.1.orderPrice := by
    intro y hy
    have hmem := (sorted_perm _).mem_iff.mp (List.mem_of_mem_filter (List.mem_reverse.mp hy))
    obtain ⟨entry, hentry, rfl⟩ := List.mem_map.mp hmem
    obtain ⟨i, -, rfl⟩ := List.mem_map.mp hentry
    intro hpair
    have hbase : (0 : Int) = 5 := hpair.2
    omega
  have hhas : Market.hasQuantity (some
      { type := .bidOrder, marketIndex := ⟨⟨1000000000000000000, 5, 22⟩, 7⟩
        state := { balance := 1000 } }) = .ok true := rfl
  obtain ⟨d, hask, hle⟩ := loopPasses_expired (m := cross (n + 1)) (e := {
      ordersFilled := 1, bidItr := [], askItr := [], relativeBidItr := [], shortItr := []
      currentBid := some { type := .bidOrder, marketIndex := ⟨⟨1000000000000000000, 5, 22⟩, 7⟩
                           state := { balance := 1000 } }
      collateralItr := below (expiredRecords (n + 1)) { orderPrice := ⟨0, 6, 22⟩ }
      collateralExpirationItr := expirationsFrom
        ((List.range (n + 1)).map fun i => ⟨22, 1, expiredKey i⟩)
        { quoteId := 22, expiration := 0, key := { orderPrice := ⟨0, 5, 22⟩ } }
      quoteAsset, baseAsset, tradingVolume := { assetId := 5 } }) rfl rfl hissued rfl rfl hhas
    (fun a ha => by cases ha) hitr rfl (fun x hx => (due_crossMarket (hperm.mem_iff.mp hx)).1)
    (List.ne_nil_of_length_eq_add_one hlength)
    (fun x hx => (due_crossMarket (hperm.mem_iff.mp hx)).2) Int.one_nonneg
  refine ⟨cross (n + 1), _, d, hopen, ?_, (Nat.le_succ n).trans (hlength.symm.le.trans hle)⟩
  simp only [primed, bind_eq_ok]
  exact ⟨_, rfl, hask⟩

end Bts.Blockchain.LoopPasses
