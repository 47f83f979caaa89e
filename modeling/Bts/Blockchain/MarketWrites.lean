import Mathlib.Logic.Relation
import Bts.Blockchain.MarketExecute

namespace Bts.Blockchain.MarketWrites

open Base.Result Errors Amounts Records MarketRecords Transactions Pending Database Layers MarketEngine
  MarketMatch MarketExecute

/-- A market changes the supply and the fees of its quote asset. -/
def Traded (a b : AssetRecord) : Prop :=
  ∃ supply fees, b = { a with currentShareSupply := supply, collectedFees := fees }

/-- It changes only the fees of its base asset. -/
def Collected (a b : AssetRecord) : Prop := ∃ fees, b = { a with collectedFees := fees }

theorem Traded.refl (a : AssetRecord) : Traded a a := ⟨_, _, rfl⟩

theorem Traded.trans {a b c : AssetRecord} (h : Traded a b) (h' : Traded b c) : Traded a c := by
  obtain ⟨_, _, rfl⟩ := h
  obtain ⟨_, _, rfl⟩ := h'
  exact ⟨_, _, rfl⟩

theorem Collected.refl (a : AssetRecord) : Collected a a := ⟨_, rfl⟩

theorem Collected.trans {a b c : AssetRecord} (h : Collected a b) (h' : Collected b c) :
    Collected a c := by
  obtain ⟨_, rfl⟩ := h
  obtain ⟨_, rfl⟩ := h'
  exact ⟨_, rfl⟩

variable [Fc]

inductive Write (l : PendingState) : PendingState → Prop
  | balance (r : BalanceRecord) : Write l (l.storeBalanceRecord r)
  | bid (key : MarketIndexKey) (r : OrderRecord) : Write l (l.storeBidRecord key r)
  | ask (key : MarketIndexKey) (r : OrderRecord) : Write l (l.storeAskRecord key r)
  | relativeBid (key : MarketIndexKey) (r : OrderRecord) : Write l (l.storeRelativeBidRecord key r)
  | relativeAsk (key : MarketIndexKey) (r : OrderRecord) : Write l (l.storeRelativeAskRecord key r)
  | short (key : MarketIndexKey) (r : OrderRecord) : Write l (l.storeShortRecord key r)
  | collateral (key : MarketIndexKey) (r : CollateralRecord) :
    Write l (l.storeCollateralRecord key r)
  | asset (r : AssetRecord) : Write l (l.storeAssetRecord r)
  | status (s : MarketStatus) : Write l (l.storeMarketStatus s)
  | history (key : MarketHistoryKey) (r : MarketHistoryRecord) :
    Write l (l.storeMarketHistoryRecord key r)

def Writes : PendingState → PendingState → Prop := Relation.ReflTransGen Write

inductive OrderWrite (l : PendingState) : PendingState → Prop
  | balance (r : BalanceRecord) : OrderWrite l (l.storeBalanceRecord r)
  | bid (key : MarketIndexKey) (r : OrderRecord) : OrderWrite l (l.storeBidRecord key r)
  | ask (key : MarketIndexKey) (r : OrderRecord) : OrderWrite l (l.storeAskRecord key r)
  | relativeBid (key : MarketIndexKey) (r : OrderRecord) :
    OrderWrite l (l.storeRelativeBidRecord key r)
  | relativeAsk (key : MarketIndexKey) (r : OrderRecord) :
    OrderWrite l (l.storeRelativeAskRecord key r)
  | short (key : MarketIndexKey) (r : OrderRecord) : OrderWrite l (l.storeShortRecord key r)
  | collateral (key : MarketIndexKey) (r : CollateralRecord) :
    OrderWrite l (l.storeCollateralRecord key r)

variable {l l' : PendingState}

theorem OrderWrite.write (h : OrderWrite l l') : Write l l' := by
  cases h with
  | balance r => exact .balance r
  | bid key r => exact .bid key r
  | ask key r => exact .ask key r
  | relativeBid key r => exact .relativeBid key r
  | relativeAsk key r => exact .relativeAsk key r
  | short key r => exact .short key r
  | collateral key r => exact .collateral key r

def OrderWrites : PendingState → PendingState → Prop := Relation.ReflTransGen OrderWrite

theorem OrderWrites.writes (h : OrderWrites l l') : Writes l l' :=
  Relation.ReflTransGen.mono (fun _ _ => OrderWrite.write) _ _ h

theorem OrderWrites.frame {τ : Type} {g : PendingState → τ} (h : OrderWrites l l')
    (hg : ∀ l l', OrderWrite l l' → g l' = g l) : g l' = g l := by
  induction h with
  | refl => rfl
  | tail _ hwrite ih => exact (hg _ _ hwrite).trans ih

theorem Writes.frame {τ : Type} {g : PendingState → τ} (h : Writes l l')
    (hg : ∀ l l', Write l l' → g l' = g l) : g l' = g l := by
  induction h with
  | refl => rfl
  | tail _ hwrite ih => exact (hg _ _ hwrite).trans ih

variable {m : Market} {e e' : EngineState} {bid ask : MarketOrder} {mtrx mtrx' : MarketTransaction}

/-- What the iterators of the engine leave alone. -/
def held (e : EngineState) : PendingState × AssetRecord × AssetRecord :=
  (e.layer, e.quoteAsset, e.baseAsset)

/-- What they leave alone besides: the figures that the history is made from. -/
def kept (e : EngineState) :
    (PendingState × AssetRecord × AssetRecord) × List MarketTransaction × Asset × Price × Price :=
  (held e, e.marketTransactions, e.tradingVolume, e.openingPrice, e.closingPrice)

/-- A search for the next bid or ask goes on in the books. A short order or a position that it
puts at hand is one of those that were still ahead. -/
structure Sought (e e' : EngineState) : Prop where
  kept : kept e' = kept e
  shorts : e'.shortItr ⊆ e.shortItr
  positions : e'.collateralItr ⊆ e.collateralItr
  bid : ∀ bid ∈ e'.currentBid, bid.type = .shortOrder →
    e.currentBid = some bid ∨ ∃ x ∈ e.shortItr, bid.marketIndex = x.1
  hand : e'.currentCollatRecord = e.currentCollatRecord ∨
    ∃ x ∈ e.collateralItr, e'.currentCollatRecord = x.2

theorem Sought.held (h : Sought e e') : held e' = held e := congrArg Prod.fst h.kept

theorem Sought.refl (e : EngineState) : Sought e e :=
  ⟨rfl, List.Subset.refl _, List.Subset.refl _, fun _ hbid _ => Or.inl hbid, Or.inl rfl⟩

theorem Sought.trans {d : EngineState} (h : Sought e d) (h' : Sought d e') : Sought e e' := by
  refine ⟨h'.kept.trans h.kept, List.Subset.trans h'.shorts h.shorts,
    List.Subset.trans h'.positions h.positions,
    fun bid hbid htype => ?_, ?_⟩
  · rcases h'.bid bid hbid htype with hd | ⟨x, hx, hindex⟩
    · exact h.bid bid hd htype
    · exact Or.inr ⟨x, h.shorts hx, hindex⟩
  · rcases h'.hand with hd | ⟨x, hx, hrecord⟩
    · rw [hd]
      exact h.hand
    · exact Or.inr ⟨x, h.positions hx, hrecord⟩

/-- A bid that is not a short order is put at hand. -/
theorem Sought.take {d : EngineState} (hkept : MarketWrites.kept d = MarketWrites.kept e)
    (hshorts : d.shortItr = e.shortItr) (hpositions : d.collateralItr = e.collateralItr)
    (hhand : d.currentCollatRecord = e.currentCollatRecord)
    (hbid : ∀ bid ∈ d.currentBid, bid.type ≠ .shortOrder) : Sought e d :=
  ⟨hkept, hshorts ▸ List.Subset.refl _, hpositions ▸ List.Subset.refl _,
    fun b hb htype => absurd htype (hbid b hb), Or.inl hhand⟩

theorem getNextShort_sought (h : m.getNextShort e = some e') : Sought e e' := by
  unfold Market.getNextShort at h
  split at h
  · cases h
  next key order rest hitr =>
    split at h
    · cases h
      refine ⟨rfl, ?_, List.Subset.refl _, ?_, Or.inl rfl⟩
      · rw [hitr]
        exact List.subset_cons_self _ _
      · rintro bid hbid -
        cases hbid
        exact Or.inr ⟨(key, order), by rw [hitr]; exact List.mem_cons_self, rfl⟩
    · cases h

theorem shortOr_sought {d : EngineState} (hd : Sought e d) :
    Sought e ((m.getNextShort e).getD d) := by
  cases h : m.getNextShort e with
  | none => exact hd
  | some s => exact getNextShort_sought h

theorem relativeBid_type {best : MarketOrder × Price} (h : m.relativeBid e = .ok (some best)) :
    best.1.type = .relativeBidOrder := by
  unfold Market.relativeBid at h
  split at h
  · simp only [eq_ok_iff] at h
    obtain ⟨price, -, h⟩ := h
    split at h
    · cases h
      rfl
    · cases h
  · cases h

theorem bestBid_type (h : m.bestBid e = .ok (some bid)) : bid.type ≠ .shortOrder := by
  simp only [Market.bestBid, bind_eq_ok] at h
  obtain ⟨relative, hrelative, h⟩ := h
  have hfirst : relative.map Prod.fst = some bid → bid.type ≠ .shortOrder := by
    intro hmap
    obtain ⟨best, rfl, rfl⟩ := Option.map_eq_some_iff.mp hmap
    rw [relativeBid_type hrelative]
    decide
  split at h
  · exact hfirst (pure_eq_ok.mp h)
  · rw [pure_eq_ok] at h
    split at h
    · cases relative with
      | none =>
        cases h
        exact OrderType.noConfusion
      | some best =>
        dsimp only at h
        split at h
        · cases h
          exact OrderType.noConfusion
        · exact hfirst h
    · exact hfirst h

theorem takeBid_sought (htype : bid.type ≠ .shortOrder) : Sought e (m.takeBid e bid) := by
  have htaken : Sought e { e with bidItr := e.bidItr.tail, currentBid := some bid } := by
    refine .take rfl rfl rfl rfl ?_
    rintro b hb
    cases hb
    exact htype
  unfold Market.takeBid
  split
  · split
    · exact shortOr_sought htaken
    · exact htaken
  · exact htaken

theorem getNextBid_sought (h : m.getNextBid e = .ok e') : Sought e e' := by
  have hcleared : Sought e { e with ordersFilled := e.ordersFilled + 1, currentBid := none } :=
    .take rfl rfl rfl rfl fun b hb => nomatch hb
  simp only [Market.getNextBid, bind_eq_ok] at h
  obtain ⟨hasBid, -, h⟩ := h
  split at h
  · cases h
    exact .refl e
  · simp only [Market.advanceBid, bind_eq_ok] at h
    obtain ⟨best, hbest, h⟩ := h
    split at h
    · cases h
      exact hcleared.trans (shortOr_sought (.refl _))
    next bid =>
      cases h
      have htype := bestBid_type hbest
      split
      · refine .take rfl rfl rfl rfl ?_
        rintro b hb
        cases hb
        exact htype
      · exact hcleared.trans (takeBid_sought htype)

/-- The covers are those of the iterator, or what a search has left of them. -/
theorem marginCall_sought {d : EngineState} {covers : List (MarketIndexKey × CollateralRecord)}
    (hd : Sought e d) (hcovers : covers ⊆ e.collateralItr) : Sought e (m.marginCall d covers) := by
  induction covers generalizing d with
  | nil => exact ⟨hd.kept, hd.shorts, List.nil_subset _, hd.bid, hd.hand⟩
  | cons x rest ih =>
    have hrest : rest ⊆ e.collateralItr := List.Subset.trans (List.subset_cons_self x rest) hcovers
    have hhand : ∃ y ∈ e.collateralItr, x.2 = y.2 := ⟨x, hcovers List.mem_cons_self, rfl⟩
    unfold Market.marginCall
    split
    · exact ⟨hd.kept, hd.shorts, List.nil_subset _, hd.bid, hd.hand⟩
    · split
      · exact ⟨hd.kept, hd.shorts, hrest, hd.bid, Or.inr hhand⟩
      · split
        · exact ih ⟨hd.kept, hd.shorts, hd.positions, hd.bid, Or.inr hhand⟩ hrest
        · exact ⟨hd.kept, hd.shorts, hrest, hd.bid, Or.inr hhand⟩

theorem expiredCover_sought {l : List ExpirationIndex} (h : m.expiredCover e l = .ok e') :
    Sought e e' := by
  have hsame := Sought.refl e
  induction l with
  | nil =>
    cases h
    exact ⟨rfl, hsame.shorts, hsame.positions, hsame.bid, hsame.hand⟩
  | cons x rest ih =>
    unfold Market.expiredCover at h
    split at h
    · cases h
      exact ⟨rfl, hsame.shorts, hsame.positions, hsame.bid, hsame.hand⟩
    · simp only [bind_eq_ok] at h
      obtain ⟨r, -, h⟩ := h
      split at h
      · exact ih h
      · cases h
        exact ⟨rfl, hsame.shorts, hsame.positions, hsame.bid, hsame.hand⟩

theorem nextExpired_sought (h : m.nextExpired e = .ok e') : Sought e e' := by
  unfold Market.nextExpired at h
  split at h
  · cases h
    exact .refl e
  · exact expiredCover_sought h

theorem nextAsk_sought : Sought e (m.nextAsk e) := by
  have hsame := Sought.refl e
  unfold Market.nextAsk
  split
  · exact hsame
  · exact ⟨rfl, hsame.shorts, hsame.positions, hsame.bid, hsame.hand⟩

theorem getNextAsk_sought (h : m.getNextAsk e = .ok e') : Sought e e' := by
  unfold Market.getNextAsk at h
  split at h
  · cases h
    exact .refl e
  · simp only [Market.advanceAsk, eq_ok_iff] at h
    obtain ⟨expired, hexpired, rfl⟩ := h
    have hsame := Sought.refl e
    have hsought : Sought e expired := by
      refine Sought.trans ?_ (nextExpired_sought hexpired)
      split
      · exact marginCall_sought ⟨rfl, hsame.shorts, hsame.positions, hsame.bid, hsame.hand⟩
          hsame.positions
      · exact ⟨rfl, hsame.shorts, hsame.positions, hsame.bid, hsame.hand⟩
    split
    · exact hsought
    · exact hsought.trans nextAsk_sought

theorem nextPair_sought {next : Option (MarketOrder × MarketOrder)}
    (h : nextPair m e = .ok (e', next)) :
    Sought e e' ∧ ∀ pair ∈ next, ∃ d, Sought e d ∧ d.currentBid = some pair.1 := by
  simp only [nextPair, bind_eq_ok] at h
  obtain ⟨d, hbid, h⟩ := h
  have hd := getNextBid_sought hbid
  split at h
  · cases h
    exact ⟨hd, fun pair hpair => absurd hpair (Option.not_mem_none pair)⟩
  next bid hcurrent =>
    simp only [eq_ok_iff, Prod.mk.injEq] at h
    obtain ⟨d', hask, rfl, rfl⟩ := h
    refine ⟨hd.trans (getNextAsk_sought hask), fun pair hpair => ⟨d, hd, ?_⟩⟩
    obtain ⟨ask, -, rfl⟩ := Option.mem_map.mp hpair
    exact hcurrent

theorem nextPair_kept {next : Option (MarketOrder × MarketOrder)}
    (h : nextPair m e = .ok (e', next)) : kept e' = kept e :=
  (nextPair_sought h).1.kept

theorem nextPair_held {next : Option (MarketOrder × MarketOrder)}
    (h : nextPair m e = .ok (e', next)) : held e' = held e :=
  (nextPair_sought h).1.held

theorem layer_of_held (h : held e' = held e) : e'.layer = e.layer := congrArg Prod.fst h

/-- Where the iterators of the engine stand. -/
def cursors (e : EngineState) := (e.bidItr, e.askItr, e.relativeBidItr, e.shortItr,
  e.collateralItr, e.collateralExpirationItr, e.ordersFilled)

structure TradeEffect (e e' : EngineState) : Prop where
  writes : OrderWrites e.layer e'.layer
  quote : Traded e.quoteAsset e'.quoteAsset
  base : Collected e.baseAsset e'.baseAsset
  cursors : cursors e' = cursors e

theorem TradeEffect.refl (e : EngineState) : TradeEffect e e := ⟨.refl, .refl _, .refl _, rfl⟩

theorem TradeEffect.trans {d : EngineState} (h : TradeEffect e d) (h' : TradeEffect d e') :
    TradeEffect e e' :=
  ⟨h.writes.trans h'.writes, h.quote.trans h'.quote, h.base.trans h'.base,
    h'.cursors.trans h.cursors⟩

theorem payOut_effect (owner : Nat) (assetId amount : Int) :
    TradeEffect e (m.payOut e owner assetId amount) :=
  ⟨.single (.balance _), .refl _, .refl _, rfl⟩

theorem storeOrder_writes (order : MarketOrder) :
    OrderWrites e.layer (Market.storeOrder e order).layer := by
  unfold Market.storeOrder
  cases order.type with
  | bidOrder => exact .single (.bid _ _)
  | relativeBidOrder => exact .single (.relativeBid _ _)
  | relativeAskOrder => exact .single (.relativeAsk _ _)
  | _ => exact .single (.ask _ _)

theorem payCurrentShort_effect (h : m.payCurrentShort e bid mtrx = .ok (e', mtrx')) :
    TradeEffect e e' := by
  simp only [Market.payCurrentShort, bind_eq_ok] at h
  obtain ⟨_, _, _, _, _, _, _, _, _, _, _, _, h⟩ := h
  split at h
  · simp only [eq_ok_iff, Prod.mk.injEq] at h
    obtain ⟨-, -, rfl, -⟩ := h
    exact ⟨.refl, ⟨_, _, rfl⟩, .refl _, rfl⟩
  · simp only [Market.openCover, eq_ok_iff, Prod.mk.injEq] at h
    obtain ⟨d, ⟨-, -, -, -, -, -, -, -, -, -, rfl⟩, rfl, -⟩ := h
    refine ⟨?_, ⟨_, _, rfl⟩, .refl _, rfl⟩
    exact (Relation.ReflTransGen.single (.collateral _ _)).tail (.short _ _)

theorem payCurrentBid_effect (h : m.payCurrentBid e bid mtrx = .ok e') : TradeEffect e e' := by
  simp only [Market.payCurrentBid, bind_eq_ok] at h
  obtain ⟨-, -, -, -, -, -, quantity, -, price, -, rest, -, h⟩ := h
  split at h
  · cases h
    exact ⟨(payOut_effect _ _ _).writes.trans (storeOrder_writes _), ⟨_, _, rfl⟩, .refl _, rfl⟩
  · cases h
    exact ⟨(payOut_effect _ _ _).writes.trans (storeOrder_writes _), .refl _, .refl _, rfl⟩

theorem payCurrentAsk_effect {toQuote : Bool} (h : m.payCurrentAsk e ask mtrx toQuote = .ok e') :
    TradeEffect e e' := by
  simp only [Market.payCurrentAsk, bind_eq_ok] at h
  obtain ⟨-, -, -, -, -, -, quantity, -, price, -, rest, -, h⟩ := h
  split at h
  · cases h
    refine ⟨(payOut_effect _ _ _).writes.trans (storeOrder_writes _), ?_, ?_, rfl⟩ <;> cases toQuote
    · exact .refl _
    · exact ⟨_, _, rfl⟩
    · exact ⟨_, rfl⟩
    · exact .refl _
  · cases h
    exact ⟨(payOut_effect _ _ _).writes.trans (storeOrder_writes _), .refl _, .refl _, rfl⟩

theorem returnCollateral_effect {collateral rest : Int}
    (h : m.returnCollateral e ask mtrx collateral = .ok (e', mtrx', rest)) : TradeEffect e e' := by
  unfold Market.returnCollateral at h
  split at h
  · simp only [eq_ok_iff, Prod.mk.injEq] at h
    obtain ⟨charged, -, rfl, -, -⟩ := h
    exact payOut_effect _ _ _
  · cases h
    exact .refl _

theorem payCurrentCover_effect (h : m.payCurrentCover e ask mtrx = .ok (e', mtrx')) :
    TradeEffect e e' := by
  simp only [Market.payCurrentCover, eq_ok_iff, Prod.mk.injEq] at h
  obtain ⟨-, -, -, -, -, -, expiration, -, debt, -, payment, -, -, -, -, -, -, -, old, -, -, -,
    returned, hreturned, rfl, -⟩ := h
  obtain ⟨hwrites, hquote, hbase, hcursors⟩ := returnCollateral_effect hreturned
  exact ⟨hwrites.tail (.collateral _ _), Traded.trans ⟨_, _, rfl⟩ hquote, hbase, hcursors⟩

theorem trade_keeps {I : EngineState → Prop}
    (hbid : ∀ d d' t, m.payCurrentBid d bid t = .ok d' → I d → I d')
    (hshort : ∀ d d' t t', m.payCurrentShort d bid t = .ok (d', t') → I d → I d')
    (hask : ∀ d d' t toQuote, m.payCurrentAsk d ask t toQuote = .ok d' → I d → I d')
    (hcover : ∀ d d' t t', m.payCurrentCover d ask t = .ok (d', t') → I d → I d')
    (h : trade m e bid ask mtrx = .ok (e', mtrx')) (he : I e) : I e' := by
  unfold trade at h
  split at h
  · simp only [tradeCoverShort, bind_eq_ok] at h
    obtain ⟨_, _, _, _, _, _, _, _, _, _, _, _, _, _, _, _, paid, hpay, h⟩ := h
    exact hcover _ _ _ _ h (hshort _ _ _ _ hpay he)
  split at h
  · simp only [tradeCoverBid, bind_eq_ok] at h
    obtain ⟨_, _, _, _, _, _, _, _, _, _, d, hpay, h⟩ := h
    exact hcover _ _ _ _ h (hbid _ _ _ hpay he)
  split at h
  · simp only [tradeAskShort, eq_ok_iff, Prod.mk.injEq] at h
    obtain ⟨_, _, _, _, _, _, _, _, _, _, _, _, _, _, paid, hpay, d, hsell, rfl, _⟩ := h
    exact hask _ _ _ _ hsell (hshort _ _ _ _ hpay he)
  split at h
  · simp only [tradeAskBid, eq_ok_iff, Prod.mk.injEq] at h
    obtain ⟨_, _, _, _, _, _, _, _, _, _, _, _, _, _, d, hpay, d', hsell, rfl, _⟩ := h
    exact hask _ _ _ _ hsell (hbid _ _ _ hpay he)
  · cases h
    exact he

theorem trade_effect (h : trade m e bid ask mtrx = .ok (e', mtrx')) : TradeEffect e e' :=
  trade_keeps (I := TradeEffect e) (fun _ _ _ hpay hd => hd.trans (payCurrentBid_effect hpay))
    (fun _ _ _ _ hpay hd => hd.trans (payCurrentShort_effect hpay))
    (fun _ _ _ _ hpay hd => hd.trans (payCurrentAsk_effect hpay))
    (fun _ _ _ _ hpay hd => hd.trans (payCurrentCover_effect hpay)) h (.refl e)

theorem collectFees_effect : TradeEffect e (collectFees e mtrx) := by
  unfold collectFees
  split
  · exact ⟨.refl, .refl _, ⟨_, rfl⟩, rfl⟩
  · split
    · exact ⟨.refl, ⟨_, _, rfl⟩, .refl _, rfl⟩
    · exact .refl _

theorem matchPair_ok (h : matchPair m e bid ask = .ok (some e')) :
    (∃ mtrx, judge m e bid ask = .ok (.trade mtrx) ∧ recordTrade m e bid ask mtrx = .ok e') ∨
      (judge m e bid ask = .ok .skipBid ∧ e' = { e with currentBid := none }) ∨
      (judge m e bid ask = .ok .skipAsk ∧ e' = { e with currentAsk := none }) := by
  simp only [matchPair, bind_eq_ok] at h
  obtain ⟨v, hv, h⟩ := h
  cases v with
  | trade mtrx =>
    simp only [map_eq_ok, Option.some.injEq, exists_eq_right] at h
    exact Or.inl ⟨mtrx, hv, h⟩
  | skipBid =>
    cases h
    exact Or.inr (Or.inl ⟨hv, rfl⟩)
  | skipAsk =>
    cases h
    exact Or.inr (Or.inr ⟨hv, rfl⟩)
  | stop => cases h

theorem matchPair_effect (h : matchPair m e bid ask = .ok (some e')) : TradeEffect e e' := by
  rcases matchPair_ok h with ⟨mtrx, -, hrecord⟩ | ⟨-, rfl⟩ | ⟨-, rfl⟩
  · simp only [recordTrade, Market.pushMarketTransaction, eq_ok_iff] at hrecord
    obtain ⟨⟨d, mtrx'⟩, htrade, pushed, ⟨-, -, rfl⟩, volume, -, rfl⟩ := hrecord
    refine (trade_effect htrade).trans (TradeEffect.trans ?_ collectFees_effect)
    exact ⟨.refl, .refl _, .refl _, rfl⟩
  · exact ⟨.refl, .refl _, .refl _, rfl⟩
  · exact ⟨.refl, .refl _, .refl _, rfl⟩

section Loop

variable {I : EngineState → Prop} (hsought : ∀ d d', Sought d d' → I d → I d')
  (hpass : ∀ d u next bid ask, I u → u.currentBid = some bid → I d →
    matchPair m d bid ask = .ok (some next) → I next)
include hsought hpass

theorem matchOrders_keeps {n : Nat} {k : Int} (h : matchOrders m n k e = some (.ok e')) (he : I e) :
    I e' := by
  induction n generalizing k e with
  | zero => cases h
  | succ n ih =>
    unfold matchOrders at h
    split at h
    · cases h
    next hnext =>
      cases h
      exact hsought _ _ (nextPair_sought hnext).1 he
    next d bid ask hnext =>
      obtain ⟨hd, hbid⟩ := nextPair_sought hnext
      obtain ⟨u, hu, hcurrent⟩ := hbid _ rfl
      split at h
      · cases h
      split at h
      · cases h
      · cases h
        exact hsought _ _ hd he
      next next hmatch =>
        exact ih h (hpass _ u _ _ _ (hsought _ _ hu he) hcurrent (hsought _ _ hd he) hmatch)

/-- The loop keeps what a search and a pass keep. In a pass the bid is one that a search has put
at hand. -/
theorem matchMarket_keeps (h : matchMarket m e = .ok e') (he : I e) : I e' := by
  simp only [matchMarket, bind_eq_ok] at h
  obtain ⟨u, hu, v, hv, h⟩ := h
  have hprimed := hsought _ _ (getNextAsk_sought hv) (hsought _ _ (getNextBid_sought hu) he)
  cases hmatch : matchOrders m (passes v) (-1) v with
  | none =>
    rw [hmatch] at h
    cases h
    exact hprimed
  | some r =>
    rw [hmatch] at h
    cases h
    exact matchOrders_keeps hsought hpass hmatch hprimed

end Loop

theorem matchMarket_writes (h : matchMarket m e = .ok e') : OrderWrites e.layer e'.layer := by
  refine matchMarket_keeps (I := fun d => OrderWrites e.layer d.layer) ?_ ?_ h .refl
  · intro d d' hsought hd
    rwa [layer_of_held hsought.held]
  · intro d u next bid ask _ _ hd hmatch
    exact hd.trans (matchPair_effect hmatch).writes

theorem extendHistory_writes (db : ChainDatabase) (l : PendingState) (key : MarketHistoryKey)
    (r : MarketHistoryRecord) : Writes l (extendHistory db l key r) := by
  unfold extendHistory
  split
  · exact .single (.history _ _)
  · split
    · exact .single (.history _ _)
    · exact .refl

theorem addHistory_writes {timestamp : Nat} (h : addHistory m e bid ask timestamp = .ok e') :
    Writes e.layer e'.layer := by
  simp only [addHistory, eq_ok_iff] at h
  obtain ⟨highestBid, -, lowestAsk, -, rfl⟩ := h
  refine .trans (.trans ?_ (extendHistory_writes _ _ _ _)) (extendHistory_writes _ _ _ _)
  split
  · exact .single (.history _ _)
  · exact .refl

theorem updateMarketHistory_writes {timestamp : Nat}
    (h : updateMarketHistory m e timestamp = .ok e') : Writes e.layer e'.layer := by
  unfold updateMarketHistory at h
  split at h
  · simp only [bind_eq_ok] at h
    obtain ⟨⟨d, next⟩, hpair, h⟩ := h
    rw [← layer_of_held (nextPair_held hpair)]
    cases next with
    | none =>
      cases h
      exact .refl
    | some pair => exact addHistory_writes h
  · cases h
    exact .refl

theorem runMarket_writes {timestamp : Nat} (h : runMarket m e timestamp = .ok e') :
    Writes e.layer e'.layer := by
  simp only [runMarket, updateMarketStatus, eq_ok_iff] at h
  obtain ⟨-, -, d, hmatch, d', ⟨status, -, rfl⟩, h⟩ := h
  refine (matchMarket_writes hmatch).writes.trans (.trans ?_ (updateMarketHistory_writes h))
  exact ((Relation.ReflTransGen.single (.asset _)).tail (.asset _)).tail (.status _)

section Block

variable {db : ChainDatabase} {prev : ChainInterface} {quoteId baseId : Int} {timestamp : Nat}

/-- A market that throws leaves a status and nothing else. -/
theorem execute_cases {trxs : List MarketTransaction}
    (h : execute l prev quoteId baseId timestamp = .ok (l', trxs)) :
    (∃ status, l' = l.storeMarketStatus status) ∨
      ∃ m e, openMarket (.pending l prev) quoteId baseId = .ok (m, e) ∧
        runAndApply m e l prev timestamp = .ok (l', trxs) := by
  have herror {feed : Option Price} {x : ChainError}
      (h : recordError l prev quoteId baseId feed x = .ok (l', trxs)) :
      ∃ status, l' = l.storeMarketStatus status := by
    simp only [recordError, eq_ok_iff, Prod.mk.injEq] at h
    obtain ⟨_, _, rfl, _⟩ := h
    exact ⟨_, rfl⟩
  unfold execute at h
  split at h
  · exact Or.inl (herror h)
  next m e hopen =>
    split at h
    · exact Or.inl (herror h)
    next r hrun =>
      cases h
      exact Or.inr ⟨m, e, hopen, hrun⟩

theorem executeMarkets_keeps {I : PendingState → Prop}
    (hexecute : ∀ l l' quoteId baseId trxs, baseId < quoteId →
      execute l (.database db) quoteId baseId timestamp = .ok (l', trxs) → I l → I l')
    (htrxs : ∀ l trxs, I l → I (l.setMarketTransactions trxs))
    (h : executeMarkets db l timestamp = .ok l') (hl : I l) : I l' := by
  simp only [executeMarkets, eq_ok_iff] at h
  obtain ⟨⟨executed, trxs⟩, hfold, rfl⟩ := h
  have hexecuted : I executed := by
    refine foldlM_keeps (P := fun r => I r.1) (fun pair _ r r' hr hmarket => ?_) hl hfold
    simp only [executeMarket, eq_ok_iff] at hmarket
    obtain ⟨_, hpair, ⟨layer, trxs⟩, hrun, rfl⟩ := hmarket
    exact hexecute _ _ _ _ _ hpair hrun hr
  split
  · exact htrxs _ _ hexecuted
  · exact hexecuted

end Block

end Bts.Blockchain.MarketWrites
