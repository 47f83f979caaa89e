import Bts.Base.Cursors
import Bts.Blockchain.MarketRuns

namespace Bts.Blockchain.MarketBooks

open Base Result Maps Overlay Cursors Errors Amounts MarketRecords Transactions Pending Database
  Layers Changes MarketEngine MarketExecute BlockLayer MarketLoop Holdings

section Iterators

variable {V : Type} {P : MarketIndexKey → Prop} (book : Map MarketIndexKey V) (key : MarketIndexKey)

theorem sorted_perm : (sorted book).Perm (book.entries.map fun e => (e.1, e.2)) :=
  List.perm_insertionSort _ _

theorem sorted_inStep : InStep (fun k => book.lookup k) P (sorted book) := by
  have hkeys : ((book.entries.map fun e => (e.1, e.2)).map Prod.fst).Nodup := by
    rw [List.map_map]
    exact book.nodupKeys
  refine ⟨((sorted_perm book).map Prod.fst).nodup_iff.mpr hkeys, fun x hx _ => ?_⟩
  obtain ⟨entry, hentry, rfl⟩ := List.mem_map.mp ((sorted_perm book).mem_iff.mp hx)
  exact lookup_of_mem hentry

theorem below_inStep : InStep (fun k => book.lookup k) P (below book key) := by
  have hfilter := (sorted_inStep (P := P) book).sublist (List.filter_sublist
    (p := fun e => decide (MarketIndexKey.lt e.1 key)))
  refine ⟨?_, fun x hx => hfilter.stored x (List.mem_reverse.mp hx)⟩
  unfold below
  rw [List.map_reverse]
  exact List.nodup_reverse.mpr hfilter.nodup

theorem upFrom_inStep : InStep (fun k => book.lookup k) P (upFrom book key) := by
  have hsorted := sorted_inStep (P := P) book
  unfold upFrom
  split
  · exact hsorted
  next l hl => exact hsorted.sublist List.filter_sublist

end Iterators

variable [Fc] {quoteId baseId : Int} {prior : ChainInterface} {prev : ChainInterface}

theorem medianDelegatePrice_pair {db : ChainDatabase} {active : List Int} {p : Price}
    (h : medianDelegatePrice db active quoteId baseId = some p) :
    p.quoteAssetId = quoteId ∧ p.baseAssetId = baseId := by
  unfold medianDelegatePrice at h
  dsimp only at h
  split at h
  · have hmem := List.mem_of_getElem? h
    rw [List.mem_insertionSort, List.mem_filterMap] at hmem
    obtain ⟨entry, -, hp⟩ := hmem
    split at hp
    · split at hp
      next hfresh =>
        cases hp
        exact hfresh.2.2.2.2
      next => cases hp
    · cases hp
  · cases h

structure Opened (prior : ChainInterface) (quoteId baseId : Int) (m : Market) (e : EngineState) :
    Prop where
  quote : m.quoteId = quoteId
  base : m.baseId = baseId
  below : m.prior = prior
  ordered : baseId < quoteId
  feed : ∀ feed ∈ m.feedPrice, m.isPair feed
  layer : e.layer = {}
  currentBid : e.currentBid = none
  currentAsk : e.currentAsk = none
  record : e.currentCollatRecord = {}
  quoteAsset : prior.getAssetRecord quoteId = some e.quoteAsset
  baseAsset : prior.getAssetRecord baseId = some e.baseAsset
  bids : InStep (fun k => prior.root.bidDb.lookup k) (fun _ => True) e.bidItr
  relativeBids : InStep (fun k => prior.root.relativeBidDb.lookup k) (fun _ => True) e.relativeBidItr
  asks : InStep (fun k => prior.root.askDb.lookup k) (fun _ => True) e.askItr
  shorts : InStep (fun k => prior.root.shortDb.lookup k) (fun _ => True) e.shortItr
  positions : InStep (fun k => prior.root.collateralDb.lookup k) (fun _ => True) e.collateralItr
  expirations : ∃ l, l.Sublist prior.root.collateralExpirationIndex ∧
    e.collateralExpirationItr.Perm l

theorem openMarket_ok {m : Market} {e : EngineState}
    (h : openMarket prior quoteId baseId = .ok (m, e)) : Opened prior quoteId baseId m e := by
  simp only [openMarket, openBooks, ChainInterface.getMedianDelegatePrice, eq_ok_iff, Prod.mk.injEq] at h
  obtain ⟨_, ⟨quote, hquote, base, hbase, -, -, -, -, next, -, pair, hpair, rfl⟩, feed,
    ⟨active, -, hfeed⟩, rfl, rfl⟩ := h
  simp only [Price.zero, eq_ok_iff] at hpair
  obtain ⟨-, hordered, -⟩ := hpair
  refine ⟨rfl, rfl, rfl, hordered, ?_, rfl, rfl, rfl, rfl, hquote, hbase, below_inStep _ _,
    below_inStep _ _, upFrom_inStep _ _, below_inStep _ _, below_inStep _ _, ?_⟩
  · intro p hp
    exact medianDelegatePrice_pair (hfeed.trans hp)
  · exact ⟨_, List.filter_sublist, List.perm_insertionSort _ _⟩

theorem Opened.setting {m : Market} {e : EngineState} (h : Opened prior quoteId baseId m e)
    (hfork : forkBlockNumV0429 ≤ prior.getHeadBlockNum) : Setting m := by
  refine ⟨?_, ?_, h.feed⟩
  · unfold Market.legacy
    rw [h.below, decide_eq_false (Nat.not_lt.mpr hfork)]
  · rw [h.quote, h.base]
    exact h.ordered

theorem Opened.get {K V : Type} [DecidableEq K] {m : Market} {e : EngineState}
    (h : Opened prior quoteId baseId m e) (s : Shelf K V) (hempty : s.own {} = ∅) :
    s.get (m.pendingState e) = s.get prior := by
  unfold Market.pendingState
  rw [h.layer, h.below, Shelf.get_blank _ _ hempty]

def booksOf (l : PendingState) := (l.balances, l.bids, l.relativeBids, l.asks, l.shorts, l.collateral)

theorem extendHistory_books (db : ChainDatabase) (l : PendingState) (key : MarketHistoryKey)
    (r : MarketHistoryRecord) : booksOf (extendHistory db l key r) = booksOf l ∧
      (extendHistory db l key r).assets = l.assets := by
  unfold extendHistory
  split
  · exact ⟨rfl, rfl⟩
  · split <;> exact ⟨rfl, rfl⟩

variable {m : Market} {e e' : EngineState} {bid ask : MarketOrder} {timestamp : Nat}

theorem addHistory_books (h : addHistory m e bid ask timestamp = .ok e') :
    booksOf e'.layer = booksOf e.layer ∧ e'.layer.assets = e.layer.assets := by
  simp only [addHistory, eq_ok_iff] at h
  obtain ⟨highestBid, -, lowestAsk, -, rfl⟩ := h
  refine ⟨((extendHistory_books ..).1.trans (extendHistory_books ..).1).trans ?_,
    ((extendHistory_books ..).2.trans (extendHistory_books ..).2).trans ?_⟩
  · split <;> rfl
  · split <;> rfl

theorem updateMarketHistory_books (h : updateMarketHistory m e timestamp = .ok e') :
    booksOf e'.layer = booksOf e.layer ∧ e'.layer.assets = e.layer.assets := by
  unfold updateMarketHistory at h
  split at h
  · simp only [bind_eq_ok] at h
    obtain ⟨⟨d, next⟩, hpair, h⟩ := h
    rw [← MarketWrites.layer_of_held (MarketWrites.nextPair_held hpair)]
    cases next with
    | none =>
      cases h
      exact ⟨rfl, rfl⟩
    | some pair => exact addHistory_books h
  · cases h
    exact ⟨rfl, rfl⟩

theorem runMarket_ok (h : runMarket m e timestamp = .ok e') : ∃ d, matchMarket m e = .ok d ∧
    booksOf e'.layer = booksOf d.layer ∧
    e'.layer.assets = (d.layer.assets.store d.quoteAsset).store d.baseAsset := by
  simp only [runMarket, updateMarketStatus, eq_ok_iff] at h
  obtain ⟨-, -, d, hmatch, _, ⟨status, -, rfl⟩, h⟩ := h
  obtain ⟨hbooks, hassets⟩ := updateMarketHistory_books h
  exact ⟨d, hmatch, hbooks, hassets⟩

theorem applyChangesTo_books {s l l' : PendingState} {below : ChainInterface}
    (hs : storedView s = storedView {}) (h : applyChangesTo s l below = .ok l') :
    l'.balances = mergeTable s.balances l.balances ∧ l'.bids = merge s.bids l.bids ∧
      l'.relativeBids = merge s.relativeBids l.relativeBids ∧ l'.asks = merge s.asks l.asks ∧
      l'.shorts = merge s.shorts l.shorts ∧ l'.collateral = merge s.collateral l.collateral ∧
      l'.assets = mergeTable s.assets l.assets := by
  simp only [storedView, Prod.mk.injEq] at hs
  obtain ⟨haccounts, htransactions, -⟩ := hs
  simp only [applyChangesTo, haccounts, htransactions, eq_ok_iff] at h
  obtain ⟨t, ht, t', ht', rfl⟩ := h
  cases ht
  cases ht'
  exact ⟨rfl, rfl, rfl, rfl, rfl, rfl, rfl⟩

theorem get_merged {K V : Type} [DecidableEq K] (s : Shelf K V) {top d l l' : PendingState}
    (htop : s.own top = s.own d)
    (h : ∀ k, (s.own l').lookup k = ((s.own top).lookup k).or ((s.own l).lookup k)) :
    s.get (.pending l' prev) = s.get (.pending d (.pending l prev)) := by
  funext k
  rw [Shelf.get_pending, h, Shelf.get_pending, Shelf.get_pending, Option.or_assoc, htop]

/-- What the chain has after a market has been executed is what the engine had. -/
structure Left (m : Market) (d : EngineState) (c : ChainInterface) : Prop where
  balances : balances.get c = balances.get (m.pendingState d)
  bids : bids.get c = bids.get (m.pendingState d)
  relativeBids : relativeBids.get c = relativeBids.get (m.pendingState d)
  asks : asks.get c = asks.get (m.pendingState d)
  shorts : shorts.get c = shorts.get (m.pendingState d)
  positions : positions.get c = positions.get (m.pendingState d)
  assets : ∀ id, c.getAssetRecord id = if id = d.baseAsset.id then some d.baseAsset
    else if id = d.quoteAsset.id then some d.quoteAsset else (m.pendingState d).getAssetRecord id

theorem runAndApply_left {layer layer' : PendingState} {trxs : List MarketTransaction}
    (hopen : openMarket (.pending layer prev) quoteId baseId = .ok (m, e))
    (hrun : runAndApply m e layer prev timestamp = .ok (layer', trxs)) :
    ∃ d, matchMarket m e = .ok d ∧ Left m d (.pending layer' prev) := by
  simp only [runAndApply, eq_ok_iff, Prod.mk.injEq] at hrun
  obtain ⟨e', he', applied, happly, rfl, -⟩ := hrun
  obtain ⟨d, hmatch, hbooks, hassets⟩ := runMarket_ok he'
  have hview := runMarket_view he'
  rw [openMarket_layer hopen] at hview
  have hprior := (openMarket_ok hopen).below
  obtain ⟨hbalances, hbids, hrelative, hasks, hshorts, hpositions, hmerged⟩ :=
    applyChangesTo_books hview happly
  simp only [booksOf, Prod.mk.injEq] at hbooks
  obtain ⟨hb, hbid, hrel, hask, hshort, hpos⟩ := hbooks
  have hpending : m.pendingState d = .pending d.layer (.pending layer prev) := by
    unfold Market.pendingState
    rw [hprior]
  refine ⟨d, hmatch, ?_⟩
  refine ⟨?_, ?_, ?_, ?_, ?_, ?_, fun id => ?_⟩ <;> rw [hpending]
  · exact get_merged Holdings.balances (congrArg Table.rows hb) fun k =>
      (congrArg (fun t => t.lookup k) hbalances).trans (lookup_mergeTable ..)
  · exact get_merged Holdings.bids hbid fun k =>
      (congrArg (fun t => t.lookup k) hbids).trans (lookup_merge ..)
  · exact get_merged Holdings.relativeBids hrel fun k =>
      (congrArg (fun t => t.lookup k) hrelative).trans (lookup_merge ..)
  · exact get_merged Holdings.asks hask fun k =>
      (congrArg (fun t => t.lookup k) hasks).trans (lookup_merge ..)
  · exact get_merged Holdings.shorts hshort fun k =>
      (congrArg (fun t => t.lookup k) hshorts).trans (lookup_merge ..)
  · exact get_merged Holdings.positions hpos fun k =>
      (congrArg (fun t => t.lookup k) hpositions).trans (lookup_merge ..)
  · change (applied.assets.lookup id).or _ = _
    rw [hmerged, lookup_mergeTable, hassets, Table.lookup_store, Table.lookup_store]
    split
    · rfl
    · split
      · rfl
      · exact Option.or_assoc

/-- A market is executed without an error, and its outcome has a property. -/
def Executed (layer : PendingState) (prev : ChainInterface) (quoteId baseId : Int) (timestamp : Nat)
    (P : Market → EngineState → PendingState → Prop) : Prop :=
  match openMarket (.pending layer prev) quoteId baseId with
  | .error _ => False
  | .ok (m, e) =>
    match runAndApply m e layer prev timestamp with
    | .error _ => False
    | .ok (layer', _) => P m e layer'

instance (layer : PendingState) (prev : ChainInterface) (quoteId baseId : Int) (timestamp : Nat)
    (P : Market → EngineState → PendingState → Prop) [∀ m e l, Decidable (P m e l)] :
    Decidable (Executed layer prev quoteId baseId timestamp P) := by
  unfold Executed
  split
  · infer_instance
  · split
    · infer_instance
    · infer_instance

/-- A market is opened, and its execution ends with an error. -/
def Failed (layer : PendingState) (prev : ChainInterface) (quoteId baseId : Int) (timestamp : Nat)
    (x : ChainError) : Prop :=
  match openMarket (.pending layer prev) quoteId baseId with
  | .error _ => False
  | .ok (m, e) =>
    match runAndApply m e layer prev timestamp with
    | .error y => y = x
    | .ok _ => False

instance (layer : PendingState) (prev : ChainInterface) (quoteId baseId : Int) (timestamp : Nat)
    (x : ChainError) : Decidable (Failed layer prev quoteId baseId timestamp x) := by
  unfold Failed
  split
  · infer_instance
  · split
    · infer_instance
    · infer_instance

theorem Executed.exists {layer : PendingState} {timestamp : Nat}
    {P : Market → EngineState → PendingState → Prop}
    (h : Executed layer prev quoteId baseId timestamp P) : ∃ m e layer' trxs,
      openMarket (.pending layer prev) quoteId baseId = .ok (m, e) ∧
      runAndApply m e layer prev timestamp = .ok (layer', trxs) ∧ P m e layer' := by
  unfold Executed at h
  split at h
  · exact h.elim
  next m e hopen =>
    split at h
    · exact h.elim
    next layer' trxs hrun => exact ⟨m, e, layer', trxs, hopen, hrun, h⟩

end Bts.Blockchain.MarketBooks
