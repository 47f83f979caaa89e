import Bts.Blockchain.ChainRuns
import Bts.Blockchain.LayerColumns

/-!
The history of a market. The record of an hour or of a day is to add up the volumes that
the market has traded in it, over all blocks. A record that is there is written only where
the best bid or ask left by the matching exceeds it, so the volume of other blocks is lost.
-/

namespace Bts.Blockchain.MarketHistory

open Base Result Exec Word Maps Overlay Runs Errors Amounts MarketRecords Transactions Pending
  Database Layers Evaluation Effects ExtendChain ApplySpec MarketEngine MarketMatch MarketExecute
  MarketWrites BlockLayer LayerColumns BlockParts ChainRuns AssetEffects ForkDatabase

def startOf : TimeGranularity → Nat → Nat
  | .eachBlock, timestamp => timestamp
  | .eachHour, timestamp => timestamp - timestamp % (60 * 60)
  | .eachDay, timestamp => timestamp - timestamp % (60 * 60 * 24)

/-- The volume of some calls, and the closing price of the last one with trades. -/
structure Tally where
  volume : Int := 0
  closing : Option Price := none

/-- The record of an hour or a day is that of the calls. -/
def Sums (record : Option MarketHistoryRecord) (t : Tally) : Prop :=
  match record with
  | none => t.volume = 0
  | some r => r.volume = t.volume ∧ t.closing = some r.closingPrice

theorem sums_dropNull {r : MarketHistoryRecord} {t : Tally}
    (hclosing : t.closing = some r.closingPrice) :
    Sums (dropNull MarketHistoryRecord.isNull r) t ↔ r.volume = t.volume := by
  unfold dropNull
  split
  next hnull =>
    rw [hnull]
    exact eq_comm
  next => exact and_iff_left hclosing

section Model

variable [Fc]

/-- What `extend_history` writes over an old record. -/
def extended (old : Option MarketHistoryRecord) (r : MarketHistoryRecord) :
    Option MarketHistoryRecord :=
  match old with
  | none => some r
  | some old =>
    if Price.lt old.highestBid r.highestBid ∨ Price.lt r.lowestAsk old.lowestAsk then
      some { old with
        volume := int64 (old.volume + r.volume)
        closingPrice := r.closingPrice
        highestBid := Price.max r.highestBid old.highestBid
        lowestAsk := Price.min r.lowestAsk old.lowestAsk }
    else none

theorem lookup_extendHistory (db : ChainDatabase) (l : PendingState) (key : MarketHistoryKey)
    (r : MarketHistoryRecord) (k : MarketHistoryKey) :
    (extendHistory db l key r).marketHistory.lookup k =
      if k = key then (extended (db.marketHistoryDb.lookup k) r).or (l.marketHistory.lookup k)
      else l.marketHistory.lookup k := by
  have hstore (r : MarketHistoryRecord) :
      (l.storeMarketHistoryRecord key r).marketHistory.lookup k =
        if k = key then some r else l.marketHistory.lookup k := lookup_insert _ _ _ _
  unfold extendHistory extended
  by_cases hk : k = key
  · rw [if_pos hk, hk]
    rw [hk] at hstore
    cases db.marketHistoryDb.lookup key with
    | none => rw [hstore, if_pos rfl, Option.some_or]
    | some old =>
      dsimp only
      split
      · rw [hstore, if_pos rfl, Option.some_or]
      · rw [Option.none_or]
  · rw [if_neg hk]
    split
    · rw [hstore, if_neg hk]
    · split
      · rw [hstore, if_neg hk]
      · rfl

/-- The market as it is when its history is written. -/
def settleMarket (m : Market) (e : EngineState) : Except ChainError EngineState := do
  checkFeed m e
  let e ← matchMarket m e
  let layer := (e.layer.storeAssetRecord e.quoteAsset).storeAssetRecord e.baseAsset
  updateMarketStatus m { e with layer }

variable {m : Market} {e e' d : EngineState} {bid ask : MarketOrder} {timestamp : Nat}
  {key : MarketHistoryKey}

theorem runMarket_ok_iff : runMarket m e timestamp = .ok e' ↔
    ∃ d, settleMarket m e = .ok d ∧ updateMarketHistory m d timestamp = .ok e' := by
  simp only [runMarket, settleMarket, bind_eq_ok]
  constructor
  · rintro ⟨_, hfeed, matched, hmatch, d, hstatus, h⟩
    exact ⟨d, ⟨_, hfeed, matched, hmatch, hstatus⟩, h⟩
  · rintro ⟨d, ⟨_, hfeed, matched, hmatch, hstatus⟩, h⟩
    exact ⟨_, hfeed, matched, hmatch, d, hstatus, h⟩

theorem settleMarket_marketHistory (h : settleMarket m e = .ok d) :
    d.layer.marketHistory = e.layer.marketHistory := by
  simp only [settleMarket, updateMarketStatus, eq_ok_iff] at h
  obtain ⟨_, -, matched, hmatch, status, -, rfl⟩ := h
  have hframe : matched.layer.marketHistory = e.layer.marketHistory :=
    OrderWrites.frame (g := PendingState.marketHistory) (matchMarket_writes hmatch)
      fun _ _ hwrite => by cases hwrite <;> rfl
  exact hframe

/-- Nothing has been traded where there are no market transactions. -/
def Quiet (e : EngineState) : Prop := e.marketTransactions = [] → e.tradingVolume.amount = 0

theorem Quiet.of_kept (h : Quiet e) (hkept : kept e' = kept e) : Quiet e' := by
  simp only [kept, Prod.mk.injEq] at hkept
  obtain ⟨-, htrxs, hvolume, -, -⟩ := hkept
  unfold Quiet
  rwa [htrxs, hvolume]

theorem matchPair_quiet (hmatch : matchPair m e bid ask = .ok (some e')) (h : Quiet e) :
    Quiet e' := by
  rcases matchPair_ok hmatch with ⟨mtrx, -, hrecord⟩ | ⟨-, rfl⟩ | ⟨-, rfl⟩
  · simp only [recordTrade, Market.pushMarketTransaction, eq_ok_iff] at hrecord
    obtain ⟨⟨d, mtrx'⟩, -, pushed, ⟨-, -, rfl⟩, volume, -, rfl⟩ := hrecord
    have htrxs (u : EngineState) :
        (collectFees u mtrx').marketTransactions = u.marketTransactions := by
      unfold collectFees
      split
      · rfl
      · split <;> rfl
    intro hnone
    rw [htrxs] at hnone
    exact absurd hnone (List.append_ne_nil_of_right_ne_nil _ (List.cons_ne_nil _ _))
  · exact h
  · exact h

theorem settleMarket_quiet (hsettle : settleMarket m e = .ok d) (h : Quiet e) : Quiet d := by
  simp only [settleMarket, updateMarketStatus, eq_ok_iff] at hsettle
  obtain ⟨_, -, matched, hmatch, status, -, rfl⟩ := hsettle
  have hquiet : Quiet matched := by
    refine matchMarket_keeps ?_ ?_ hmatch h
    · intro u v hsought hu
      exact hu.of_kept hsought.kept
    · intro u v next bid ask _ _ hu hpass
      exact matchPair_quiet hpass hu
  exact hquiet

/-- A successful call of `execute`: the market and its engine when the history is written. -/
structure Call where
  market : Market
  engine : EngineState

namespace Call

variable (c : Call)

def volume : Int := c.engine.tradingVolume.amount

def Trades : Prop := c.engine.marketTransactions ≠ []
  deriving Decidable

/-- The prices of the bid and of the ask that the matching has left. -/
def bestPrices : Option (Price × Price) :=
  match nextPair c.market c.engine with
  | .ok (_, some (bid, ask)) =>
    match bid.getPrice, ask.getPrice with
    | .ok highestBid, .ok lowestAsk => some (highestBid, lowestAsk)
    | _, _ => none
  | _ => none

def record (best : Price × Price) : MarketHistoryRecord where
  highestBid := best.1
  lowestAsk := best.2
  openingPrice := c.engine.openingPrice
  closingPrice := c.engine.closingPrice
  volume := c.volume

/-- What the call writes over an old record of its hour or day. -/
def written (old : Option MarketHistoryRecord) : Option MarketHistoryRecord :=
  if 0 < c.volume then c.bestPrices.bind fun best => extended old (c.record best) else none

end Call

/-- The record that a market writes at a time. -/
def Covers (quoteId baseId : Int) (timestamp : Nat) (key : MarketHistoryKey) : Prop :=
  key.quoteId = quoteId ∧ key.baseId = baseId ∧ startOf key.granularity timestamp = key.timestamp
  deriving Decidable

theorem lookup_addHistory {p : Price × Price} (h : addHistory m e bid ask timestamp = .ok e')
    (hbid : bid.getPrice = .ok p.1) (hask : ask.getPrice = .ok p.2)
    (hkey : key.granularity ≠ .eachBlock) :
    e'.layer.marketHistory.lookup key =
      if Covers m.quoteId m.baseId timestamp key then
        (extended (m.prior.root.marketHistoryDb.lookup key) (Call.record ⟨m, e⟩ p)).or
          (e.layer.marketHistory.lookup key)
      else e.layer.marketHistory.lookup key := by
  simp only [addHistory, hbid, hask, eq_ok_iff] at h
  obtain ⟨_, hb, _, ha, rfl⟩ := h
  cases hb
  cases ha
  obtain ⟨quoteId, baseId, granularity, start⟩ := key
  have hblock (c : Prop) [Decidable c] (r : MarketHistoryRecord) :
      (if c then e.layer.storeMarketHistoryRecord ⟨m.quoteId, m.baseId, .eachBlock, timestamp⟩ r
        else e.layer).marketHistory.lookup ⟨quoteId, baseId, granularity, start⟩ =
      e.layer.marketHistory.lookup ⟨quoteId, baseId, granularity, start⟩ := by
    split
    · refine (lookup_insert _ _ _ _).trans (if_neg fun hk => hkey ?_)
      rw [MarketHistoryKey.mk.injEq] at hk
      exact hk.2.2.1
    · rfl
  have hmine (g : TimeGranularity) (h : granularity = g) :
      (⟨quoteId, baseId, granularity, start⟩ : MarketHistoryKey) =
          ⟨m.quoteId, m.baseId, g, startOf g timestamp⟩ ↔
        Covers m.quoteId m.baseId timestamp ⟨quoteId, baseId, granularity, start⟩ := by
    subst h
    simp [Covers, eq_comm]
  have hother (g : TimeGranularity) (n : Nat) (h : granularity ≠ g) :
      (⟨quoteId, baseId, granularity, start⟩ : MarketHistoryKey) ≠ ⟨m.quoteId, m.baseId, g, n⟩ := by
    intro hk
    rw [MarketHistoryKey.mk.injEq] at hk
    exact h hk.2.2.1
  rw [lookup_extendHistory, lookup_extendHistory, hblock]
  cases granularity with
  | eachBlock => exact absurd rfl hkey
  | eachHour =>
    rw [if_neg (hother .eachDay _ (by decide))]
    exact if_congr (hmine .eachHour rfl) rfl rfl
  | eachDay =>
    rw [if_neg (hother .eachHour _ (by decide))]
    exact if_congr (hmine .eachDay rfl) rfl rfl

/-- What the history of a market is after a call: the record of the call's hour and day is
written, and no other. -/
theorem lookup_updateMarketHistory (h : updateMarketHistory m e timestamp = .ok e')
    (hkey : key.granularity ≠ .eachBlock) :
    e'.layer.marketHistory.lookup key =
      ((if Covers m.quoteId m.baseId timestamp key then
        Call.written ⟨m, e⟩ (m.prior.root.marketHistoryDb.lookup key) else none).or
          (e.layer.marketHistory.lookup key)) := by
  unfold updateMarketHistory at h
  unfold Call.written Call.volume
  split at h
  next hvolume =>
    simp only [bind_eq_ok] at h
    obtain ⟨⟨d, next⟩, hpair, h⟩ := h
    have hkept := nextPair_kept hpair
    simp only [kept, held, Prod.mk.injEq] at hkept
    obtain ⟨⟨hlayer, -, -⟩, -, hvolume', hopening, hclosing⟩ := hkept
    rw [if_pos hvolume]
    cases next with
    | none =>
      cases h
      have hnone : Call.bestPrices ⟨m, e⟩ = none := by
        unfold Call.bestPrices
        rw [hpair]
      rw [hnone, Option.bind_none, ite_self, Option.none_or, hlayer]
    | some pair =>
      obtain ⟨bid, ask⟩ := pair
      have hprices := h
      simp only [addHistory, bind_eq_ok] at hprices
      obtain ⟨highestBid, hbid, lowestAsk, hask, -⟩ := hprices
      have hsome : Call.bestPrices ⟨m, e⟩ = some (highestBid, lowestAsk) := by
        unfold Call.bestPrices
        rw [hpair]
        dsimp only
        rw [hbid, hask]
      have hrecord : Call.record ⟨m, d⟩ (highestBid, lowestAsk) =
          Call.record ⟨m, e⟩ (highestBid, lowestAsk) := by
        unfold Call.record Call.volume
        rw [hvolume', hopening, hclosing]
      rw [hsome, Option.bind_some,
        lookup_addHistory (p := (highestBid, lowestAsk)) h hbid hask hkey, hrecord, hlayer]
      split
      · rfl
      · rw [Option.none_or]
  next hvolume =>
    cases h
    rw [if_neg hvolume, ite_self, Option.none_or]

variable {l l' : PendingState} {prev : ChainInterface} {trxs : List MarketTransaction}

def callOf (l : PendingState) (prev : ChainInterface) (pair : AssetPair) (timestamp : Nat) :
    Option Call :=
  match openMarket (.pending l prev) pair.1 pair.2 with
  | .error _ => none
  | .ok (m, e) =>
    match settleMarket m e with
    | .error _ => none
    | .ok d =>
      match runAndApply m e l prev timestamp with
      | .error _ => none
      | .ok _ => some ⟨m, d⟩

variable {pair : AssetPair} {pairs : List AssetPair} {r r' : PendingState × List MarketTransaction}

theorem callOf_quiet {c : Call} (h : callOf l prev pair timestamp = some c) : Quiet c.engine := by
  unfold callOf at h
  split at h
  · cases h
  next m e hopen =>
    have hquiet : Quiet e := by
      simp only [openMarket, openBooks, eq_ok_iff, Prod.mk.injEq] at hopen
      obtain ⟨_, ⟨_, _, _, _, _, _, _, _, _, _, _, _, rfl⟩, _, _, _, rfl⟩ := hopen
      exact fun _ => rfl
    split at h
    · cases h
    next d hsettle =>
      split at h
      · cases h
      · cases h
        exact settleMarket_quiet hsettle hquiet

theorem openMarket_market {prior : ChainInterface} {quoteId baseId : Int}
    (h : openMarket prior quoteId baseId = .ok (m, e)) :
    m.quoteId = quoteId ∧ m.baseId = baseId ∧ m.prior = prior := by
  simp only [openMarket, eq_ok_iff, Prod.mk.injEq] at h
  obtain ⟨_, -, _, -, rfl, -⟩ := h
  exact ⟨rfl, rfl, rfl⟩

theorem lookup_execute (h : execute l prev pair.1 pair.2 timestamp = .ok (l', trxs))
    (hkey : key.granularity ≠ .eachBlock) :
    l'.marketHistory.lookup key =
      ((callOf l prev pair timestamp).bind fun c =>
        if Covers pair.1 pair.2 timestamp key then
          c.written (prev.root.marketHistoryDb.lookup key) else none).or
        (l.marketHistory.lookup key) := by
  have herror {feed : Option Price} {x : ChainError}
      (h : recordError l prev pair.1 pair.2 feed x = .ok (l', trxs)) :
      l'.marketHistory.lookup key = l.marketHistory.lookup key := by
    simp only [recordError, eq_ok_iff, Prod.mk.injEq] at h
    obtain ⟨_, -, rfl, -⟩ := h
    rfl
  unfold execute at h
  unfold callOf
  cases hopen : openMarket (.pending l prev) pair.1 pair.2 with
  | error x =>
    rw [hopen] at h
    exact (herror h).trans (Option.none_or).symm
  | ok o =>
    obtain ⟨m, e⟩ := o
    rw [hopen] at h
    dsimp only at h ⊢
    cases hrun : runAndApply m e l prev timestamp with
    | error x =>
      rw [hrun] at h
      refine (herror h).trans ?_
      cases settleMarket m e <;> exact (Option.none_or).symm
    | ok r =>
      rw [hrun] at h
      cases h
      simp only [runAndApply, eq_ok_iff, Prod.mk.injEq] at hrun
      obtain ⟨e', hmarket, layer, happly, rfl, rfl⟩ := hrun
      obtain ⟨d, hsettle, hhistory⟩ := runMarket_ok_iff.mp hmarket
      obtain ⟨hquote, hbase, hprior⟩ := openMarket_market hopen
      rw [hsettle]
      obtain ⟨index, keys, unique, rfl⟩ := applyChangesTo_merged happly
      have hmerged : (merged e'.layer l index keys unique).marketHistory.lookup key =
          (e'.layer.marketHistory.lookup key).or (l.marketHistory.lookup key) := lookup_merge _ _ _
      have hempty : d.layer.marketHistory.lookup key = none := by
        rw [settleMarket_marketHistory hsettle, openMarket_layer hopen]
        rfl
      rw [hmerged, lookup_updateMarketHistory hhistory hkey, hempty, Option.or_none, hquote, hbase,
        hprior]
      rfl

/-- The call of `execute` for a market among those that are executed one after the other. -/
def marketCall (pair : AssetPair) (prev : ChainInterface) (timestamp : Nat) :
    PendingState → List AssetPair → Option Call
  | _, [] => none
  | l, p :: rest =>
    if p = pair then callOf l prev p timestamp
    else match execute l prev p.1 p.2 timestamp with
      | .error _ => none
      | .ok (l', _) => marketCall pair prev timestamp l' rest

theorem marketCall_quiet {c : Call} (h : marketCall pair prev timestamp l pairs = some c) :
    Quiet c.engine := by
  induction pairs generalizing l with
  | nil => cases h
  | cons p rest ih =>
    unfold marketCall at h
    split at h
    · exact callOf_quiet h
    · split at h
      · cases h
      · exact ih h

/-- The history that a market's call writes, where it is about the time of a record. -/
def writtenBy (c : Option Call) (timestamp : Nat) (db : ChainDatabase) (key : MarketHistoryKey) :
    Option MarketHistoryRecord :=
  c.bind fun c =>
    if startOf key.granularity timestamp = key.timestamp then
      c.written (db.marketHistoryDb.lookup key)
    else none

theorem executeMarket_ok (h : executeMarket prev timestamp r pair = .ok r') :
    ∃ trxs, execute r.1 prev pair.1 pair.2 timestamp = .ok (r'.1, trxs) := by
  simp only [executeMarket, eq_ok_iff] at h
  obtain ⟨_, -, ⟨layer, trxs⟩, hexecute, rfl⟩ := h
  exact ⟨trxs, hexecute⟩

theorem lookup_execute_other (h : execute l prev pair.1 pair.2 timestamp = .ok (l', trxs))
    (hkey : key.granularity ≠ .eachBlock) (hpair : pair ≠ (key.quoteId, key.baseId)) :
    l'.marketHistory.lookup key = l.marketHistory.lookup key := by
  have hnot : ¬ Covers pair.1 pair.2 timestamp key := by
    rintro ⟨hquote, hbase, -⟩
    exact hpair (Prod.ext hquote.symm hbase.symm)
  rw [lookup_execute h hkey]
  simp only [if_neg hnot]
  cases callOf l prev pair timestamp <;> exact Option.none_or

theorem lookup_executeOthers (h : pairs.foldlM (executeMarket prev timestamp) r = .ok r')
    (hkey : key.granularity ≠ .eachBlock) (hpair : (key.quoteId, key.baseId) ∉ pairs) :
    r'.1.marketHistory.lookup key = r.1.marketHistory.lookup key := by
  refine foldlM_keeps (P := fun u => u.1.marketHistory.lookup key = r.1.marketHistory.lookup key)
    (fun p hp u v hu hv => ?_) rfl h
  obtain ⟨trxs, hexecute⟩ := executeMarket_ok hv
  exact (lookup_execute_other hexecute hkey fun h => hpair (h ▸ hp)).trans hu

theorem lookup_executeAll (h : pairs.foldlM (executeMarket prev timestamp) r = .ok r')
    (hnodup : pairs.Nodup) (hkey : key.granularity ≠ .eachBlock) :
    r'.1.marketHistory.lookup key =
      (writtenBy (marketCall (key.quoteId, key.baseId) prev timestamp r.1 pairs) timestamp prev.root
        key).or (r.1.marketHistory.lookup key) := by
  induction pairs, r, h using foldlM_induct with
  | nil => exact (Option.none_or).symm
  | cons p rest r u hu hrest ih =>
    obtain ⟨trxs, hexecute⟩ := executeMarket_ok hu
    rw [List.nodup_cons] at hnodup
    unfold marketCall
    by_cases hp : p = (key.quoteId, key.baseId)
    · subst hp
      rw [if_pos rfl, lookup_executeOthers hrest hkey hnodup.1, lookup_execute hexecute hkey]
      simp only [Covers, true_and]
      rfl
    · rw [if_neg hp, hexecute, ih hnodup.2, lookup_execute_other hexecute hkey hp]

variable {db db' : ChainDatabase} {block : FullBlock} {s t : EvaluationState}

def dirtyPairs (db : ChainDatabase) : List AssetPair :=
  (ChainInterface.database db).getDirtyMarkets.dedup.insertionSort pairBefore

theorem dirtyPairs_nodup (db : ChainDatabase) : (dirtyPairs db).Nodup :=
  (List.perm_insertionSort _ _).nodup_iff.mpr (List.nodup_dedup _)

theorem lookup_executeMarkets (h : executeMarkets db l timestamp = .ok l')
    (hkey : key.granularity ≠ .eachBlock) :
    l'.marketHistory.lookup key =
      (writtenBy (marketCall (key.quoteId, key.baseId) (.database db) timestamp l (dirtyPairs db))
        timestamp db key).or (l.marketHistory.lookup key) := by
  simp only [executeMarkets, eq_ok_iff] at h
  obtain ⟨⟨executed, trxs⟩, hfold, rfl⟩ := h
  have hall := lookup_executeAll hfold (dirtyPairs_nodup db) hkey
  split
  · exact hall
  · exact hall

theorem effect_marketHistory {op : Operation} (h : Effect s op l) :
    l.marketHistory = s.layer.marketHistory := by
  cases h with
  | registerAccount op id r layer stored =>
    obtain ⟨_, _, _, rfl⟩ := storeAccountRecord_ok stored
    rfl
  | updateAccount op r layer stored | withdrawPay op r layer stored
  | updateBlockSigningKey op r layer stored =>
    obtain ⟨_, _, _, rfl⟩ := storeAccountRecord_ok stored
    rfl
  | _ => rfl

theorem applyTransactions_marketHistory (h : applyTransactions db block l = .ok l') :
    l'.marketHistory = l.marketHistory := by
  refine applyTransactions_keeps (I := fun u => u.marketHistory = l.marketHistory) ?_ ?_ ?_ h rfl
  · intro trx _ op _ u v _ heffect hu
    exact (effect_marketHistory heffect).trans hu
  · intro u v hstep hu
    cases hstep with
    | fee a fees known => exact hu
    | votes _ r stored =>
      obtain ⟨_, _, _, rfl⟩ := storeAccountRecord_ok stored
      exact hu
  · intro u transactions unique hu
    exact hu

theorem spared_marketHistory : Spared PendingState.marketHistory where
  account h := by
    obtain ⟨_, _, _, rfl⟩ := storeAccountRecord_ok h
    rfl
  asset _ _ := rfl
  slot _ _ := rfl
  property _ _ _ := rfl

/-- The layer on which a block executes the markets. -/
def marketLayer (db : ChainDatabase) (block : FullBlock) : Except ChainError PendingState := do
  let signee ← blockSignee db block
  let produced ← updateDelegateProductionInfo db block signee {}
  let (paid, _) ← payDelegate db produced signee block.id
  if block.blockNum < forkBlockNumV049 then applyTransactions db block paid else pure paid

/-- The call of `execute` that a block makes for a market, if it succeeds. -/
def callIn (pair : AssetPair) (block : FullBlock) (db : ChainDatabase) : Option Call :=
  match marketLayer db block with
  | .error _ => none
  | .ok layer => marketCall pair (.database db) block.timestamp layer (dirtyPairs db)

theorem blockLayers_lookup {signee : Nat} {produced paid middle applied layer : PendingState}
    (h : BlockLayers block db signee produced paid middle applied layer)
    (hkey : key.granularity ≠ .eachBlock) :
    layer.marketHistory.lookup key =
      writtenBy (callIn (key.quoteId, key.baseId) block db) block.timestamp db key := by
  have hpaid : marketLayer db block =
      if block.blockNum < forkBlockNumV049 then applyTransactions db block paid else pure paid := by
    obtain ⟨record, hpays⟩ := h.pays
    unfold marketLayer
    rw [h.signs]
    simp only [bind, Except.bind]
    rw [h.produces]
    dsimp only
    rw [hpays]
  have hempty : paid.marketHistory.lookup key = none := by
    rw [h.spared spared_marketHistory]
    rfl
  obtain ⟨properties, rfl, -⟩ := h.finishes
  have hfills := h.fills
  unfold Filled at hfills
  unfold callIn
  rw [hpaid]
  split_ifs at hfills ⊢
  · have hmarkets := lookup_executeMarkets hfills.2 hkey
    rw [applyTransactions_marketHistory hfills.1, hempty, Option.or_none] at hmarkets
    rw [hfills.1]
    exact hmarkets
  · have hmarkets := lookup_executeMarkets hfills.1 hkey
    rw [hempty, Option.or_none] at hmarkets
    exact (congrArg (·.lookup key) (applyTransactions_marketHistory hfills.2)).trans hmarkets

theorem lookup_extendChain (h : extendChain block db = .ok () db')
    (hkey : key.granularity ≠ .eachBlock) :
    db'.marketHistoryDb.lookup key =
      (writtenBy (callIn (key.quoteId, key.baseId) block db) block.timestamp db key).elim
        (db.marketHistoryDb.lookup key) (dropNull MarketHistoryRecord.isNull) := by
  obtain ⟨signee, produced, paid, middle, applied, layer, d, u, hlayers, ⟨_, _, _, rfl⟩, happly,
    ⟨forks, numbers, rfl⟩⟩ := extendChain_applies h
  have happlied := applyChanges_marketHistory happly key
  unfold overlay at happlied
  rw [blockLayers_lookup hlayers hkey] at happlied
  refine Eq.trans happlied ?_
  cases writtenBy (callIn (key.quoteId, key.baseId) block db) block.timestamp db key <;> rfl

/-- The chain with the block stored, as `extend_chain` finds it. -/
def stored (block : FullBlock) (db : ChainDatabase) : ChainDatabase :=
  endState (storeAndIndex block.id block db)

theorem grow_stored (h : returns (advance block db)) :
    Catalogued db (stored block db) ∧
      extendChain block (stored block db) = .ok () (grow block db) := by
  have hok := eq_ok_of_returns h
  simp only [advance, bind_run_ok] at hok
  obtain ⟨longest, d, hstore, hextend⟩ := hok
  have hkeeps := storeAndIndex_catalogued block.id block db (.refl db)
  unfold stored
  rw [hstore] at hkeeps ⊢
  exact ⟨hkeeps, hextend⟩

/-- The successful call of `execute` that a block makes for the market of a record in the
time of the record. -/
def periodCall (key : MarketHistoryKey) (block : FullBlock) (db : ChainDatabase) : Option Call :=
  if startOf key.granularity block.timestamp = key.timestamp then
    callIn (key.quoteId, key.baseId) block (stored block db)
  else none

theorem lookup_grow (h : returns (advance block db)) (hkey : key.granularity ≠ .eachBlock) :
    (grow block db).marketHistoryDb.lookup key =
      ((periodCall key block db).bind (Call.written · (db.marketHistoryDb.lookup key))).elim
        (db.marketHistoryDb.lookup key) (dropNull MarketHistoryRecord.isNull) := by
  obtain ⟨hcatalogued, hextend⟩ := grow_stored h
  rw [lookup_extendChain hextend hkey]
  unfold periodCall writtenBy
  have hsame : (stored block db).marketHistoryDb = db.marketHistoryDb := by
    obtain ⟨_, _, _, _, hstored⟩ := hcatalogued
    rw [hstored]
  rw [hsame]
  split_ifs
  · rfl
  · cases callIn (key.quoteId, key.baseId) block (stored block db) <;> rfl

theorem periodCall_quiet {c : Call} (h : periodCall key block db = some c) : Quiet c.engine := by
  unfold periodCall callIn at h
  split at h
  · split at h
    · cases h
    · exact marketCall_quiet h
  · cases h

def Tally.add (t : Tally) (c : Call) : Tally where
  volume := t.volume + c.volume
  closing := if c.Trades then some c.engine.closingPrice else t.closing

/-- A call with a volume is counted in a record that is there if the best bid or ask that
are left exceed it. A call without one must have no trades, or have no new closing price. -/
def Call.Counts (c : Call) (old : Option MarketHistoryRecord) : Prop :=
  if 0 < c.volume then
    ∃ best ∈ c.bestPrices, ∀ r ∈ old,
      (Price.lt r.highestBid best.1 ∨ Price.lt best.2 r.lowestAsk) ∧ Fits (r.volume + c.volume)
  else c.volume = 0 ∧ (c.Trades → ∀ r ∈ old, r.closingPrice = c.engine.closingPrice)
  deriving Decidable

theorem not_sums_add {c : Call} {old : Option MarketHistoryRecord} {t : Tally}
    (hvolume : 0 < c.volume) (h : Sums old t) : ¬ Sums old (t.add c) := by
  cases old with
  | none =>
    change t.volume = 0 at h
    change ¬ t.volume + c.volume = 0
    omega
  | some r =>
    have hold : r.volume = t.volume := h.1
    rintro ⟨hnew, -⟩
    change r.volume = t.volume + c.volume at hnew
    omega

theorem sums_extended {c : Call} {old : MarketHistoryRecord} {t : Tally} {best : Price × Price}
    (hvolume : 0 < c.volume) (htrades : c.Trades) (h : Sums (some old) t) :
    Sums ((extended (some old) (c.record best)).elim (some old)
        (dropNull MarketHistoryRecord.isNull)) (t.add c) ↔
      (Price.lt old.highestBid best.1 ∨ Price.lt best.2 old.lowestAsk) ∧
        Fits (old.volume + c.volume) := by
  have hclosing : (t.add c).closing = some c.engine.closingPrice := if_pos htrades
  have hadd : (t.add c).volume = old.volume + c.volume := congrArg (· + c.volume) h.1.symm
  by_cases hbest : Price.lt old.highestBid (c.record best).highestBid ∨
      Price.lt (c.record best).lowestAsk old.lowestAsk
  · have hfits : Fits (old.volume + c.volume) ↔
        int64 (old.volume + c.volume) = old.volume + c.volume := int64_eq_iff.symm
    unfold extended
    dsimp only
    rw [if_pos hbest, Option.elim_some, sums_dropNull hclosing, hadd, hfits]
    exact (and_iff_right hbest).symm
  · unfold extended
    dsimp only
    rw [if_neg hbest, Option.elim_none]
    exact iff_of_false (not_sums_add hvolume h) fun hcounts => hbest hcounts.1

theorem sums_iff {c : Call} {old : Option MarketHistoryRecord} {t : Tally} (hquiet : Quiet c.engine)
    (h : Sums old t) :
    Sums ((c.written old).elim old (dropNull MarketHistoryRecord.isNull)) (t.add c) ↔
      c.Counts old := by
  unfold Call.written Call.Counts
  by_cases hvolume : 0 < c.volume
  · rw [if_pos hvolume, if_pos hvolume]
    have htrades : c.Trades := fun hnone => absurd (hquiet hnone) hvolume.ne'
    cases hbest : c.bestPrices with
    | none =>
      exact iff_of_false (not_sums_add hvolume h) fun ⟨best, hmem, _⟩ => nomatch hmem
    | some best =>
      rw [Option.bind_some]
      cases old with
      | none =>
        have hclosing : (t.add c).closing = some (c.record best).closingPrice := if_pos htrades
        have hzero : t.volume = 0 := h
        refine iff_of_true ((sums_dropNull hclosing).mpr ?_) ⟨best, rfl, fun r hr => nomatch hr⟩
        change c.volume = t.volume + c.volume
        omega
      | some old =>
        rw [sums_extended hvolume htrades h]
        simp
  · rw [if_neg hvolume, if_neg hvolume, Option.elim_none]
    cases old with
    | none =>
      have hzero : t.volume = 0 := h
      have hsum : Sums none (t.add c) ↔ t.volume + c.volume = 0 := Iff.rfl
      rw [hsum, hzero, Int.zero_add]
      simp
    | some r =>
      have hsum : Sums (some r) (t.add c) ↔ r.volume = t.volume + c.volume ∧
          (if c.Trades then some c.engine.closingPrice else t.closing) = some r.closingPrice :=
        Iff.rfl
      rw [hsum]
      refine and_congr ?_ ?_
      · have hold : r.volume = t.volume := h.1
        omega
      · split
        next htrades => simp [htrades, eq_comm]
        next htrades => exact iff_of_true h.2 fun htrades' => absurd htrades' htrades

def follow (key : MarketHistoryKey) (block : FullBlock) (s : ChainDatabase × Tally) :
    ChainDatabase × Tally :=
  (grow block s.1, (periodCall key block s.1).elim s.2 s.2.add)

/-- The calls of a market in an hour or a day over a run of blocks. -/
def tally (key : MarketHistoryKey) (blocks : List FullBlock) (db : ChainDatabase) : Tally :=
  (run (follow key) blocks (db, {})).2

/-- The call of a block in the time of a record is counted in it. -/
def BlockCounts (key : MarketHistoryKey) (block : FullBlock) (db : ChainDatabase) : Prop :=
  ∀ c ∈ periodCall key block db, c.Counts (db.marketHistoryDb.lookup key)
  deriving Decidable

theorem sums_follow {t : Tally} (hkey : key.granularity ≠ .eachBlock)
    (haccepted : returns (advance block db)) (h : Sums (db.marketHistoryDb.lookup key) t) :
    Sums ((grow block db).marketHistoryDb.lookup key) ((periodCall key block db).elim t t.add) ↔
      BlockCounts key block db := by
  rw [lookup_grow haccepted hkey]
  unfold BlockCounts
  cases hcall : periodCall key block db with
  | none => exact iff_of_true h fun c hc => nomatch hc
  | some c =>
    rw [Option.bind_some, Option.elim_some, sums_iff (periodCall_quiet hcall) h]
    simp

/-- The record of an hour or a day is the sum of its calls after every block of a run
exactly if each of them is counted when it is made. -/
theorem market_history_sums_iff {blocks : List FullBlock} (hkey : key.granularity ≠ .eachBlock)
    (hblocks : Meets grow (fun block d => returns (advance block d)) blocks db)
    (hnew : db.marketHistoryDb.lookup key = none) :
    (∀ n, Sums ((run grow (blocks.take n) db).marketHistoryDb.lookup key)
        (tally key (blocks.take n) db)) ↔
      Meets grow (BlockCounts key) blocks db := by
  have hfirst (block : FullBlock) (s : ChainDatabase × Tally) :
      (follow key block s).1 = grow block s.1 := rfl
  have haccepted :
      Meets (follow key) (fun block s => returns (advance block s.1)) blocks (db, {}) :=
    (meets_proj (C := fun block d => returns (advance block d)) hfirst).mpr hblocks
  have hstart : Sums (db.marketHistoryDb.lookup key) {} := by
    rw [hnew]
    rfl
  have hkeeps := haccepted.iff_keeps (I := fun s => Sums (s.1.marketHistoryDb.lookup key) s.2)
    (C := fun block s => BlockCounts key block s.1)
    (fun block s haccepted hs => sums_follow hkey haccepted hs) hstart
  rw [meets_proj hfirst] at hkeeps
  refine Iff.trans (forall_congr' fun n => ?_) hkeeps.symm
  rw [run_proj hfirst]
  rfl

end Model

/-- A chain with a market of gold, where a bid of 100 at the price 2 meets an ask of 10 at the
price 1. There is another ask at the price 3. -/
def goldChain : @ChainDatabase Fc.plain :=
  letI := Fc.plain
  { HeaderChecks.headChain forkBlockNumV0429 with
    blockNumToIdDb := (((∅ : Map Nat Nat).insert (forkBlockNumV0429 - maxUndoHistory) 3).insert
      (forkBlockNumV0429 + 1 - maxUndoHistory) 4).insert forkBlockNumV0429 5
    assetDb := (Table.empty.store (Genesis.baseAsset 50 1000)).store
      { id := 1, symbol := "GOLD", issuerAccountId := 1, maximumShareSupply := 1000
        currentShareSupply := 1000 }
    balanceDb := Table.empty.store
      { condition := { assetId := 0, data := .signature 9 none }, balance := 100 }
    bidDb := (∅ : Map _ _).insert ⟨⟨2000000000000000000, 0, 1⟩, 8⟩ { balance := 100 }
    askDb := ((∅ : Map _ _).insert ⟨⟨1000000000000000000, 0, 1⟩, 9⟩ { balance := 10 }).insert
      ⟨⟨3000000000000000000, 0, 1⟩, 9⟩ { balance := 10 }
    propertyDb := (HeaderChecks.headChain forkBlockNumV0429).propertyDb.insert .dirtyMarkets
      (.markets [(1, 0)]) }

/-- The key 9 makes another ask of 10 at the price 1. -/
def askTrx : SignedTransaction where
  expiration := 1100
  operations := [.withdraw ⟨9000, 10, []⟩,
    .ask { amount := 10, askIndex := { orderPrice := ⟨1000000000000000000, 0, 1⟩, owner := 9 } }]
  signatures := [9]

/-- The first block executes the market and takes the other ask, the second executes the
market again. -/
def goldBlocks : List FullBlock :=
  [{ previous := 5, blockNum := forkBlockNumV0429 + 1, timestamp := 1010, transactionDigest := 1
     delegateSignature := 7, userTransactions := [askTrx] },
    { previous := 1000 * (forkBlockNumV0429 + 1) + 7, blockNum := forkBlockNumV0429 + 2
      timestamp := 1020, delegateSignature := 7 }]

def goldRecord (granularity : TimeGranularity) : MarketHistoryKey := ⟨1, 0, granularity, 0⟩

theorem goldBlocks_counts :
    letI := Fc.plain
    Meets grow (BlockCounts (goldRecord .eachHour)) (goldBlocks.take 1) goldChain := by
  decide +kernel

theorem market_history_sums_iff_gold :
    letI := Fc.plain
    (tally (goldRecord .eachHour) (goldBlocks.take 1) goldChain).volume = 10 ∧
      ∀ n, Sums
        ((run grow ((goldBlocks.take 1).take n) goldChain).marketHistoryDb.lookup
          (goldRecord .eachHour))
        (tally (goldRecord .eachHour) ((goldBlocks.take 1).take n) goldChain) := by
  let := Fc.plain
  have hblocks : Meets grow (fun block d => returns (advance block d)) (goldBlocks.take 1)
      goldChain := by
    decide +kernel
  exact ⟨by decide +kernel,
    (market_history_sums_iff (by decide) hblocks (by decide +kernel)).mpr goldBlocks_counts⟩

/-- Twenty are traded in the hour and on the day, and the records show the ten of the first
block. -/
theorem history_volume_lost :
    letI := Fc.plain
    Meets grow (fun block d => returns (advance block d)) goldBlocks goldChain ∧
      (goldChain.marketHistoryDb.lookup (goldRecord .eachHour)).isNone ∧
      (tally (goldRecord .eachHour) goldBlocks goldChain).volume = 20 ∧
      ((run grow goldBlocks goldChain).marketHistoryDb.lookup (goldRecord .eachHour)).map
        (·.volume) = some 10 ∧
      (tally (goldRecord .eachDay) goldBlocks goldChain).volume = 20 ∧
      ((run grow goldBlocks goldChain).marketHistoryDb.lookup (goldRecord .eachDay)).map
        (·.volume) = some 10 := by
  decide +kernel

end Bts.Blockchain.MarketHistory
