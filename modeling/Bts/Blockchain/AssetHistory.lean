import Bts.Blockchain.BlockParts
import Bts.Blockchain.MarketAssets

namespace Bts.Blockchain.AssetHistory

open Base Result Maps Overlay Records MarketRecords Transactions Pending Database
  Layers Changes Evaluation Evaluate Effects AssetEffects ApplySpec MarketEngine MarketExecute
  MarketWrites MarketAssets ExtendChain BlockParts

/-- The same asset with another supply, other fees and another date. -/
def Restated (a b : AssetRecord) : Prop :=
  ∃ supply fees date,
    b = { a with currentShareSupply := supply, collectedFees := fees, lastUpdate := date }

variable {a b : AssetRecord}

theorem restated_of_traded (h : Traded a b) : Restated a b := by
  obtain ⟨_, _, rfl⟩ := h
  exact ⟨_, _, _, rfl⟩

theorem restated_of_collected (h : Collected a b) : Restated a b := by
  obtain ⟨_, rfl⟩ := h
  exact ⟨_, _, _, rfl⟩

theorem Restated.trans {c : AssetRecord} (h : Restated a b) (h' : Restated b c) : Restated a c := by
  obtain ⟨_, _, _, rfl⟩ := h
  obtain ⟨_, _, _, rfl⟩ := h'
  exact ⟨_, _, _, rfl⟩

structure AssetBook where
  records : Int → Option AssetRecord
  last : Option Int

/-- What can happen to assets, with the symbols of those that are created. -/
inductive Change (new : AssetRecord → Prop) (book : AssetBook) : List String → AssetBook → Prop
  | restated (id : Int) (a b : AssetRecord) (known : book.records id = some a)
    (same : Restated a b) :
    Change new book [] { book with records := Function.update book.records id (some b) }
  | created (n : Int) (a : AssetRecord) (last : book.last = some n)
    (unused : book.records (n + 1) = none) (id : a.id = n + 1) (isNew : new a) :
    Change new book [a.symbol] ⟨Function.update book.records (n + 1) (some a), some (n + 1)⟩

inductive Changes (new : AssetRecord → Prop) (book : AssetBook) : List String → AssetBook → Prop
  | refl : Changes new book [] book
  | tail {made made' : List String} {book' book'' : AssetBook} (before : Changes new book made book')
    (step : Change new book' made' book'') : Changes new book (made ++ made') book''

section Library

variable {new : AssetRecord → Prop} {book book' book'' : AssetBook} {made made' : List String}

theorem Change.changes (h : Change new book made book') : Changes new book made book' :=
  Changes.tail .refl h

theorem Changes.trans (h : Changes new book made book') (h' : Changes new book' made' book'') :
    Changes new book (made ++ made') book'' := by
  induction h' with
  | refl =>
    rw [List.append_nil]
    exact h
  | tail _ step ih =>
    rw [← List.append_assoc]
    exact .tail ih step

theorem Changes.keeps {I : AssetBook → Prop} (h : Changes new book made book')
    (hstep : ∀ b m b', Change new b m b' → I b → I b') (hbook : I book) : I book' := by
  induction h with
  | refl => exact hbook
  | tail _ step ih => exact hstep _ _ _ step ih

/-- The records that a database keeps. -/
def AssetBook.stored (book : AssetBook) : AssetBook :=
  { book with records := fun id => (book.records id).bind (dropNull AssetRecord.isNull) }

structure Numbered (book : AssetBook) : Prop where
  records : ∀ id a, book.records id = some a → 0 ≤ id
  last : ∀ n, book.last = some n → -1 ≤ n

theorem Change.numbered (h : Change new book made book') (hbook : Numbered book) : Numbered book' := by
  cases h with
  | restated id a b known same =>
    refine ⟨fun k r hr => ?_, hbook.last⟩
    dsimp only at hr
    rw [Function.update_apply] at hr
    split at hr
    next hk => exact hk ▸ hbook.records id a known
    next => exact hbook.records k r hr
  | created n a last unused id isNew =>
    have hn := hbook.last n last
    refine ⟨fun k r hr => ?_, fun m hm => ?_⟩
    · dsimp only at hr
      rw [Function.update_apply] at hr
      split at hr
      next hk => omega
      next => exact hbook.records k r hr
    · cases hm
      omega

def AssetBook.Keeps (book : AssetBook) (id : Int) (a : AssetRecord) : Prop :=
  ∃ b, book.records id = some b ∧ Restated a b

theorem Change.keeps {id : Int} (h : Change new book made book') (hbook : book.Keeps id a) :
    book'.Keeps id a := by
  obtain ⟨b, hb, hsame⟩ := hbook
  cases h with
  | restated k _ b' known same =>
    by_cases hk : id = k
    · cases hk
      cases hb.symm.trans known
      exact ⟨b', Function.update_self .., hsame.trans same⟩
    · exact ⟨b, (Function.update_of_ne hk ..).trans hb, hsame⟩
  | created n _ last unused =>
    -- a new asset takes an id that was free
    have hn : id ≠ n + 1 := by
      rintro rfl
      cases hb.symm.trans unused
    exact ⟨b, (Function.update_of_ne hn ..).trans hb, hsame⟩

theorem AssetBook.stored_eq_some {id : Int} {a : AssetRecord} :
    book.stored.records id = some a ↔ book.records id = some a ∧ ¬ a.isNull := by
  unfold AssetBook.stored
  dsimp only
  cases hbook : book.records id with
  | none => simp
  | some b =>
    rw [Option.bind_some]
    unfold dropNull
    split
    next hnull =>
      constructor
      · intro h
        cases h
      · rintro ⟨h, hnot⟩
        cases h
        exact absurd hnull hnot
    next hnull =>
      constructor
      · intro h
        cases h
        exact ⟨rfl, hnull⟩
      · rintro ⟨h, -⟩
        exact h

end Library

variable [Fc]

def assetsOf (c : ChainInterface) : AssetBook := ⟨c.getAssetRecord, c.lastAssetId.toOption⟩

theorem assetsOf_store (layer : PendingState) (prev : ChainInterface) (a : AssetRecord) :
    assetsOf (.pending (layer.storeAssetRecord a) prev) =
      { assetsOf (.pending layer prev) with
        records := Function.update (assetsOf (.pending layer prev)).records a.id (some a) } := by
  have hrecords : (ChainInterface.pending (layer.storeAssetRecord a) prev).getAssetRecord =
      Function.update (ChainInterface.pending layer prev).getAssetRecord a.id (some a) := by
    funext id
    rw [getAssetRecord_store, Function.update_apply]
  unfold assetsOf
  rw [hrecords]
  rfl

theorem lastAssetId_congr {l l' : PendingState} (prev : ChainInterface)
    (h : l'.properties.lookup .lastAssetId = l.properties.lookup .lastAssetId) :
    (ChainInterface.pending l' prev).lastAssetId = (ChainInterface.pending l prev).lastAssetId := by
  unfold ChainInterface.lastAssetId ChainInterface.getIntProperty ChainInterface.getProperty
  simp only [ChainInterface.find, h]

theorem assetsOf_congr {l l' : PendingState} (prev : ChainInterface) (hassets : l'.assets = l.assets)
    (hlast : l'.properties.lookup .lastAssetId = l.properties.lookup .lastAssetId) :
    assetsOf (.pending l' prev) = assetsOf (.pending l prev) := by
  unfold assetsOf
  rw [AssetBook.mk.injEq]
  constructor
  · funext id
    rw [getAssetRecord_pending, getAssetRecord_pending, hassets]
  · rw [lastAssetId_congr prev hlast]

/-- The symbols that the operations of a transaction create assets for. -/
def madeBy : Operation → List String
  | .createAsset op => [op.symbol]
  | _ => []

def made (ops : List Operation) : List String := ops.flatMap madeBy

/-- A new asset has a symbol that is not found in the state below the layer. -/
def Free (c : ChainInterface) (a : AssetRecord) : Prop :=
  c.getAssetRecordBySymbol a.symbol = none ∧ a.symbol ≠ "BTSX"

/-- A step of a layer on `prev`. The layer keeps no index of symbols of its own. -/
structure Grows (prev : ChainInterface) (l : PendingState) (symbols : List String)
    (l' : PendingState) : Prop where
  changes : Changes (Free prev) (assetsOf (.pending l prev)) symbols (assetsOf (.pending l' prev))
  index : l'.symbolIdIndex = ∅

variable {s t : EvaluationState} {prev : ChainInterface} {l l' l'' : PendingState}
  {symbols symbols' : List String}

theorem Grows.refl (h : l.symbolIdIndex = ∅) : Grows prev l [] l := ⟨.refl, h⟩

theorem Grows.trans (h : Grows prev l symbols l') (h' : Grows prev l' symbols' l'') :
    Grows prev l (symbols ++ symbols') l'' :=
  ⟨h.changes.trans h'.changes, h'.index⟩

structure SameAssets (l l' : PendingState) : Prop where
  assets : l'.assets = l.assets
  last : l'.properties.lookup .lastAssetId = l.properties.lookup .lastAssetId
  index : l'.symbolIdIndex = l.symbolIdIndex

theorem SameAssets.trans (h : SameAssets l l') (h' : SameAssets l' l'') : SameAssets l l'' :=
  ⟨h'.assets.trans h.assets, h'.last.trans h.last, h'.index.trans h.index⟩

theorem SameAssets.grows (hsame : SameAssets l l') (h : l.symbolIdIndex = ∅) :
    Grows prev l [] l' := by
  refine ⟨?_, hsame.index.trans h⟩
  rw [assetsOf_congr prev hsame.assets hsame.last]
  exact .refl

theorem Grows.restate (h : l.symbolIdIndex = ∅) (hassets : l'.assets = l.assets.store b)
    (known : (ChainInterface.pending l prev).getAssetRecord a.id = some a) (hid : b.id = a.id)
    (hsame : Restated a b)
    (hlast : l'.properties.lookup .lastAssetId = l.properties.lookup .lastAssetId)
    (hindex : l'.symbolIdIndex = l.symbolIdIndex) : Grows prev l [] l' := by
  refine ⟨?_, hindex.trans h⟩
  have hbook : assetsOf (.pending l' prev) = assetsOf (.pending (l.storeAssetRecord b) prev) :=
    assetsOf_congr prev hassets hlast
  rw [hbook, assetsOf_store]
  exact (Change.restated b.id a b (by rw [hid]; exact known) hsame).changes

theorem storeAccountRecord_same {r : AccountRecord} (h : l.storeAccountRecord r = .ok l') :
    SameAssets l l' := by
  obtain ⟨_, _, _, rfl⟩ := storeAccountRecord_ok h
  exact ⟨rfl, rfl, rfl⟩

theorem lookup_lastAssetId {k : ChainProperty} (h : k ≠ .lastAssetId) (v : PropertyValue) :
    (l.setProperty k v).properties.lookup .lastAssetId = l.properties.lookup .lastAssetId :=
  (lookup_insert _ _ _ _).trans (if_neg h.symm)

theorem createAsset_grows {op : CreateAssetOperation} {n : Int} {a : AssetRecord}
    (h : l.symbolIdIndex = ∅)
    (hfree : (ChainInterface.pending l prev).getAssetRecordBySymbol op.symbol = none)
    (hlast : (ChainInterface.pending l prev).lastAssetId = .ok n)
    (hunused : (ChainInterface.pending l prev).getAssetRecord (n + 1) = none) (hid : a.id = n + 1)
    (hsymbol : a.symbol = op.symbol) (hname : op.symbol ≠ "BTSX") :
    Grows prev l [op.symbol] ((l.setProperty .lastAssetId (.int (n + 1))).storeAssetRecord a) := by
  refine ⟨?_, h⟩
  have hbelow : prev.getAssetRecordBySymbol op.symbol = none := by
    unfold ChainInterface.getAssetRecordBySymbol at hfree
    rw [h] at hfree
    exact hfree
  have hnumber : (assetsOf (.pending l prev)).last = some n := by
    unfold assetsOf
    rw [hlast]
    rfl
  have hbook : assetsOf (.pending ((l.setProperty .lastAssetId (.int (n + 1))).storeAssetRecord a)
      prev) = ⟨Function.update (assetsOf (.pending l prev)).records (n + 1) (some a), some (n + 1)⟩ := by
    have hproperty : (l.setProperty .lastAssetId (.int (n + 1))).properties.lookup .lastAssetId =
        some (.int (n + 1)) := AList.lookup_insert _
    rw [assetsOf_store, hid, AssetBook.mk.injEq]
    refine ⟨rfl, ?_⟩
    unfold assetsOf ChainInterface.lastAssetId ChainInterface.getIntProperty
      ChainInterface.getProperty
    rfl
  rw [hbook, ← hsymbol]
  refine (Change.created n a hnumber hunused hid ⟨?_, ?_⟩).changes
  · rw [hsymbol]
    exact hbelow
  · rw [hsymbol]
    exact hname

theorem effect_grows {op : Operation} (h : Effect s op l) (hindex : s.layer.symbolIdIndex = ∅) :
    Grows s.prev s.layer (madeBy op) l := by
  cases h with
  | withdraw | deposit | bid | ask | short | addCollateral | knownSlate | newSlate | updateFeed =>
    exact SameAssets.grows ⟨rfl, rfl, rfl⟩ hindex
  | registerAccount op id r layer stored =>
    have hset : SameAssets s.layer (s.layer.setProperty .lastAccountId (.int id)) :=
      ⟨rfl, lookup_lastAssetId (by decide) _, rfl⟩
    exact (hset.trans (storeAccountRecord_same stored)).grows hindex
  | updateAccount op r layer stored | withdrawPay op r layer stored
  | updateBlockSigningKey op r layer stored => exact (storeAccountRecord_same stored).grows hindex
  | createAsset op last a symbolFree lastId idFree id symbol issuer supply maximum exists_issuer name =>
    exact createAsset_grows hindex symbolFree lastId idFree id symbol name
  | withdrawYield op r a fees known =>
    rw [← getAssetRecord_id known] at known
    exact .restate hindex rfl known rfl ⟨_, _, _, rfl⟩ rfl rfl
  | issueAsset op a now known =>
    rw [← getAssetRecord_id known] at known
    exact .restate hindex rfl known rfl ⟨_, _, _, rfl⟩ rfl rfl
  | coverPaid op a old payment known | coverLeft op a old payment index known =>
    rw [← getAssetRecord_id known] at known
    exact .restate hindex rfl known rfl ⟨_, _, _, rfl⟩ rfl rfl
  | burn op a key value known =>
    rw [← getAssetRecord_id known] at known
    exact .restate hindex rfl known rfl ⟨_, _, _, rfl⟩ rfl rfl

theorem settles_grows (h : Relation.ReflTransGen (Settles prev) l l') (hindex : l.symbolIdIndex = ∅) :
    Grows prev l [] l' := by
  induction h with
  | refl => exact .refl hindex
  | tail _ hstep ih =>
    cases hstep with
    | fee a fees known => exact ih.trans (.restate ih.index rfl known rfl ⟨_, _, _, rfl⟩ rfl rfl)
    | votes _ r stored => exact ih.trans ((storeAccountRecord_same stored).grows ih.index)

theorem operations_grow {ops : List Operation} (h : ops.foldlM evaluateNext s = .ok t)
    (hindex : s.layer.symbolIdIndex = ∅) : Grows s.prev s.layer (made ops) t.layer := by
  induction ops, s, h using foldlM_induct with
  | nil => exact .refl hindex
  | cons op ops s u hu ht ih =>
    obtain ⟨hctx, heffect⟩ := evaluateNext_effect hu
    have hfirst := effect_grows heffect hindex
    have hrest := ih hfirst.index
    rw [hctx.prev] at hrest
    exact hfirst.trans hrest

theorem evaluate_grows {trx : SignedTransaction} {skip : Bool} (h : evaluate s trx skip = .ok t)
    (hindex : s.layer.symbolIdIndex = ∅) : Grows s.prev s.layer (made trx.operations) t.layer := by
  obtain ⟨_, keys, u, _, hops, hsettled⟩ := evaluate_ok h
  have hdone := operations_grow hops hindex
  have hend := settles_grows hsettled.2 hdone.index
  rw [(operations_context hops).prev] at hend
  have hboth := hdone.trans hend
  rwa [List.append_nil] at hboth

section Block

variable {db db' : ChainDatabase} {block : FullBlock} {signee : Nat}

theorem storeTransaction_same {trxId : Nat} {r : TransactionRecord}
    (h : storeTransaction prev l trxId r = .ok l') : SameAssets l l' := by
  simp only [storeTransaction, eq_ok_iff] at h
  obtain ⟨_, _, _, _, rfl⟩ := h
  exact ⟨rfl, rfl, rfl⟩

theorem applyTransactions_grow (h : applyTransactions db block l = .ok l')
    (hindex : l.symbolIdIndex = ∅) :
    Grows (.database db) l (block.userTransactions.flatMap fun trx => made trx.operations) l' := by
  unfold applyTransactions at h
  generalize 0 = k at h
  generalize block.userTransactions = trxs at h ⊢
  induction trxs generalizing l k with
  | nil =>
    rw [List.zipIdx_nil, foldlM_nil_eq_ok] at h
    subst h
    exact .refl hindex
  | cons trx trxs ih =>
    rw [List.zipIdx_cons, foldlM_cons_eq_ok] at h
    obtain ⟨u, hu, ht⟩ := h
    simp only [applyTransaction, bind_eq_ok] at hu
    obtain ⟨t, heval, hstore⟩ := hu
    have hfirst := evaluate_grows heval hindex
    have hstored := hfirst.trans ((storeTransaction_same hstore).grows hfirst.index)
    rw [List.append_nil] at hstored
    exact hstored.trans (ih hstored.index _ ht)

theorem recordSlot_same (r : SlotRecord) : SameAssets l (recordSlot db l r) := by
  unfold recordSlot
  split <;> exact ⟨rfl, rfl, rfl⟩

theorem countProduced_same (h : countProduced db block signee l = .ok l') : SameAssets l l' := by
  simp only [countProduced, eq_ok_iff] at h
  obtain ⟨_, _, _, _, r, _, d, _, _, _, stored, hstore, rfl⟩ := h
  exact (storeAccountRecord_same hstore).trans (recordSlot_same _)

variable {timestamp : Nat} {quoteId baseId : Int}

theorem countMissed_same {active : List Int} (h : countMissed db active l timestamp = .ok l') :
    SameAssets l l' := by
  simp only [countMissed, eq_ok_iff] at h
  obtain ⟨_, _, r, _, d, _, stored, hstore, rfl⟩ := h
  exact (storeAccountRecord_same hstore).trans (recordSlot_same _)

theorem updateDelegateProductionInfo_same
    (h : updateDelegateProductionInfo db block signee l = .ok l') : SameAssets l l' := by
  simp only [updateDelegateProductionInfo, eq_ok_iff] at h
  obtain ⟨produced, hproduced, _, _, active, _, counted, hcounted, rfl⟩ := h
  have hmissed : SameAssets l counted :=
    foldlM_keeps (P := fun u => SameAssets l u)
      (fun _ _ _ _ hu hv => hu.trans (countMissed_same hv)) (countProduced_same hproduced) hcounted
  exact hmissed.trans ⟨rfl, lookup_lastAssetId (by decide) _, rfl⟩

theorem payDelegate_grows {blockId : Nat} {record : BlockRecord}
    (h : payDelegate db l signee blockId = .ok (l', record)) (hindex : l.symbolIdIndex = ∅) :
    Grows (.database db) l [] l' := by
  simp only [payDelegate, eq_ok_iff, Prod.mk.injEq] at h
  obtain ⟨base, hbase, _, _, r, _, d, _, _, _, p, _, paid, hpaid, _, _, rfl, _⟩ := h
  have hstored : Grows (.database db) l [] paid := (storeAccountRecord_same hpaid).grows hindex
  obtain ⟨_, _, _, rfl⟩ := storeAccountRecord_ok hpaid
  rw [← getAssetRecord_id hbase] at hbase
  exact hstored.trans (.restate hindex rfl hbase rfl ⟨_, _, _, rfl⟩ rfl rfl)

theorem marketTraded_changes {new : AssetRecord → Prop}
    (h : MarketTraded (.pending l prev) (.pending l' prev) quoteId baseId)
    (hpair : baseId ≠ quoteId)
    (hlast : l'.properties.lookup .lastAssetId = l.properties.lookup .lastAssetId) :
    Changes new (assetsOf (.pending l prev)) [] (assetsOf (.pending l' prev)) := by
  obtain ⟨a, b, ha, hb, hquote⟩ := h.quote
  obtain ⟨c, d, hc, hd, hbase⟩ := h.base
  have hfirst : Change new (assetsOf (.pending l prev)) [] _ :=
    .restated quoteId a b ha (restated_of_traded hquote)
  have hknown : Function.update (assetsOf (.pending l prev)).records quoteId (some b) baseId =
      some c := by
    rw [Function.update_of_ne hpair]
    exact hc
  have hend : assetsOf (.pending l' prev) =
      ⟨Function.update (Function.update (assetsOf (.pending l prev)).records quoteId (some b)) baseId
        (some d), (assetsOf (.pending l prev)).last⟩ := by
    unfold assetsOf
    rw [AssetBook.mk.injEq]
    refine ⟨?_, by rw [lastAssetId_congr prev hlast]⟩
    funext id
    rw [Function.update_apply, Function.update_apply]
    split
    next hid => rw [hid, hd]
    next hid =>
      split
      next hid' => rw [hid', hb]
      next hid' => exact h.others id hid' hid
  rw [hend]
  exact hfirst.changes.tail (.restated baseId c d hknown (restated_of_collected hbase))

theorem runAndApply_settings {m : Market} {e : EngineState} {trxs : List MarketTransaction}
    (hopen : openMarket (.pending l prev) quoteId baseId = .ok (m, e))
    (hrun : runAndApply m e l prev timestamp = .ok (l', trxs)) :
    l'.properties.lookup .lastAssetId = l.properties.lookup .lastAssetId ∧
      l'.symbolIdIndex = l.symbolIdIndex := by
  simp only [runAndApply, eq_ok_iff, Prod.mk.injEq] at hrun
  obtain ⟨e', he', _, happly, rfl, -⟩ := hrun
  have hview := BlockLayer.runMarket_view he'
  have hproperties : e'.layer.properties = ∅ := by
    have hframe := (runMarket_writes he').frame (g := PendingState.properties) fun _ _ hwrite => by
      cases hwrite <;> rfl
    rw [hframe, BlockLayer.openMarket_layer hopen]
  rw [BlockLayer.openMarket_layer hopen] at hview
  simp only [BlockLayer.storedView, Prod.mk.injEq] at hview
  obtain ⟨haccounts, htransactions, -⟩ := hview
  simp only [applyChangesTo, mergeRecords, haccounts, htransactions, hproperties, eq_ok_iff] at happly
  obtain ⟨t, ht, t', ht', rfl⟩ := happly
  cases ht
  cases ht'
  exact ⟨lookup_lastAssetId (by decide) _, rfl⟩

theorem execute_grows {trxs : List MarketTransaction}
    (h : execute l prev quoteId baseId timestamp = .ok (l', trxs)) (hpair : baseId ≠ quoteId)
    (hindex : l.symbolIdIndex = ∅) : Grows prev l [] l' := by
  rcases execute_cases h with ⟨status, rfl⟩ | ⟨m, e, hopen, hrun⟩
  · exact SameAssets.grows ⟨rfl, rfl, rfl⟩ hindex
  · obtain ⟨hlast, hsame⟩ := runAndApply_settings hopen hrun
    exact ⟨marketTraded_changes (runAndApply_traded hopen hrun) hpair hlast, hsame.trans hindex⟩

theorem executeMarkets_grow (h : executeMarkets db l timestamp = .ok l')
    (hindex : l.symbolIdIndex = ∅) : Grows (.database db) l [] l' := by
  refine executeMarkets_keeps (I := Grows (.database db) l []) ?_ ?_ h (.refl hindex)
  · intro u u' quoteId baseId trxs hpair hexecute hu
    exact hu.trans (execute_grows hexecute (ne_of_lt hpair) hu.index)
  · intro u trxs hu
    exact hu.trans (SameAssets.grows ⟨rfl, rfl, rfl⟩ hu.index)

theorem blockLayers_grow {produced paid middle applied layer : PendingState}
    (h : BlockLayers block db signee produced paid middle applied layer) :
    Grows (.database db) {} (block.userTransactions.flatMap fun trx => made trx.operations) layer := by
  obtain ⟨record, hpays⟩ := h.pays
  have hproduced : Grows (.database db) {} [] produced :=
    (updateDelegateProductionInfo_same h.produces).grows rfl
  have hpaid := hproduced.trans (payDelegate_grows hpays hproduced.index)
  have happlied : Grows (.database db) {}
      (block.userTransactions.flatMap fun trx => made trx.operations) applied := by
    have hfills := h.fills
    unfold Filled at hfills
    split_ifs at hfills
    · have hmiddle := hpaid.trans (applyTransactions_grow hfills.1 hpaid.index)
      have hmarkets := hmiddle.trans (executeMarkets_grow hfills.2 hmiddle.index)
      rwa [List.append_nil] at hmarkets
    · have hmarkets := hpaid.trans (executeMarkets_grow hfills.1 hpaid.index)
      exact hmarkets.trans (applyTransactions_grow hfills.2 hmarkets.index)
  obtain ⟨properties, hlayer, hkeep⟩ := h.finishes
  have hend : Grows (.database db) applied [] layer := by
    rw [hlayer]
    exact SameAssets.grows ⟨rfl, hkeep .lastAssetId (by decide) (by decide), rfl⟩ happlied.index
  have hall := happlied.trans hend
  rwa [List.append_nil] at hall

/-- No record of a database is null, which is how its store function removes one. -/
def NoNullAsset (db : ChainDatabase) : Prop := ∀ id a, db.assetDb.lookup id = some a → ¬ a.isNull

theorem applied_assets {d : ChainDatabase} (h : Applied l db d) (hnull : NoNullAsset db) :
    assetsOf (.database d) = (assetsOf (.pending l (.database db))).stored := by
  unfold assetsOf AssetBook.stored
  rw [AssetBook.mk.injEq]
  constructor
  · funext id
    change d.assetDb.lookup id = ((l.assets.lookup id).or (db.assetDb.lookup id)).bind _
    rw [h.assets]
    unfold overlay
    cases hown : l.assets.rows.lookup id with
    | some a =>
      rw [show l.assets.lookup id = some a from hown]
      rfl
    | none =>
      rw [show l.assets.lookup id = none from hown, Option.none_or]
      cases hbelow : db.assetDb.lookup id with
      | none => rfl
      | some a => exact (dropNull_eq_self.mpr (hnull id a hbelow)).symm
  · unfold ChainInterface.lastAssetId ChainInterface.getIntProperty ChainInterface.getProperty
    simp only [ChainInterface.find, h.properties .lastAssetId (by decide), overlay]
    cases hown : l.properties.lookup .lastAssetId with
    | none => rw [Option.none_or]
    | some v => cases v <;> rfl

theorem extendChain_assets (h : extendChain block db = .ok () db') (hnull : NoNullAsset db) :
    ∃ book, Changes (Free (.database db)) (assetsOf (.database db))
        (block.userTransactions.flatMap fun trx => made trx.operations) book ∧
      assetsOf (.database db') = book.stored := by
  obtain ⟨signee, produced, paid, middle, applied, layer, d, u, hlayers, ⟨_, _, _, rfl⟩, happlied,
    ⟨forks, numbers, rfl⟩⟩ := extendChain_parts h
  have hgrow := (blockLayers_grow hlayers).changes
  have hstored := applied_assets happlied hnull
  exact ⟨_, hgrow, hstored⟩

end Block

theorem extendChain_numbered {db db' : ChainDatabase} {block : FullBlock}
    (h : extendChain block db = .ok () db') (hnull : NoNullAsset db)
    (hdb : Numbered (assetsOf (.database db))) :
    NoNullAsset db' ∧ Numbered (assetsOf (.database db')) := by
  obtain ⟨book, hchanges, hstored⟩ := extendChain_assets h hnull
  have hbook : Numbered book := hchanges.keeps (fun _ _ _ hstep => hstep.numbered) hdb
  constructor
  · intro id a ha
    have hread : (assetsOf (.database db')).records id = some a := ha
    rw [hstored, AssetBook.stored_eq_some] at hread
    exact hread.2
  · rw [hstored]
    exact ⟨fun id a ha => hbook.records id a (AssetBook.stored_eq_some.mp ha).1, hbook.last⟩

end Bts.Blockchain.AssetHistory
