import Bts.Blockchain.LayerColumns

namespace Bts.Blockchain.LayerStacks

open Base Result Exec Maps Overlay Errors Amounts Records MarketRecords Transactions Pending
  Database Layers AccountStore Changes ApplySpec UndoApply BlockLayer LayerColumns

def market : LayerCall → Option AssetPair
  | .bid key _ | .relativeBid key _ | .ask key _ | .relativeAsk key _ | .short key _ => some key.assetPair
  | .collateral key _ => some key.assetPair
  | _ => none

def marks : LayerCall → Option AssetPair
  | .marketDirty quoteId baseId => some (quoteId, baseId)
  | call => market call

theorem marks_of_market {call : LayerCall} {p : AssetPair} (h : market call = some p) :
    marks call = some p := by
  cases call <;> first | exact h | cases h

theorem marks_cases {call : LayerCall} {p : AssetPair} (h : marks call = some p) :
    call = .marketDirty p.1 p.2 ∨ market call = some p := by
  cases call with
  | marketDirty quoteId baseId =>
    cases h
    exact Or.inl rfl
  | _ => exact Or.inr h

section Model

variable [Fc] {db d d' : ChainDatabase} {prev below : ChainInterface} {l l' s t top : PendingState}
  {rest layers : List PendingState} {calls : List LayerCall} {callss : List (List LayerCall)}

def onto (db : ChainDatabase) (layers : List PendingState) : ChainInterface :=
  layers.foldr ChainInterface.pending (.database db)

def pushLayer (db : ChainDatabase) (below : List PendingState) (calls : List LayerCall) :
    Except ChainError (List PendingState) := do
  let layer ← calls.foldlM (LayerCall.store (onto db below)) {}
  pure (layer :: below)

/-- The topmost layer is applied to the one below, and so on. -/
def mergeDown (db : ChainDatabase) : PendingState → List PendingState → Except ChainError PendingState
  | top, [] => pure top
  | top, next :: rest => do
    let merged ← applyChangesTo top next (onto db rest)
    mergeDown db merged rest

/-- The layers are applied one to the other, and the last one to the database. -/
def applyStack : List PendingState → DbAction Unit
  | [] => pure ()
  | top :: below => do
    let db ← read id
    let layer ← lift (mergeDown db top below)
    applyChanges layer

section Columns

variable {K V : Type} [DecidableEq K] (col : Column K V)

def write (f : K → Option V) (call : LayerCall) : K → Option V :=
  (col.writes call).elim f fun w => Function.update f w.1 (some w.2)

theorem own_store {call : LayerCall} (h : call.store prev l = .ok l') :
    col.own l' = write col (col.own l) call := by
  obtain ⟨keys, unique, rfl⟩ := store_effect h
  exact col.own_effect l keys unique call

theorem own_run (h : calls.foldlM (LayerCall.store prev) l = .ok l') :
    col.own l' = calls.foldl (write col) (col.own l) := by
  induction calls, l, h using foldlM_induct with
  | nil => rfl
  | cons call calls l u hu h ih =>
    rw [ih, own_store col hu]
    rfl

theorem write_or (f g : K → Option V) (call : LayerCall) :
    write col (fun k => (f k).or (g k)) call = fun k => (write col f call k).or (g k) := by
  unfold write
  cases col.writes call with
  | none => rfl
  | some w =>
    funext k
    change Function.update (fun k => (f k).or (g k)) w.1 (some w.2) k =
      (Function.update f w.1 (some w.2) k).or (g k)
    rw [Function.update_apply, Function.update_apply]
    split <;> rfl

theorem writes_or (f g : K → Option V) (calls : List LayerCall) :
    calls.foldl (write col) (fun k => (f k).or (g k)) =
      fun k => (calls.foldl (write col) f k).or (g k) := by
  induction calls generalizing f with
  | nil => rfl
  | cons call calls ih => rw [List.foldl_cons, write_or, ih, List.foldl_cons]

theorem own_layers (h : callss.foldlM (pushLayer db) rest = .ok layers) (k : K) :
    layers.findSome? (col.own · k) =
      callss.flatten.foldl (write col) (fun k => rest.findSome? (col.own · k)) k := by
  induction callss, rest, h using foldlM_induct with
  | nil => rfl
  | cons calls callss rest filled hpush h ih =>
    simp only [pushLayer, eq_ok_iff] at hpush
    obtain ⟨layer, hlayer, rfl⟩ := hpush
    have hown : (fun k => (layer :: rest).findSome? (col.own · k)) =
        calls.foldl (write col) fun k => rest.findSome? (col.own · k) := by
      have hempty : col.own {} = fun _ => none := funext col.own_empty
      have hor := writes_or col (fun _ => none) (fun k => rest.findSome? (col.own · k)) calls
      simp only [Option.none_or] at hor
      rw [hor, ← hempty, ← own_run col hlayer]
      funext k
      rw [List.findSome?_cons]
      cases col.own layer k <;> rfl
    rw [ih, List.flatten_cons, List.foldl_append, hown]

theorem own_mergeDown (h : mergeDown db top rest = .ok l) (k : K) :
    col.own l k = (top :: rest).findSome? (col.own · k) := by
  induction rest generalizing top with
  | nil =>
    simp only [mergeDown, pure_eq_ok] at h
    rw [h, List.findSome?_cons]
    cases col.own l k <;> rfl
  | cons next rest ih =>
    simp only [mergeDown, bind_eq_ok] at h
    obtain ⟨u, hu, h⟩ := h
    obtain ⟨index, keys, unique, rfl⟩ := applyChangesTo_merged hu
    rw [ih h, List.findSome?_cons, col.own_merged, List.findSome?_cons, List.findSome?_cons]
    cases col.own top k <;> rfl

theorem own_stack (h : callss.foldlM (pushLayer db) [] = .ok (top :: rest))
    (hmerge : mergeDown db top rest = .ok l)
    (hone : callss.flatten.foldlM (LayerCall.store prev) {} = .ok s) : col.own l = col.own s := by
  funext k
  have hempty : col.own {} = fun _ => none := funext col.own_empty
  rw [own_mergeDown col hmerge, own_layers col h, own_run col hone, hempty]
  rfl

theorem base_stack (hl : applyChanges l db = .ok () d) (hs : applyChanges s db = .ok () d')
    (hown : col.own l = col.own s) (k : K) : col.base d k = col.base d' k := by
  rw [col.base_apply hl, col.base_apply hs, hown]

theorem own_isSome_store {call : LayerCall} (h : call.store prev l = .ok l') (k : K) :
    (col.own l' k).isSome ↔ (col.own l k).isSome ∨ ∃ v, col.writes call = some (k, v) := by
  rw [own_store col h]
  unfold write
  cases col.writes call with
  | none => simp
  | some w =>
    obtain ⟨j, v⟩ := w
    change (Function.update (col.own l) j (some v) k).isSome ↔ _
    by_cases hk : k = j
    · simp [hk]
    · have hkj : j ≠ k := fun he => hk he.symm
      simp [hk, hkj]

end Columns

section Dirty

variable {p : AssetPair}

theorem mem_storedPairs : p ∈ storedPairs l ↔ ∃ key : MarketIndexKey, key.assetPair = p ∧
    ((bids.own l key).isSome ∨ (relativeBids.own l key).isSome ∨ (asks.own l key).isSome ∨
      (relativeAsks.own l key).isSome ∨ (shorts.own l key).isSome ∨
      (collateral.own l key).isSome) := by
  have hkeys {V : Type} (m : Map MarketIndexKey V) (key : MarketIndexKey) :
      key ∈ m.keys ↔ (m.lookup key).isSome := by
    rw [← AList.mem_keys, AList.lookup_isSome]
  simp only [storedPairs, List.mem_map, List.mem_append, hkeys, or_assoc]
  exact exists_congr fun key => and_comm

variable {call : LayerCall}

theorem market_eq_some : market call = some p ↔
    ∃ key : MarketIndexKey, key.assetPair = p ∧ ((∃ v, bids.writes call = some (key, v)) ∨
      (∃ v, relativeBids.writes call = some (key, v)) ∨ (∃ v, asks.writes call = some (key, v)) ∨
      (∃ v, relativeAsks.writes call = some (key, v)) ∨ (∃ v, shorts.writes call = some (key, v)) ∨
      (∃ v, collateral.writes call = some (key, v))) := by
  cases call <;> simp [market, bids, relativeBids, asks, relativeAsks, shorts, collateral, mapColumn]

theorem storedPairs_store (h : call.store prev l = .ok l') :
    p ∈ storedPairs l' ↔ p ∈ storedPairs l ∨ market call = some p := by
  rw [mem_storedPairs, mem_storedPairs, market_eq_some, ← exists_or]
  refine exists_congr fun key => ?_
  rw [own_isSome_store _ h, own_isSome_store _ h, own_isSome_store _ h, own_isSome_store _ h,
    own_isSome_store _ h, own_isSome_store _ h, ← and_or_left]
  refine and_congr_right fun _ => ?_
  tauto

theorem dirtyMarkets_store (h : call.store prev l = .ok l') :
    p ∈ l'.dirtyMarkets ↔ p ∈ l.dirtyMarkets ∨ marks call = some p := by
  obtain ⟨keys, unique, rfl⟩ := store_effect h
  have hinsert (q : AssetPair) :
      p ∈ l.dirtyMarkets.insert q ↔ p ∈ l.dirtyMarkets ∨ some q = some p := by
    rw [List.mem_insert_iff, or_comm, Option.some.injEq, eq_comm]
  cases call with
  | bid key r | relativeBid key r | ask key r | relativeAsk key r | short key r => exact hinsert _
  | collateral key r => exact hinsert _
  | marketDirty quoteId baseId => exact hinsert _
  | _ => exact (or_iff_left (by simp [marks, market])).symm

theorem mem_run {pairs : PendingState → List AssetPair} {of : LayerCall → Option AssetPair}
    (hstep : ∀ call l l', LayerCall.store prev l call = .ok l' →
      (p ∈ pairs l' ↔ p ∈ pairs l ∨ of call = some p))
    (h : calls.foldlM (LayerCall.store prev) l = .ok l') :
    p ∈ pairs l' ↔ p ∈ pairs l ∨ ∃ call ∈ calls, of call = some p := by
  induction calls, l, h using foldlM_induct with
  | nil => simp
  | cons call calls l u hu h ih =>
    rw [ih, hstep call l u hu, List.exists_mem_cons_iff, or_assoc]

theorem dirtyMarkets_run (h : calls.foldlM (LayerCall.store prev) {} = .ok l) :
    p ∈ l.dirtyMarkets ↔ ∃ call ∈ calls, marks call = some p := by
  rw [mem_run (fun _ _ _ => dirtyMarkets_store) h]
  exact or_iff_right List.not_mem_nil

theorem storedPairs_run (h : calls.foldlM (LayerCall.store prev) {} = .ok l) :
    p ∈ storedPairs l ↔ ∃ call ∈ calls, market call = some p := by
  rw [mem_run (fun _ _ _ => storedPairs_store) h]
  exact or_iff_right List.not_mem_nil

omit [Fc] in
theorem mem_addPairs {pairs dirty : List AssetPair} :
    p ∈ addPairs pairs dirty ↔ p ∈ dirty ∨ p ∈ pairs := by
  unfold addPairs
  induction pairs generalizing dirty with
  | nil => simp
  | cons q pairs ih =>
    rw [List.foldl_cons, ih, List.mem_insert_iff, List.mem_cons]
    tauto

theorem storedPairs_merged {index : Map String Int} {keys : Map Nat Int} {unique : Finset Nat} :
    p ∈ storedPairs (merged s t index keys unique) ↔ p ∈ storedPairs s ∨ p ∈ storedPairs t := by
  rw [mem_storedPairs, mem_storedPairs, mem_storedPairs, ← exists_or]
  refine exists_congr fun key => ?_
  rw [Column.own_merged, Column.own_merged, Column.own_merged, Column.own_merged,
    Column.own_merged, Column.own_merged, ← and_or_left]
  refine and_congr_right fun _ => ?_
  simp only [Option.isSome_or, Bool.or_eq_true]
  tauto

/-- The markets that are dirty when the layers are merged: those of the lowest layer, and those
of the orders and positions of the others. -/
theorem dirtyMarkets_mergeDown (h : mergeDown db top rest = .ok l) :
    p ∈ l.dirtyMarkets ↔ p ∈ ((top :: rest).getLast (List.cons_ne_nil _ _)).dirtyMarkets ∨
      ∃ upper ∈ (top :: rest).dropLast, p ∈ storedPairs upper := by
  induction rest generalizing top with
  | nil =>
    simp only [mergeDown, pure_eq_ok] at h
    simp [h]
  | cons next rest ih =>
    simp only [mergeDown, bind_eq_ok] at h
    obtain ⟨u, hu, h⟩ := h
    obtain ⟨index, keys, unique, rfl⟩ := applyChangesTo_merged hu
    rw [ih h]
    cases rest with
    | nil =>
      simp [merged, mergeRecords, PendingState.setDirtyMarkets, PendingState.setProperty, mem_addPairs]
    | cons third rest =>
      simp only [List.getLast_cons_cons, List.dropLast_cons_cons, List.exists_mem_cons_iff,
        storedPairs_merged]
      tauto

end Dirty

section Returns

/-- The accounts of a layer have their keys and its transactions their digests, which differ, and
it leaves the chain its id. -/
structure Mergeable (db : ChainDatabase) (l : PendingState) : Prop where
  signed : ∀ k r, l.accounts.lookup k = some r → HasSigningKey r
  digests : ∀ id r, l.transactions.lookup id = some r →
    r.trx.digest db.chainId ∈ l.uniqueTransactions
  distinct : forkBlockNumV0426 ≤ db.getHeadBlockNum → ∀ id id' r r',
    l.transactions.lookup id = some r → l.transactions.lookup id' = some r' →
    r.trx.digest db.chainId = r'.trx.digest db.chainId → id = id'
  chain : l.properties.lookup .chainId = none

structure OnChain (db : ChainDatabase) (prev : ChainInterface) : Prop where
  head : prev.getHeadBlockNum = db.getHeadBlockNum
  chain : chainIdOf prev = .ok db.chainId

theorem onChain_onto (hchain : ChainIdStored db) (h : ∀ l ∈ layers, Mergeable db l) :
    OnChain db (onto db layers) := by
  induction layers with
  | nil => exact ⟨rfl, hchain⟩
  | cons l layers ih =>
    rw [List.forall_mem_cons] at h
    obtain ⟨hhead, hid⟩ := ih h.2
    refine ⟨hhead, ?_⟩
    have hproperty : (onto db (l :: layers)).getProperty .chainId =
        (onto db layers).getProperty .chainId := by
      change orThrow ((l.properties.lookup .chainId).or _) _ = _
      rw [h.1.chain]
      rfl
    unfold chainIdOf at hid ⊢
    rw [hproperty]
    exact hid

def digestOf (db : ChainDatabase) : LayerCall → Option Nat
  | .transaction _ r => some (r.trx.digest db.chainId)
  | _ => none

def digestsOf (db : ChainDatabase) (calls : List LayerCall) : List Nat :=
  calls.filterMap (digestOf db)

theorem unique_store {call : LayerCall} (hprev : OnChain db prev) (h : call.store prev l = .ok l') :
    l'.uniqueTransactions = l.uniqueTransactions ∪ (digestsOf db [call]).toFinset ∧
      (forkBlockNumV0426 ≤ db.getHeadBlockNum →
        ∀ x, digestOf db call = some x → x ∉ l.uniqueTransactions) := by
  cases call with
  | transaction id r =>
    obtain ⟨chainId, hchain, hfresh, rfl⟩ := storeTransaction_fields h
    obtain rfl : db.chainId = chainId := Except.ok.inj (hprev.chain.symm.trans hchain)
    refine ⟨?_, fun hfork x hx hmem => ?_⟩
    · simp [digestsOf, digestOf]
    · cases hx
      rw [hprev.head] at hfresh
      exact hfresh ⟨hfork, hmem⟩
  | account r =>
    obtain ⟨keys, rfl⟩ := RecordWrites.storeAccountRecord_fields h
    exact ⟨(Finset.union_empty _).symm, fun _ x hx => by cases hx⟩
  | _ =>
    cases h
    exact ⟨(Finset.union_empty _).symm, fun _ x hx => by cases hx⟩

theorem unique_run (hprev : OnChain db prev) (h : calls.foldlM (LayerCall.store prev) l = .ok l') :
    l'.uniqueTransactions = l.uniqueTransactions ∪ (digestsOf db calls).toFinset ∧
      (forkBlockNumV0426 ≤ db.getHeadBlockNum → (digestsOf db calls).Nodup ∧
        ∀ x ∈ digestsOf db calls, x ∉ l.uniqueTransactions) := by
  induction calls, l, h using foldlM_induct with
  | nil =>
    exact ⟨(Finset.union_empty _).symm, fun _ => ⟨List.nodup_nil, fun x hx => by cases hx⟩⟩
  | cons call calls l u hu h ih =>
    obtain ⟨hunique, hfresh⟩ := unique_store hprev hu
    obtain ⟨hunique', hdistinct⟩ := ih
    have hcons : digestsOf db (call :: calls) = digestsOf db [call] ++ digestsOf db calls := by
      unfold digestsOf
      rw [← List.filterMap_append, List.singleton_append]
    have hmem {x : Nat} : x ∈ digestsOf db [call] ↔ digestOf db call = some x := by
      simp [digestsOf]
    refine ⟨?_, fun hfork => ?_⟩
    · rw [hunique', hunique, hcons, List.toFinset_append, Finset.union_assoc]
    · obtain ⟨hnodup, hnew⟩ := hdistinct hfork
      rw [hunique] at hnew
      rw [hcons]
      refine ⟨List.nodup_append.mpr ⟨?_, hnodup, ?_⟩, ?_⟩
      · unfold digestsOf
        cases hcall : digestOf db call <;> simp [hcall]
      · rintro x hx y hy rfl
        refine hnew x hy (Finset.mem_union_right _ ?_)
        rwa [List.mem_toFinset]
      · intro x hx
        rcases List.mem_append.mp hx with hx | hx
        · exact hfresh hfork x (hmem.mp hx)
        · exact fun hold => hnew x hx (Finset.mem_union_left _ hold)

theorem mergeable_empty : Mergeable db {} :=
  ⟨fun _ _ hr => (by cases hr), fun _ _ hr => (by cases hr), fun _ _ _ _ _ hr => (by cases hr), rfl⟩

theorem Mergeable.store {call : LayerCall} (h : Mergeable db l) (hprev : OnChain db prev)
    (hcall : ∀ value, call ≠ .property .chainId value) (hs : call.store prev l = .ok l') :
    Mergeable db l' := by
  cases call with
  | account r =>
    obtain ⟨keys, rfl⟩ := RecordWrites.storeAccountRecord_fields hs
    refine ⟨fun k q hq => ?_, h.digests, h.distinct, h.chain⟩
    rw [Table.lookup_store] at hq
    split at hq
    · cases hq
      simp only [LayerCall.store, PendingState.storeAccountRecord, bind_eq_ok] at hs
      obtain ⟨key, hkey, -⟩ := hs
      exact ⟨key, hkey⟩
    · exact h.signed k q hq
  | transaction id r =>
    obtain ⟨chainId, hchain, hfresh, rfl⟩ := storeTransaction_fields hs
    obtain rfl : db.chainId = chainId := Except.ok.inj (hprev.chain.symm.trans hchain)
    rw [hprev.head] at hfresh
    have hlookup (j : Nat) := lookup_insert l.transactions id r j
    refine ⟨h.signed, fun j q hq => ?_, fun hfork j j' q q' hq hq' hsame => ?_, h.chain⟩
    · rw [hlookup] at hq
      split at hq
      · cases hq
        exact Finset.mem_insert_self _ _
      · exact Finset.mem_insert_of_mem (h.digests j q hq)
    · have hnew {i : Nat} {p : TransactionRecord} (hp : l.transactions.lookup i = some p) :
          p.trx.digest db.chainId ≠ r.trx.digest db.chainId := by
        intro he
        exact hfresh ⟨hfork, he ▸ h.digests i p hp⟩
      rw [hlookup] at hq hq'
      split at hq <;> split at hq'
      · rename_i hj hj'
        exact hj.trans hj'.symm
      · cases hq
        exact absurd hsame.symm (hnew hq')
      · cases hq'
        exact absurd hsame (hnew hq)
      · exact h.distinct hfork j j' q q' hq hq' hsame
  | property id value =>
    cases hs
    refine ⟨h.signed, h.digests, h.distinct, ?_⟩
    change AList.lookup .chainId (l.properties.insert id value) = none
    rw [lookup_insert, if_neg]
    · exact h.chain
    · rintro rfl
      exact hcall value rfl
  | _ =>
    cases hs
    exact ⟨h.signed, h.digests, h.distinct, h.chain⟩

theorem Mergeable.run (h : Mergeable db l) (hprev : OnChain db prev)
    (hcalls : ∀ call ∈ calls, ∀ value, call ≠ .property .chainId value)
    (hs : calls.foldlM (LayerCall.store prev) l = .ok l') : Mergeable db l' :=
  foldlM_keeps (fun call hcall _ _ hl hu => hl.store hprev (hcalls call hcall) hu) h hs

theorem foldlM_storeAccountRecord_returns {entries : List (Σ _ : Int, AccountRecord)}
    (h : ∀ e ∈ entries, HasSigningKey e.2) :
    ∃ l, entries.foldlM (fun t e => PendingState.storeAccountRecord t e.2) t = .ok l := by
  induction entries generalizing t with
  | nil => exact ⟨t, rfl⟩
  | cons e entries ih =>
    rw [List.forall_mem_cons] at h
    obtain ⟨key, hkey⟩ := h.1
    have hstore : ∃ u, t.storeAccountRecord e.2 = .ok u := by
      unfold PendingState.storeAccountRecord
      rw [hkey]
      exact ⟨_, rfl⟩
    obtain ⟨u, hu⟩ := hstore
    obtain ⟨l, hl⟩ := ih h.2
    exact ⟨l, foldlM_cons_eq_ok.mpr ⟨u, hu, hl⟩⟩

theorem foldlM_storeTransaction_returns {entries : List (Σ _ : Nat, TransactionRecord)}
    (hbelow : OnChain db below)
    (hdistinct : forkBlockNumV0426 ≤ db.getHeadBlockNum →
      entries.Pairwise fun e e' => e.2.trx.digest db.chainId ≠ e'.2.trx.digest db.chainId)
    (hfresh : forkBlockNumV0426 ≤ db.getHeadBlockNum →
      ∀ e ∈ entries, e.2.trx.digest db.chainId ∉ t.uniqueTransactions) :
    ∃ l, entries.foldlM (fun t e => storeTransaction below t e.1 e.2) t = .ok l ∧
      l.uniqueTransactions = t.uniqueTransactions ∪
        (entries.map fun e => e.2.trx.digest db.chainId).toFinset := by
  induction entries generalizing t with
  | nil => exact ⟨t, rfl, (Finset.union_empty _).symm⟩
  | cons e entries ih =>
    obtain ⟨u, hu, hstored⟩ : ∃ u, storeTransaction below t e.1 e.2 = .ok u ∧
        u.uniqueTransactions = insert (e.2.trx.digest db.chainId) t.uniqueTransactions := by
      simp only [storeTransaction, eq_ok_iff]
      refine ⟨_, ⟨db.chainId, hbelow.chain, (), ?_, rfl⟩, rfl⟩
      rw [hbelow.head]
      exact fun hdup => hfresh hdup.1 e List.mem_cons_self hdup.2
    have hnext (hfork : forkBlockNumV0426 ≤ db.getHeadBlockNum) :
        ∀ e' ∈ entries, e'.2.trx.digest db.chainId ∉ u.uniqueTransactions := by
      intro e' he'
      rw [hstored, Finset.mem_insert, not_or]
      exact ⟨((List.pairwise_cons.mp (hdistinct hfork)).1 e' he').symm,
        hfresh hfork e' (List.mem_cons_of_mem _ he')⟩
    obtain ⟨l, hl, hunique⟩ := ih (fun hfork => (List.pairwise_cons.mp (hdistinct hfork)).2) hnext
    refine ⟨l, foldlM_cons_eq_ok.mpr ⟨u, hu, hl⟩, ?_⟩
    rw [hunique, hstored]
    ext x
    simp only [Finset.mem_union, Finset.mem_insert, List.map_cons, List.toFinset_cons]
    tauto

theorem Mergeable.merged {index : Map String Int} {keys : Map Nat Int} {unique : Finset Nat}
    (hs : Mergeable db s) (ht : Mergeable db t)
    (hdisjoint : forkBlockNumV0426 ≤ db.getHeadBlockNum →
      Disjoint s.uniqueTransactions t.uniqueTransactions)
    (hnew : ∀ id r, s.transactions.lookup id = some r → r.trx.digest db.chainId ∈ unique)
    (hold : t.uniqueTransactions ⊆ unique) : Mergeable db (merged s t index keys unique) := by
  have hlookup {id : Nat} {r : TransactionRecord}
      (hr : (merge s.transactions t.transactions).lookup id = some r) :
      s.transactions.lookup id = some r ∨ t.transactions.lookup id = some r := by
    rw [lookup_merge, Option.or_eq_some_iff] at hr
    exact hr.imp_right And.right
  have hapart {id id' : Nat} {r r' : TransactionRecord}
      (hfork : forkBlockNumV0426 ≤ db.getHeadBlockNum) (hr : s.transactions.lookup id = some r)
      (hr' : t.transactions.lookup id' = some r') :
      r.trx.digest db.chainId ≠ r'.trx.digest db.chainId := by
    intro hsame
    exact Finset.disjoint_left.mp (hdisjoint hfork) (hs.digests id r hr) (hsame ▸ ht.digests id' r' hr')
  refine ⟨fun k r hr => ?_, fun id r hr => ?_, fun hfork id id' r r' hr hr' hsame => ?_, ?_⟩
  · change (mergeTable s.accounts t.accounts).lookup k = some r at hr
    rw [lookup_mergeTable, Option.or_eq_some_iff] at hr
    exact hr.elim (hs.signed k r) fun hr => ht.signed k r hr.2
  · exact (hlookup hr).elim (hnew id r) fun hr => hold (ht.digests id r hr)
  · rcases hlookup hr with hr | hr <;> rcases hlookup hr' with hr' | hr'
    · exact hs.distinct hfork id id' r r' hr hr' hsame
    · exact absurd hsame (hapart hfork hr hr')
    · exact absurd hsame.symm (hapart hfork hr' hr)
    · exact ht.distinct hfork id id' r r' hr hr' hsame
  · change AList.lookup .chainId ((merge s.properties t.properties).insert .dirtyMarkets _) = none
    rw [lookup_insert, if_neg (by decide), lookup_merge, hs.chain, ht.chain]
    rfl

theorem applyChangesTo_returns (hs : Mergeable db s) (ht : Mergeable db t)
    (hdisjoint : forkBlockNumV0426 ≤ db.getHeadBlockNum →
      Disjoint s.uniqueTransactions t.uniqueTransactions) (hbelow : OnChain db below) :
    ∃ l, applyChangesTo s t below = .ok l ∧ Mergeable db l ∧
      l.uniqueTransactions ⊆ s.uniqueTransactions ∪ t.uniqueTransactions := by
  obtain ⟨u, hu⟩ : ∃ u, s.accounts.rows.entries.foldlM
      (fun t e => PendingState.storeAccountRecord t e.2) t = .ok u :=
    foldlM_storeAccountRecord_returns fun e he => hs.signed e.1 e.2 (lookup_of_mem he)
  obtain ⟨index, keys, hfields⟩ := foldlM_storeAccountRecord hu
  have hunchanged : u.uniqueTransactions = t.uniqueTransactions := by rw [hfields]
  have hdigest (e) (he : e ∈ s.transactions.entries) :
      e.2.trx.digest db.chainId ∈ s.uniqueTransactions := hs.digests e.1 e.2 (lookup_of_mem he)
  have hdistinct (hfork : forkBlockNumV0426 ≤ db.getHeadBlockNum) : s.transactions.entries.Pairwise
      fun e e' => e.2.trx.digest db.chainId ≠ e'.2.trx.digest db.chainId := by
    have hkeys := List.nodupKeys_iff_pairwise.mp s.transactions.nodupKeys
    refine hkeys.imp_of_mem fun he he' hne hsame => hne ?_
    exact hs.distinct hfork _ _ _ _ (lookup_of_mem he) (lookup_of_mem he') hsame
  have hfresh (hfork : forkBlockNumV0426 ≤ db.getHeadBlockNum) :
      ∀ e ∈ s.transactions.entries, e.2.trx.digest db.chainId ∉ u.uniqueTransactions := by
    intro e he
    rw [hunchanged]
    exact Finset.disjoint_left.mp (hdisjoint hfork) (hdigest e he)
  obtain ⟨v, hv, hunique⟩ := foldlM_storeTransaction_returns hbelow hdistinct hfresh
  have happly : applyChangesTo s t below = .ok (merged s t index keys v.uniqueTransactions) := by
    simp only [applyChangesTo, eq_ok_iff]
    refine ⟨u, hu, v, hv, ?_⟩
    obtain ⟨unique, rfl⟩ := foldlM_storeTransaction hv
    rw [hfields]
    rfl
  rw [hunchanged] at hunique
  have hmem (e) (he : e ∈ s.transactions.entries) :
      e.2.trx.digest db.chainId ∈ v.uniqueTransactions := by
    rw [hunique, Finset.mem_union, List.mem_toFinset]
    exact Or.inr (List.mem_map_of_mem he)
  refine ⟨_, happly, hs.merged ht hdisjoint (fun id r hr => hmem _ (mem_of_lookup hr)) ?_, ?_⟩
  · rw [hunique]
    exact Finset.subset_union_left
  · rw [hunique, Finset.union_comm]
    refine Finset.union_subset_union_left fun x hx => ?_
    rw [List.mem_toFinset, List.mem_map] at hx
    obtain ⟨e, he, rfl⟩ := hx
    exact hdigest e he

theorem mergeDown_returns (hchain : ChainIdStored db) (h : ∀ l ∈ top :: rest, Mergeable db l)
    (hdisjoint : forkBlockNumV0426 ≤ db.getHeadBlockNum →
      (top :: rest).Pairwise fun l l' => Disjoint l.uniqueTransactions l'.uniqueTransactions) :
    ∃ l, mergeDown db top rest = .ok l ∧ Mergeable db l := by
  induction rest generalizing top with
  | nil => exact ⟨top, rfl, h top List.mem_cons_self⟩
  | cons next rest ih =>
    rw [List.forall_mem_cons, List.forall_mem_cons] at h
    obtain ⟨htop, hnext, hrest⟩ := h
    obtain ⟨u, hu, hmerged, hunique⟩ := applyChangesTo_returns htop hnext
      (fun hfork => (List.pairwise_cons.mp (hdisjoint hfork)).1 next List.mem_cons_self)
      (onChain_onto hchain hrest)
    have hapart (hfork : forkBlockNumV0426 ≤ db.getHeadBlockNum) : (u :: rest).Pairwise
        fun l l' => Disjoint l.uniqueTransactions l'.uniqueTransactions := by
      obtain ⟨hfirst, hothers⟩ := List.pairwise_cons.mp (hdisjoint hfork)
      obtain ⟨hsecond, hothers⟩ := List.pairwise_cons.mp hothers
      refine List.pairwise_cons.mpr ⟨fun l hl => ?_, hothers⟩
      refine Disjoint.mono_left hunique (Finset.disjoint_union_left.mpr ⟨?_, hsecond l hl⟩)
      exact hfirst l (List.mem_cons_of_mem _ hl)
    obtain ⟨l, hl, hmergeable⟩ := ih (List.forall_mem_cons.mpr ⟨hmerged, hrest⟩) hapart
    exact ⟨l, bind_eq_ok.mpr ⟨u, hu, hl⟩, hmergeable⟩

theorem pushLayer_ok {below filled : List PendingState} (h : pushLayer db below calls = .ok filled) :
    ∃ l, calls.foldlM (LayerCall.store (onto db below)) {} = .ok l ∧ filled = l :: below := by
  simp only [pushLayer, eq_ok_iff] at h
  obtain ⟨l, hl, rfl⟩ := h
  exact ⟨l, hl, rfl⟩

theorem layers_mergeable (hchain : ChainIdStored db)
    (hplain : ∀ calls ∈ callss, ∀ call ∈ calls, ∀ value, call ≠ .property .chainId value)
    (h : callss.foldlM (pushLayer db) rest = .ok layers) (hrest : ∀ l ∈ rest, Mergeable db l)
    (hdistinct : forkBlockNumV0426 ≤ db.getHeadBlockNum → (digestsOf db callss.flatten).Nodup ∧
      (rest.Pairwise fun l l' => Disjoint l.uniqueTransactions l'.uniqueTransactions) ∧
      ∀ l ∈ rest, Disjoint l.uniqueTransactions (digestsOf db callss.flatten).toFinset) :
    (∀ l ∈ layers, Mergeable db l) ∧ (forkBlockNumV0426 ≤ db.getHeadBlockNum →
      layers.Pairwise fun l l' => Disjoint l.uniqueTransactions l'.uniqueTransactions) := by
  induction callss, rest, h using foldlM_induct with
  | nil => exact ⟨hrest, fun hfork => (hdistinct hfork).2.1⟩
  | cons calls callss rest filled hpush h ih =>
    rw [List.forall_mem_cons] at hplain
    obtain ⟨l, hl, rfl⟩ := pushLayer_ok hpush
    have honto := onChain_onto hchain hrest
    have hmergeable := mergeable_empty.run honto hplain.1 hl
    have hunique : l.uniqueTransactions = (digestsOf db calls).toFinset :=
      (unique_run honto hl).1.trans (Finset.empty_union _)
    have hsplit : digestsOf db (calls :: callss).flatten =
        digestsOf db calls ++ digestsOf db callss.flatten := by
      exact List.filterMap_append
    refine ih hplain.2 (List.forall_mem_cons.mpr ⟨hmergeable, hrest⟩) fun hfork => ?_
    obtain ⟨hnodup, hpairs, hapart⟩ := hdistinct hfork
    rw [hsplit, List.nodup_append] at hnodup
    rw [hsplit, List.toFinset_append] at hapart
    refine ⟨hnodup.2.1, List.pairwise_cons.mpr ⟨fun l' hl' => ?_, hpairs⟩,
      List.forall_mem_cons.mpr ⟨?_, fun l' hl' => ?_⟩⟩
    · rw [hunique]
      exact (Finset.disjoint_union_right.mp (hapart l' hl')).1.symm
    · rw [hunique, Finset.disjoint_left]
      intro x hx hx'
      rw [List.mem_toFinset] at hx hx'
      exact hnodup.2.2 x hx x hx' rfl
    · exact (Finset.disjoint_union_right.mp (hapart l' hl')).2

end Returns

theorem layers_storedPairs (h : callss.foldlM (pushLayer db) rest = .ok layers) :
    ∃ uppers, layers = uppers ++ rest ∧ ∀ p, (∃ upper ∈ uppers, p ∈ storedPairs upper) ↔
      ∃ calls ∈ callss, ∃ call ∈ calls, market call = some p := by
  induction callss, rest, h using foldlM_induct with
  | nil => exact ⟨[], rfl, by simp⟩
  | cons calls callss rest filled hpush h ih =>
    obtain ⟨l, hl, rfl⟩ := pushLayer_ok hpush
    obtain ⟨uppers, rfl, hpairs⟩ := ih
    refine ⟨uppers ++ [l], List.append_cons uppers l rest, fun p => ?_⟩
    rw [List.exists_mem_cons_iff, ← hpairs, ← storedPairs_run hl]
    simp only [List.mem_append, List.mem_singleton, or_and_right, exists_or, exists_eq_left]
    exact or_comm

structure SameRecords (d d' : ChainDatabase) : Prop where
  properties : ∀ k, k ≠ .dirtyMarkets → d.propertyDb.lookup k = d'.propertyDb.lookup k
  assets : ∀ k, d.assetDb.lookup k = d'.assetDb.lookup k
  accounts : ∀ k, d.accountDb.lookup k = d'.accountDb.lookup k
  balances : ∀ k, d.balanceDb.lookup k = d'.balanceDb.lookup k
  authorizations : ∀ k, d.authDb.lookup k = d'.authDb.lookup k
  bids : ∀ k, d.bidDb.lookup k = d'.bidDb.lookup k
  relativeBids : ∀ k, d.relativeBidDb.lookup k = d'.relativeBidDb.lookup k
  asks : ∀ k, d.askDb.lookup k = d'.askDb.lookup k
  relativeAsks : ∀ k, d.relativeAskDb.lookup k = d'.relativeAskDb.lookup k
  shorts : ∀ k, d.shortDb.lookup k = d'.shortDb.lookup k
  collateral : ∀ k, d.collateralDb.lookup k = d'.collateralDb.lookup k
  transactions : ∀ k, d.idToTransactionRecordDb.lookup k = d'.idToTransactionRecordDb.lookup k
  slates : ∀ k, d.slateDb.lookup k = d'.slateDb.lookup k
  slots : ∀ k, d.slotRecordDb.lookup k = d'.slotRecordDb.lookup k
  marketHistory : ∀ k, d.marketHistoryDb.lookup k = d'.marketHistoryDb.lookup k
  marketStatuses : ∀ k, d.marketStatusDb.lookup k = d'.marketStatusDb.lookup k
  feeds : ∀ k, d.feedDb.lookup k = d'.feedDb.lookup k
  burns : ∀ k, d.burnDb.lookup k = d'.burnDb.lookup k

theorem sameRecords_of_own (hl : applyChanges l db = .ok () d) (hs : applyChanges s db = .ok () d')
    (hown : ∀ {K V : Type} [DecidableEq K] (col : Column K V), col.own l = col.own s) :
    SameRecords d d' := by
  have hbase {K V : Type} [DecidableEq K] (col : Column K V) (k : K) : col.base d k = col.base d' k :=
    base_stack col hl hs (hown col) k
  refine ⟨fun k hk => ?_, hbase assets, hbase accounts, hbase balances, hbase authorizations,
    hbase bids, hbase relativeBids, hbase asks, hbase relativeAsks, hbase shorts, hbase collateral,
    hbase transactions, hbase slates, hbase slots, hbase marketHistory, hbase marketStatuses,
    hbase feeds, hbase burns⟩
  have hproperty := hbase properties k
  simpa only [properties, if_neg hk] using hproperty

theorem applyChanges_mergeDown {one : PendingState} (hmerged : Mergeable db l)
    (hone : applyChanges one db = .ok () d) (haccounts : accounts.own l = accounts.own one)
    (htransactions : transactions.own l = transactions.own one) :
    ∃ d', applyChanges l db = .ok () d' := by
  have happlied := applyChanges_applied hone
  have hlookup (id : Nat) : l.transactions.lookup id = one.transactions.lookup id :=
    congrFun htransactions id
  have haccount (k : Int) : l.accounts.lookup k = one.accounts.lookup k := congrFun haccounts k
  refine applyChanges_returns ?_ ⟨?_, ?_, hmerged.distinct⟩ happlied.trackStats
  · intro k r hr
    rw [haccount] at hr
    exact applyChanges_accountsStorable hone k r hr
  · intro id r hr
    rw [hlookup] at hr
    exact happlied.ids id r hr
  · intro id r hr
    rw [hlookup] at hr
    exact happlied.fresh id r hr

theorem getDirtyMarkets_applied (h : applyChanges l db = .ok () d) :
    (ChainInterface.database d).getDirtyMarkets = l.dirtyMarkets := by
  have hdirty := applyChanges_dirty h
  unfold ChainInterface.getDirtyMarkets ChainInterface.getProperty ChainInterface.find
  rw [hdirty]
  rfl

/-- Layers that are applied one to the other and then to the database leave the records that one
layer with all of their calls would leave. They leave the dirty markets exactly if each market that
is only marked in an upper layer is dirty in the lowest one or has an order or a position in an
upper one. -/
theorem stacked_layers_iff {bottom : List LayerCall} {uppers : List (List LayerCall)}
    {one : PendingState} (hchain : ChainIdStored db)
    (hplain : ∀ calls ∈ bottom :: uppers, ∀ call ∈ calls, ∀ value, call ≠ .property .chainId value)
    (hlayers : (bottom :: uppers).foldlM (pushLayer db) [] = .ok layers)
    (hone : (bottom :: uppers).flatten.foldlM (LayerCall.store (.database db)) {} = .ok one)
    (hdirect : applyChanges one db = .ok () d) :
    ∃ d', applyStack layers db = .ok () d' ∧ SameRecords d' d ∧
      ((∀ p, p ∈ (ChainInterface.database d').getDirtyMarkets ↔
          p ∈ (ChainInterface.database d).getDirtyMarkets) ↔
        ∀ calls ∈ uppers, ∀ quoteId baseId, .marketDirty quoteId baseId ∈ calls →
          (∃ call ∈ bottom, marks call = some (quoteId, baseId)) ∨
          ∃ calls' ∈ uppers, ∃ call ∈ calls', market call = some (quoteId, baseId)) := by
  have hdatabase : OnChain db (.database db) := ⟨rfl, hchain⟩
  obtain ⟨hmergeable, hdisjoint⟩ := layers_mergeable hchain hplain hlayers
    (fun l hl => absurd hl List.not_mem_nil) fun hfork =>
      ⟨((unique_run hdatabase hone).2 hfork).1, List.Pairwise.nil, fun l hl => absurd hl List.not_mem_nil⟩
  obtain ⟨filled, hpush, huppers⟩ := foldlM_cons_eq_ok.mp hlayers
  obtain ⟨lowest, hlowest, rfl⟩ := pushLayer_ok hpush
  obtain ⟨above, rfl, hpairs⟩ := layers_storedPairs huppers
  obtain ⟨top, rest, hstack⟩ := List.exists_cons_of_ne_nil
    (List.append_ne_nil_of_right_ne_nil above (List.cons_ne_nil lowest []))
  rw [hstack] at hmergeable hdisjoint hlayers ⊢
  obtain ⟨l, hmerge, hmerged⟩ := mergeDown_returns hchain hmergeable hdisjoint
  have hown {K V : Type} [DecidableEq K] (col : Column K V) : col.own l = col.own one :=
    own_stack col hlayers hmerge hone
  obtain ⟨d', hd'⟩ := applyChanges_mergeDown hmerged hdirect (hown accounts) (hown transactions)
  have hrun : applyStack (top :: rest) db = .ok () d' := by
    simp only [applyStack, bind_run_ok, read_run_ok, lift_run_ok]
    exact ⟨db, db, ⟨rfl, rfl⟩, l, db, ⟨hmerge, rfl⟩, hd'⟩
  refine ⟨d', hrun, sameRecords_of_own hd' hdirect fun col => hown col, ?_⟩
  have hmergedDirty (p : AssetPair) : p ∈ (ChainInterface.database d').getDirtyMarkets ↔
      (∃ call ∈ bottom, marks call = some p) ∨
        ∃ calls ∈ uppers, ∃ call ∈ calls, market call = some p := by
    rw [getDirtyMarkets_applied hd', dirtyMarkets_mergeDown hmerge, ← hpairs p,
      ← dirtyMarkets_run hlowest]
    simp only [← hstack, List.getLast_append_singleton, List.dropLast_concat]
  have hdirectDirty (p : AssetPair) : p ∈ (ChainInterface.database d).getDirtyMarkets ↔
      (∃ call ∈ bottom, marks call = some p) ∨
        ∃ calls ∈ uppers, ∃ call ∈ calls, marks call = some p := by
    rw [getDirtyMarkets_applied hdirect, dirtyMarkets_run hone]
    simp only [List.flatten_cons, List.mem_append, List.mem_flatten, or_and_right, exists_or]
    refine or_congr_right ⟨?_, ?_⟩
    · rintro ⟨call, ⟨calls, hcalls, hcall⟩, hmark⟩
      exact ⟨calls, hcalls, call, hcall, hmark⟩
    · rintro ⟨calls, hcalls, call, hcall, hmark⟩
      exact ⟨call, ⟨calls, hcalls, hcall⟩, hmark⟩
  simp only [hmergedDirty, hdirectDirty]
  constructor
  · intro hsame calls hcalls quoteId baseId hcall
    exact (hsame (quoteId, baseId)).mpr (Or.inr ⟨calls, hcalls, _, hcall, rfl⟩)
  · rintro hmarked p
    refine ⟨Or.imp_right ?_, ?_⟩
    · rintro ⟨calls, hcalls, call, hcall, hmarket⟩
      exact ⟨calls, hcalls, call, hcall, marks_of_market hmarket⟩
    · rintro (hbottom | ⟨calls, hcalls, call, hcall, hmark⟩)
      · exact Or.inl hbottom
      · rcases marks_cases hmark with rfl | hmarket
        · exact hmarked calls hcalls p.1 p.2 hcall
        · exact Or.inr ⟨calls, hcalls, call, hcall, hmarket⟩

end Model

def chainDb : @ChainDatabase Fc.plain :=
  letI := Fc.plain
  { propertyDb := (∅ : Map _ _).insert .chainId (.hash 0) }

def bidCall (quoteId : Int) : LayerCall :=
  .bid { orderPrice := ⟨5, 0, quoteId⟩, owner := 9 } { balance := 7 }

theorem stacked_layers_iff_bids :
    letI := Fc.plain
    ∃ layers one d, [[bidCall 1], [bidCall 2, .marketDirty 2 0]].foldlM (pushLayer chainDb) [] = .ok layers ∧
      [bidCall 1, bidCall 2, .marketDirty 2 0].foldlM (LayerCall.store (.database chainDb)) {} = .ok one ∧
      applyChanges one chainDb = .ok () d ∧
      ∃ d', applyStack layers chainDb = .ok () d' ∧ SameRecords d' d ∧
        ∀ p, p ∈ (ChainInterface.database d').getDirtyMarkets ↔
          p ∈ (ChainInterface.database d).getDirtyMarkets := by
  let := Fc.plain
  obtain ⟨layers, hlayers⟩ : ∃ layers, ([bidCall 1] :: [[bidCall 2, .marketDirty 2 0]]).foldlM
      (pushLayer chainDb) [] = .ok layers := ⟨_, rfl⟩
  obtain ⟨one, hone⟩ : ∃ one, ([bidCall 1] :: [[bidCall 2, .marketDirty 2 0]]).flatten.foldlM
      (LayerCall.store (.database chainDb)) {} = .ok one := ⟨_, rfl⟩
  obtain ⟨d, hd⟩ : ∃ d, applyChanges one chainDb = .ok () d := by
    cases hone
    exact ⟨_, rfl⟩
  obtain ⟨d', hd', hsame, hiff⟩ :=
    stacked_layers_iff (show ChainIdStored chainDb from rfl) (by simp [bidCall]) hlayers hone hd
  refine ⟨layers, one, d, hlayers, hone, hd, d', hd', hsame, hiff.mpr ?_⟩
  intro calls hcalls quoteId baseId hcall
  obtain rfl := List.mem_singleton.mp hcalls
  obtain ⟨rfl, rfl⟩ : quoteId = 2 ∧ baseId = 0 := by simpa [bidCall] using hcall
  exact Or.inr ⟨_, List.mem_singleton_self _, bidCall 2, List.mem_cons_self, rfl⟩

/-- A market that is marked in the upper layer is not dirty when the layers have been applied,
unlike when the calls are made on one layer or the layers are applied to the database in turn. -/
theorem mark_of_upper_layer_lost :
    letI := Fc.plain
    ∃ lowest top one d d₁ d₂ d',
      [[bidCall 1], [.marketDirty 2 0]].foldlM (pushLayer chainDb) [] = .ok [top, lowest] ∧
      [bidCall 1, .marketDirty 2 0].foldlM (LayerCall.store (.database chainDb)) {} = .ok one ∧
      applyChanges one chainDb = .ok () d ∧ (2, 0) ∈ (ChainInterface.database d).getDirtyMarkets ∧
      applyChanges lowest chainDb = .ok () d₁ ∧ applyChanges top d₁ = .ok () d₂ ∧
      (2, 0) ∈ (ChainInterface.database d₂).getDirtyMarkets ∧
      applyStack [top, lowest] chainDb = .ok () d' ∧
      (2, 0) ∉ (ChainInterface.database d').getDirtyMarkets := by
  refine ⟨_, _, _, _, _, _, _, rfl, rfl, rfl, ?_, rfl, rfl, ?_, rfl, ?_⟩
  · decide +kernel
  · decide +kernel
  · decide +kernel

end Bts.Blockchain.LayerStacks
