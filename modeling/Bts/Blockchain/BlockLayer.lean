import Bts.Blockchain.Effects
import Bts.Blockchain.MarketWrites
import Bts.Blockchain.UndoApply
import Bts.Blockchain.ExtendChain

namespace Bts.Blockchain.BlockLayer

open Base Result Maps Records MarketRecords Transactions Pending Database Layers
  Changes Evaluation Evaluate AccountStore TransactionStore UndoApply Effects MarketEngine
  MarketExecute MarketWrites ExtendChain

variable [Fc] {db : ChainDatabase} {l l' : PendingState}

/-- What storing accounts and transactions of a layer in the database depends on. -/
structure Storable (db : ChainDatabase) (l : PendingState) : Prop where
  signed : ∀ k r, l.accounts.lookup k = some r → HasSigningKey r
  ids : ∀ id r, l.transactions.lookup id = some r → r.trx.id = id
  fresh : ∀ id r, l.transactions.lookup id = some r → ¬ Duplicate db id r
  digests : ∀ id r, l.transactions.lookup id = some r →
    r.trx.digest db.chainId ∈ l.uniqueTransactions
  distinct : forkBlockNumV0426 ≤ db.getHeadBlockNum → ∀ id id' r r',
    l.transactions.lookup id = some r → l.transactions.lookup id' = some r' →
    r.trx.digest db.chainId = r'.trx.digest db.chainId → id = id'

def storedView (l : PendingState) : Table AccountRecord.id × Map Nat TransactionRecord × Finset Nat :=
  (l.accounts, l.transactions, l.uniqueTransactions)

theorem storable_empty : Storable db {} := by
  constructor <;> intros <;> contradiction

theorem Storable.of_view (h : Storable db l) (hview : storedView l' = storedView l) :
    Storable db l' := by
  simp only [storedView, Prod.mk.injEq] at hview
  obtain ⟨haccounts, htransactions, hunique⟩ := hview
  constructor
  · rw [haccounts]
    exact h.signed
  · rw [htransactions]
    exact h.ids
  · rw [htransactions]
    exact h.fresh
  · rw [htransactions, hunique]
    exact h.digests
  · rw [htransactions]
    exact h.distinct

theorem Storable.storeAccountRecord {r : AccountRecord} (h : Storable db l)
    (hstore : l.storeAccountRecord r = .ok l') : Storable db l' := by
  simp only [PendingState.storeAccountRecord, eq_ok_iff] at hstore
  obtain ⟨key, hkey, rfl⟩ := hstore
  refine ⟨?_, h.ids, h.fresh, h.digests, h.distinct⟩
  intro k r' hr'
  rw [Table.lookup_store] at hr'
  split at hr'
  · cases hr'
    exact ⟨key, hkey⟩
  · exact h.signed k r' hr'

theorem recordSlot_view (r : SlotRecord) : storedView (recordSlot db l r) = storedView l := by
  unfold recordSlot
  split <;> rfl

variable {block : FullBlock} {timestamp : Nat} {quoteId baseId : Int}

theorem countProduced_storable {signee : Nat} (h : Storable db l)
    (hcount : countProduced db block signee l = .ok l') : Storable db l' := by
  simp only [countProduced, eq_ok_iff] at hcount
  obtain ⟨_, _, _, _, r, _, d, _, _, _, stored, hstore, rfl⟩ := hcount
  exact (h.storeAccountRecord hstore).of_view (recordSlot_view _)

theorem countMissed_storable {active : List Int} (h : Storable db l)
    (hcount : countMissed db active l timestamp = .ok l') : Storable db l' := by
  simp only [countMissed, eq_ok_iff] at hcount
  obtain ⟨_, _, r, _, d, _, stored, hstore, rfl⟩ := hcount
  exact (h.storeAccountRecord hstore).of_view (recordSlot_view _)

theorem updateDelegateProductionInfo_storable {signee : Nat} (h : Storable db l)
    (hupdate : updateDelegateProductionInfo db block signee l = .ok l') :
    Storable db l' := by
  simp only [updateDelegateProductionInfo, eq_ok_iff] at hupdate
  obtain ⟨produced, hproduced, _, _, active, _, counted, hcounted, rfl⟩ := hupdate
  have hmissed : Storable db counted :=
    foldlM_keeps (fun _ _ _ _ hu hv => countMissed_storable hu hv)
      (countProduced_storable h hproduced) hcounted
  exact hmissed.of_view rfl

theorem payDelegate_storable {signee blockId : Nat} {record : BlockRecord} (h : Storable db l)
    (hpay : payDelegate db l signee blockId = .ok (l', record)) : Storable db l' := by
  simp only [payDelegate, eq_ok_iff, Prod.mk.injEq] at hpay
  obtain ⟨base, _, _, _, r, _, d, _, _, _, p, _, paid, hpaid, _, _, rfl, _⟩ := hpay
  exact (h.storeAccountRecord hpaid).of_view rfl

theorem payBlock_storable {signee : Nat} {record : BlockRecord}
    (hpay : payBlock db block signee = .ok (l, record)) : Storable db l := by
  simp only [payBlock, bind_eq_ok] at hpay
  obtain ⟨produced, hproduced, hpay⟩ := hpay
  exact payDelegate_storable (updateDelegateProductionInfo_storable storable_empty hproduced) hpay

theorem write_view (h : Write l l') : storedView l' = storedView l := by
  cases h <;> rfl

theorem runMarket_view {m : Market} {e e' : EngineState} (h : runMarket m e timestamp = .ok e') :
    storedView e'.layer = storedView e.layer :=
  (runMarket_writes h).frame fun _ _ => write_view

theorem applyChangesTo_view {s : PendingState} {below : ChainInterface}
    (hs : storedView s = storedView {}) (h : applyChangesTo s l below = .ok l') :
    storedView l' = storedView l := by
  simp only [storedView, Prod.mk.injEq] at hs
  obtain ⟨haccounts, htransactions, -⟩ := hs
  simp only [applyChangesTo, haccounts, htransactions, eq_ok_iff] at h
  obtain ⟨t, ht, t', ht', rfl⟩ := h
  cases ht
  cases ht'
  rfl

theorem openMarket_layer {prior : ChainInterface} {m : Market} {e : EngineState}
    (h : openMarket prior quoteId baseId = .ok (m, e)) : e.layer = {} := by
  simp only [openMarket, openBooks, eq_ok_iff, Prod.mk.injEq] at h
  obtain ⟨_, ⟨_, _, _, _, _, _, _, _, _, _, _, _, rfl⟩, _, _, _, rfl⟩ := h
  rfl

theorem execute_view {prev : ChainInterface} {trxs : List MarketTransaction}
    (h : execute l prev quoteId baseId timestamp = .ok (l', trxs)) :
    storedView l' = storedView l := by
  rcases execute_cases h with ⟨status, rfl⟩ | ⟨m, e, hopen, hrun⟩
  · rfl
  · simp only [runAndApply, eq_ok_iff, Prod.mk.injEq] at hrun
    obtain ⟨e', he', _, happly, rfl, _⟩ := hrun
    have hview := runMarket_view he'
    rw [openMarket_layer hopen] at hview
    exact applyChangesTo_view hview happly

theorem executeMarkets_view (h : executeMarkets db l timestamp = .ok l') :
    storedView l' = storedView l :=
  executeMarkets_keeps (I := fun u => storedView u = storedView l)
    (fun _ _ _ _ _ _ hexecute hu => (execute_view hexecute).trans hu) (fun _ _ hu => hu) h rfl

section Transactions

variable {s t : EvaluationState}

theorem effect_storable {op : Operation} (h : Storable db s.layer) (heffect : Effect s op l) :
    Storable db l := by
  cases heffect with
  | registerAccount op id r _ stored =>
    have hproperty : Storable db (s.layer.setProperty .lastAccountId (.int id)) := h.of_view rfl
    exact hproperty.storeAccountRecord stored
  | updateAccount op r _ stored => exact h.storeAccountRecord stored
  | withdrawPay op r _ stored => exact h.storeAccountRecord stored
  | updateBlockSigningKey op r _ stored => exact h.storeAccountRecord stored
  | _ => exact h.of_view rfl

theorem settles_storable {prev : ChainInterface} (h : Storable db l)
    (hsettles : Relation.ReflTransGen (Settles prev) l l') : Storable db l' := by
  induction hsettles with
  | refl => exact h
  | tail _ hstep ih =>
    cases hstep with
    | fee a fees known => exact ih.of_view rfl
    | votes _ r stored => exact ih.storeAccountRecord stored

theorem evaluate_storable {trx : SignedTransaction} {skip : Bool} (h : Storable db s.layer)
    (heval : evaluate s trx skip = .ok t) : Storable db t.layer := by
  obtain ⟨_, keys, u, _, hops, -, hsettles⟩ := evaluate_ok heval
  have hdone : Storable db u.layer :=
    foldlM_keeps (P := fun v => Storable db v.layer)
      (fun _ _ _ _ hv hw => effect_storable hv (evaluateNext_effect hw).2) h hops
  exact settles_storable hdone hsettles

theorem getTransaction_isSome {id : Nat} {current : Option TransactionRecord}
    (h : (ChainInterface.pending l (.database db)).getTransaction id = .ok current)
    (hrecord : (db.idToTransactionRecordDb.lookup id).isSome) : current.isSome := by
  unfold ChainInterface.getTransaction at h
  split at h
  · cases h
    rfl
  · obtain ⟨r, hr⟩ := Option.isSome_iff_exists.mp hrecord
    simp only [ChainInterface.getTransaction, ChainDatabase.getTransaction, hr, eq_ok_iff] at h
    obtain ⟨_, _, _, _, rfl⟩ := h
    rfl

theorem checkTransaction_fresh {trx : SignedTransaction} {r : TransactionRecord}
    (h : checkTransaction (.pending l (.database db)) trx db.chainId = .ok ()) (hr : r.trx = trx) :
    ¬ Duplicate db trx.id r := by
  rintro ⟨hfork, hentry, hrecord⟩
  simp only [checkTransaction, bind_eq_ok] at h
  obtain ⟨_, _, _, _, h⟩ := h
  have hknown : (ChainInterface.pending l (.database db)).isKnownTransaction trx.expiration
      (trx.digest db.chainId) = true := by
    rw [← hr]
    simp only [ChainInterface.isKnownTransaction, Bool.or_eq_true, decide_eq_true_eq]
    exact Or.inr hentry
  unfold checkDuplicate at h
  rw [if_pos ⟨hfork, hknown⟩] at h
  simp only [eq_ok_iff] at h
  obtain ⟨current, hcurrent, hnone⟩ := h
  have hsome := getTransaction_isSome hcurrent hrecord
  rw [Option.isNone_iff_eq_none.mp hnone] at hsome
  cases hsome

/-- The chain id that is stored as a property is the one the database was opened with. -/
def ChainIdStored (db : ChainDatabase) : Prop := chainIdOf (.database db) = .ok db.chainId

theorem Storable.storeTransaction {id : Nat} {r : TransactionRecord} (h : Storable db l)
    (hchain : ChainIdStored db) (hid : r.trx.id = id) (hnew : ¬ Duplicate db id r)
    (hstore : storeTransaction (.database db) l id r = .ok l') : Storable db l' := by
  have hchainId : chainIdOf (.database db) = .ok db.chainId := hchain
  simp only [Changes.storeTransaction, hchainId, eq_ok_iff, Except.ok.injEq, exists_eq_left'] at hstore
  obtain ⟨_, hdigest, rfl⟩ := hstore
  have hlookup : ∀ j w, (l.transactions.insert id r).lookup j = some w →
      (j = id ∧ w = r) ∨ (j ≠ id ∧ l.transactions.lookup j = some w) := by
    intro j w hw
    rw [lookup_insert] at hw
    split at hw
    next hj =>
      cases hw
      exact Or.inl ⟨hj, rfl⟩
    next hj => exact Or.inr ⟨hj, hw⟩
  have hunique : forkBlockNumV0426 ≤ db.getHeadBlockNum →
      ∀ j w, l.transactions.lookup j = some w →
        w.trx.digest db.chainId ≠ r.trx.digest db.chainId := by
    intro hfork j w hw hsame
    exact hdigest ⟨hfork, hsame ▸ h.digests j w hw⟩
  refine ⟨h.signed, ?_, ?_, ?_, ?_⟩
  · intro j w hw
    rcases hlookup j w hw with ⟨rfl, rfl⟩ | ⟨-, hold⟩
    · exact hid
    · exact h.ids j w hold
  · intro j w hw
    rcases hlookup j w hw with ⟨rfl, rfl⟩ | ⟨-, hold⟩
    · exact hnew
    · exact h.fresh j w hold
  · intro j w hw
    rcases hlookup j w hw with ⟨rfl, rfl⟩ | ⟨-, hold⟩
    · exact Finset.mem_insert_self _ _
    · exact Finset.mem_insert_of_mem (h.digests j w hold)
  · intro hfork j j' w w' hw hw' hsame
    rcases hlookup j w hw with ⟨rfl, rfl⟩ | ⟨hj, hold⟩
    · rcases hlookup j' w' hw' with ⟨rfl, rfl⟩ | ⟨-, hold'⟩
      · rfl
      · exact absurd hsame.symm (hunique hfork j' w' hold')
    · rcases hlookup j' w' hw' with ⟨rfl, rfl⟩ | ⟨-, hold'⟩
      · exact absurd hsame (hunique hfork j w hold)
      · exact h.distinct hfork j j' w w' hold hold' hsame

theorem applyTransaction_storable {blockNum : Nat} {trx : SignedTransaction × Nat}
    (h : Storable db l) (hchain : ChainIdStored db)
    (happly : applyTransaction db blockNum l trx = .ok l') : Storable db l' := by
  simp only [applyTransaction, bind_eq_ok] at happly
  obtain ⟨t, heval, hstore⟩ := happly
  have hcheck : checkTransaction (.pending l (.database db)) trx.1 db.chainId = .ok () :=
    (evaluate_ok heval).1
  have hdone : Storable db t.layer := evaluate_storable h heval
  exact hdone.storeTransaction hchain rfl (checkTransaction_fresh hcheck rfl) hstore

end Transactions

theorem fillLayer_storable (h : Storable db l) (hchain : ChainIdStored db)
    (hfill : fillLayer db block l = .ok l') : Storable db l' := by
  simp only [fillLayer, bind_eq_ok] at hfill
  obtain ⟨applied, hfilled, active, hactive, hseed⟩ := hfill
  have happly {l l' : PendingState} (hl : Storable db l) (h : applyTransactions db block l = .ok l') :
      Storable db l' :=
    foldlM_keeps (fun _ _ _ _ hu hv => applyTransaction_storable hu hchain hv) hl h
  have hdone : Storable db applied := by
    unfold executeAndApply at hfilled
    split_ifs at hfilled
    · obtain ⟨middle, hmiddle, hmarkets⟩ := bind_eq_ok.mp hfilled
      exact (happly h hmiddle).of_view (executeMarkets_view hmarkets)
    · obtain ⟨middle, hmarkets, happlied⟩ := bind_eq_ok.mp hfilled
      exact happly (h.of_view (executeMarkets_view hmarkets)) happlied
  have hlist : Storable db active := by
    unfold updateActiveDelegateList at hactive
    split at hactive
    · cases hactive
      exact hdone
    · simp only [eq_ok_iff] at hactive
      obtain ⟨_, _, rfl⟩ := hactive
      exact hdone.of_view rfl
  simp only [updateRandomSeed, eq_ok_iff] at hseed
  obtain ⟨_, _, rfl⟩ := hseed
  exact hlist.of_view rfl

/-- Every account on record can be changed: it is no delegate, or its signing key is there. -/
def AccountsSigned (db : ChainDatabase) : Prop :=
  ∀ k r, db.accountDb.lookup k = some r → HasSigningKey r

theorem Storable.accountsStorable (h : Storable db l) (haccounts : AccountsSigned db) :
    AccountsStorable l.accounts db :=
  fun k r hr => ⟨Or.inr (h.signed k r hr), fun p hp => haccounts k p hp⟩

theorem Storable.transactionsStorable (h : Storable db l) : TransactionsStorable l db :=
  ⟨fun id r hr _ => h.ids id r hr, fun id r hr _ => h.fresh id r hr, h.distinct⟩

end Bts.Blockchain.BlockLayer
