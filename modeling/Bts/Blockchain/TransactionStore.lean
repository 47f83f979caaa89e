import Bts.Base.Overlay
import Bts.Blockchain.Stores

namespace Bts.Blockchain.TransactionStore

open Base Result Exec Maps Errors Transactions Database Stores

variable [Fc] {db db' : ChainDatabase} {id : Nat} {r : TransactionRecord}

/-- The databases that agree with `db` except for the transactions. -/
def TransactionsOnly (db db' : ChainDatabase) : Prop :=
  ∃ u t, db' = { db with uniqueTransactions := u, idToTransactionRecordDb := t }

/-- The record is of a transaction that has operations and is not expired, the ones
whose digests are remembered. -/
def Remembered (db : ChainDatabase) (r : TransactionRecord) : Prop :=
  r.trx.operations ≠ [] ∧ db.now < r.trx.expiration
  deriving Decidable

def entryOf (db : ChainDatabase) (r : TransactionRecord) : Nat × Nat :=
  (r.trx.expiration, r.trx.digest db.chainId)

def remember (db : ChainDatabase) (r : TransactionRecord) : Finset (Nat × Nat) :=
  if Remembered db r then insert (entryOf db r) db.uniqueTransactions else db.uniqueTransactions

theorem insertUniqueTransaction_keeps : Keeps (TransactionsOnly db) (insertUniqueTransaction id r) := by
  refine Keeps.bindRead fun d => Keeps.bind (Keeps.update ?_) fun _ => Keeps.lift _
  rintro _ ⟨u, t, rfl⟩
  exact ⟨_, t, rfl⟩

theorem storeTransaction_keeps : Keeps (TransactionsOnly db) (storeTransaction id r) := by
  refine Keeps.bind (Keeps.onlyIf ?_) fun _ => Keeps.update ?_
  · refine Keeps.bindLift fun _ => Keeps.bindRead fun now => ?_
    exact Keeps.onlyIf insertUniqueTransaction_keeps
  · rintro _ ⟨u, t, rfl⟩
    exact ⟨u, _, rfl⟩

/-- A digest that is known and whose transaction is on record. -/
def Duplicate (db : ChainDatabase) (id : Nat) (r : TransactionRecord) : Prop :=
  forkBlockNumV0426 ≤ db.getHeadBlockNum ∧ entryOf db r ∈ db.uniqueTransactions ∧
    (db.idToTransactionRecordDb.lookup id).isSome

theorem storeTransaction_ok (h : storeTransaction id r db = .ok () db') :
    (r.trx.operations ≠ [] → r.trx.id = id) ∧ (Remembered db r → ¬ Duplicate db id r) ∧
      db' = keepTransactionRecord id r { db with uniqueTransactions := remember db r } := by
  simp only [storeTransaction, bind_run_ok, update_run_ok] at h
  obtain ⟨_, d, hd, rfl⟩ := h
  by_cases hops : r.trx.operations = []
  · have hno : ¬ Remembered db r := fun hr => hr.1 hops
    simp only [onlyIf, hops, ne_eq, not_true_eq_false, ↓reduceIte, pure_run_ok] at hd
    obtain ⟨-, rfl⟩ := hd
    simp [remember, hno, hops]
  · simp only [onlyIf, hops, ne_eq, not_false_eq_true, ↓reduceIte, bind_run_ok, lift_run_ok,
      require_eq_ok, read_run_ok] at hd
    obtain ⟨_, _, ⟨hid, rfl⟩, _, _, ⟨rfl, rfl⟩, hd⟩ := hd
    refine ⟨fun _ => hid.symm, ?_⟩
    by_cases hexp : db.now < r.trx.expiration
    · have hyes : Remembered db r := ⟨hops, hexp⟩
      simp only [hexp, ↓reduceIte, insertUniqueTransaction, bind_run_ok, read_run_ok,
        update_run_ok, lift_run_ok, require_eq_ok, id_eq] at hd
      obtain ⟨_, _, ⟨rfl, rfl⟩, _, _, rfl, hnew, rfl⟩ := hd
      exact ⟨fun _ => hnew, by simp [remember, hyes, entryOf]⟩
    · have hno : ¬ Remembered db r := fun hr => hexp hr.2
      simp only [hexp, ↓reduceIte, pure_run_ok] at hd
      obtain ⟨-, rfl⟩ := hd
      simp [remember, hno]

theorem storeTransaction_error {e : ChainError} (h : storeTransaction id r db = .error e db') :
    r.trx.operations ≠ [] ∧ (r.trx.id = id →
      e = .duplicateTransaction ∧ Remembered db r ∧ Duplicate db id r) := by
  simp only [storeTransaction, insertUniqueTransaction, bind_run_error, onlyIf_run_error,
    update_run_error, and_false, exists_false, or_false] at h
  obtain ⟨hops, h⟩ := h
  refine ⟨hops, fun hid => ?_⟩
  simp only [lift_run_error, lift_run_ok, require_eq_error, require_eq_ok, read_run_error,
    read_run_ok, update_run_ok, hid, not_true_eq_false, false_and, false_or, true_and, id_eq] at h
  obtain ⟨_, _, rfl, _, _, ⟨rfl, rfl⟩, hexp, _, _, ⟨rfl, rfl⟩, _, _, rfl, ⟨hdup, rfl⟩, -⟩ := h
  exact ⟨rfl, ⟨hops, hexp⟩, not_not.mp hdup⟩

theorem remembered_congr (h : TransactionsOnly db db') : Remembered db' r ↔ Remembered db r := by
  obtain ⟨u, t, rfl⟩ := h
  rfl

theorem entryOf_congr (h : TransactionsOnly db db') : entryOf db' r = entryOf db r := by
  obtain ⟨u, t, rfl⟩ := h
  rfl

theorem lookup_keepTransactionRecord (htrack : db.trackStats = true) (k : Nat) :
    (keepTransactionRecord id r db).idToTransactionRecordDb.lookup k =
      if k = id then dropNull (fun r => r.trx.operations = []) r
      else db.idToTransactionRecordDb.lookup k := by
  have hput : (keepTransactionRecord id r db).idToTransactionRecordDb =
      putMap (fun r => r.trx.operations = []) db.idToTransactionRecordDb id r := by
    simp [keepTransactionRecord, htrack]
  rw [hput, lookup_putMap]

theorem mem_remember {x : Nat × Nat} :
    x ∈ remember db r ↔ x ∈ db.uniqueTransactions ∨ (Remembered db r ∧ x = entryOf db r) := by
  unfold remember
  split
  · rw [Finset.mem_insert, or_comm]
    tauto
  · tauto

structure StoredOne (id : Nat) (r : TransactionRecord) (db db' : ChainDatabase) : Prop where
  only : TransactionsOnly db db'
  unique : db'.uniqueTransactions = remember db r
  records : db.trackStats = true → ∀ k, db'.idToTransactionRecordDb.lookup k =
    if k = id then dropNull (fun r => r.trx.operations = []) r
    else db.idToTransactionRecordDb.lookup k
  ids : r.trx.operations ≠ [] → r.trx.id = id
  fresh : Remembered db r → ¬ Duplicate db id r

theorem storeTransaction_storedOne (h : storeTransaction id r db = .ok () db') :
    StoredOne id r db db' := by
  obtain ⟨hid, hnew, rfl⟩ := storeTransaction_ok h
  exact ⟨⟨_, _, rfl⟩, rfl, fun htrack k => lookup_keepTransactionRecord htrack k, hid, hnew⟩

structure Stored (l : List (Σ _ : Nat, TransactionRecord)) (db db' : ChainDatabase) : Prop where
  only : TransactionsOnly db db'
  unique : ∀ x, x ∈ db'.uniqueTransactions ↔ x ∈ db.uniqueTransactions ∨
    ∃ e ∈ l, Remembered db e.2 ∧ x = entryOf db e.2
  records : ∀ k, db'.idToTransactionRecordDb.lookup k = match l.dlookup k with
    | some r => dropNull (fun r => r.trx.operations = []) r
    | none => db.idToTransactionRecordDb.lookup k
  ids : ∀ e ∈ l, e.2.trx.operations ≠ [] → e.2.trx.id = e.1
  fresh : ∀ e ∈ l, Remembered db e.2 → ¬ Duplicate db e.1 e.2

theorem forEach_stored {l : List (Σ _ : Nat, TransactionRecord)} (hl : l.NodupKeys)
    (htrack : db.trackStats = true)
    (h : forEach l (fun e => storeTransaction e.1 e.2) db = .ok () db') : Stored l db db' := by
  induction l generalizing db with
  | nil =>
    cases h
    exact ⟨⟨_, _, rfl⟩, by simp, fun k => rfl, by simp, by simp⟩
  | cons e l ih =>
    obtain ⟨j, r⟩ := e
    rw [forEach, bind_run_ok] at h
    obtain ⟨_, d, hd, ht⟩ := h
    rw [List.nodupKeys_cons] at hl
    have hone := storeTransaction_storedOne hd
    have htrack' : d.trackStats = true := by
      obtain ⟨u, t, rfl⟩ := hone.only
      exact htrack
    have hrest := ih hl.2 htrack' ht
    refine ⟨?_, ?_, ?_, ?_, ?_⟩
    · obtain ⟨u, t, rfl⟩ := hone.only
      obtain ⟨u', t', hdb⟩ := hrest.only
      exact ⟨u', t', hdb⟩
    · intro x
      rw [hrest.unique, hone.unique, mem_remember, List.exists_mem_cons_iff, or_assoc]
      simp only [remembered_congr hone.only, entryOf_congr hone.only]
    · intro k
      rw [hrest.records k, hone.records htrack]
      by_cases hk : k = j
      · subst hk
        rw [List.dlookup_cons_eq, List.dlookup_eq_none.mpr hl.1]
        simp
      · simp [hk]
    · exact List.forall_mem_cons.mpr ⟨hone.ids, hrest.ids⟩
    · refine List.forall_mem_cons.mpr ⟨hone.fresh, ?_⟩
      rintro e he hr ⟨hfork, hentry, hrecord⟩
      have hne : e.1 ≠ j := by
        have hmem := List.mem_keys_of_mem he
        exact fun hj => hl.1 (hj ▸ hmem)
      apply hrest.fresh e he ((remembered_congr hone.only).mpr hr)
      refine ⟨?_, ?_, ?_⟩
      · obtain ⟨u, t, rfl⟩ := hone.only
        exact hfork
      · rw [hone.unique, mem_remember, entryOf_congr hone.only]
        exact Or.inl hentry
      · rw [hone.records htrack, if_neg hne]
        exact hrecord

/-- The loop over transactions throws only at a transaction that is on record before the
loop, and whose digest is known from before or from another transaction of the loop. -/
theorem forEach_storeTransaction_error {l : List (Σ _ : Nat, TransactionRecord)} {e : ChainError}
    (hl : l.NodupKeys) (htrack : db.trackStats = true)
    (h : forEach l (fun e => storeTransaction e.1 e.2) db = .error e db') :
    ∃ b ∈ l, b.2.trx.operations ≠ [] ∧ (b.2.trx.id = b.1 →
      e = .duplicateTransaction ∧ Remembered db b.2 ∧ forkBlockNumV0426 ≤ db.getHeadBlockNum ∧
        (db.idToTransactionRecordDb.lookup b.1).isSome ∧
        (entryOf db b.2 ∈ db.uniqueTransactions ∨
          ∃ c ∈ l, c.1 ≠ b.1 ∧ entryOf db b.2 = entryOf db c.2)) := by
  obtain ⟨j, b, v, hb, hv, hthrow⟩ := forEach_error h
  refine ⟨b, List.mem_of_getElem? hb, ?_⟩
  obtain ⟨hops, herr⟩ := storeTransaction_error hthrow
  refine ⟨hops, fun hid => ?_⟩
  obtain ⟨he, hrem, hfork, hentry, hrecord⟩ := herr hid
  have hdrop : l.drop j = b :: l.drop (j + 1) := (List.drop_eq_getElem?_toList_append).trans (by
    rw [hb]
    rfl)
  have hsplit : (l.take j ++ b :: l.drop (j + 1)).NodupKeys := by
    rw [← hdrop, List.take_append_drop]
    exact hl
  have htake := forEach_stored (hl.sublist (List.take_sublist j l)) htrack hv
  have hnot : b.1 ∉ (l.take j).keys := by
    intro hmem
    unfold List.NodupKeys at hsplit
    rw [List.keys_append, List.nodup_append] at hsplit
    exact hsplit.2.2 _ hmem _ (by simp [List.keys]) rfl
  rw [htake.records, List.dlookup_eq_none.mpr hnot] at hrecord
  rw [htake.unique, entryOf_congr htake.only] at hentry
  have hknown : entryOf db b.2 ∈ db.uniqueTransactions ∨
      ∃ c ∈ l, c.1 ≠ b.1 ∧ entryOf db b.2 = entryOf db c.2 := by
    rcases hentry with hold | ⟨c, hc, -, hsame⟩
    · exact Or.inl hold
    · refine Or.inr ⟨c, List.mem_of_mem_take hc, ?_, hsame⟩
      exact fun heq => hnot (heq ▸ List.mem_keys_of_mem hc)
  obtain ⟨_, _, rfl⟩ := htake.only
  exact ⟨he, hrem, hfork, hrecord, hknown⟩

end Bts.Blockchain.TransactionStore
