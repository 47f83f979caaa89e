import Mathlib.Data.Finset.Sort
import Bts.Blockchain.ExpirationIndex
import Bts.Blockchain.StoreSpec

namespace Bts.Blockchain.Reopen

open Base Result Exec Maps Errors Transactions Database Changes ForkDatabase ExpirationIndex
  ForkWalks

section Model

variable [Fc] {db db' d : ChainDatabase} {genesisChainId : Nat}

/-- What a stopped node leaves on disk. The head, the chain id, the digests of known
transactions and the index of expirations are only in memory. -/
def closed (db : ChainDatabase) : ChainDatabase :=
  { db with
    chainId := 0
    headBlockHeader := {}
    headBlockId := 0
    collateralExpirationIndex := []
    uniqueTransactions := ∅ }

def clearInvalidationOfFutureBlocks : DbAction Unit := do
  let ids ← read fun db => db.revalidatableFutureBlocksDb.sort (· ≤ ·)
  forEach ids markAsUnchecked

/-- The digests of the transactions on record that are not expired. Both the chain id and
the time are what the fields in memory say. -/
def loadedTransactions (db : ChainDatabase) : Finset (Nat × Nat) :=
  ((db.idToTransactionRecordDb.entries.map Sigma.snd).filter fun r =>
    db.now < r.trx.expiration).map (fun r => (r.trx.expiration, r.trx.digest db.chainId)) |>.toFinset

def openDatabase : DbAction Unit := do
  update fun db => { db with collateralExpirationIndex := openedIndex db.collateralDb }
  clearInvalidationOfFutureBlocks
  update fun db => { db with uniqueTransactions := loadedTransactions db }

/-- The last entry of the block numbers becomes the head. Where there is none, or its block
is not on record, the source rebuilds the index from the raw chain instead. -/
def loadHead : DbAction Unit := do
  let db ← read id
  let num ← lift (orThrow db.blockNumToIdDb.keys.max? .keyNotFound)
  let id ← lift (orThrow (db.blockNumToIdDb.lookup num) .keyNotFound)
  let r ← lift (orThrow (db.blockIdToBlockRecordDb.lookup id) .keyNotFound)
  update fun db => { db with headBlockHeader := r.toSignedBlockHeader, headBlockId := id }

/-- `chain_database::open` with the index in place, where `genesisChainId` is what
`initialize_genesis` finds for the genesis file. -/
def openChain (genesisChainId : Nat) : DbAction Unit := do
  openDatabase
  loadHead
  let db ← read id
  let chainId ← lift (chainIdOf (.database db))
  lift (require (chainId = genesisChainId) .wrongChainId)
  update fun db => { db with chainId }

def reopen (genesisChainId : Nat) (db : ChainDatabase) : EStateM.Result ChainError ChainDatabase Unit :=
  openChain genesisChainId (closed db)

theorem clearInvalidation_onlyForks (h : clearInvalidationOfFutureBlocks db = .ok () d) :
    OnlyForks db d := by
  have hkeeps : Keeps (OnlyForks db) clearInvalidationOfFutureBlocks :=
    Keeps.bindRead fun _ => Keeps.forEach fun id _ =>
      Keeps.bindRead fun _ => markBlocks_keeps (markBlock_onlyForks setUnchecked) _ [id]
  exact hkeeps.run_ok (rfl : db = { db with forkDb := db.forkDb }) h

theorem mem_loadedTransactions {x : Nat × Nat} :
    x ∈ loadedTransactions db ↔ ∃ id r, db.idToTransactionRecordDb.lookup id = some r ∧
      db.now < r.trx.expiration ∧ x = (r.trx.expiration, r.trx.digest db.chainId) := by
  unfold loadedTransactions
  simp only [List.mem_toFinset, List.mem_map, List.mem_filter, decide_eq_true_eq]
  constructor
  · rintro ⟨r, ⟨⟨e, he, rfl⟩, hnow⟩, rfl⟩
    exact ⟨e.1, e.2, lookup_of_mem he, hnow, rfl⟩
  · rintro ⟨id, r, hr, hnow, rfl⟩
    exact ⟨r, ⟨⟨⟨id, r⟩, mem_of_lookup hr, rfl⟩, hnow⟩, rfl⟩

theorem reopen_unique (h : reopen genesisChainId db = .ok () db') {x : Nat × Nat}
    (hx : x ∈ db'.uniqueTransactions) :
    ∃ r : TransactionRecord, x = (r.trx.expiration, r.trx.digest 0) := by
  simp only [reopen, openChain, openDatabase, loadHead, bind_run_ok, update_run_ok, read_run_ok,
    lift_run_ok] at h
  obtain ⟨_, _, ⟨_, _, rfl, _, forks, hforks, rfl⟩, _, _, ⟨_, _, ⟨rfl, rfl⟩, _, _, ⟨-, rfl⟩, _, _,
    ⟨-, rfl⟩, _, _, ⟨-, rfl⟩, rfl⟩, _, _, ⟨rfl, rfl⟩, _, _, ⟨-, rfl⟩, _, _, ⟨-, rfl⟩, rfl⟩ := h
  have hchain : forks.chainId = 0 := by
    rw [clearInvalidation_onlyForks hforks]
    rfl
  obtain ⟨_, r, -, -, rfl⟩ := mem_loadedTransactions.mp hx
  exact ⟨r, by rw [hchain]⟩

/-- The record of a transaction that is not expired. -/
def Unexpired (db : ChainDatabase) (r : TransactionRecord) : Prop :=
  (∃ id, db.idToTransactionRecordDb.lookup id = some r) ∧ db.now < r.trx.expiration

/-- A started node gives the same answers about the transactions on record exactly when
the stopped one knew none of them. The hash of the library tells two chains apart. -/
theorem reopen_answers_iff (h : reopen genesisChainId db = .ok () db')
    (hchains : ∀ t t' : Transaction, t.digest db.chainId ≠ t'.digest 0) :
    (∀ r, Unexpired db r →
      (db'.isKnownTransaction r.trx.expiration (r.trx.digest db.chainId) ↔
        db.isKnownTransaction r.trx.expiration (r.trx.digest db.chainId))) ↔
    ∀ r, Unexpired db r →
      ¬ db.isKnownTransaction r.trx.expiration (r.trx.digest db.chainId) := by
  have hunknown (r : TransactionRecord) :
      ¬ db'.isKnownTransaction r.trx.expiration (r.trx.digest db.chainId) := by
    intro hknown
    obtain ⟨r', heq⟩ := reopen_unique h hknown
    exact hchains _ _ (Prod.ext_iff.mp heq).2
  constructor
  · intro hsame r hr hknown
    exact hunknown r ((hsame r hr).mpr hknown)
  · intro hnone r hr
    exact ⟨fun hknown => absurd hknown (hunknown r), fun hknown => absurd hknown (hnone r hr)⟩

end Model

/-- A hash that tells the chain with the id zero from all others. -/
@[reducible] def saltedFc : Fc :=
  { Fc.plain with
    transactionDigest := fun trx chainId =>
      2 * (1000 * trx.expiration + trx.operations.length) + min chainId 1 }

theorem salted_chains (t t' : Transaction) :
    letI := saltedFc
    t.digest 9 ≠ t'.digest 0 := by
  let := saltedFc
  change 2 * (1000 * t.expiration + t.operations.length) + 1 ≠
    2 * (1000 * t'.expiration + t'.operations.length) + 0
  omega

def withdrawal (expiration : Nat) : TransactionRecord where
  trx := { expiration, operations := [.withdraw ⟨7, 10, []⟩], signatures := [7] }

def runningChain (r : TransactionRecord) : @ChainDatabase saltedFc :=
  letI := saltedFc
  { chainId := 9
    headBlockHeader := { blockNum := 1250000, timestamp := 1000 }
    headBlockId := 5
    wallClock := 1010
    blockNumToIdDb := (∅ : Map Nat Nat).insert 1250000 5
    blockIdToBlockRecordDb := (∅ : Map Nat _).insert 5
      { blockNum := 1250000, timestamp := 1000 }
    propertyDb := (∅ : Map _ _).insert .chainId (.hash 9)
    idToTransactionRecordDb := (∅ : Map Nat _).insert r.trx.id r
    uniqueTransactions := {(r.trx.expiration, r.trx.digest 9)} }

/-- A node that is started twice has a transaction on record that is not expired, and does not
know it either time. -/
theorem reopen_answers_iff_again :
    letI := saltedFc
    let db := endState (reopen 9 (runningChain (withdrawal 2000)))
    ∃ db', reopen 9 db = .ok () db' ∧ (∃ r, Unexpired db r) ∧
      ∀ r, Unexpired db r → (db'.isKnownTransaction r.trx.expiration (r.trx.digest db.chainId) ↔
        db.isKnownTransaction r.trx.expiration (r.trx.digest db.chainId)) := by
  let := saltedFc
  intro db
  have hreturns : returns (reopen 9 (runningChain (withdrawal 2000))) := by decide +kernel
  have hfirst := eq_ok_of_returns hreturns
  have hreturns' : returns (reopen 9 db) := by decide +kernel
  have hagain := eq_ok_of_returns hreturns'
  have hchain : db.chainId = 9 := by decide +kernel
  have hrecord : (db.idToTransactionRecordDb.lookup (withdrawal 2000).trx.id).any
      fun r => decide (db.now < r.trx.expiration) := by
    decide +kernel
  have hchains (t t' : Transaction) : t.digest db.chainId ≠ t'.digest 0 := by
    rw [hchain]
    exact salted_chains t t'
  rw [Option.any_eq_true] at hrecord
  obtain ⟨r, hr, hnow⟩ := hrecord
  refine ⟨_, hagain, ⟨r, ⟨_, hr⟩, of_decide_eq_true hnow⟩,
    (reopen_answers_iff hagain hchains).mpr fun r _ hknown => ?_⟩
  obtain ⟨r', heq⟩ := reopen_unique hfirst hknown
  exact hchains _ _ (Prod.ext_iff.mp heq).2

/-- A transaction that was known before the node was stopped is unknown afterwards, though
it is on record and not expired. -/
theorem reopen_forgets :
    letI := saltedFc
    Unexpired (runningChain (withdrawal 2000)) (withdrawal 2000) ∧
      (runningChain (withdrawal 2000)).isKnownTransaction 2000 ((withdrawal 2000).trx.digest 9) ∧
      ∃ db', reopen 9 (runningChain (withdrawal 2000)) = .ok () db' ∧ db'.chainId = 9 ∧
        ¬ db'.isKnownTransaction 2000 ((withdrawal 2000).trx.digest 9) := by
  let := saltedFc
  have hreturns : returns (reopen 9 (runningChain (withdrawal 2000))) := by decide +kernel
  have hend : (endState (reopen 9 (runningChain (withdrawal 2000)))).chainId = 9 ∧
      ¬ (endState (reopen 9 (runningChain (withdrawal 2000)))).isKnownTransaction 2000
        ((withdrawal 2000).trx.digest 9) := by
    decide +kernel
  refine ⟨⟨⟨(withdrawal 2000).trx.id, ?_⟩, by decide⟩, by decide, _, eq_ok_of_returns hreturns, hend⟩
  exact (lookup_insert _ _ _ _).trans (if_pos rfl)

end Bts.Blockchain.Reopen
