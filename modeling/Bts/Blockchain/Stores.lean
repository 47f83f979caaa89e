import Bts.Blockchain.Database

namespace Bts.Blockchain.Stores

open Base Result Exec Maps Errors Records MarketRecords Transactions Database

variable [Fc]

def storeAddress (address : Nat) (id : Int) : DbAction Unit :=
  update fun db => { db with addressToAccountDb := db.addressToAccountDb.insert address id }

def removeAddress (address : Nat) : DbAction Unit :=
  update fun db => { db with addressToAccountDb := db.addressToAccountDb.erase address }

def storeVote (vote : Int × Int) : DbAction Unit :=
  update fun db => { db with delegateVoteIndexDb := db.delegateVoteIndexDb.insert vote }

def removeVote (vote : Int × Int) : DbAction Unit :=
  update fun db => { db with delegateVoteIndexDb := db.delegateVoteIndexDb.filter (· ≠ vote) }

def netVotes (r : AccountRecord) : Except ChainError Int := do
  let d ← r.delegate
  pure d.votesFor

def removeRecord (r : AccountRecord) : DbAction Unit := do
  update fun db => { db with
    accountDb := db.accountDb.erase r.id
    accountIndexDb := db.accountIndexDb.erase r.name }
  removeAddress (Fc.address r.ownerKey)
  onlyIf (¬ r.isRetracted) (removeAddress (Fc.address r.activeKey))
  onlyIf r.isDelegate do
    let key ← lift r.signingKey
    removeAddress (Fc.address key)
    onlyIf (¬ r.isRetracted) do
      let votes ← lift (netVotes r)
      removeVote (votes, r.id)

def storeRecord (r : AccountRecord) : DbAction Unit := do
  update fun db => { db with
    accountDb := db.accountDb.store r
    accountIndexDb := db.accountIndexDb.insert r.name r.id }
  storeAddress (Fc.address r.ownerKey) r.id
  onlyIf (¬ r.isRetracted) (storeAddress (Fc.address r.activeKey) r.id)
  onlyIf r.isDelegate do
    let key ← lift r.signingKey
    storeAddress (Fc.address key) r.id
    onlyIf (¬ r.isRetracted) do
      let votes ← lift (netVotes r)
      storeVote (votes, r.id)

/-- Replace the address of a key by another one, where `none` is the key of a
record that has none. -/
def indexKeys (prevKey newKey : Option Nat) (id : Int) : DbAction Unit :=
  match prevKey, newKey with
  | none, none => pure ()
  | some p, none => removeAddress (Fc.address p)
  | none, some n => storeAddress (Fc.address n) id
  | some p, some n => onlyIf (Fc.address p ≠ Fc.address n) do
      removeAddress (Fc.address p)
      storeAddress (Fc.address n) id

def indexActiveKeys (prev new : AccountRecord) : DbAction Unit :=
  indexKeys prev.activeKey? new.activeKey? new.id

def indexSigningKeys (prev new : AccountRecord) : DbAction Unit := do
  let prevKey ← lift prev.signingKey?
  let newKey ← lift new.signingKey?
  indexKeys prevKey newKey new.id

/-- `index_votes`. Nothing changes when the votes are the same, also when the
account has been retracted in between. -/
def indexVotes (prev new : AccountRecord) : DbAction Unit :=
  match prev.delegateInfo, new.delegateInfo with
  | none, none => pure ()
  | some p, none => onlyIf (¬ prev.isRetracted) (removeVote (p.votesFor, prev.id))
  | none, some n => onlyIf (¬ new.isRetracted) (storeVote (n.votesFor, new.id))
  | some p, some n => onlyIf (p.votesFor ≠ n.votesFor) do
      onlyIf (¬ prev.isRetracted) (removeVote (p.votesFor, prev.id))
      onlyIf (¬ new.isRetracted) (storeVote (n.votesFor, new.id))

def updateRecord (prev r : AccountRecord) : DbAction Unit := do
  update fun db => { db with accountDb := db.accountDb.store r }
  onlyIf (prev.name ≠ r.name) (update fun db => { db with
    accountIndexDb := (db.accountIndexDb.erase prev.name).insert r.name r.id })
  onlyIf (prev.ownerKey ≠ r.ownerKey) do
    removeAddress (Fc.address prev.ownerKey)
    storeAddress (Fc.address r.ownerKey) r.id
  indexActiveKeys prev r
  indexSigningKeys prev r
  indexVotes prev r

def storeAccountRecord (r : AccountRecord) : DbAction Unit := do
  let prev ← read fun db => db.accountDb.lookup r.id
  match prev with
  | none => if r.isNull then pure () else storeRecord r
  | some p => if r.isNull then removeRecord p else updateRecord p r

def keepTransactionRecord (recordId : Nat) (r : TransactionRecord) (db : ChainDatabase) :
    ChainDatabase :=
  { db with idToTransactionRecordDb :=
    if ¬ db.trackStats then db.idToTransactionRecordDb
    else putMap (fun r => r.trx.operations = []) db.idToTransactionRecordDb recordId r }

/-- Remember the digest. A known one is an error only where a record under the id
exists. -/
def insertUniqueTransaction (recordId : Nat) (r : TransactionRecord) : DbAction Unit := do
  let db ← read id
  let entry := (r.trx.expiration, r.trx.digest db.chainId)
  update fun db => { db with uniqueTransactions := insert entry db.uniqueTransactions }
  lift (require (¬ (forkBlockNumV0426 ≤ db.getHeadBlockNum ∧ entry ∈ db.uniqueTransactions ∧
    (db.idToTransactionRecordDb.lookup recordId).isSome)) .duplicateTransaction)

/-- `store_transaction`. A record without operations removes the one under its id. -/
def storeTransaction (recordId : Nat) (r : TransactionRecord) : DbAction Unit := do
  onlyIf (r.trx.operations ≠ []) do
    lift (require (recordId = r.trx.id) (.assertion "record_id == record_to_store.trx.id()"))
    let now ← read fun db => db.now
    onlyIf (now < r.trx.expiration) (insertUniqueTransaction recordId r)
  update (keepTransactionRecord recordId r)

def setMarketTransactions (trxs : List MarketTransaction) : DbAction Unit := do
  let db ← read id
  lift (require (db.trackStats = true) (.assertion "my->_track_stats"))
  let blockNum := db.getHeadBlockNum + 1
  update fun db => { db with marketTransactionsDb :=
    if trxs = [] then db.marketTransactionsDb.erase blockNum
    else db.marketTransactionsDb.insert blockNum trxs }

end Bts.Blockchain.Stores
