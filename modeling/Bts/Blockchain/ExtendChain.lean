import Bts.Blockchain.Evaluate
import Bts.Blockchain.MarketExecute

namespace Bts.Blockchain.ExtendChain

open Base Result Exec Word Errors Records Transactions Pending Database Layers Rules Changes
  Evaluate MarketExecute

variable [Fc]

def getSlotSignee (db : ChainDatabase) (timestamp : Nat) (orderedDelegates : List Int) :
    Except ChainError AccountRecord := do
  let id ← orThrow orderedDelegates[getSlotNumber timestamp % numDelegates]?
    (.assertion "delegate_pos < ordered_delegates.size()")
  let r ← orThrow (db.accountDb.lookup id) (.assertion "delegate_record.valid()")
  require r.isDelegate (.assertion "delegate_record->is_delegate()")
  pure r

def scheduledDelegate (db : ChainDatabase) (timestamp : Nat) : Except ChainError AccountRecord := do
  let active ← (ChainInterface.database db).getActiveDelegates
  getSlotSignee db timestamp active

/-- The compiled-in checkpoints, in the order of the block numbers. -/
def checkpointBlocks : List (Nat × Nat) :=
  [(1, 0x8abcfb93c52f999e3ef5288c4f837f4f15af5521), (100000, 0x96f98d49722848a6a47ad04aece8b9f93c9e9c23),
   (200000, 0x222ddc49db592103c51ad22cdc4140185ef564d9),
   (300000, 0x0d1d0b8f7f1f4590f8e083edc03869383ed74e3e),
   (400000, 0x053d398b6597d5c61365afd100d87b824bf49f65),
   (500000, 0xf02910a7115fb826984ce3a432cb371d5d7a99b8),
   (600000, 0xf278db8722235343c9db9f077fe67c54a5f25f3b),
   (700000, 0xf120ff9b159661b9ac084a0a69c58dcbd79cbb49),
   (800000, 0x0e94ad17c598e42e5ec2f522a05bf4df6a1778da),
   (900000, 0xa78e09bf1fd13bcd7b0959bc0764fe45db0a652d),
   (1000000, 0x20da1352f86f0fc7d5b42f5e96be86ea5b219b6f),
   (1100000, 0xbec7da4758ad453a49a9d9d4128acb92a1fdfd04),
   (1200000, 0x9e514e0f0a17d78be7c0045f9f22a253812c6c92),
   (1246469, 0x68b7e003ca08d50843faaddcf696cfff1954ede3),
   (1246900, 0xb5214c1bc914ea5da6c1bb8f774d07f12b85dbe2),
   (1279500, 0x488313d2c1c85bdec117bac0379f7b17f7cfbed3)]

def lastCheckpointBlockNum : Nat := (checkpointBlocks.getLast?.map Prod.fst).getD 0

/-- The key that has signed a block. Before the last checkpoint the signature is not
looked at. -/
def blockSignee (db : ChainDatabase) (block : FullBlock) : Except ChainError Nat :=
  if block.blockNum < lastCheckpointBlockNum then do
    let r ← scheduledDelegate db block.timestamp
    r.signingKey
  else orThrow (Fc.publicKey (Fc.headerDigest block.toBlockHeader) block.delegateSignature)
    .invalidSignature

def checkCheckpoint (block : FullBlock) : Except ChainError Unit :=
  require (∀ id ∈ checkpointBlocks.lookup block.blockNum, id = block.id)
    .failedCheckpointVerification

def verifyHeader (db : ChainDatabase) (block : FullBlock) (blockSignee : Nat) :
    Except ChainError Unit := do
  let head := db.headBlockHeader
  require (1 < block.blockNum → block.blockNum = head.blockNum + 1) .blockNumbersNotSequential
  require (block.previous = db.headBlockId) .invalidPreviousBlockId
  require (block.timestamp % blockIntervalSec = 0) .invalidBlockTimestamp
  require (1 < block.blockNum → head.timestamp < block.timestamp) .timeInPast
  require (block.timestamp ≤ db.wallClock + blockIntervalSec * 2) .timeInFuture
  require block.validateDigest .invalidBlockDigest
  require block.validateUnique (.assertion "digest_data.validate_unique()")
  let expected ← scheduledDelegate db block.timestamp
  let signingKey ← expected.signingKey
  require (blockSignee = signingKey) .invalidDelegateSignee

def checkSecret (d : DelegateStats) (previousSecret : Nat) : Except ChainError Unit :=
  require (∀ hash ∈ d.nextSecretHash, Fc.ripemd160 previousSecret = hash)
    (.assertion "hash_of_previous_secret == *delegate_info.next_secret_hash")

def recordSlot (db : ChainDatabase) (layer : PendingState) (r : SlotRecord) : PendingState :=
  if db.trackStats then layer.storeSlotRecord r else layer

def countProduced (db : ChainDatabase) (block : FullBlock) (blockSignee : Nat)
    (layer : PendingState) : Except ChainError PendingState := do
  let signee ← orThrow (db.getAccountRecordByAddress (Fc.address blockSignee))
    (.assertion "delegate_record.valid()")
  require signee.isDelegate (.assertion "delegate_record->is_delegate()")
  let r ← orThrow ((ChainInterface.pending layer (.database db)).getAccountRecord signee.id)
    (.assertion "delegate_record.valid()")
  let d ← r.delegate
  checkSecret d block.previousSecret
  let d := { d with
    blocksProduced := d.blocksProduced + 1
    nextSecretHash := some block.nextSecretHash
    lastBlockNumProduced := block.blockNum }
  let layer ← layer.storeAccountRecord { r with delegateInfo := some d }
  pure (recordSlot db layer
    { startTime := block.timestamp, blockProducerId := signee.id, blockId := some block.id })

/-- A slot between the head and the block in which no block was produced. -/
def countMissed (db : ChainDatabase) (active : List Int) (layer : PendingState) (timestamp : Nat) :
    Except ChainError PendingState := do
  let signee ← getSlotSignee db timestamp active
  let r ← orThrow ((ChainInterface.pending layer (.database db)).getAccountRecord signee.id)
    (.assertion "delegate_record.valid()")
  let d ← r.delegate
  let layer ← layer.storeAccountRecord
    { r with delegateInfo := some { d with blocksMissed := d.blocksMissed + 1 } }
  pure (recordSlot db layer { startTime := timestamp, blockProducerId := signee.id })

def missedSlots (head : SignedBlockHeader) (block : FullBlock) : List Nat :=
  if 0 < head.blockNum then
    let first := head.timestamp + blockIntervalSec
    (List.range ((block.timestamp - first + (blockIntervalSec - 1)) / blockIntervalSec)).map
      fun i => first + i * blockIntervalSec
  else []

def updateDelegateProductionInfo (db : ChainDatabase) (block : FullBlock) (blockSignee : Nat)
    (layer : PendingState) : Except ChainError PendingState := do
  let layer ← countProduced db block blockSignee layer
  let required ← (ChainInterface.pending layer (.database db)).getIntProperty
    .confirmationRequirement
  let active ← (ChainInterface.database db).getActiveDelegates
  let missed := missedSlots db.headBlockHeader block
  let layer ← missed.foldlM (countMissed db active) layer
  let required := required + 2 * missed.length - 1
  pure (layer.setProperty .confirmationRequirement
    (.int (min (max required 1) (3 * numDelegates))))

/-- What a delegate is paid for a block: new shares, a part of the fees, and the fees
that are destroyed. -/
structure Paycheck where
  sharesIssued : Int
  feesCollected : Int
  feesDestroyed : Int
  feesLeft : Int

def acceptedShares (db : ChainDatabase) (payRate : Nat) : Int :=
  getMaxDelegatePayIssuedPerBlock db.now * payRate / 100

/-- Up to the fork all fees are destroyed. From then on they are paid out over two weeks. -/
def paycheck (db : ChainDatabase) (payRate : Nat) (collectedFees : Int) :
    Except ChainError Paycheck :=
  let sharesIssued := acceptedShares db payRate
  if db.getHeadBlockNum < forkBlockNumV0428 then do
    require (0 ≤ sharesIssued) (.assertion "accepted_paycheck >= 0")
    pure { sharesIssued, feesCollected := 0, feesDestroyed := collectedFees, feesLeft := 0 }
  else do
    let maxCollected := collectedFees.tdiv (14 * blocksPerDay)
    let feesCollected := (int64 (maxCollected * payRate)).tdiv 100
    let feesDestroyed := maxCollected - feesCollected
    require (0 ≤ maxCollected ∧ 0 ≤ feesCollected ∧ 0 ≤ feesDestroyed)
      (.assertion "max_collected_fees >= 0")
    require (0 ≤ sharesIssued + feesCollected) (.assertion "accepted_paycheck >= 0")
    pure { sharesIssued, feesCollected, feesDestroyed, feesLeft := collectedFees - maxCollected }

/-- From block 991700 on, where the first version ends. -/
def payDelegate (db : ChainDatabase) (layer : PendingState) (blockSignee : Nat) (blockId : Nat) :
    Except ChainError (PendingState × BlockRecord) := do
  let c : ChainInterface := .pending layer (.database db)
  let base ← orThrow (c.getAssetRecord 0) (.assertion "base_asset_record.valid()")
  let signee ← orThrow (db.getAccountRecordByAddress (Fc.address blockSignee))
    (.assertion "delegate_record.valid()")
  let r ← orThrow (c.getAccountRecord signee.id) (.assertion "delegate_record.valid()")
  let d ← r.delegate
  require (d.payRate ≤ 100) (.assertion "pay_rate_percent <= 100")
  let p ← paycheck db d.payRate base.collectedFees
  let accepted := p.sharesIssued + p.feesCollected
  let d := { d with
    votesFor := int64 (d.votesFor + accepted)
    payBalance := int64 (d.payBalance + accepted)
    totalPaid := int64 (d.totalPaid + accepted) }
  let layer ← layer.storeAccountRecord { r with delegateInfo := some d }
  let layer := layer.storeAssetRecord { base with
    currentShareSupply := int64 (base.currentShareSupply + p.sharesIssued - p.feesDestroyed)
    collectedFees := p.feesLeft }
  let record ← orThrow (db.blockIdToBlockRecordDb.lookup blockId)
    (.assertion "block_record.valid()")
  pure (layer, { record with
    signeeSharesIssued := p.sharesIssued
    signeeFeesCollected := p.feesCollected
    signeeFeesDestroyed := p.feesDestroyed })

/-- Evaluate a transaction on the layer of the block and store its record there. -/
def applyTransaction (db : ChainDatabase) (blockNum : Nat) (layer : PendingState)
    (trx : SignedTransaction × Nat) : Except ChainError PendingState := do
  let s ← evaluate { prev := .database db, chainId := db.chainId, layer } trx.1
    db.skipSignatureVerification
  storeTransaction (.database db) s.layer trx.1.id
    { trx := trx.1, chainLocation := { blockNum, trxNum := trx.2 } }

def applyTransactions (db : ChainDatabase) (block : FullBlock) (layer : PendingState) :
    Except ChainError PendingState :=
  block.userTransactions.zipIdx.foldlM (applyTransaction db block.blockNum) layer

def getCurrentRandomSeed (db : ChainDatabase) : Except ChainError Nat := do
  match ← (ChainInterface.database db).getProperty .lastRandomSeedId with
  | .hash n => pure n
  | _ => throw .badCast

def nextRoundActiveDelegates (db : ChainDatabase) : List Int :=
  ((db.delegateVoteIndexDb.insertionSort voteBefore).map Prod.snd).take numDelegates

def swapAt (l : List Int) (i j : Nat) : List Int :=
  (l.set i (l.getD j 0)).set j (l.getD i 0)

/-- The shuffle of the delegates: four swaps for each hash, and every fifth position is
left out. -/
def shuffle : Nat → Nat → Nat → List Int → List Int
  | 0, _, _, l => l
  | rounds + 1, i, seed, l =>
    let swapped := (List.range 4).foldl (fun l x =>
      if i + x < l.length then swapAt l (i + x) (Fc.sha256Words seed x % l.length) else l) l
    shuffle rounds (i + 5) (Fc.sha256 seed) swapped

def updateActiveDelegateList (db : ChainDatabase) (block : FullBlock) (layer : PendingState) :
    Except ChainError PendingState :=
  if block.blockNum % numDelegates ≠ 0 then pure layer
  else do
    let active := nextRoundActiveDelegates db
    let seed ← getCurrentRandomSeed db
    pure (layer.setProperty .activeDelegateListId
      (.accounts (shuffle (active.length / 5 + 1) 0 (Fc.sha256 seed) active)))

def updateRandomSeed (db : ChainDatabase) (newSecret : Nat) (layer : PendingState) :
    Except ChainError PendingState := do
  let seed ← getCurrentRandomSeed db
  pure (layer.setProperty .lastRandomSeedId (.hash (Fc.randomSeed newSecret seed)))

/-- The layer of a block up to the pay of the delegate, and the record of the block. -/
def payBlock (db : ChainDatabase) (block : FullBlock) (blockSignee : Nat) :
    Except ChainError (PendingState × BlockRecord) := do
  let layer ← updateDelegateProductionInfo db block blockSignee {}
  payDelegate db layer blockSignee block.id

/-- The markets of the block before, then the transactions. Up to a fork the transactions come
first. -/
def executeAndApply (db : ChainDatabase) (block : FullBlock) (layer : PendingState) :
    Except ChainError PendingState :=
  if block.blockNum < forkBlockNumV049 then do
    let layer ← applyTransactions db block layer
    executeMarkets db layer block.timestamp
  else do
    let layer ← executeMarkets db layer block.timestamp
    applyTransactions db block layer

def fillLayer (db : ChainDatabase) (block : FullBlock) (layer : PendingState) :
    Except ChainError PendingState := do
  let layer ← executeAndApply db block layer
  let layer ← updateActiveDelegateList db block layer
  updateRandomSeed db block.previousSecret layer

def storeUndoState (blockId : Nat) (undo : PendingState) (db : ChainDatabase) : ChainDatabase :=
  { db with undoStateDb := db.undoStateDb.insert blockId undo.reflected }

/-- Undo states are kept for a limited number of blocks. -/
def dropOldUndoState : DbAction Unit := do
  let db ← read id
  onlyIf (maxUndoHistory < db.getHeadBlockNum) do
    let old ← lift (orThrow (db.blockNumToIdDb.lookup (db.getHeadBlockNum - maxUndoHistory))
      .keyNotFound)
    update fun db => { db with undoStateDb := db.undoStateDb.erase old }

def saveUndoState (blockId : Nat) (layer : PendingState) : DbAction Unit := do
  let db ← read id
  onlyIf (lastCheckpointBlockNum ≤ db.headBlockHeader.blockNum) do
    let undo ← lift (getUndoState layer (.database db))
    update (storeUndoState blockId undo)
    dropOldUndoState

def fetchFork (db : ChainDatabase) (id : Nat) : Except ChainError BlockForkData :=
  orThrow (db.forkDb.lookup id) .keyNotFound

def storeFork (id : Nat) (d : BlockForkData) (db : ChainDatabase) : ChainDatabase :=
  { db with forkDb := db.forkDb.insert id d }

def markIncluded (blockId : Nat) (included : Bool) : DbAction Unit := do
  let db ← read id
  let d ← lift (fetchFork db blockId)
  update (storeFork blockId { d with
    isIncluded := included, isValid := if included then some true else d.isValid })

def updateHeadBlock (block : FullBlock) (db : ChainDatabase) : ChainDatabase :=
  { db with headBlockHeader := block.toSignedBlockHeader, headBlockId := block.id }

def storeBlockRecord (id : Nat) (r : BlockRecord) (db : ChainDatabase) : ChainDatabase :=
  { db with blockIdToBlockRecordDb := db.blockIdToBlockRecordDb.insert id r }

/-- The part of `extend_chain` that checks a block and prepares its changes. -/
def prepareBlock (block : FullBlock) : DbAction PendingState := do
  let db ← read id
  let signee ← lift (blockSignee db block)
  lift (checkCheckpoint block)
  lift (verifyHeader db block signee)
  let paid ← lift (payBlock db block signee)
  update (storeBlockRecord block.id paid.2)
  let layer ← lift (fillLayer db block paid.1)
  saveUndoState block.id layer
  pure layer

def commitBlock (block : FullBlock) (layer : PendingState) : DbAction Unit := do
  applyChanges layer
  markIncluded block.id true
  update (updateHeadBlock block)
  update fun db => { db with blockNumToIdDb := db.blockNumToIdDb.insert block.blockNum block.id }

/-- The body of `extend_chain`, of which the handler catches every exception. -/
def extendBlock (block : FullBlock) : DbAction Unit := do
  let layer ← prepareBlock block
  commitBlock block layer

/-- Forget the digests of the transactions that expired before the head. -/
def purgeUnique (db : ChainDatabase) : ChainDatabase :=
  { db with uniqueTransactions := db.uniqueTransactions.filter fun entry => db.now ≤ entry.1 }

def markBlock (mark : BlockForkData → BlockForkData) (blockId : Nat) : DbAction Unit := do
  let db ← read id
  let d ← lift (fetchFork db blockId)
  update (storeFork blockId (mark d))

def nextBlocks (db : ChainDatabase) (ids : List Nat) : List Nat :=
  (ids.flatMap fun id => ((db.forkDb.lookup id).map BlockForkData.nextBlocks).getD []).dedup

/-- Change the fork data of some blocks and of all blocks that follow them, one block
number after the other. A chain of blocks is no longer than the fork database. -/
def markBlocks (mark : BlockForkData → BlockForkData) : Nat → List Nat → DbAction Unit
  | 0, _ => pure ()
  | levels + 1, ids => do
    forEach ids (markBlock mark)
    let db ← read id
    markBlocks mark levels (nextBlocks db ids)

def setInvalid (reason : ChainError) (d : BlockForkData) : BlockForkData :=
  { d with isValid := some false, invalidReason := some reason }

/-- `mark_invalid`, and `recursive_mark_as_invalid` for the blocks after it. -/
def markInvalid (blockId : Nat) (reason : ChainError) : DbAction Unit := do
  let db ← read id
  markBlocks (setInvalid reason) db.forkDb.keys.length [blockId]

def extendChain (block : FullBlock) : DbAction Unit := do
  onError (extendBlock block) fun reason => do
    markInvalid block.id reason
    lift (throw reason)
  update purgeUnique

end Bts.Blockchain.ExtendChain
