import Bts.Blockchain.ExtendChain

namespace Bts.Blockchain.ForkDatabase

open Base Result Exec Errors Transactions Database Changes ExtendChain

variable [Fc]

def getBlockHeader (db : ChainDatabase) (id : Nat) : Except ChainError SignedBlockHeader := do
  let r ← orThrow (db.blockIdToBlockRecordDb.lookup id) .unknownBlock
  pure r.toSignedBlockHeader

def getBlock (db : ChainDatabase) (id : Nat) : Except ChainError FullBlock :=
  orThrow (db.blockIdToBlockDataDb.lookup id) .keyNotFound

/-- The body of `pop_block` for a head that is not the genesis block. -/
def popHead : DbAction Unit := do
  let db ← read id
  let previous := db.headBlockHeader.previous
  markIncluded db.headBlockId false
  update fun d => { d with blockNumToIdDb := d.blockNumToIdDb.erase db.headBlockHeader.blockNum }
  let undo ← lift (orThrow (db.undoStateDb.lookup db.headBlockId) .keyNotFound)
  applyChanges undo
  update fun d => { d with headBlockId := previous }
  let header ← lift (getBlockHeader db previous)
  update fun d => { d with headBlockHeader := header }

def popBlock : DbAction Unit := do
  let db ← read id
  onlyIf (db.headBlockHeader.blockNum ≠ 0) popHead

/-- The blocks before a block, down to one that is included. The walk is no longer than
the table of blocks. -/
def forkHistory (db : ChainDatabase) : Nat → Nat → Except ChainError (List Nat)
  | 0, _ => throw .unknownBlock
  | steps + 1, id => do
    let header ← getBlockHeader db id
    if header.previous = 0 then pure [header.previous]
    else do
      let d ← fetchFork db header.previous
      require (d.isLinked = true)
        (.assertion "we hit a dead end, this fork isn't really linked!")
      if d.isIncluded then pure [header.previous]
      else do
        let rest ← forkHistory db steps header.previous
        pure (header.previous :: rest)

def getForkHistory (db : ChainDatabase) (id : Nat) : Except ChainError (List Nat) := do
  let history ← forkHistory db (db.blockIdToBlockRecordDb.keys.length + 1) id
  pure (id :: history)

/-- Pop blocks until the head is `target`. A head that comes down to the genesis block on
another way is not popped any more. -/
def popTo (target : Nat) : Nat → DbAction Unit
  | 0 => do
    let db ← read id
    lift (require (db.headBlockId = target) .unlinkableBlock)
  | pops + 1 => do
    let db ← read id
    onlyIf (db.headBlockId ≠ target) do
      popBlock
      popTo target pops

def extendById (id : Nat) : DbAction Unit := do
  let db ← read fun db => db
  let block ← lift (getBlock db id)
  extendChain block

def switchToFork (blockId : Nat) : DbAction Unit := do
  let db ← read id
  onlyIf (blockId ≠ db.headBlockId) do
    let history ← lift (getForkHistory db blockId)
    popTo (history.getLastD 0) db.headBlockHeader.blockNum
    forEach history.dropLast.reverse extendById

def setLinked (d : BlockForkData) : BlockForkData := { d with isLinked := true }

def betterFork (db : ChainDatabase) (best : Nat × Nat × BlockForkData) (id : Nat) :
    Except ChainError (Nat × Nat × BlockForkData) := do
  let r ← orThrow (db.blockIdToBlockRecordDb.lookup id) .keyNotFound
  let d ← fetchFork db id
  pure (if best.1 < r.blockNum then (r.blockNum, id, d) else best)

/-- `recursive_mark_as_linked`, with the highest block found so far. -/
def markAsLinked : Nat → List Nat → Nat × Nat × BlockForkData → DbAction (Nat × BlockForkData)
  | 0, _, best => pure best.2
  | levels + 1, ids, best => do
    forEach ids (markBlock setLinked)
    let db ← read id
    let best ← lift (ids.foldlM (betterFork db) best)
    markAsLinked levels (nextBlocks db ids) best

def indexBlock (blockId : Nat) (block : FullBlock) : DbAction Unit := do
  let db ← read id
  update fun d => { d with blockIdToBlockDataDb := d.blockIdToBlockDataDb.insert blockId block }
  onlyIf ((db.blockIdToBlockRecordDb.lookup blockId).isNone) do
    let seed ← lift (getCurrentRandomSeed db)
    update (storeBlockRecord blockId
      { block.toSignedBlockHeader with
        userTransactionIds := block.userTransactionIds, randomSeed := seed })
  update fun d =>
    let ids := (d.forkNumberDb.lookup block.blockNum).getD []
    let ids := if blockId ∈ ids then ids else ids ++ [blockId]
    { d with forkNumberDb := d.forkNumberDb.insert block.blockNum ids }

def inherit (prev d : BlockForkData) : BlockForkData :=
  if prev.invalid then { d with isValid := some false, invalidReason := prev.invalidReason } else d

/-- A block that other blocks have been waiting for. -/
def linkPlaceholder (blockId : Nat) (prev d : BlockForkData) : DbAction (Nat × BlockForkData) := do
  let current := inherit prev { d with isKnown := true, isLinked := true }
  update (storeFork blockId current)
  let db ← read id
  let levels := db.forkDb.keys.length
  if prev.invalid then do
    markBlocks (setInvalid (prev.invalidReason.getD (.assertion ""))) levels current.nextBlocks
    pure (blockId, current)
  else markAsLinked levels current.nextBlocks (0, 0, {})

def placeBlock (blockId : Nat) (prev : BlockForkData) (placeholder : Option BlockForkData) :
    DbAction (Nat × BlockForkData) :=
  match placeholder with
  | some d =>
    if prev.isLinked then linkPlaceholder blockId prev d
    else do
      let current := { d with isKnown := true }
      update (storeFork blockId current)
      pure (blockId, current)
  | none => do
    let current := inherit prev { isKnown := true, isLinked := prev.isLinked }
    update (storeFork blockId current)
    pure (blockId, current)

def storeAndIndex (blockId : Nat) (block : FullBlock) : DbAction (Nat × BlockForkData) := do
  indexBlock blockId block
  let db ← read id
  let known := (db.forkDb.lookup block.previous).getD {}
  let prev := { known with nextBlocks := known.nextBlocks.insert blockId }
  update (storeFork block.previous prev)
  let db ← read id
  placeBlock blockId prev (db.forkDb.lookup blockId)

def setUnchecked (d : BlockForkData) : BlockForkData :=
  { d with isValid := none, invalidReason := none }

/-- `mark_as_unchecked`: a block and all blocks after it are checked again later. -/
def markAsUnchecked (blockId : Nat) : DbAction Unit := do
  let db ← read id
  markBlocks setUnchecked db.forkDb.keys.length [blockId]

/-- Switch to a fork. A block from the future may become valid later. -/
def tryFork (blockId forkId : Nat) : DbAction Bool := do
  let db ← read id
  let d ← lift (fetchFork db forkId)
  if d.canLink then
    onError (do
      switchToFork forkId
      let db ← read id
      lift (require (db.blockIdToBlockRecordDb.lookup blockId).isSome
        (.assertion "record.valid()"))
      pure true) fun e => do
        onlyIf (e = .timeInFuture) (update fun d =>
          { d with revalidatableFutureBlocksDb := insert blockId d.revalidatableFutureBlocksDb })
        pure false
  else pure false

def tryForks (blockId : Nat) : List Nat → DbAction Bool
  | [] => pure false
  | forkId :: rest => do
    let switched ← tryFork blockId forkId
    if switched then pure true else tryForks blockId rest

/-- Try the forks of a block number, then those of the numbers below. -/
def tryNumbers (blockId : Nat) : Nat → DbAction Unit
  | 0 => pure ()
  | number + 1 => do
    let db ← read id
    let switched ← tryForks blockId ((db.forkNumberDb.lookup (number + 1)).getD [])
    if switched then pure () else tryNumbers blockId number

def pushBlock (block : FullBlock) : DbAction Unit := do
  let db ← read id
  let headBlockNum := db.getHeadBlockNum
  lift (require (¬ (maxUndoHistory < headBlockNum ∧ block.blockNum ≤ headBlockNum - maxUndoHistory))
    .blockOlderThanUndoHistory)
  let longest ← storeAndIndex block.id block
  onlyIf longest.2.canLink do
    let db ← read id
    let tip ← lift (getBlock db longest.1)
    onlyIf (headBlockNum < tip.blockNum) (tryNumbers block.id tip.blockNum)

end Bts.Blockchain.ForkDatabase
