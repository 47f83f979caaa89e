import Bts.Blockchain.ForkDatabase

namespace Bts.Net.Client

open Base Result Exec Blockchain Transactions Database ForkDatabase

/-- A block and, next to it, the id that its sender says it has. -/
structure BlockMessage where
  block : FullBlock
  blockId : Nat

variable [Fc]

def blockMessage (block : FullBlock) : BlockMessage := ⟨block, block.id⟩

/-- What `push_block` returns, the fork data of the block it was given. -/
def pushBlockData (block : FullBlock) : DbAction BlockForkData := do
  pushBlock block
  let db ← read fun db => db
  lift (orThrow (db.forkDb.lookup block.id) .keyNotFound)

def onNewBlock (simulateDisconnect : Bool) (block : FullBlock) (blockId : Nat) (syncMode : Bool) :
    DbAction BlockForkData := do
  lift (require (simulateDisconnect = false) (.assertion "!_simulate_disconnect"))
  let db ← read fun db => db
  let forkData := (db.forkDb.lookup blockId).filter BlockForkData.isKnown
  let result ← forkData.elim (pushBlockData block) pure
  lift (require (syncMode = true → result.isLinked = true) .unlinkableBlock)
  pure result

def handleMessage (simulateDisconnect : Bool) (m : BlockMessage) (syncMode : Bool) :
    DbAction Bool := do
  let oldHeadBlock ← read fun db => db.headBlockId
  let forkData ← onNewBlock simulateDisconnect m.block m.blockId syncMode
  pure (forkData.isIncluded != decide (m.block.previous = oldHeadBlock))

end Bts.Net.Client
