import Bts.Net.Client

namespace Bts.Net.Node

open Base.Exec Blockchain Errors Transactions Database Client

/-- The connection to a peer. The items that it has been asked for are message hashes in
normal operation and block ids while the node is behind. -/
structure Peer where
  nodeId : Nat
  active : Bool := true
  itemsRequestedFromPeer : List Nat := []
  syncItemsRequestedFromPeer : List Nat := []
  idsOfItemsToGet : List Nat := []
  idsOfItemsBeingProcessed : List Nat := []
  inhibitFetchingSyncBlocks : Bool := false
  lastKnownForkBlockNumber : Nat := 0

/-- A message on its way through `handle_message`, and what that has thrown if it is back. -/
structure Call where
  message : BlockMessage
  syncMode : Bool
  outcome : Option (Option ChainError) := none

variable [Fc]

/-- The parts of `node_impl` that a block message touches, and the database of its client. -/
structure NodeImpl where
  db : ChainDatabase
  simulateDisconnect : Bool := false
  connections : List Peer := []
  mostRecentBlocksAccepted : List Nat := []
  maximumNumberOfConnections : Nat := 200
  newReceivedSyncItems : List BlockMessage := []
  receivedSyncItems : List BlockMessage := []
  calls : List Call := []
  maximumNumberOfBlocksToHandleAtOneTime : Nat := 200
  maximumNumberOfSyncBlocksToPrefetch : Nat := 2000
  suspendFetchingSyncBlocks : Bool := false
  hardForkBlockNumbers : List Nat := []

variable (n : NodeImpl)

/-- `push_back` of a circular buffer, which drops the oldest entry when it is full. -/
def pushBack (capacity : Nat) (l : List Nat) (id : Nat) : List Nat :=
  (l ++ [id]).drop (l.length + 1 - capacity)

def accept (id : Nat) : NodeImpl :=
  { n with mostRecentBlocksAccepted :=
    pushBack n.maximumNumberOfConnections n.mostRecentBlocksAccepted id }

def updateConnections (f : Peer → Peer) : NodeImpl := { n with connections := n.connections.map f }

def updateActive (f : Peer → Peer) : NodeImpl :=
  updateConnections n fun p => if p.active then f p else p

def disconnectFromPeer (p : Peer) : Peer := { p with active := false }

def isHardForkBlock (blockNumber : Nat) : Prop := blockNumber ∈ n.hardForkBlockNumbers
  deriving Decidable

def getNextKnownHardForkBlockNumber (blockNumber : Nat) : Nat :=
  (n.hardForkBlockNumbers.find? (blockNumber < ·)).getD 0

/-- The peer runs a version that does not know of the hard fork of this block. -/
def outdated (blockNumber : Nat) (p : Peer) : Prop :=
  isHardForkBlock n blockNumber ∧ p.lastKnownForkBlockNumber ≠ 0 ∧
    getNextKnownHardForkBlockNumber n p.lastKnownForkBlockNumber ≠ 0 ∧
    getNextKnownHardForkBlockNumber n p.lastKnownForkBlockNumber ≤ blockNumber
  deriving Decidable

def broadcast (m : BlockMessage) : NodeImpl := accept n m.blockId

/-- The second half of `process_block_during_normal_operation`. -/
def advertiseBlock (m : BlockMessage) : NodeImpl :=
  updateActive (broadcast n m) fun p =>
    if outdated n m.block.blockNum p then disconnectFromPeer p else p

def processBlockDuringNormalOperation (m : BlockMessage) : NodeImpl :=
  if m.blockId ∈ n.mostRecentBlocksAccepted then advertiseBlock n m
  else { n with calls := n.calls ++ [{ message := m, syncMode := false }] }

/-- What is done when `handle_message` is back from a block in normal operation. -/
def finishNormalOperation (m : BlockMessage) : Option ChainError → NodeImpl
  | none => advertiseBlock (accept n m.blockId) m
  | some _ => updateActive n fun p =>
    if p.idsOfItemsToGet.head? = some m.blockId then disconnectFromPeer p else p

/-- The peers after a block that the client has accepted while the node is behind. -/
def markProcessed (m : BlockMessage) (p : Peer) : Peer :=
  if outdated n m.block.blockNum p then disconnectFromPeer p
  else { p with idsOfItemsBeingProcessed := p.idsOfItemsBeingProcessed.erase m.blockId }

/-- What `send_sync_block_to_node_delegate` does when `handle_message` is back. -/
def finishSyncBlock (m : BlockMessage) : Option ChainError → NodeImpl
  | none => updateActive (accept n m.blockId) (markProcessed n m)
  | some .blockOlderThanUndoHistory => updateActive n fun p =>
    if m.blockId ∈ p.idsOfItemsBeingProcessed then { p with inhibitFetchingSyncBlocks := true } else p
  | some _ => updateActive n fun p =>
    if m.blockId ∈ p.idsOfItemsBeingProcessed then disconnectFromPeer p else p

/-- Some peer expects the block next, while the node is behind. -/
def potentialFirstBlock (m : BlockMessage) : Prop :=
  ∃ p ∈ n.connections, p.active = true ∧ p.idsOfItemsToGet.head? = some m.blockId
  deriving Decidable

def startProcessing (id : Nat) (p : Peer) : Peer :=
  if p.idsOfItemsToGet.head? = some id then
    { p with
      idsOfItemsToGet := p.idsOfItemsToGet.tail
      idsOfItemsBeingProcessed := p.idsOfItemsBeingProcessed.insert id }
  else p

/-- The calls of `send_sync_block_to_node_delegate` that are not back yet. -/
def handleMessageCallsInProgress : List Call := n.calls.filter Call.syncMode

/-- The blocks that have arrived since are looked at first, the latest of them last. -/
def gatherSyncItems : NodeImpl :=
  { n with
    receivedSyncItems := n.newReceivedSyncItems.reverse ++ n.receivedSyncItems
    newReceivedSyncItems := [] }

/-- Pass on the block at a place of the list, unless it has been accepted on another way. -/
def passSyncItem (i : Nat) (m : BlockMessage) : NodeImpl × Bool :=
  if m.blockId ∈ n.mostRecentBlocksAccepted then (updateActive n (startProcessing m.blockId), false)
  else (updateActive
    { n with
      receivedSyncItems := n.receivedSyncItems.eraseIdx i
      calls := n.calls ++ [{ message := m, syncMode := true }] } (startProcessing m.blockId), true)

/-- Once around the loop of `process_backlog_of_sync_blocks`, and whether a block has been
passed on. -/
def processSyncItem : NodeImpl × Bool :=
  match n.receivedSyncItems.findIdx? fun m => potentialFirstBlock n m with
  | none => (n, false)
  | some i => n.receivedSyncItems[i]?.elim (n, false) (passSyncItem n i)

def suspendFetching : NodeImpl :=
  { n with suspendFetchingSyncBlocks := n.suspendFetchingSyncBlocks ||
      decide (n.maximumNumberOfSyncBlocksToPrefetch ≤ n.receivedSyncItems.length) }

def processSyncItems : Nat → NodeImpl → NodeImpl
  | 0, n => n
  | rounds + 1, n =>
    let round := processSyncItem (gatherSyncItems n)
    if n.maximumNumberOfBlocksToHandleAtOneTime ≤ (handleMessageCallsInProgress round.1).length then
      suspendFetching round.1
    else if round.2 then processSyncItems rounds round.1
    else round.1

/-- Each round but the last takes a block from the received ones. -/
def processBacklogOfSyncBlocks : NodeImpl :=
  if n.maximumNumberOfBlocksToHandleAtOneTime ≤ (handleMessageCallsInProgress n).length then n
  else processSyncItems (n.newReceivedSyncItems.length + n.receivedSyncItems.length + 1)
    { n with suspendFetchingSyncBlocks := false }

def processBlockDuringSync (m : BlockMessage) : NodeImpl :=
  { n with newReceivedSyncItems := m :: n.newReceivedSyncItems }

def updatePeer (nodeId : Nat) (f : Peer → Peer) : NodeImpl :=
  updateConnections n fun p => if p.nodeId = nodeId then f p else p

/-- A block that the peer was asked for. Any other is a reason to disconnect. -/
def processBlockMessage (p : Peer) (m : BlockMessage) (messageHash : Nat) : NodeImpl :=
  if messageHash ∈ p.itemsRequestedFromPeer then
    processBlockDuringNormalOperation (updatePeer n p.nodeId fun p =>
      { p with itemsRequestedFromPeer := p.itemsRequestedFromPeer.erase messageHash }) m
  else if m.blockId ∈ p.syncItemsRequestedFromPeer then
    processBlockDuringSync (updatePeer n p.nodeId fun p =>
      { p with syncItemsRequestedFromPeer := p.syncItemsRequestedFromPeer.erase m.blockId }) m
  else updatePeer n p.nodeId disconnectFromPeer

/-- The steps of a node. A message of a peer arrives, the backlog is looked through, the
client handles a message, the call comes back, a delegate of the client has produced a block,
or other messages change what the peers are asked for. -/
inductive Event
  | receive (nodeId : Nat) (message : BlockMessage) (messageHash : Nat)
  | backlog
  | handle (call : Nat)
  | finish (call : Nat)
  | produced (block : FullBlock)
  | peers (connections : List Peer)

def receive (nodeId : Nat) (m : BlockMessage) (messageHash : Nat) : NodeImpl :=
  match n.connections.find? (·.nodeId = nodeId) with
  | none => n
  | some p => processBlockMessage n p m messageHash

def thrown {ε σ α : Type} : EStateM.Result ε σ α → Option ε
  | .ok _ _ => none
  | .error e _ => some e

def handleCall (call : Nat) : NodeImpl :=
  match n.calls[call]? with
  | some ⟨message, syncMode, none⟩ =>
    let result := handleMessage n.simulateDisconnect message syncMode n.db
    { n with
      db := endState result
      calls := n.calls.set call ⟨message, syncMode, some (thrown result)⟩ }
  | _ => n

def finishCall (call : Nat) : NodeImpl :=
  match n.calls[call]? with
  | some ⟨message, syncMode, some outcome⟩ =>
    let n := { n with calls := n.calls.eraseIdx call }
    if syncMode then finishSyncBlock n message outcome else finishNormalOperation n message outcome
  | _ => n

/-- A block of a delegate of the client itself. -/
def produceBlock (block : FullBlock) : NodeImpl :=
  let result := onNewBlock n.simulateDisconnect block block.id false n.db
  let n := { n with db := endState result }
  if returns result then broadcast n (blockMessage block) else n

def step (e : Event) (n : NodeImpl) : NodeImpl :=
  match e with
  | .receive nodeId m messageHash => receive n nodeId m messageHash
  | .backlog => processBacklogOfSyncBlocks n
  | .handle call => handleCall n call
  | .finish call => finishCall n call
  | .produced block => produceBlock n block
  | .peers connections => { n with connections }

end Bts.Net.Node
