import Bts.Blockchain.ChainIndex
import Bts.Blockchain.KnownBlocks
import Bts.Net.Node

namespace Bts.Net.AcceptedBlocks

open Base Exec Maps Runs Blockchain Transactions Database ForkDatabase ForkMarks ForkTree ChainIndex
  KnownBlocks Client Node

section Model

variable [Fc] {db d : ChainDatabase} {block : FullBlock} {n : NodeImpl} {m : BlockMessage}

theorem pushBlock_keeps : Keeps (Kept db) (pushBlock block) := by
  intro s hs
  rcases pushBlock_kept block s with ⟨e, hrun⟩ | hkept
  · rw [hrun]
    exact hs
  · exact hs.trans hkept.1

/-- A block that is not refused stays stored through later pushes. -/
theorem pushed_block_stored (blocks : List FullBlock) :
    (∃ e, pushBlock block db = .error e db) ∨ Stored (run push blocks (push block db)) block.id := by
  refine (pushBlock_kept block db).imp_right fun hkept => ?_
  have hall : Meets push (fun _ _ => True) blocks (push block db) := .of_forall fun _ _ _ => trivial
  exact (hall.keeps (I := Kept _) (fun _ d _ => pushBlock_keeps d) (.refl _)).stored _ hkept.2

theorem pushBlockData_keeps : Keeps (Kept db) (pushBlockData block) :=
  Keeps.bind pushBlock_keeps fun _ => Keeps.bindRead fun _ => Keeps.lift _

theorem onNewBlock_keeps (disconnected : Bool) (blockId : Nat) (syncMode : Bool) :
    Keeps (Kept db) (onNewBlock disconnected block blockId syncMode) := by
  refine Keeps.bindLift fun _ => Keeps.bindRead fun d => ?_
  refine Keeps.bind ?_ fun result => Keeps.bindLift fun _ => Keeps.pure _
  cases (d.forkDb.lookup blockId).filter BlockForkData.isKnown with
  | none => exact pushBlockData_keeps
  | some f => exact Keeps.pure f

theorem onNewBlock_ok {disconnected syncMode : Bool} {blockId : Nat} {f : BlockForkData}
    (h : onNewBlock disconnected block blockId syncMode db = .ok f d) :
    Known (forksOf db) blockId ∨ Stored d block.id := by
  simp only [onNewBlock, bind_run_ok, lift_run_ok, read_run_ok, pure_run_ok] at h
  obtain ⟨_, _, ⟨-, rfl⟩, _, _, ⟨rfl, rfl⟩, result, u, hresult, _, _, ⟨-, rfl⟩, -, rfl⟩ := h
  cases hfork : (db.forkDb.lookup blockId).filter BlockForkData.isKnown with
  | some g =>
    rw [Option.filter_eq_some_iff] at hfork
    exact Or.inl ⟨g, hfork⟩
  | none =>
    rw [hfork] at hresult
    simp only [Option.elim_none, pushBlockData, bind_run_ok, lift_run_ok, read_run_ok] at hresult
    obtain ⟨_, v, hpush, _, _, ⟨rfl, rfl⟩, -, rfl⟩ := hresult
    rcases pushBlock_kept block db with ⟨e, hrun⟩ | hkept
    · rw [hrun] at hpush
      cases hpush
    · rw [hpush] at hkept
      exact Or.inr hkept.2

/-- The id next to the block is the id of the block, and not the one of the genesis. -/
def Carries (m : BlockMessage) : Prop := m.blockId = m.block.id ∧ m.blockId ≠ 0

/-- Every id that has been accepted is that of a stored block, or the zero id with which a
node starts that has no block. -/
structure Sound (old : List Nat) (n : NodeImpl) : Prop where
  blocks : KnownStored n.db
  accepted : ∀ id ∈ n.mostRecentBlocksAccepted, Stored n.db id ∨ (id = 0 ∧ id ∈ old)
  newReceived : ∀ m ∈ n.newReceivedSyncItems, Carries m
  received : ∀ m ∈ n.receivedSyncItems, Carries m
  calls : ∀ c ∈ n.calls, Carries c.message ∧
    (c.outcome = some none → Stored n.db c.message.blockId)

variable {old : List Nat}

omit [Fc] in
theorem mem_pushBack {capacity id x : Nat} {l : List Nat} (h : x ∈ pushBack capacity l id) :
    x ∈ l ∨ x = id := by
  have hmem := List.mem_of_mem_drop h
  rw [List.mem_append, List.mem_singleton] at hmem
  exact hmem

section

variable (h : Sound old n)
include h

theorem Sound.connections (f : Peer → Peer) : Sound old (updateConnections n f) :=
  ⟨h.blocks, h.accepted, h.newReceived, h.received, h.calls⟩

theorem Sound.accept {id : Nat}
    (hid : Stored n.db id ∨ (id = 0 ∧ id ∈ old)) : Sound old (accept n id) := by
  refine ⟨h.blocks, fun x hx => ?_, h.newReceived, h.received, h.calls⟩
  rcases mem_pushBack hx with hold | rfl
  · exact h.accepted x hold
  · exact hid

theorem Sound.advertiseBlock
    (hid : Stored n.db m.blockId ∨ (m.blockId = 0 ∧ m.blockId ∈ old)) :
    Sound old (advertiseBlock n m) :=
  (h.accept hid).connections _

theorem Sound.call (hm : Carries m) (syncMode : Bool) :
    Sound old { n with calls := n.calls ++ [{ message := m, syncMode }] } := by
  refine ⟨h.blocks, h.accepted, h.newReceived, h.received, fun c hc => ?_⟩
  rw [List.mem_append, List.mem_singleton] at hc
  rcases hc with hc | rfl
  · exact h.calls c hc
  · exact ⟨hm, fun hnone => by cases hnone⟩

theorem Sound.receive (hm : Carries m) (nodeId messageHash : Nat) :
    Sound old (receive n nodeId m messageHash) := by
  unfold Node.receive
  split
  · exact h
  · unfold processBlockMessage
    split
    · unfold processBlockDuringNormalOperation
      split
      next hmem => exact (h.connections _).advertiseBlock (h.accepted _ hmem)
      next => exact (h.connections _).call hm false
    · split
      · refine ⟨h.blocks, h.accepted, fun x hx => ?_, h.received, h.calls⟩
        rcases List.mem_cons.mp hx with rfl | hx
        · exact hm
        · exact h.newReceived x hx
      · exact h.connections _

theorem Sound.gatherSyncItems : Sound old (gatherSyncItems n) := by
  refine ⟨h.blocks, h.accepted, fun x hx => absurd hx List.not_mem_nil, fun x hx => ?_, h.calls⟩
  rcases List.mem_append.mp hx with hx | hx
  · exact h.newReceived x (List.mem_reverse.mp hx)
  · exact h.received x hx

theorem Sound.passSyncItem (hm : Carries m) (i : Nat) : Sound old (passSyncItem n i m).1 := by
  unfold Node.passSyncItem
  split
  · exact h.connections _
  · have hcall := (h.call hm true).connections fun p =>
      if p.active then startProcessing m.blockId p else p
    exact ⟨hcall.blocks, hcall.accepted, hcall.newReceived,
      fun y hy => h.received y (List.mem_of_mem_eraseIdx hy), hcall.calls⟩

theorem Sound.processSyncItem : Sound old (processSyncItem n).1 := by
  unfold Node.processSyncItem
  split
  · exact h
  next i _ =>
    cases hget : n.receivedSyncItems[i]? with
    | none => exact h
    | some x => exact h.passSyncItem (h.received x (List.mem_of_getElem? hget)) i

end

theorem Sound.processSyncItems (rounds : Nat) (h : Sound old n) :
    Sound old (processSyncItems rounds n) := by
  induction rounds generalizing n with
  | zero => exact h
  | succ rounds ih =>
    have hstep := h.gatherSyncItems.processSyncItem
    unfold Node.processSyncItems
    dsimp only
    split
    · exact ⟨hstep.blocks, hstep.accepted, hstep.newReceived, hstep.received, hstep.calls⟩
    · split
      · exact ih hstep
      · exact hstep

theorem Sound.backlog (h : Sound old n) : Sound old (processBacklogOfSyncBlocks n) := by
  unfold processBacklogOfSyncBlocks
  split
  · exact h
  · refine Sound.processSyncItems _ ?_
    exact ⟨h.blocks, h.accepted, h.newReceived, h.received, h.calls⟩

theorem Sound.database (h : Sound old n) (hkept : Kept n.db d) : Sound old { n with db := d } :=
  ⟨hkept.knownStored h.blocks, fun id hid => (h.accepted id hid).imp_left (hkept.stored id),
    h.newReceived, h.received, fun c hc => (h.calls c hc).imp_right fun hstored hok =>
      hkept.stored _ (hstored hok)⟩

theorem handleMessage_keeps (disconnected : Bool) (syncMode : Bool) :
    Keeps (Kept db) (handleMessage disconnected m syncMode) :=
  Keeps.bindRead fun _ => Keeps.bind (onNewBlock_keeps _ _ _) fun _ => Keeps.pure _

/-- A message that carries the id of its block is handled without an exception only if the
block is stored under this id. -/
theorem handleMessage_stored {disconnected syncMode : Bool} (hm : Carries m)
    (hblocks : KnownStored db) (h : thrown (handleMessage disconnected m syncMode db) = none) :
    Stored (endState (handleMessage disconnected m syncMode db)) m.blockId := by
  have hkept := handleMessage_keeps disconnected syncMode (m := m) db (.refl db)
  cases hrun : handleMessage disconnected m syncMode db with
  | error e u =>
    rw [hrun] at h
    cases h
  | ok a u =>
    rw [hrun] at hkept
    simp only [handleMessage, bind_run_ok, read_run_ok, pure_run_ok] at hrun
    obtain ⟨_, _, ⟨-, rfl⟩, f, _, hnew, -, rfl⟩ := hrun
    rcases onNewBlock_ok hnew with hknown | hstored
    · exact hkept.stored _ (hblocks _ hm.2 hknown)
    · rw [hm.1]
      exact hstored

theorem Sound.handleCall (h : Sound old n) (call : Nat) : Sound old (handleCall n call) := by
  unfold Node.handleCall
  split
  next message syncMode hcall =>
    have hmem := List.mem_of_getElem? hcall
    have hm : Carries message := (h.calls _ hmem).1
    have hdb := h.database (handleMessage_keeps n.simulateDisconnect syncMode (m := message)
      n.db (.refl n.db))
    refine ⟨hdb.blocks, hdb.accepted, hdb.newReceived, hdb.received, fun c hc => ?_⟩
    rcases List.mem_or_eq_of_mem_set hc with hc | rfl
    · exact hdb.calls c hc
    · exact ⟨hm, fun hnone => handleMessage_stored hm h.blocks (Option.some.inj hnone)⟩
  next => exact h

theorem Sound.finishCall (h : Sound old n) (call : Nat) : Sound old (finishCall n call) := by
  unfold Node.finishCall
  split
  next message syncMode outcome hcall =>
    have hstored := (h.calls _ (List.mem_of_getElem? hcall)).2
    have hrest : Sound old { n with calls := n.calls.eraseIdx call } :=
      ⟨h.blocks, h.accepted, h.newReceived, h.received,
        fun c hc => h.calls c (List.mem_of_mem_eraseIdx hc)⟩
    split
    · unfold finishSyncBlock
      split
      · exact (hrest.accept (Or.inl (hstored rfl))).connections _
      · exact hrest.connections _
      · exact hrest.connections _
    · unfold finishNormalOperation
      split
      · exact (hrest.accept (Or.inl (hstored rfl))).advertiseBlock (Or.inl (hstored rfl))
      · exact hrest.connections _
  next => exact h

theorem Sound.produceBlock (h : Sound old n) (hzero : block.id ≠ 0) :
    Sound old (produceBlock n block) := by
  have hkept : Kept n.db (endState (onNewBlock n.simulateDisconnect block block.id false n.db)) :=
    onNewBlock_keeps _ _ _ n.db (.refl n.db)
  have hdb := h.database hkept
  unfold Node.produceBlock
  dsimp only
  split
  next hreturns =>
    refine hdb.accept (Or.inl ?_)
    cases hrun : onNewBlock n.simulateDisconnect block block.id false n.db with
    | error e u =>
      rw [hrun] at hreturns
      cases hreturns
    | ok f u =>
      rw [hrun] at hkept
      rcases onNewBlock_ok hrun with hknown | hstored
      · exact hkept.stored _ (h.blocks _ hzero hknown)
      · exact hstored
  next => exact hdb

def HonestEvent : Event → Prop
  | .receive _ m _ => Carries m
  | .produced block => block.id ≠ 0
  | _ => True

theorem Sound.step {e : Event} (h : Sound old n) (he : HonestEvent e) : Sound old (step e n) := by
  cases e with
  | receive nodeId m messageHash => exact h.receive he nodeId messageHash
  | backlog => exact h.backlog
  | handle call => exact h.handleCall call
  | finish call => exact h.finishCall call
  | produced block => exact h.produceBlock he
  | peers connections => exact ⟨h.blocks, h.accepted, h.newReceived, h.received, h.calls⟩

/-- A node that has been started: no message has arrived yet, and the ids in its list are
those of stored blocks or the zero id of a chain without blocks. -/
structure FreshNode (n : NodeImpl) : Prop where
  blocks : KnownStored n.db
  accepted : ∀ id ∈ n.mostRecentBlocksAccepted, Stored n.db id ∨ id = 0
  newReceived : n.newReceivedSyncItems = []
  received : n.receivedSyncItems = []
  calls : n.calls = []

theorem FreshNode.sound (h : FreshNode n) : Sound n.mostRecentBlocksAccepted n := by
  refine ⟨h.blocks, fun id hid => (h.accepted id hid).imp_right fun hzero => ⟨hzero, hid⟩, ?_, ?_, ?_⟩
  · rw [h.newReceived]
    exact fun x hx => absurd hx List.not_mem_nil
  · rw [h.received]
    exact fun x hx => absurd hx List.not_mem_nil
  · rw [h.calls]
    exact fun c hc => absurd hc List.not_mem_nil

/-- Whatever the peers send, in whatever order the calls are made and come back, the ids that
a node takes for accepted are those of stored blocks, if every message carries the id of its
block. -/
theorem accepted_stored (hstart : FreshNode n) (events : List Event) (hhonest : ∀ e ∈ events, HonestEvent e)
    (k : Nat) : ∀ id ∈ (run step (events.take k) n).mostRecentBlocksAccepted,
      Stored (run step (events.take k) n).db id ∨ (id = 0 ∧ id ∈ n.mostRecentBlocksAccepted) := by
  have hmeets : Meets step (fun e _ => HonestEvent e) (events.take k) n :=
    Meets.of_forall fun e he _ => hhonest e (List.mem_of_mem_take he)
  have hsound := hmeets.keeps (I := Sound n.mostRecentBlocksAccepted)
    (fun e t he ht => ht.step he) hstart.sound
  exact hsound.accepted

end Model

def freshNode : @NodeImpl Fc.plain :=
  letI := Fc.plain
  { db := startedChain 2000
    connections := [{ nodeId := 1, itemsRequestedFromPeer := [5, 6] }]
    mostRecentBlocksAccepted := [0] }

/-- The first two blocks of a chain. The id of the second is 2008. -/
def blockOne : FullBlock := signedBlock 0 1 1010 (firstId - 1000) []
def blockTwo : FullBlock := signedBlock firstId 2 1020 8 []

def arrives (m : BlockMessage) (messageHash : Nat) : List Event :=
  [.receive 1 m messageHash, .handle 0, .finish 0]

theorem freshNode_fresh : @FreshNode Fc.plain freshNode := by
  let := Fc.plain
  refine ⟨?_, ?_, rfl, rfl, rfl⟩
  · rintro id hid ⟨f, hf, -⟩
    change ((∅ : Map Nat _).insert 0 _).lookup id = some f at hf
    rw [lookup_insert, if_neg hid] at hf
    cases hf
  · exact fun id hid => Or.inr (List.mem_singleton.mp hid)

theorem accepted_stored_blockOne :
    letI := Fc.plain
    let t := run step (arrives ⟨blockOne, firstId⟩ 5) freshNode
    t.mostRecentBlocksAccepted = [0, firstId, firstId] ∧ Stored t.db firstId := by
  let := Fc.plain
  have hlist : (run step (arrives ⟨blockOne, firstId⟩ 5) freshNode).mostRecentBlocksAccepted =
      [0, firstId, firstId] := by
    decide +kernel
  have hhonest : ∀ e ∈ arrives ⟨blockOne, firstId⟩ 5, HonestEvent e := by
    simp only [arrives, List.forall_mem_cons]
    exact ⟨⟨rfl, by decide⟩, trivial, trivial, fun e he => absurd he List.not_mem_nil⟩
  have hstored := accepted_stored freshNode_fresh _ hhonest 3 firstId (by
    change firstId ∈ (run step (arrives ⟨blockOne, firstId⟩ 5) freshNode).mostRecentBlocksAccepted
    rw [hlist]
    decide)
  exact ⟨hlist, hstored.resolve_right (by decide)⟩

/-- A peer sends the first block under the id of the second. The node takes the second block
for accepted, which it does not have, and does not pass it on when it arrives. -/
theorem accepted_not_stored :
    letI := Fc.plain
    let t := run step (arrives ⟨blockOne, 2008⟩ 5) freshNode
    2008 ∈ t.mostRecentBlocksAccepted ∧ ¬ Stored t.db 2008 ∧ blockTwo.id = 2008 ∧
      let u := run step (arrives ⟨blockTwo, 2008⟩ 6) t
      ¬ Stored u.db 2008 ∧ u.db.headBlockId = firstId := by
  let := Fc.plain
  have hmissing {t : NodeImpl} (h : t.db.blockIdToBlockDataDb.lookup 2008 = none) :
      ¬ Stored t.db 2008 := by
    rintro ⟨b, hb, -⟩
    rw [h] at hb
    cases hb
  refine ⟨by decide +kernel, hmissing ?_, by decide, hmissing ?_, by decide +kernel⟩
  · rw [← Option.isNone_iff_eq_none]
    decide +kernel
  · rw [← Option.isNone_iff_eq_none]
    decide +kernel

end Bts.Net.AcceptedBlocks
