import Bts.Blockchain.ExtendAtomic
import Bts.Blockchain.ForkFlags

namespace Bts.Blockchain.ExtendSpec

open Base Result Exec Maps Levels Errors Transactions Pending Database Layers Changes ApplySpec
  ExtendChain ForkMarks ForkTree

variable [Fc] {prev rank : Nat → Nat} {db d : ChainDatabase} {block : FullBlock}
  {layer : PendingState}

def Seeded (db : ChainDatabase) : Prop := ∃ n, db.propertyDb.lookup .lastRandomSeedId = some (.hash n)

theorem seeded_iff : Seeded db ↔ ∃ seed, getCurrentRandomSeed db = .ok seed := by
  unfold Seeded getCurrentRandomSeed
  simp only [eq_ok_iff, ChainInterface.getProperty]
  constructor
  · rintro ⟨n, hn⟩
    exact ⟨n, .hash n, hn, rfl⟩
  · rintro ⟨seed, v, hv, hmatch⟩
    cases v with
    | hash n => exact ⟨n, hv⟩
    | _ => exact absurd hmatch throw_eq_ok

/-- The headers on record, the blocks themselves, their numbers and the clock are the
same, and the random seed stays on record. -/
structure SameBlocks (db d : ChainDatabase) : Prop where
  data : d.blockIdToBlockDataDb = db.blockIdToBlockDataDb
  listed : d.forkNumberDb = db.forkNumberDb
  headers : ∀ id, (d.blockIdToBlockRecordDb.lookup id).map BlockRecord.toSignedBlockHeader =
    (db.blockIdToBlockRecordDb.lookup id).map BlockRecord.toSignedBlockHeader
  seeded : Seeded db → Seeded d
  clock : d.wallClock = db.wallClock
  futures : d.revalidatableFutureBlocksDb = db.revalidatableFutureBlocksDb

theorem SameBlocks.refl (db : ChainDatabase) : SameBlocks db db :=
  ⟨rfl, rfl, fun _ => rfl, id, rfl, rfl⟩

theorem SameBlocks.trans {e : ChainDatabase} (h : SameBlocks db d) (h' : SameBlocks d e) :
    SameBlocks db e :=
  ⟨h'.data.trans h.data, h'.listed.trans h.listed, fun id => (h'.headers id).trans (h.headers id),
    fun hs => h'.seeded (h.seeded hs), h'.clock.trans h.clock, h'.futures.trans h.futures⟩

theorem SameBlocks.isSome (h : SameBlocks db d) (id : Nat) :
    (d.blockIdToBlockRecordDb.lookup id).isSome = (db.blockIdToBlockRecordDb.lookup id).isSome := by
  have hmap := congrArg Option.isSome (h.headers id)
  rwa [Option.isSome_map, Option.isSome_map] at hmap

theorem sameBlocks_of_forks {f : Forks} (h : ForksBecome db d f) : SameBlocks db d := by
  rw [h.1]
  exact ⟨rfl, rfl, fun _ => rfl, id, rfl, rfl⟩

/-- An undo record is saved for the block `id` only, and not below the last checkpoint. -/
def UndoSaved (id : Nat) (db d : ChainDatabase) : Prop :=
  ∀ x, (d.undoStateDb.lookup x).isSome → (db.undoStateDb.lookup x).isSome ∨
    x = id ∧ lastCheckpointBlockNum ≤ db.headBlockHeader.blockNum

structure Prepared (id : Nat) (db d : ChainDatabase) : Prop where
  blocks : SameBlocks db d
  head : d.headBlockId = db.headBlockId
  header : d.headBlockHeader = db.headBlockHeader
  numbers : d.blockNumToIdDb = db.blockNumToIdDb
  forks : d.forkDb = db.forkDb
  undos : UndoSaved id db d

theorem Prepared.refl (id : Nat) (db : ChainDatabase) : Prepared id db db :=
  ⟨.refl db, rfl, rfl, rfl, rfl, fun _ => Or.inl⟩

theorem Prepared.undo {id : Nat} (h : Prepared id db d) {undos : Map Nat PendingState}
    (hundos : UndoSaved id db { d with undoStateDb := undos }) :
    Prepared id db { d with undoStateDb := undos } :=
  ⟨⟨h.blocks.data, h.blocks.listed, h.blocks.headers, h.blocks.seeded, h.blocks.clock,
    h.blocks.futures⟩, h.head, h.header, h.numbers, h.forks, hundos⟩

theorem Prepared.storeBlockRecord {id : Nat} {r : BlockRecord} (h : Prepared id db d)
    (hr : (db.blockIdToBlockRecordDb.lookup id).map BlockRecord.toSignedBlockHeader =
      some r.toSignedBlockHeader) : Prepared id db (storeBlockRecord id r d) := by
  refine ⟨⟨h.blocks.data, h.blocks.listed, fun j => ?_, h.blocks.seeded, h.blocks.clock,
    h.blocks.futures⟩, h.head, h.header, h.numbers, h.forks, h.undos⟩
  change ((d.blockIdToBlockRecordDb.insert id r).lookup j).map _ = _
  rw [lookup_insert]
  split
  next hj =>
    rw [hj, hr]
    rfl
  next => exact h.blocks.headers j

theorem payBlock_record {signee : Nat} {paid : PendingState × BlockRecord}
    (h : payBlock db block signee = .ok paid) :
    (db.blockIdToBlockRecordDb.lookup block.id).map BlockRecord.toSignedBlockHeader =
      some paid.2.toSignedBlockHeader := by
  simp only [payBlock, payDelegate, eq_ok_iff] at h
  obtain ⟨_, _, base, _, _, _, r, _, delegate, _, _, _, p, _, stored, _, record, hrecord, rfl⟩ := h
  rw [hrecord]
  rfl

theorem saveUndoState_prepared (blockId : Nat) (layer : PendingState) :
    Keeps (Prepared blockId db) (saveUndoState blockId layer) := by
  refine Keeps.readThen fun s hs => ?_
  suffices hrest : Keeps (Prepared blockId db) _ from hrest s hs
  by_cases habove : lastCheckpointBlockNum ≤ s.headBlockHeader.blockNum
  · rw [hs.header] at habove
    refine Keeps.onlyIf (Keeps.bindLift fun undo => ?_)
    refine Keeps.bind (Keeps.update fun t ht => ht.undo fun x hx => ?_) fun _ => ?_
    · rw [lookup_insert] at hx
      split at hx
      next heq => exact Or.inr ⟨heq, habove⟩
      next => exact ht.undos x hx
    · refine Keeps.bindRead fun d => Keeps.onlyIf (Keeps.bindLift fun old => ?_)
      refine Keeps.update fun t ht => ht.undo fun x hx => ht.undos x ?_
      rw [lookup_erase] at hx
      split at hx
      · cases hx
      · exact hx
  · rw [onlyIf_neg (show ¬ lastCheckpointBlockNum ≤ (id s).headBlockHeader.blockNum from habove)]
    exact Keeps.pure ()

theorem prepareBlock_prepared (block : FullBlock) :
    Keeps (Prepared block.id db) (prepareBlock block) := by
  refine Keeps.readThen fun s hs => ?_
  suffices hrest : Keeps (Prepared block.id db) _ from hrest s hs
  refine Keeps.bindLift fun signee => Keeps.bindLift fun _ => ?_
  refine Keeps.bindLift fun _ => Keeps.liftThen fun paid hpaid => ?_
  refine Keeps.bind (Keeps.update fun t ht => ht.storeBlockRecord ?_) fun _ => ?_
  · rw [← hs.blocks.headers]
    exact payBlock_record hpaid
  · refine Keeps.bindLift fun layer => ?_
    exact Keeps.bind (saveUndoState_prepared _ _) fun _ => Keeps.pure _

/-- The layer of a block sets the random seed, if it says anything about it. -/
def SetsSeed (layer : PendingState) : Prop :=
  ∀ v, layer.properties.lookup .lastRandomSeedId = some v → ∃ n, v = .hash n

instance (layer : PendingState) : Decidable (SetsSeed layer) :=
  decidable_of_iff ((layer.properties.lookup .lastRandomSeedId).all fun
    | .hash _ => true
    | _ => false) <| by
    unfold SetsSeed
    cases layer.properties.lookup .lastRandomSeedId with
    | none => simp
    | some v => cases v <;> simp

theorem fillLayer_setsSeed {l : PendingState} (h : fillLayer db block l = .ok layer) :
    SetsSeed layer := by
  simp only [fillLayer, updateRandomSeed, eq_ok_iff] at h
  obtain ⟨_, _, active, _, seed, _, rfl⟩ := h
  intro v hv
  change (active.properties.insert _ _).lookup _ = some v at hv
  cases hv
  exact ⟨_, rfl⟩

theorem prepareBlock_setsSeed (h : prepareBlock block db = .ok layer d) : SetsSeed layer := by
  simp only [prepareBlock, bind_run_ok, read_run_ok, lift_run_ok, update_run_ok, pure_run_ok] at h
  obtain ⟨_, _, -, signee, _, -, _, _, -, _, _, -, paid, _, -, _, _, -, filled, _, ⟨hfill, -⟩, _, _,
    -, rfl, -⟩ := h
  exact fillLayer_setsSeed hfill

theorem applyChanges_seeded (hlayer : SetsSeed layer) : Keeps Seeded (applyChanges layer) := by
  have hproperties : Keeps Seeded (forEach layer.properties.entries fun e =>
      update (·.setProperty e.1 e.2) : DbAction Unit) := by
    refine Keeps.forEach fun e he => Keeps.update fun t ht => ?_
    change ∃ n, (putMap PropertyValue.isNull t.propertyDb e.1 e.2).lookup _ = some (.hash n)
    rw [lookup_putMap]
    split
    next hkey =>
      obtain ⟨n, hn⟩ := hlayer e.2 (hkey ▸ lookup_of_mem he)
      rw [hn]
      exact ⟨n, rfl⟩
    next => exact ht
  refine Keeps.forEach fun c hc => ?_
  rcases List.mem_cons.mp hc with rfl | hc
  · exact hproperties
  · intro t ht
    unfold Seeded
    rw [changeLoops_frame (g := (·.propertyDb.lookup .lastRandomSeedId)) (i := 0)
      (fun d => AList.lookup_erase_ne (by decide)) c hc t]
    exact ht

theorem applyChanges_prepared {id : Nat} (hlayer : SetsSeed layer) :
    Keeps (Prepared id db) (applyChanges layer) := by
  intro t ht
  have hblocks := changeLoops_blocks (changeLoops layer) (List.Subset.refl _) t
  have hseeded := applyChanges_seeded hlayer t
  change (endState (applyChanges layer t)).toBlockStore = t.toBlockStore at hblocks
  generalize endState (applyChanges layer t) = u at hblocks hseeded
  refine ⟨⟨?_, ?_, fun id => ?_, fun hs => hseeded (ht.blocks.seeded hs), ?_, ?_⟩, ?_, ?_, ?_, ?_,
    fun x hx => ht.undos x ?_⟩
  · rw [hblocks]
    exact ht.blocks.data
  · rw [hblocks]
    exact ht.blocks.listed
  · rw [hblocks]
    exact ht.blocks.headers id
  · rw [hblocks]
    exact ht.blocks.clock
  · rw [hblocks]
    exact ht.blocks.futures
  · rw [hblocks]
    exact ht.head
  · rw [hblocks]
    exact ht.header
  · rw [hblocks]
    exact ht.numbers
  · rw [hblocks]
    exact ht.forks
  · rw [hblocks] at hx
    exact hx

structure Extended (block : FullBlock) (f : BlockForkData) (db d : ChainDatabase) : Prop where
  blocks : SameBlocks db d
  head : d.headBlockId = block.id
  header : d.headBlockHeader = block.toSignedBlockHeader
  numbers : d.blockNumToIdDb = db.blockNumToIdDb.insert block.blockNum block.id
  forks : forksOf d = Function.update (forksOf db) block.id
    (some { f with isIncluded := true, isValid := some true })
  undos : UndoSaved block.id db d
  previous : block.previous = db.headBlockId

/-- The state after a block has been thrown out: the block and all after it are invalid. -/
structure Refused (id : Nat) (reason : ChainError) (db d : ChainDatabase) : Prop where
  blocks : SameBlocks db d
  head : d.headBlockId = db.headBlockId
  header : d.headBlockHeader = db.headBlockHeader
  numbers : d.blockNumToIdDb = db.blockNumToIdDb
  undos : UndoSaved id db d
  forks : ∃ ids, (∀ x, x ∈ ids ↔ Below (nextOf (forksOf db)) id x) ∧
    forksOf d = marked (setInvalid reason) ids (forksOf db)

variable {id : Nat}

theorem Prepared.forksOf (h : Prepared id db d) : forksOf d = forksOf db := by
  unfold ForkMarks.forksOf
  rw [h.forks]

theorem Prepared.tree (h : Prepared id db d) (htree : Tree prev rank db) : Tree prev rank d := by
  have hforks := h.forksOf
  refine htree.same ⟨fun x => by rw [hforks], by rw [hforks]⟩ (hforks ▸ htree.genesis.2)
    (fun id hid => htree.linkedKnown id (hforks ▸ hid)) (fun id hid => ?_) ?_
  · rw [h.blocks.isSome]
    exact hid
  · exact seeded_iff.mp (h.blocks.seeded (seeded_iff.mpr htree.seeded))

theorem Prepared.commit {u : ChainDatabase} (h : Prepared block.id db d)
    (hf : ForkMarks.forksOf db block.id = some f) (hcommit : commitBlock block layer d = .ok () u)
    (hlayer : SetsSeed layer) (hprevious : block.previous = db.headBlockId) :
    Extended block f db u := by
  simp only [commitBlock, bind_run_ok, update_run_ok] at hcommit
  obtain ⟨_, t, happly, _, v, hmark, _, _, rfl, rfl⟩ := hcommit
  have ht : Prepared block.id db t := by
    have hkeeps := applyChanges_prepared hlayer d h
    rw [happly] at hkeeps
    exact hkeeps
  have hlookup : t.forkDb.lookup block.id = some f := by
    rw [ht.forks]
    exact hf
  rw [markIncluded_run true hlookup] at hmark
  cases hmark
  refine ⟨⟨ht.blocks.data, ht.blocks.listed, ht.blocks.headers, ht.blocks.seeded, ht.blocks.clock,
    ht.blocks.futures⟩, rfl, rfl, ?_, ?_, ht.undos, hprevious⟩
  · change t.blockNumToIdDb.insert _ _ = _
    rw [ht.numbers]
  · change ForkMarks.forksOf (storeFork block.id _ t) = _
    rw [forksOf_storeFork, ht.forksOf]
    rfl

theorem extendBlock_previous {layer : PendingState} (h : prepareBlock block db = .ok layer d) :
    block.previous = db.headBlockId := by
  simp only [prepareBlock, bind_run_ok, read_run_ok, lift_run_ok] at h
  obtain ⟨_, _, ⟨rfl, rfl⟩, signee, _, ⟨-, rfl⟩, _, _, ⟨-, rfl⟩, _, _, ⟨hverified, -⟩, -⟩ := h
  exact (HeaderChecks.verifyHeader_ok hverified).2.1

/-- When the body of `extend_chain` throws, the changes may have been applied in part, but
the blocks and the forks are as before. -/
theorem extendBlock_error {e : ChainError} (hf : ForkMarks.forksOf db block.id = some f)
    (h : extendBlock block db = .error e d) :
    Prepared block.id db d := by
  have hprepared := prepareBlock_prepared block db (.refl _ db)
  rw [extendBlock, bind_run_error] at h
  rcases h with h | ⟨layer, t, hprepare, h⟩
  · rw [h] at hprepared
    exact hprepared
  · rw [hprepare] at hprepared
    have happlied := applyChanges_prepared (prepareBlock_setsSeed hprepare) t hprepared
    simp only [commitBlock, bind_run_error] at h
    rcases h with h | ⟨_, u, happly, h⟩
    · rw [h] at happlied
      exact happlied
    · rw [happly] at happlied
      change Prepared block.id db u at happlied
      have hlookup : u.forkDb.lookup block.id = some f := by
        rw [happlied.forks]
        exact hf
      rcases h with h | ⟨_, v, -, h⟩
      · rw [markIncluded_run true hlookup] at h
        cases h
      · simp at h

theorem extendChain_cases (htree : Tree prev rank db) (hf : ForkMarks.forksOf db block.id = some f) :
    (∃ d, extendChain block db = .ok () d ∧ Extended block f db d) ∨
      ∃ e d, extendChain block db = .error e d ∧ Refused block.id e db d := by
  cases hrun : extendBlock block db with
  | ok _ u =>
    have hbody := hrun
    rw [extendBlock, bind_run_ok] at hbody
    obtain ⟨layer, t, hprepare, hcommit⟩ := hbody
    have hprepared := prepareBlock_prepared block db (.refl _ db)
    rw [hprepare] at hprepared
    have hu := hprepared.commit hf hcommit (prepareBlock_setsSeed hprepare)
      (extendBlock_previous hprepare)
    refine Or.inl ⟨purgeUnique u, bind_run_ok.mpr ⟨(), u, ?_, rfl⟩, ?_⟩
    · unfold onError
      rw [hrun]
    · exact ⟨⟨hu.blocks.data, hu.blocks.listed, hu.blocks.headers, hu.blocks.seeded,
        hu.blocks.clock, hu.blocks.futures⟩, hu.head, hu.header, hu.numbers, hu.forks, hu.undos,
        hu.previous⟩
  | error e u =>
    have hu := extendBlock_error hf hrun
    have hfork : ForkMarks.forksOf u block.id = some f := by
      rw [hu.forksOf]
      exact hf
    obtain ⟨d, ids, hmark, hids, hforks⟩ := markPresent_run (hu.tree htree) (mark_setInvalid e)
      (Option.isSome_of_eq_some hfork)
    refine Or.inr ⟨e, d, bind_run_error.mpr (Or.inl ?_), ?_⟩
    · unfold onError
      rw [hrun]
      refine bind_run_error.mpr (Or.inr ⟨(), d, ?_, rfl⟩)
      exact bind_run_ok.mpr ⟨u, u, rfl, hmark⟩
    · have hd := hforks.1
      rw [hu.forksOf] at hids
      refine ⟨hu.blocks.trans (sameBlocks_of_forks hforks), ?_, ?_, ?_, fun x hx => ?_, ids, hids, ?_⟩
      · rw [hd]
        exact hu.head
      · rw [hd]
        exact hu.header
      · rw [hd]
        exact hu.numbers
      · rw [hd] at hx
        exact hu.undos x hx
      · rw [hforks.2, hu.forksOf]

end Bts.Blockchain.ExtendSpec
