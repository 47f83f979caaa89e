import Bts.Blockchain.BlockLayer
import Bts.Blockchain.HeaderChecks
import Bts.Blockchain.ForkMarks

namespace Bts.Blockchain.ExtendAtomic

open Base Exec Maps Errors Records Transactions Pending Database ApplySpec UndoApply
  BlockLayer ExtendChain HeaderChecks ForkMarks

section Model

variable [Fc] {db db' d : ChainDatabase} {block : FullBlock} {layer : PendingState}

/-- Only the records of blocks, their undo states and the forks differ. -/
def Bookkeeping (db db' : ChainDatabase) : Prop :=
  ∃ records undos forks, db' = { db with
    blockIdToBlockRecordDb := records, undoStateDb := undos, forkDb := forks }

theorem saveUndoState_keeps (blockId : Nat) (layer : PendingState) :
    Keeps (Bookkeeping db) (saveUndoState blockId layer) := by
  refine Keeps.bindRead fun d => Keeps.onlyIf ?_
  refine Keeps.bindLift fun undo => Keeps.bind (Keeps.update ?_) fun _ => ?_
  · rintro _ ⟨records, undos, forks, rfl⟩
    exact ⟨records, _, forks, rfl⟩
  · refine Keeps.bindRead fun d => Keeps.onlyIf ?_
    refine Keeps.bindLift fun old => Keeps.update ?_
    rintro _ ⟨records, undos, forks, rfl⟩
    exact ⟨records, _, forks, rfl⟩

theorem prepareBlock_keeps (block : FullBlock) : Keeps (Bookkeeping db) (prepareBlock block) := by
  refine Keeps.bindRead fun d => Keeps.bindLift fun signee => ?_
  refine Keeps.bindLift fun _ => Keeps.bindLift fun _ => ?_
  refine Keeps.bindLift fun paid => Keeps.bind (Keeps.update ?_) fun _ => ?_
  · rintro _ ⟨records, undos, forks, rfl⟩
    exact ⟨_, undos, forks, rfl⟩
  · refine Keeps.bindLift fun layer => ?_
    exact Keeps.bind (saveUndoState_keeps _ _) fun _ => Keeps.pure _

theorem prepareBlock_ok (h : prepareBlock block db = .ok layer d) :
    Bookkeeping db d ∧ (ChainIdStored db → Storable db layer) := by
  constructor
  · have hkeeps := prepareBlock_keeps block db ⟨_, _, _, rfl⟩
    rw [h] at hkeeps
    exact hkeeps
  · intro hchain
    simp only [prepareBlock, bind_run_ok, read_run_ok, lift_run_ok, update_run_ok,
      pure_run_ok] at h
    obtain ⟨_, _, ⟨rfl, rfl⟩, signee, _, ⟨-, rfl⟩, _, _, -, _, _, -, paid, _, ⟨hpaid, -⟩, _, _, -,
      filled, _, ⟨hfill, -⟩, _, _, -, rfl, -⟩ := h
    exact fillLayer_storable (payBlock_storable hpaid) hchain hfill

theorem bookkeeping_storable (hd : Bookkeeping db d) (h : Storable db layer) :
    Storable d layer := by
  obtain ⟨records, undos, forks, rfl⟩ := hd
  exact ⟨h.signed, h.ids, h.fresh, h.digests, h.distinct⟩

/-- Everything that later blocks are checked against. -/
structure SameConsensus (db db' : ChainDatabase) : Prop where
  properties : db'.propertyDb = db.propertyDb
  assets : db'.assetDb = db.assetDb
  accounts : db'.accountDb = db.accountDb
  balances : db'.balanceDb = db.balanceDb
  slates : db'.slateDb = db.slateDb
  feeds : db'.feedDb = db.feedDb
  bids : db'.bidDb = db.bidDb
  asks : db'.askDb = db.askDb
  relativeBids : db'.relativeBidDb = db.relativeBidDb
  relativeAsks : db'.relativeAskDb = db.relativeAskDb
  shorts : db'.shortDb = db.shortDb
  collateral : db'.collateralDb = db.collateralDb
  headBlockHeader : db'.headBlockHeader = db.headBlockHeader
  headBlockId : db'.headBlockId = db.headBlockId
  numbers : db'.blockNumToIdDb = db.blockNumToIdDb

theorem Bookkeeping.sameConsensus (h : Bookkeeping db db') : SameConsensus db db' := by
  obtain ⟨records, undos, forks, rfl⟩ := h
  constructor <;> rfl

theorem markBlocks_keeps (mark : BlockForkData → BlockForkData) (levels : Nat) (ids : List Nat) :
    Keeps (Bookkeeping db) (markBlocks mark levels ids) := by
  induction levels generalizing ids with
  | zero => exact Keeps.pure ()
  | succ levels ih =>
    refine Keeps.bind (Keeps.forEach fun id _ => ?_) fun _ => Keeps.bindRead fun d => ih _
    refine Keeps.bindRead fun d => Keeps.bindLift fun f => Keeps.update ?_
    rintro _ ⟨records, undos, forks, rfl⟩
    exact ⟨records, undos, _, rfl⟩

/-- A block passes every check of `extend_chain` up to the point where its changes are
put in place. -/
def Passes (db : ChainDatabase) (block : FullBlock) : Prop :=
  ∃ layer d, prepareBlock block db = .ok layer d

/-- The block is in the fork database, and what the database says about its accounts
and its chain id is complete. -/
structure Ready (db : ChainDatabase) (block : FullBlock) : Prop where
  known : (db.forkDb.lookup block.id).isSome
  signed : AccountsSigned db
  chainId : ChainIdStored db

theorem prepareBlock_forkDb (h : prepareBlock block db = .ok layer d) : d.forkDb = db.forkDb := by
  have hkeeps : Keeps (fun u : ChainDatabase => u.forkDb = db.forkDb) (prepareBlock block) := by
    refine Keeps.bindRead fun d => Keeps.bindLift fun signee => ?_
    refine Keeps.bindLift fun _ => Keeps.bindLift fun _ => ?_
    refine Keeps.bindLift fun paid => Keeps.bind (Keeps.update fun _ h => h) fun _ => ?_
    refine Keeps.bindLift fun layer => Keeps.bind ?_ fun _ => Keeps.pure _
    refine Keeps.bindRead fun d => Keeps.onlyIf ?_
    refine Keeps.bindLift fun undo => Keeps.bind (Keeps.update fun _ h => h) fun _ => ?_
    refine Keeps.bindRead fun d => Keeps.onlyIf ?_
    exact Keeps.bindLift fun old => Keeps.update fun _ h => h
  have hend := hkeeps db rfl
  rw [h] at hend
  exact hend

theorem commitBlock_returns (h : Storable db layer) (hready : Ready db block)
    (htrack : db.trackStats = true) : ∃ db', commitBlock block layer db = .ok () db' := by
  obtain ⟨d, hd⟩ :=
    applyChanges_returns (h.accountsStorable hready.signed) h.transactionsStorable htrack
  obtain ⟨f, hf⟩ := Option.isSome_iff_exists.mp hready.known
  have hblocks : d.toBlockStore = db.toBlockStore := (applyChanges_applied hd).blocks
  have hfork : d.forkDb.lookup block.id = some f := by
    rw [hblocks]
    exact hf
  have hmark := markIncluded_run true hfork
  exact ⟨_, bind_run_ok.mpr ⟨(), d, hd, bind_run_ok.mpr ⟨(), _, hmark, rfl⟩⟩⟩

theorem commitBlock_trackStats (h : commitBlock block layer db = .ok () db') :
    db.trackStats = true := by
  simp only [commitBlock, bind_run_ok] at h
  obtain ⟨_, d, hd, -⟩ := h
  exact applyChanges_trackStats hd

theorem prepareBlock_ready (h : prepareBlock block db = .ok layer d) (hready : Ready db block) :
    Ready d block ∧ Storable d layer := by
  obtain ⟨hkeeps, hstorable⟩ := prepareBlock_ok h
  have hforks := prepareBlock_forkDb h
  refine ⟨⟨?_, ?_, ?_⟩, bookkeeping_storable hkeeps (hstorable hready.chainId)⟩
  · rw [hforks]
    exact hready.known
  · obtain ⟨_, _, _, rfl⟩ := hkeeps
    exact hready.signed
  · obtain ⟨_, _, _, rfl⟩ := hkeeps
    exact hready.chainId

theorem extendChain_returns_iff (hready : Ready db block) :
    (∃ db', extendChain block db = .ok () db') ↔ db.trackStats = true ∧ Passes db block := by
  constructor
  · rintro ⟨db', h⟩
    obtain ⟨u, hu, -⟩ := extendChain_ok h
    rw [extendBlock, bind_run_ok] at hu
    obtain ⟨layer, d, hprepare, hcommit⟩ := hu
    refine ⟨?_, layer, d, hprepare⟩
    have htrack := commitBlock_trackStats hcommit
    obtain ⟨_, _, _, rfl⟩ := (prepareBlock_ok hprepare).1
    exact htrack
  · rintro ⟨htrack, layer, d, hprepare⟩
    obtain ⟨hd, hstorable⟩ := prepareBlock_ready hprepare hready
    have htrack' : d.trackStats = true := by
      obtain ⟨_, _, _, rfl⟩ := (prepareBlock_ok hprepare).1
      exact htrack
    obtain ⟨u, hcommit⟩ := commitBlock_returns hstorable hd htrack'
    have hbody : extendBlock block db = .ok () u := by
      rw [extendBlock, bind_run_ok]
      exact ⟨layer, d, hprepare, hcommit⟩
    refine ⟨purgeUnique u, bind_run_ok.mpr ⟨(), u, ?_, rfl⟩⟩
    unfold onError
    rw [hbody]

theorem extendChain_rejected (hnot : ¬ Passes db block) {e : ChainError}
    (h : extendChain block db = .error e db') : Bookkeeping db db' := by
  have hbody : Bookkeeping db (endState (extendBlock block db)) := by
    rw [extendBlock, bind_run]
    have hkeeps := prepareBlock_keeps block db ⟨_, _, _, rfl⟩
    cases hprepare : prepareBlock block db with
    | ok layer d => exact absurd ⟨layer, d, hprepare⟩ hnot
    | error e d =>
      rw [hprepare] at hkeeps
      exact hkeeps
  simp only [extendChain, bind_run_error, update_run_error, and_false, exists_false, or_false] at h
  unfold onError at h
  cases hrun : extendBlock block db with
  | ok a u =>
    rw [hrun] at h
    cases h
  | error reason u =>
    rw [hrun] at h hbody
    dsimp only at h
    have hmark : Keeps (Bookkeeping db) (do
        markInvalid block.id reason
        lift (throw reason) : DbAction Unit) :=
      Keeps.bind (Keeps.bindRead fun d => markBlocks_keeps _ _ _) fun _ => Keeps.lift _
    have hend := hmark u hbody
    rw [h] at hend
    exact hend

def withStatistics (on : Bool) (db : ChainDatabase) : ChainDatabase := { db with trackStats := on }

def Accepted (db : ChainDatabase) (block : FullBlock) : Prop :=
  ∃ db', extendChain block db = .ok () db'

theorem not_accepted_without_statistics (hready : Ready db block) :
    ¬ Accepted (withStatistics false db) block := by
  intro h
  have hready' : Ready (withStatistics false db) block :=
    ⟨hready.known, hready.signed, hready.chainId⟩
  exact absurd ((extendChain_returns_iff hready').mp h).1 (by simp [withStatistics])

/-- With statistics a block that is thrown out changes no record that later blocks are
checked against. Without them this is so only for a block that fails a check, since no
block at all is accepted, so that the setting decides about every block that passes. -/
theorem statistics_decide (hready : Ready db block) :
    (db.trackStats = true ∨ ¬ Passes db block →
      ∀ e db', extendChain block db = .error e db' → SameConsensus db db') ∧
    (Accepted db block ↔ db.trackStats = true ∧ Passes db block) ∧
    ((Accepted (withStatistics true db) block ↔ Accepted (withStatistics false db) block) ↔
      ¬ Passes (withStatistics true db) block) := by
  refine ⟨?_, extendChain_returns_iff hready, ?_⟩
  · intro hcase e db' h
    have hnot : ¬ Passes db block := by
      intro hpasses
      have htrack := hcase.resolve_right (not_not_intro hpasses)
      obtain ⟨db'', hok⟩ := (extendChain_returns_iff hready).mpr ⟨htrack, hpasses⟩
      rw [hok] at h
      cases h
    exact (extendChain_rejected hnot h).sameConsensus
  · have hon : Ready (withStatistics true db) block :=
      ⟨hready.known, hready.signed, hready.chainId⟩
    have hoff := not_accepted_without_statistics hready
    have haccept : Accepted (withStatistics true db) block ↔
        Passes (withStatistics true db) block :=
      (extendChain_returns_iff hon).trans (and_iff_right rfl)
    rw [haccept]
    exact ⟨fun h hpasses => hoff (h.mp hpasses), fun hnot => iff_of_false hnot hoff⟩

end Model

def readyHead : @ChainDatabase Fc.plain :=
  letI := Fc.plain
  { readyChain nextBlock 1000 with
    propertyDb := (readyChain nextBlock 1000).propertyDb.insert .chainId (.hash 0) }

theorem readyHead_ready :
    letI := Fc.plain
    Ready readyHead nextBlock := by
  let := Fc.plain
  refine ⟨by decide +kernel, ?_, rfl⟩
  intro k r hr
  have hproducer : r = producer := by
    change (Table.empty.store producer).lookup k = some r at hr
    rw [Table.lookup_store, Table.lookup_empty] at hr
    split at hr
    · cases hr
      rfl
    · cases hr
  subst hproducer
  exact ⟨some 7, rfl⟩

theorem statistics_decide_readyHead :
    letI := Fc.plain
    Accepted readyHead nextBlock ∧ Passes readyHead nextBlock ∧
      ¬ (Accepted (withStatistics true readyHead) nextBlock ↔
        Accepted (withStatistics false readyHead) nextBlock) := by
  let := Fc.plain
  have hreturns : returns (extendChain nextBlock readyHead) := by decide +kernel
  have haccepted : Accepted readyHead nextBlock := ⟨_, eq_ok_of_returns hreturns⟩
  obtain ⟨-, hiff, hsetting⟩ := statistics_decide readyHead_ready
  have hpasses := (hiff.mp haccepted).2
  exact ⟨haccepted, hpasses, fun h => hsetting.mp h hpasses⟩

/-- Without statistics the next block is thrown out after the account of its producer
has been counted and paid. With them it is accepted. -/
theorem block_half_applied_without_statistics :
    letI := Fc.plain
    (∃ e db', extendChain nextBlock (withStatistics false readyHead) = .error e db' ∧
      db'.accountDb.lookup 1 ≠ readyHead.accountDb.lookup 1) ∧
    ∃ db', extendChain nextBlock (withStatistics true readyHead) = .ok () db' := by
  let := Fc.plain
  have hthrows : ¬ returns (extendChain nextBlock (withStatistics false readyHead)) := by
    decide +kernel
  have hchanged : ((endState (extendChain nextBlock (withStatistics false readyHead))).accountDb.lookup
      1).map (fun r => r.delegateInfo.map DelegateStats.blocksProduced) ≠
        (readyHead.accountDb.lookup 1).map
          (fun r => r.delegateInfo.map DelegateStats.blocksProduced) := by
    decide +kernel
  have hreturns : returns (extendChain nextBlock (withStatistics true readyHead)) := by
    decide +kernel
  refine ⟨?_, _, eq_ok_of_returns hreturns⟩
  generalize extendChain nextBlock (withStatistics false readyHead) = result at hthrows hchanged
  cases result with
  | ok _ db' => exact absurd rfl hthrows
  | error e db' => exact ⟨e, db', rfl, fun hsame => hchanged (congrArg _ hsame)⟩

end Bts.Blockchain.ExtendAtomic
