import Bts.Blockchain.ForkFlags
import Bts.Blockchain.HeaderChecks

namespace Bts.Blockchain.StrandedHead

open Base Result Exec Maps Errors Transactions Database ExtendChain ForkDatabase ForkMarks ForkTree
  ForkFlags ForkWalks HeaderChecks

section Model

variable [Fc] {db db' : ChainDatabase} {head : Nat} {header : SignedBlockHeader}

/-- The head cannot be popped and is not part of the chain any more. -/
structure Stranded (head : Nat) (header : SignedBlockHeader) (db : ChainDatabase) : Prop where
  atHead : db.headBlockId = head
  atHeader : db.headBlockHeader = header
  excluded : ¬ Included (forksOf db) head
  unmapped : db.blockNumToIdDb.lookup header.blockNum = none
  undo : db.undoStateDb.lookup head = none

theorem Stranded.sameChain (h : Stranded head header db) (hsame : SameChain db db') :
    Stranded head header db' := by
  refine ⟨hsame.head.trans h.atHead, hsame.header.trans h.atHeader, ?_, ?_, ?_⟩
  · rw [hsame.flags.included]
    exact h.excluded
  · rw [hsame.numbers]
    exact h.unmapped
  · rw [hsame.undos]
    exact h.undo

theorem storeAndIndex_stranded (blockId : Nat) (block : FullBlock) :
    Keeps (Stranded head header) (storeAndIndex blockId block) :=
  fun db h => h.sameChain (storeAndIndex_sameChain blockId block db (.refl db))

/-- A head with fork data but without its undo record: popping it marks it as not
included, takes its number out of the index and then throws. -/
theorem popHead_missing {f : BlockForkData} (hf : db.forkDb.lookup db.headBlockId = some f)
    (hundo : db.undoStateDb.lookup db.headBlockId = none) :
    ∃ db', popHead db = .error .keyNotFound db' ∧
      Stranded db.headBlockId db.headBlockHeader db' := by
  have hmark := markIncluded_run false hf
  refine ⟨{ storeFork db.headBlockId { f with isIncluded := false } db with
    blockNumToIdDb := db.blockNumToIdDb.erase db.headBlockHeader.blockNum }, ?_, ?_⟩
  · simp only [ForkDatabase.popHead, bind_run_error]
    refine Or.inr ⟨db, db, rfl, Or.inr ⟨(), _, hmark, Or.inr ⟨(), _, rfl, Or.inl ?_⟩⟩⟩
    refine lift_run_error.mpr ⟨?_, rfl⟩
    rw [hundo]
    rfl
  · refine ⟨rfl, rfl, ?_, ?_, hundo⟩
    · rintro ⟨d, hd, hincluded⟩
      change (db.forkDb.insert _ _).lookup _ = _ at hd
      rw [lookup_insert, if_pos rfl] at hd
      cases hd
      cases hincluded
    · rw [lookup_erase, if_pos rfl]

theorem Stranded.popHead (h : Stranded head header db) :
    ∃ db', popHead db = .error .keyNotFound db' ∧ Stranded head header db' := by
  cases hf : db.forkDb.lookup db.headBlockId with
  | none =>
    refine ⟨db, ?_, h⟩
    refine bind_run_error.mpr (Or.inr ⟨db, db, rfl, bind_run_error.mpr (Or.inl ?_)⟩)
    refine bind_run_error.mpr (Or.inr ⟨db, db, rfl, bind_run_error.mpr (Or.inl ?_)⟩)
    refine lift_run_error.mpr ⟨?_, rfl⟩
    rw [fetchFork, hf]
    rfl
  | some f =>
    have hundo : db.undoStateDb.lookup db.headBlockId = none := h.atHead ▸ h.undo
    have hrun := popHead_missing hf hundo
    rw [h.atHead, h.atHeader] at hrun
    exact hrun

theorem forkHistory_last {steps id : Nat} {history : List Nat}
    (h : forkHistory db steps id = .ok history) :
    history.getLastD id = 0 ∨ Included (forksOf db) (history.getLastD id) := by
  induction steps generalizing id history with
  | zero => exact absurd h throw_eq_ok
  | succ steps ih =>
    simp only [forkHistory, bind_eq_ok] at h
    obtain ⟨block, -, h⟩ := h
    split at h
    next hzero =>
      cases h
      exact Or.inl hzero
    · simp only [eq_ok_iff, fetchFork] at h
      obtain ⟨d, hd, -, -, h⟩ := h
      split at h
      next hincluded =>
        cases h
        exact Or.inr ⟨d, hd, hincluded⟩
      · simp only [eq_ok_iff] at h
        obtain ⟨rest, hrest, rfl⟩ := h
        rw [List.getLastD_cons]
        exact ih hrest

theorem getForkHistory_last {forkId : Nat} {history : List Nat}
    (h : getForkHistory db forkId = .ok history) :
    history.getLastD 0 = 0 ∨ Included (forksOf db) (history.getLastD 0) := by
  simp only [getForkHistory, eq_ok_iff] at h
  obtain ⟨rest, hrest, rfl⟩ := h
  rw [List.getLastD_cons]
  exact forkHistory_last hrest

theorem Stranded.popTo {target : Nat} (h : Stranded head header db) (pops : Nat)
    (hnumber : header.blockNum ≠ 0) (htarget : head ≠ target) :
    ∃ e db', popTo target pops db = .error e db' ∧ Stranded head header db' := by
  cases pops with
  | zero =>
    refine ⟨.unlinkableBlock, db, ?_, h⟩
    refine bind_run_error.mpr (Or.inr ⟨db, db, rfl, lift_run_error.mpr ⟨?_, rfl⟩⟩)
    rw [require_eq_error, h.atHead]
    exact ⟨htarget, rfl⟩
  | succ pops =>
    obtain ⟨db', hpop, hdb'⟩ := h.popHead
    refine ⟨.keyNotFound, db', ?_, hdb'⟩
    refine bind_run_error.mpr (Or.inr ⟨db, db, rfl, onlyIf_run_error.mpr ⟨?_, ?_⟩⟩)
    · rw [h.atHead]
      exact htarget
    · refine bind_run_error.mpr (Or.inl ?_)
      refine bind_run_error.mpr (Or.inr ⟨db, db, rfl, onlyIf_run_error.mpr ⟨?_, hpop⟩⟩)
      rw [h.atHeader]
      exact hnumber

section

variable (hhead : head ≠ 0)
include hhead

section

variable (hnumber : header.blockNum ≠ 0)
include hnumber

theorem switchToFork_stranded (forkId : Nat) :
    Keeps (Stranded head header) (switchToFork forkId) := by
  refine Keeps.readThen fun db h => ?_
  rw [id_eq]
  unfold onlyIf
  split
  · cases hhistory : getForkHistory db forkId with
    | error e =>
      exact h
    | ok history =>
      have htarget : head ≠ history.getLastD 0 := by
        intro heq
        rcases getForkHistory_last hhistory with hzero | hincluded
        · exact hhead (heq.trans hzero)
        · exact h.excluded (heq ▸ hincluded)
      obtain ⟨e, db', hpop, hdb'⟩ := h.popTo db.headBlockHeader.blockNum hnumber htarget
      rw [lift_bind rfl, bind_run, hpop]
      exact hdb'
  · exact h

theorem tryFork_stranded (blockId forkId : Nat) :
    Keeps (Stranded head header) (tryFork blockId forkId) :=
  tryFork_keeps (switchToFork_stranded hhead hnumber forkId) fun _ h =>
    ⟨h.atHead, h.atHeader, h.excluded, h.unmapped, h.undo⟩

theorem tryForks_stranded (blockId : Nat)
    (forks : List Nat) : Keeps (Stranded head header) (tryForks blockId forks) :=
  tryForks_keeps (tryFork_stranded hhead hnumber blockId) forks

theorem tryNumbers_stranded
    (blockId number : Nat) : Keeps (Stranded head header) (tryNumbers blockId number) :=
  tryNumbers_keeps (tryFork_stranded hhead hnumber blockId) number

theorem pushBlock_stranded (block : FullBlock) :
    Keeps (Stranded head header) (pushBlock block) := by
  refine Keeps.bindRead fun d => Keeps.bindLift fun _ => ?_
  refine Keeps.bind (storeAndIndex_stranded _ _) fun longest => Keeps.onlyIf ?_
  refine Keeps.bindRead fun d => Keeps.bindLift fun tip => Keeps.onlyIf ?_
  exact tryNumbers_stranded hhead hnumber _ _

end

end

/-- The undo record of the head is missing, so that the head cannot be popped. -/
structure UndoMissing (db : ChainDatabase) : Prop where
  number : db.headBlockHeader.blockNum ≠ 0
  head : db.headBlockId ≠ 0
  known : (db.forkDb.lookup db.headBlockId).isSome
  undo : db.undoStateDb.lookup db.headBlockId = none

/-- Popping down to `target` comes to a block whose undo record is missing. -/
def PopsMissUndo (target : Nat) : Nat → ChainDatabase → Prop
  | 0, _ => False
  | pops + 1, db => db.headBlockId ≠ target ∧
    (UndoMissing db ∨ ∃ db', popBlock db = .ok () db' ∧ PopsMissUndo target pops db')

def SwitchMissesUndo (forkId : Nat) (db : ChainDatabase) : Prop :=
  forkId ≠ db.headBlockId ∧ ∃ d history, fetchFork db forkId = .ok d ∧ d.canLink ∧
    getForkHistory db forkId = .ok history ∧
    PopsMissUndo (history.getLastD 0) db.headBlockHeader.blockNum db

def ForksMissUndo (blockId : Nat) : List Nat → ChainDatabase → Prop
  | [], _ => False
  | forkId :: rest, db => SwitchMissesUndo forkId db ∨
    ∃ db', tryFork blockId forkId db = .ok false db' ∧ ForksMissUndo blockId rest db'

def NumbersMissUndo (blockId : Nat) : Nat → ChainDatabase → Prop
  | 0, _ => False
  | number + 1, db =>
    let forks := (db.forkNumberDb.lookup (number + 1)).getD []
    ForksMissUndo blockId forks db ∨
      ∃ db', tryForks blockId forks db = .ok false db' ∧ NumbersMissUndo blockId number db'

/-- Somewhere in a call of `push_block` a fork switch comes to a block that has to be
popped and whose undo record is missing. -/
def PushMissesUndo (block : FullBlock) (db : ChainDatabase) : Prop :=
  ¬ (maxUndoHistory < db.getHeadBlockNum ∧ block.blockNum ≤ db.getHeadBlockNum - maxUndoHistory) ∧
    ∃ longest db' tip, storeAndIndex block.id block db = .ok longest db' ∧ longest.2.canLink ∧
      getBlock db' longest.1 = .ok tip ∧ db.getHeadBlockNum < tip.blockNum ∧
      NumbersMissUndo block.id tip.blockNum db'

def HeadStranded (db : ChainDatabase) : Prop :=
  db.headBlockId ≠ 0 ∧ db.headBlockHeader.blockNum ≠ 0 ∧
    Stranded db.headBlockId db.headBlockHeader db

theorem Stranded.headStranded (h : Stranded head header db) (hhead : head ≠ 0)
    (hnumber : header.blockNum ≠ 0) : HeadStranded db := by
  unfold HeadStranded
  rw [h.atHead, h.atHeader]
  exact ⟨hhead, hnumber, h⟩

theorem HeadStranded.keep {α : Type} {x : DbAction α} (h : HeadStranded db)
    (hx : ∀ head header, head ≠ 0 → header.blockNum ≠ 0 → Keeps (Stranded head header) x) :
    HeadStranded (endState (x db)) := by
  obtain ⟨hhead, hnumber, hstranded⟩ := h
  exact (hx _ _ hhead hnumber db hstranded).headStranded hhead hnumber

theorem HeadStranded.bind {α β : Type} {x : DbAction α} {f : α → DbAction β}
    (h : HeadStranded (endState (x db)))
    (hf : ∀ a head header, head ≠ 0 → header.blockNum ≠ 0 → Keeps (Stranded head header) (f a)) :
    HeadStranded (endState ((x >>= f) db)) := by
  rw [bind_run]
  cases hx : x db with
  | error e d =>
    rw [hx] at h
    exact h
  | ok a d =>
    rw [hx] at h
    exact h.keep (hf a)

theorem popTo_strands {target pops : Nat} (h : PopsMissUndo target pops db) :
    ∃ e db', popTo target pops db = .error e db' ∧ HeadStranded db' := by
  induction pops generalizing db with
  | zero => exact h.elim
  | succ pops ih =>
    obtain ⟨htarget, hmissing | ⟨d, hpop, hrest⟩⟩ := h
    · obtain ⟨f, hf⟩ := Option.isSome_iff_exists.mp hmissing.known
      obtain ⟨db', hrun, hstranded⟩ := popHead_missing hf hmissing.undo
      refine ⟨.keyNotFound, db', ?_, hstranded.headStranded hmissing.head hmissing.number⟩
      refine bind_run_error.mpr (Or.inr ⟨db, db, rfl, onlyIf_run_error.mpr ⟨htarget, ?_⟩⟩)
      refine bind_run_error.mpr (Or.inl ?_)
      exact bind_run_error.mpr (Or.inr ⟨db, db, rfl, onlyIf_run_error.mpr ⟨hmissing.number, hrun⟩⟩)
    · obtain ⟨e, db', hrun, hstranded⟩ := ih hrest
      refine ⟨e, db', ?_, hstranded⟩
      refine bind_run_error.mpr (Or.inr ⟨db, db, rfl, onlyIf_run_error.mpr ⟨htarget, ?_⟩⟩)
      exact bind_run_error.mpr (Or.inr ⟨(), d, hpop, hrun⟩)

theorem switchToFork_strands {forkId : Nat} (h : SwitchMissesUndo forkId db) :
    ∃ e db', switchToFork forkId db = .error e db' ∧ HeadStranded db' := by
  obtain ⟨hne, d, history, -, -, hhistory, hpops⟩ := h
  obtain ⟨e, db', hrun, hstranded⟩ := popTo_strands hpops
  refine ⟨e, db', ?_, hstranded⟩
  refine bind_run_error.mpr (Or.inr ⟨db, db, rfl, onlyIf_run_error.mpr ⟨hne, ?_⟩⟩)
  refine bind_run_error.mpr (Or.inr ⟨history, db, lift_run_ok.mpr ⟨hhistory, rfl⟩, ?_⟩)
  exact bind_run_error.mpr (Or.inl hrun)

theorem tryFork_throws {blockId forkId : Nat} {f : BlockForkData} {e : ChainError}
    (hf : fetchFork db forkId = .ok f) (hlink : f.canLink)
    (hswitch : switchToFork forkId db = .error e db') :
    tryFork blockId forkId db = (do
      onlyIf (e = .timeInFuture) (update fun d =>
        { d with revalidatableFutureBlocksDb := insert blockId d.revalidatableFutureBlocksDb })
      pure false : DbAction Bool) db' := by
  unfold tryFork
  rw [readId_bind, lift_bind hf, if_pos hlink]
  unfold onError
  rw [bind_run, hswitch]

theorem tryFork_strands {forkId : Nat} (h : SwitchMissesUndo forkId db) (blockId : Nat) :
    HeadStranded (endState (tryFork blockId forkId db)) := by
  obtain ⟨e, db', hrun, hstranded⟩ := switchToFork_strands h
  obtain ⟨-, d, -, hd, hlink, -, -⟩ := h
  rw [tryFork_throws hd hlink hrun]
  refine hstranded.keep fun head header _ _ => ?_
  refine Keeps.bind (Keeps.onlyIf (Keeps.update ?_)) fun _ => Keeps.pure _
  exact fun _ h => ⟨h.atHead, h.atHeader, h.excluded, h.unmapped, h.undo⟩

theorem tryForks_strands {blockId : Nat} {forks : List Nat} (h : ForksMissUndo blockId forks db) :
    HeadStranded (endState (tryForks blockId forks db)) := by
  induction forks generalizing db with
  | nil => exact h.elim
  | cons forkId rest ih =>
    unfold tryForks
    rcases h with hswitch | ⟨d, htry, hforks⟩
    · refine (tryFork_strands hswitch blockId).bind fun _ _ _ hhead hnumber => ?_
      exact Keeps.ite (Keeps.pure _) (tryForks_stranded hhead hnumber _ _)
    · rw [bind_run, htry]
      exact ih hforks

theorem tryNumbers_strands {blockId number : Nat} (h : NumbersMissUndo blockId number db) :
    HeadStranded (endState (tryNumbers blockId number db)) := by
  induction number generalizing db with
  | zero => exact h.elim
  | succ number ih =>
    unfold tryNumbers
    rw [readId_bind]
    rcases h with hforks | ⟨d, htry, hnumbers⟩
    · refine (tryForks_strands hforks).bind fun _ _ _ hhead hnumber => ?_
      exact Keeps.ite (Keeps.pure _) (tryNumbers_stranded hhead hnumber _ _)
    · rw [bind_run, htry]
      exact ih hnumbers

/-- A block of a number that cannot be undone any more is not looked at. -/
abbrev TooOld (block : FullBlock) (db : ChainDatabase) : Prop :=
  maxUndoHistory < db.getHeadBlockNum ∧ block.blockNum ≤ db.getHeadBlockNum - maxUndoHistory

variable {block : FullBlock} {longest : Nat × BlockForkData}

theorem pushBlock_tooOld (h : TooOld block db) : endState (pushBlock block db) = db := by
  have hrequire : require (¬ TooOld block db) ChainError.blockOlderThanUndoHistory =
      .error .blockOlderThanUndoHistory := require_eq_error.mpr ⟨not_not.mpr h, rfl⟩
  unfold pushBlock
  rw [readId_bind, bind_run, hrequire]
  rfl

section

variable (hyoung : ¬ TooOld block db) (hstore : storeAndIndex block.id block db = .ok longest db')
include hyoung hstore

theorem pushBlock_stores :
    pushBlock block db = onlyIf longest.2.canLink (do
      let d ← read id
      let tip ← lift (getBlock d longest.1)
      onlyIf (db.getHeadBlockNum < tip.blockNum) (tryNumbers block.id tip.blockNum)) db' := by
  unfold pushBlock
  rw [readId_bind, lift_bind (a := ()) (require_eq_ok.mpr hyoung), bind_run, hstore]

theorem pushBlock_tries {tip : FullBlock} (hlink : longest.2.canLink)
    (htip : getBlock db' longest.1 = .ok tip) (hlonger : db.getHeadBlockNum < tip.blockNum) :
    pushBlock block db = tryNumbers block.id tip.blockNum db' := by
  rw [pushBlock_stores hyoung hstore, onlyIf_pos hlink, readId_bind, lift_bind htip,
    onlyIf_pos hlonger]

theorem pushBlock_waits
    (hshort : longest.2.canLink → ∀ tip, getBlock db' longest.1 = .ok tip →
      ¬ db.getHeadBlockNum < tip.blockNum) : endState (pushBlock block db) = db' := by
  rw [pushBlock_stores hyoung hstore]
  by_cases hlink : longest.2.canLink
  · rw [onlyIf_pos hlink, readId_bind]
    cases htip : getBlock db' longest.1 with
    | error e => rfl
    | ok tip =>
      rw [lift_bind rfl, onlyIf_neg (hshort hlink tip htip)]
      rfl
  · rw [onlyIf_neg hlink]
    rfl

end

theorem pushBlock_strands (h : PushMissesUndo block db) :
    HeadStranded (endState (pushBlock block db)) := by
  obtain ⟨hyoung, longest, d, tip, hstore, hlink, htip, hlonger, hnumbers⟩ := h
  rw [pushBlock_tries hyoung hstore hlink htip hlonger]
  exact tryNumbers_strands hnumbers

def pushBlocks (blocks : List FullBlock) (db : ChainDatabase) : ChainDatabase :=
  blocks.foldl (fun d block => endState (pushBlock block d)) db

theorem pushBlocks_stranded (hhead : head ≠ 0) (hnumber : header.blockNum ≠ 0)
    (h : Stranded head header db) (blocks : List FullBlock) :
    Stranded head header (pushBlocks blocks db) := by
  induction blocks generalizing db with
  | nil => exact h
  | cons block blocks ih => exact ih (pushBlock_stranded hhead hnumber block db h)

/-- A switch that comes to a missing undo record always leaves the head out of the chain
and out of the index, and no block that arrives later is ever adopted. -/
theorem missing_undo_strands_head {block : FullBlock} (h : PushMissesUndo block db) :
    let d := endState (pushBlock block db)
    ¬ Has (fun f => f.isIncluded = true) (forksOf d) d.headBlockId ∧
      d.blockNumToIdDb.lookup d.headBlockHeader.blockNum ≠ some d.headBlockId ∧
      ∀ blocks, (pushBlocks blocks d).headBlockId = d.headBlockId := by
  obtain ⟨hhead, hnumber, hstranded⟩ := pushBlock_strands h
  refine ⟨hstranded.excluded, ?_, fun blocks =>
    (pushBlocks_stranded hhead hnumber hstranded blocks).atHead⟩
  rw [hstranded.unmapped]
  simp

end Model

/-- A block on a fork that leaves the chain one block before its head, and the next
block on that fork. -/
def forkBlock : FullBlock where
  previous := 4
  blockNum := headNum
  timestamp := 1000
  delegateSignature := 8

def forkTip : FullBlock :=
  letI := Fc.plain
  { previous := forkBlock.id
    blockNum := headNum + 1
    timestamp := 1010
    delegateSignature := 8 }

/-- A chain whose head, the block 5, has no undo record, with a fork of the same length
from the block 4 before it. -/
def forkedChain : @ChainDatabase Fc.plain :=
  letI := Fc.plain
  let chain := readyChain nextBlock 1000
  let header : SignedBlockHeader := { chain.headBlockHeader with previous := 4 }
  let known : BlockForkData := { isKnown := true, isLinked := true }
  let included := { known with isIncluded := true, isValid := some true }
  { chain with
    headBlockHeader := header
    forkDb := ((((∅ : Map Nat _).insert 4 { included with nextBlocks := [5, forkBlock.id] }).insert 5
      included).insert forkBlock.id known)
    forkNumberDb := (∅ : Map Nat _).insert headNum [5, forkBlock.id]
    blockIdToBlockRecordDb := (((∅ : Map Nat _).insert 4 {}).insert 5 { header with }).insert
      forkBlock.id { forkBlock.toSignedBlockHeader with }
    blockIdToBlockDataDb := (∅ : Map Nat _).insert forkBlock.id forkBlock }

/-- Storing the next block of the fork makes the fork longer than the chain. -/
def longerFork : @ChainDatabase Fc.plain :=
  letI := Fc.plain
  endState (storeAndIndex forkTip.id forkTip forkedChain)

theorem longerFork_missesUndo :
    letI := Fc.plain
    NumbersMissUndo forkTip.id forkTip.blockNum longerFork := by
  let := Fc.plain
  have hforks : (longerFork.forkNumberDb.lookup (headNum + 1)).getD [] = [forkTip.id] := by
    decide +kernel
  have hlink : Has (fun d => d.canLink) (forksOf longerFork) forkTip.id := by decide +kernel
  have hhistory : (getForkHistory longerFork forkTip.id).toOption =
      some [forkTip.id, forkBlock.id, 4] := by
    decide +kernel
  have hhead : longerFork.headBlockId = 5 := by decide +kernel
  have hnumber : longerFork.headBlockHeader.blockNum = 1249999 + 1 := by decide +kernel
  have hknown : (longerFork.forkDb.lookup 5).isSome := by decide +kernel
  have hundo : (longerFork.undoStateDb.lookup 5).isNone := by decide +kernel
  generalize longerFork = d at hforks hlink hhistory hhead hnumber hknown hundo
  obtain ⟨f, hf, hcan⟩ := hlink
  have hmissing : UndoMissing d := by
    refine ⟨?_, ?_, ?_, ?_⟩
    · rw [hnumber]
      exact Nat.succ_ne_zero _
    · rw [hhead]
      decide
    · rw [hhead]
      exact hknown
    · rw [hhead]
      exact Option.isNone_iff_eq_none.mp hundo
  have hok : getForkHistory d forkTip.id = .ok [forkTip.id, forkBlock.id, 4] := by
    cases hrun : getForkHistory d forkTip.id with
    | error e =>
      rw [hrun] at hhistory
      cases hhistory
    | ok history =>
      rw [hrun] at hhistory
      cases hhistory
      rfl
  change NumbersMissUndo forkTip.id (headNum + 1) d
  refine Or.inl ?_
  change ForksMissUndo forkTip.id ((d.forkNumberDb.lookup (headNum + 1)).getD []) d
  rw [hforks]
  refine Or.inl ⟨?_, f, _, ?_, hcan, hok, ?_⟩
  · rw [hhead]
    decide
  · exact orThrow_eq_ok.mpr hf
  · rw [hnumber]
    refine ⟨?_, Or.inl hmissing⟩
    rw [hhead]
    decide

theorem forkTip_missesUndo :
    letI := Fc.plain
    PushMissesUndo forkTip forkedChain := by
  let := Fc.plain
  have hyoung : ¬ (maxUndoHistory < forkedChain.getHeadBlockNum ∧
      forkTip.blockNum ≤ forkedChain.getHeadBlockNum - maxUndoHistory) := by
    decide +kernel
  have hstored : ∃ r ∈ outcome (storeAndIndex forkTip.id forkTip forkedChain),
      r.1 = forkTip.id ∧ r.2.canLink := by
    decide +kernel
  have htip : ∃ tip ∈ longerFork.blockIdToBlockDataDb.lookup forkTip.id,
      tip.blockNum = forkTip.blockNum := by
    decide +kernel
  have hlonger : forkedChain.getHeadBlockNum < forkTip.blockNum := by decide +kernel
  obtain ⟨longest, hlongest, hid, hlink⟩ := hstored
  obtain ⟨tip, htip, hnumber⟩ := htip
  refine ⟨hyoung, longest, longerFork, tip, eq_ok_of_outcome hlongest, hlink, ?_, ?_, ?_⟩
  · rw [hid]
    exact orThrow_eq_ok.mpr htip
  · rw [hnumber]
    exact hlonger
  · rw [hnumber]
    exact longerFork_missesUndo

theorem missing_undo_strands_head_forkTip :
    letI := Fc.plain
    PushMissesUndo forkTip forkedChain ∧ ∀ blocks,
      (pushBlocks blocks (endState (pushBlock forkTip forkedChain))).headBlockId =
        (endState (pushBlock forkTip forkedChain)).headBlockId := by
  let := Fc.plain
  have hmisses := forkTip_missesUndo
  exact ⟨hmisses, (missing_undo_strands_head hmisses).2.2⟩

/-- The next block is adopted by the chain, but not after a longer fork has arrived to
which the chain cannot switch: its head is then neither included nor in the index. -/
theorem head_dropped_by_failed_switch :
    letI := Fc.plain
    (endState (pushBlock nextBlock forkedChain)).headBlockId = nextBlock.id ∧
      let d := endState (pushBlock forkTip forkedChain)
      d.headBlockId = 5 ∧ ¬ Has (fun f => f.isIncluded = true) (forksOf d) 5 ∧
        d.blockNumToIdDb.lookup d.headBlockHeader.blockNum = none ∧
        (endState (pushBlock nextBlock d)).headBlockId = 5 := by
  refine ⟨by decide +kernel, ?_, ?_, ?_, ?_⟩
  · decide +kernel
  · decide +kernel
  · decide +kernel
  · decide +kernel

end Bts.Blockchain.StrandedHead
