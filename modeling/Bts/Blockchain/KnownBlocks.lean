import Bts.Blockchain.ExtendSpec

namespace Bts.Blockchain.KnownBlocks

open Base Result Exec Maps Errors Transactions Pending Database Changes ApplySpec ExtendChain
  ForkDatabase ForkWalks ForkMarks ForkTree

variable [Fc] {db d : ChainDatabase} {block : FullBlock}

def Stored (db : ChainDatabase) (id : Nat) : Prop :=
  ∃ b, db.blockIdToBlockDataDb.lookup id = some b ∧ b.id = id

/-- Every block that the fork database knows is stored, the genesis block apart. -/
def KnownStored (db : ChainDatabase) : Prop := ∀ id, id ≠ 0 → Known (forksOf db) id → Stored db id

/-- No stored block is lost, and every block that becomes known is stored. -/
structure Kept (db d : ChainDatabase) : Prop where
  stored : ∀ id, Stored db id → Stored d id
  known : ∀ id, Known (forksOf d) id → Stored d id ∨ Known (forksOf db) id

theorem Kept.refl (db : ChainDatabase) : Kept db db := ⟨fun _ h => h, fun _ h => Or.inr h⟩

theorem Kept.knownStored (h : Kept db d) (hdb : KnownStored db) : KnownStored d := by
  intro id hid hknown
  rcases h.known id hknown with hstored | hbefore
  · exact hstored
  · exact h.stored id (hdb id hid hbefore)

theorem Kept.congr {u : ChainDatabase} (h : Kept db d)
    (hdata : u.blockIdToBlockDataDb = d.blockIdToBlockDataDb) (hforks : u.forkDb = d.forkDb) :
    Kept db u := by
  have hstored (id : Nat) : Stored u id ↔ Stored d id := by
    unfold Stored
    rw [hdata]
  refine ⟨fun id hid => (hstored id).mpr (h.stored id hid), fun id hid => ?_⟩
  unfold forksOf at hid
  rw [hforks] at hid
  exact (h.known id hid).imp_left (hstored id).mpr

variable {id : Nat}

theorem Kept.storeFork {f : BlockForkData} (h : Kept db d)
    (hf : f.isKnown = true → Stored d id ∨ Known (forksOf d) id) : Kept db (storeFork id f d) := by
  refine ⟨h.stored, fun x hx => ?_⟩
  obtain ⟨g, hg, hknown⟩ := hx
  change (d.forkDb.insert id f).lookup x = some g at hg
  rw [lookup_insert] at hg
  split at hg
  next heq =>
    cases hg
    subst heq
    exact (hf hknown).elim Or.inl (h.known x)
  next => exact h.known x ⟨g, hg, hknown⟩

theorem markFork_kept (mark : BlockForkData → BlockForkData)
    (hmark : ∀ f, (mark f).isKnown = f.isKnown) :
    Keeps (Kept db) (do
      let d ← read fun d => d
      let f ← lift (fetchFork d id)
      update (storeFork id (mark f)) : DbAction Unit) := by
  refine Keeps.readThen fun s hs => ?_
  suffices hrest : ∀ f, fetchFork s id = .ok f → Kept db (storeFork id (mark f) s) by
    cases hf : fetchFork s id with
    | error e => exact hs
    | ok f => exact hrest f hf
  intro f hf
  refine hs.storeFork fun hknown => Or.inr ⟨f, orThrow_eq_ok.mp hf, ?_⟩
  exact (hmark f).symm.trans hknown

theorem markBlock_kept (mark : BlockForkData → BlockForkData)
    (hmark : ∀ f, (mark f).isKnown = f.isKnown) (id : Nat) : Keeps (Kept db) (markBlock mark id) :=
  markFork_kept mark hmark

theorem markIncluded_kept (id : Nat) (included : Bool) : Keeps (Kept db) (markIncluded id included) :=
  markFork_kept (fun f => { f with
    isIncluded := included, isValid := if included then some true else f.isValid }) fun _ => rfl

theorem markBlocks_kept (mark : BlockForkData → BlockForkData)
    (hmark : ∀ f, (mark f).isKnown = f.isKnown) (levels : Nat) (ids : List Nat) :
    Keeps (Kept db) (markBlocks mark levels ids) :=
  markBlocks_keeps (markBlock_kept mark hmark) levels ids

theorem markAsLinked_kept (levels : Nat) (ids : List Nat) (best : Nat × Nat × BlockForkData) :
    Keeps (Kept db) (markAsLinked levels ids best) :=
  markAsLinked_keeps (markBlock_kept setLinked fun _ => rfl) levels ids best

theorem applyChanges_kept (layer : PendingState) : Keeps (Kept db) (applyChanges layer) := by
  intro t ht
  have hblocks : (endState (applyChanges layer t)).toBlockStore = t.toBlockStore :=
    changeLoops_blocks (changeLoops layer) (List.Subset.refl _) t
  exact ht.congr (congrArg BlockStore.blockIdToBlockDataDb hblocks)
    (congrArg BlockStore.forkDb hblocks)

theorem saveUndoState_kept (blockId : Nat) (layer : PendingState) :
    Keeps (Kept db) (saveUndoState blockId layer) := by
  refine Keeps.bindRead fun d => Keeps.onlyIf ?_
  refine Keeps.bindLift fun undo => ?_
  refine Keeps.bind (Keeps.update fun t ht => ht.congr rfl rfl) fun _ => ?_
  refine Keeps.bindRead fun d => Keeps.onlyIf ?_
  exact Keeps.bindLift fun old => Keeps.update fun t ht => ht.congr rfl rfl

theorem extendChain_kept (block : FullBlock) : Keeps (Kept db) (extendChain block) := by
  refine Keeps.bind (Keeps.onError ?_ fun reason => ?_) fun _ =>
    Keeps.update fun t ht => ht.congr rfl rfl
  · refine Keeps.bind (Keeps.bindRead fun d => Keeps.bindLift fun signee => ?_) fun layer => ?_
    · refine Keeps.bindLift fun _ => Keeps.bindLift fun _ => Keeps.bindLift fun paid => ?_
      refine Keeps.bind (Keeps.update fun t ht => ht.congr rfl rfl) fun _ => ?_
      exact Keeps.bindLift fun layer => Keeps.bind (saveUndoState_kept _ _) fun _ => Keeps.pure _
    refine Keeps.bind (applyChanges_kept _) fun _ => Keeps.bind (markIncluded_kept _ _) fun _ => ?_
    refine Keeps.bind (Keeps.update fun t ht => ht.congr rfl rfl) fun _ => ?_
    exact Keeps.update fun t ht => ht.congr rfl rfl
  · refine Keeps.bind (Keeps.bindRead fun _ => ?_) fun _ => Keeps.lift _
    exact markBlocks_kept (setInvalid reason) (fun _ => rfl) _ _

theorem popBlock_kept : Keeps (Kept db) popBlock := by
  refine Keeps.bindRead fun d => Keeps.onlyIf ?_
  refine Keeps.bindRead fun d => Keeps.bind (markIncluded_kept _ _) fun _ => ?_
  refine Keeps.bind (Keeps.update fun t ht => ht.congr rfl rfl) fun _ => ?_
  refine Keeps.bindLift fun undo => Keeps.bind (applyChanges_kept _) fun _ => ?_
  refine Keeps.bind (Keeps.update fun t ht => ht.congr rfl rfl) fun _ => ?_
  exact Keeps.bindLift fun header => Keeps.update fun t ht => ht.congr rfl rfl

theorem popTo_kept (target pops : Nat) : Keeps (Kept db) (popTo target pops) := by
  induction pops with
  | zero => exact Keeps.bindRead fun _ => Keeps.lift _
  | succ pops ih =>
    refine Keeps.bindRead fun d => Keeps.onlyIf ?_
    exact Keeps.bind popBlock_kept fun _ => ih

theorem switchToFork_kept (blockId : Nat) : Keeps (Kept db) (switchToFork blockId) := by
  refine Keeps.bindRead fun d => Keeps.onlyIf ?_
  refine Keeps.bindLift fun history => Keeps.bind (popTo_kept _ _) fun _ => ?_
  refine Keeps.forEach fun id _ => ?_
  exact Keeps.bindRead fun _ => Keeps.bindLift fun b => extendChain_kept b

theorem tryNumbers_kept (blockId number : Nat) : Keeps (Kept db) (tryNumbers blockId number) :=
  tryNumbers_keeps (fun forkId => tryFork_keeps (switchToFork_kept forkId)
    fun _ hd => hd.congr rfl rfl) number

/-- The same, in a database that has one more block. -/
def KeptWith (id : Nat) (db d : ChainDatabase) : Prop := Kept db d ∧ Stored d id

theorem Kept.trans {e : ChainDatabase} (h : Kept db d) (h' : Kept d e) : Kept db e := by
  refine ⟨fun id hid => h'.stored id (h.stored id hid), fun id hid => ?_⟩
  rcases h'.known id hid with hstored | hknown
  · exact Or.inl hstored
  · exact (h.known id hknown).imp_left (h'.stored id)

theorem keptWith_of_kept {α : Type} {x : DbAction α} (h : ∀ s, Keeps (Kept s) x) :
    Keeps (KeptWith id db) x := by
  intro s hs
  have hstep := h s s (.refl s)
  exact ⟨hs.1.trans hstep, hstep.stored id hs.2⟩

theorem KeptWith.storeFork (f : BlockForkData) (h : KeptWith id db d) :
    KeptWith id db (storeFork id f d) :=
  ⟨h.1.storeFork fun _ => Or.inl h.2, h.2⟩

theorem placeBlock_kept (id : Nat) (prev : BlockForkData) (placeholder : Option BlockForkData) :
    Keeps (KeptWith id db) (placeBlock id prev placeholder) := by
  unfold placeBlock
  split
  · refine Keeps.ite ?_ (Keeps.bind (Keeps.update fun t ht => ht.storeFork _) fun _ => Keeps.pure _)
    refine Keeps.bind (Keeps.update fun t ht => ht.storeFork _) fun _ => ?_
    refine Keeps.bindRead fun d => Keeps.ite ?_ ?_
    · refine Keeps.bind (keptWith_of_kept fun s => ?_) fun _ => Keeps.pure _
      exact markBlocks_kept (setInvalid _) (fun _ => rfl) _ _
    · exact keptWith_of_kept fun s => markAsLinked_kept _ _ _
  · exact Keeps.bind (Keeps.update fun t ht => ht.storeFork _) fun _ => Keeps.pure _

/-- The block that follows another one is written into the fork data of that one, which
may be known or not. -/
theorem KeptWith.storePrevious (h : KeptWith id db d) (previous : Nat) (next : List Nat) :
    KeptWith id db (ExtendChain.storeFork previous
      { (d.forkDb.lookup previous).getD {} with nextBlocks := next } d) := by
  refine ⟨h.1.storeFork fun hknown => Or.inr ?_, h.2⟩
  cases hfork : d.forkDb.lookup previous with
  | none =>
    rw [hfork] at hknown
    cases hknown
  | some f =>
    rw [hfork] at hknown
    exact ⟨f, hfork, hknown⟩

theorem storeBlock_kept (h : Kept db d) : KeptWith block.id db
    { d with blockIdToBlockDataDb := d.blockIdToBlockDataDb.insert block.id block } := by
  have hstored (id : Nat) (hid : Stored d id ∨ id = block.id) : Stored
      { d with blockIdToBlockDataDb := d.blockIdToBlockDataDb.insert block.id block } id := by
    unfold Stored
    rw [lookup_insert]
    by_cases heq : id = block.id
    · rw [if_pos heq]
      exact ⟨block, rfl, heq.symm⟩
    · rw [if_neg heq]
      exact hid.resolve_right heq
  refine ⟨⟨fun id hid => hstored id (Or.inl (h.stored id hid)), fun id hid => ?_⟩,
    hstored block.id (Or.inr rfl)⟩
  exact (h.known id hid).imp_left fun hd => hstored id (Or.inl hd)

theorem indexBlock_kept (block : FullBlock) (h : Kept db d) :
    KeptWith block.id db (endState (indexBlock block.id block d)) := by
  have hrest : Keeps (KeptWith block.id db) (onlyIf
      ((d.blockIdToBlockRecordDb.lookup block.id).isNone = true) (do
        let seed ← lift (getCurrentRandomSeed d)
        update (storeBlockRecord block.id
          { block.toSignedBlockHeader with
            userTransactionIds := block.userTransactionIds, randomSeed := seed })) >>= fun _ =>
      update fun d =>
        let ids := (d.forkNumberDb.lookup block.blockNum).getD []
        let ids := if block.id ∈ ids then ids else ids ++ [block.id]
        { d with forkNumberDb := d.forkNumberDb.insert block.blockNum ids } : DbAction Unit) := by
    refine Keeps.bind (Keeps.onlyIf ?_) fun _ => Keeps.update fun t ht => ?_
    · refine Keeps.bindLift fun seed => Keeps.update fun t ht => ?_
      exact ⟨ht.1.congr rfl rfl, ht.2⟩
    · exact ⟨ht.1.congr rfl rfl, ht.2⟩
  exact hrest _ (storeBlock_kept h)

theorem storeAndIndex_kept (block : FullBlock) (h : Kept db d) :
    KeptWith block.id db (endState (storeAndIndex block.id block d)) := by
  have hindex := indexBlock_kept block h
  unfold storeAndIndex
  rw [bind_run]
  cases hrun : indexBlock block.id block d with
  | error e u =>
    rw [hrun] at hindex
    exact hindex
  | ok _ u =>
    rw [hrun] at hindex
    have hrest : Keeps (KeptWith block.id db) (Base.Exec.read (fun d : ChainDatabase => d) >>=
        fun d => placeBlock block.id
          { (u.forkDb.lookup block.previous).getD {} with
            nextBlocks := ((u.forkDb.lookup block.previous).getD {}).nextBlocks.insert block.id }
          (d.forkDb.lookup block.id)) :=
      Keeps.bindRead fun _ => placeBlock_kept _ _ _
    exact hrest _ (KeptWith.storePrevious hindex block.previous _)

/-- `push_block` refuses a block that is too old. Any other block is stored, whatever else
happens, and no stored block is lost. -/
theorem pushBlock_kept (block : FullBlock) (db : ChainDatabase) :
    (∃ e, pushBlock block db = .error e db) ∨
      KeptWith block.id db (endState (pushBlock block db)) := by
  let young := ¬ (maxUndoHistory < db.getHeadBlockNum ∧
    block.blockNum ≤ db.getHeadBlockNum - maxUndoHistory)
  by_cases hyoung : young
  · refine Or.inr ?_
    have hrequire : require young ChainError.blockOlderThanUndoHistory = .ok () := if_pos hyoung
    change KeptWith block.id db (endState ((lift (require young .blockOlderThanUndoHistory) >>=
      fun _ => storeAndIndex block.id block >>= _) db))
    rw [hrequire]
    change KeptWith block.id db (endState ((storeAndIndex block.id block >>= _) db))
    rw [bind_run]
    have hindex := storeAndIndex_kept block (.refl db)
    cases hrun : storeAndIndex block.id block db with
    | error e u =>
      rw [hrun] at hindex
      exact hindex
    | ok longest u =>
      rw [hrun] at hindex
      suffices hrest : Keeps (KeptWith block.id db) _ from hrest u hindex
      refine Keeps.onlyIf (Keeps.bindRead fun d => Keeps.bindLift fun tip => ?_)
      exact Keeps.onlyIf (keptWith_of_kept fun s => tryNumbers_kept _ _)
  · have hrequire : require young ChainError.blockOlderThanUndoHistory =
        .error ChainError.blockOlderThanUndoHistory := if_neg hyoung
    refine Or.inl ⟨.blockOlderThanUndoHistory, ?_⟩
    change (lift (require young ChainError.blockOlderThanUndoHistory) >>= _) db = _
    rw [hrequire]
    rfl

end Bts.Blockchain.KnownBlocks
