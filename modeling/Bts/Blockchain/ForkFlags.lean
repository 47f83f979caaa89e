import Bts.Blockchain.ForkTree

namespace Bts.Blockchain.ForkFlags

open Base.Exec Errors Transactions Database ExtendChain ForkDatabase ForkWalks ForkMarks ForkTree

abbrev Included (f : Forks) (id : Nat) : Prop := Has (fun d => d.isIncluded = true) f id
abbrev Valid (f : Forks) (id : Nat) : Prop := Has (fun d => d.isValid = some true) f id

/-- The same blocks are included, and no check of a block that has been made is undone. -/
structure KeepsFlags (f g : Forks) : Prop where
  included : ∀ x, Included g x ↔ Included f x
  checked : ∀ x, Valid f x → Valid g x ∨ Invalid g x

theorem KeepsFlags.refl (f : Forks) : KeepsFlags f f := ⟨fun _ => Iff.rfl, fun _ => Or.inl⟩

theorem KeepsFlags.update {f g : Forks} {id : Nat} {d : BlockForkData} (h : KeepsFlags f g)
    (hincluded : d.isIncluded = true ↔ Included g id)
    (hvalid : ∀ d', g id = some d' → d.isValid = d'.isValid ∨ d.isValid = some false) :
    KeepsFlags f (Function.update g id (some d)) := by
  constructor
  · intro x
    rw [← h.included]
    refine (has_update (P := fun d => d.isIncluded = true)).trans ?_
    by_cases hx : x = id
    · subst hx
      simp [hincluded]
    · simp [hx]
  · intro x hx
    by_cases hid : x = id
    · subst hid
      have hself : Function.update g x (some d) x = some d := Function.update_self ..
      rcases h.checked x hx with ⟨d', hd', hval⟩ | ⟨d', hd', hinv⟩
      · rcases hvalid d' hd' with hsame | hfalse
        · exact Or.inl ⟨d, hself, hsame.trans hval⟩
        · exact Or.inr ⟨d, hself, hfalse⟩
      · rcases hvalid d' hd' with hsame | hfalse
        · exact Or.inr ⟨d, hself, hsame.trans hinv⟩
        · exact Or.inr ⟨d, hself, hfalse⟩
    · have hother : Function.update g id (some d) x = g x := Function.update_of_ne hid ..
      rcases h.checked x hx with ⟨d', hd', hval⟩ | ⟨d', hd', hinv⟩
      · exact Or.inl ⟨d', hother.trans hd', hval⟩
      · exact Or.inr ⟨d', hother.trans hd', hinv⟩

/-- A mark that includes nothing and unchecks nothing. -/
structure FlagMark (mark : BlockForkData → BlockForkData) : Prop where
  included : ∀ d, (mark d).isIncluded = d.isIncluded
  checked : ∀ d, (mark d).isValid = d.isValid ∨ (mark d).isValid = some false

theorem flagMark_setLinked : FlagMark setLinked := ⟨fun _ => rfl, fun _ => Or.inl rfl⟩

theorem flagMark_setInvalid (reason : ChainError) : FlagMark (setInvalid reason) :=
  ⟨fun _ => rfl, fun _ => Or.inr rfl⟩

theorem inherit_isValid (prev d : BlockForkData) :
    (inherit prev d).isValid = d.isValid ∨ (inherit prev d).isValid = some false := by
  unfold inherit
  split
  · exact Or.inr rfl
  · exact Or.inl rfl

variable [Fc] {db : ChainDatabase}

/-- A state that storing and marking blocks leads to: the chain and what is needed to
undo it are the same, and the flags are kept. -/
structure SameChain (db d : ChainDatabase) : Prop where
  head : d.headBlockId = db.headBlockId
  header : d.headBlockHeader = db.headBlockHeader
  numbers : d.blockNumToIdDb = db.blockNumToIdDb
  undos : d.undoStateDb = db.undoStateDb
  clock : d.wallClock = db.wallClock
  futures : d.revalidatableFutureBlocksDb = db.revalidatableFutureBlocksDb
  flags : KeepsFlags (forksOf db) (forksOf d)

theorem SameChain.refl (db : ChainDatabase) : SameChain db db :=
  ⟨rfl, rfl, rfl, rfl, rfl, rfl, .refl _⟩

theorem SameChain.storeFork {d : ChainDatabase} {id : Nat} {f : BlockForkData}
    (h : SameChain db d) (hincluded : f.isIncluded = true ↔ Included (forksOf d) id)
    (hvalid : ∀ f', forksOf d id = some f' → f.isValid = f'.isValid ∨ f.isValid = some false) :
    SameChain db (storeFork id f d) := by
  refine ⟨h.head, h.header, h.numbers, h.undos, h.clock, h.futures, ?_⟩
  rw [forksOf_storeFork]
  exact h.flags.update hincluded hvalid

theorem markBlock_sameChain {mark : BlockForkData → BlockForkData} (hmark : FlagMark mark)
    (id : Nat) : Keeps (SameChain db) (markBlock mark id) := by
  refine Keeps.readThen fun d h => ?_
  cases hf : forksOf d id with
  | none =>
    have hfetch : fetchFork d id = .error .keyNotFound := by
      rw [fetchFork, show d.forkDb.lookup id = none from hf]
      rfl
    rw [id_eq, hfetch]
    exact h
  | some f =>
    have hfetch : fetchFork d id = .ok f := by
      rw [fetchFork, show d.forkDb.lookup id = some f from hf]
      rfl
    rw [id_eq, hfetch]
    refine h.storeFork ?_ ?_
    · rw [hmark.included]
      exact (has_of_eq (P := fun d => d.isIncluded = true) hf).symm
    · intro f' hf'
      cases hf.symm.trans hf'
      exact hmark.checked f

theorem indexBlock_sameChain (blockId : Nat) (block : FullBlock) :
    Keeps (SameChain db) (indexBlock blockId block) := by
  have hupdate : ∀ {f : ChainDatabase → ChainDatabase},
      (∀ d, SameChain db d → SameChain db (f d)) →
        Keeps (SameChain db) (update f : DbAction Unit) := Keeps.update
  refine Keeps.bindRead fun d => Keeps.bind (hupdate fun _ h => ?_) fun _ => ?_
  · exact ⟨h.head, h.header, h.numbers, h.undos, h.clock, h.futures, h.flags⟩
  refine Keeps.bind (Keeps.onlyIf (Keeps.bindLift fun seed => ?_)) fun _ => ?_
  · exact hupdate fun _ h => ⟨h.head, h.header, h.numbers, h.undos, h.clock, h.futures, h.flags⟩
  · exact hupdate fun _ h => ⟨h.head, h.header, h.numbers, h.undos, h.clock, h.futures, h.flags⟩

theorem placeBlock_sameChain {d : ChainDatabase} {blockId : Nat} {prev : BlockForkData}
    (h : SameChain db d) :
    SameChain db (endState (placeBlock blockId prev (d.forkDb.lookup blockId) d)) := by
  cases hf : d.forkDb.lookup blockId with
  | none =>
    refine h.storeFork ?_ ?_
    · rw [inherit_isIncluded]
      exact ⟨nofun, fun ⟨f, hf', _⟩ => by cases hf.symm.trans hf'⟩
    · intro f' hf'
      cases hf.symm.trans hf'
  | some f =>
    have hincluded : f.isIncluded = true ↔ Included (forksOf d) blockId :=
      (has_of_eq (P := fun d => d.isIncluded = true) hf).symm
    have hself : ∀ f', forksOf d blockId = some f' → f.isValid = f'.isValid := by
      intro f' hf'
      cases hf.symm.trans hf'
      rfl
    unfold placeBlock
    split
    · have hkeeps : Keeps (SameChain db) (do
          let db ← read id
          let levels := db.forkDb.keys.length
          let current := inherit prev { f with isKnown := true, isLinked := true }
          if prev.invalid then do
            markBlocks (setInvalid (prev.invalidReason.getD (.assertion ""))) levels
              current.nextBlocks
            pure (blockId, current)
          else markAsLinked levels current.nextBlocks (0, 0, {}) : DbAction _) := by
        refine Keeps.bindRead fun d => Keeps.ite ?_ ?_
        · refine Keeps.bind (markBlocks_keeps ?_ _ _) fun _ => Keeps.pure _
          exact markBlock_sameChain (flagMark_setInvalid _)
        · exact markAsLinked_keeps (markBlock_sameChain flagMark_setLinked) _ _ _
      refine hkeeps _ (h.storeFork ?_ fun f' hf' => ?_)
      · rw [inherit_isIncluded]
        exact hincluded
      · rw [← hself f' hf']
        exact inherit_isValid prev _
    · exact h.storeFork hincluded fun f' hf' => Or.inl (hself f' hf')

theorem storeAndIndex_sameChain (blockId : Nat) (block : FullBlock) :
    Keeps (SameChain db) (storeAndIndex blockId block) := by
  refine Keeps.bind (indexBlock_sameChain blockId block) fun _ => Keeps.readThen fun d h => ?_
  refine placeBlock_sameChain (h.storeFork ?_ fun f' hf' => ?_)
  · exact has_getD (P := fun d => d.isIncluded = true) (f := forksOf d) nofun
  · rw [id_eq, show d.forkDb.lookup block.previous = some f' from hf']
    exact Or.inl rfl

end Bts.Blockchain.ForkFlags
