import Bts.Blockchain.ChainInvariant

namespace Bts.Blockchain.StoreSpec

open Base Exec Maps Chains Transactions Database ForkDatabase ForkMarks ForkTree ForkFlags ForkWalks
  ChainInvariant

theorem mem_listed (number id n j : Nat) (m : Map Nat (List Nat)) :
    j ∈ (AList.lookup n (m.insert number (if id ∈ (m.lookup number).getD [] then
      (m.lookup number).getD [] else (m.lookup number).getD [] ++ [id]))).getD [] ↔
      j ∈ (m.lookup n).getD [] ∨ (n = number ∧ j = id) := by
  rw [lookup_insert]
  by_cases hn : n = number
  · subst hn
    rw [if_pos rfl, Option.getD_some]
    split
    next hmem =>
      refine ⟨Or.inl, ?_⟩
      rintro (hj | ⟨-, rfl⟩)
      · exact hj
      · exact hmem
    next => simp
  · simp [hn]

theorem valid_not_invalid {f : Forks} {x : Nat} (h : Valid f x) : ¬ Invalid f x := by
  obtain ⟨d, hd, hvalid⟩ := h
  rintro ⟨d', hd', hinvalid⟩
  cases hd.symm.trans hd'
  cases hvalid.symm.trans hinvalid

theorem stored_linked {f g : Forks} {id p x : Nat} (h : Stored f id p g) (hx : Linked f x) :
    Linked g x := by
  cases h.step with
  | fresh _ linked _ => exact (linked x).mpr (Or.inl hx)
  | waiting _ _ linked _ => exact (linked x).mpr hx
  | joined _ _ _ linked _ => exact (linked x).mpr (Or.inl hx)
  | rejected _ _ _ linked _ => exact (linked x).mpr (Or.inl hx)

variable [Fc] {prev rank : Nat → Nat} {db d u : ChainDatabase} {block : FullBlock}

/-- A block is stored: its data, its record if it had none, and its id among those of its
number. -/
structure BlockStored (block : FullBlock) (db d : ChainDatabase) : Prop where
  data : d.blockIdToBlockDataDb = db.blockIdToBlockDataDb.insert block.id block
  records : ∀ j r, d.blockIdToBlockRecordDb.lookup j = some r →
    db.blockIdToBlockRecordDb.lookup j = some r ∨
      (j = block.id ∧ r.toSignedBlockHeader = block.toSignedBlockHeader)
  listed : ∀ n id, id ∈ forksAt d n ↔ id ∈ forksAt db n ∨ (n = block.blockNum ∧ id = block.id)

theorem BlockStored.onlyForks (h : BlockStored block db u) (hd : OnlyForks u d) :
    BlockStored block db d := by
  refine ⟨?_, ?_, fun n id => ?_⟩
  · rw [hd]
    exact h.data
  · rw [hd]
    exact h.records
  · rw [← h.listed]
    unfold forksAt
    rw [hd]

theorem indexBlock_stored (h : indexBlock block.id block db = .ok () d) :
    BlockStored block db d := by
  simp only [indexBlock, bind_run_ok, read_run_ok, update_run_ok] at h
  obtain ⟨_, _, ⟨rfl, rfl⟩, _, _, rfl, _, t, ht, rfl⟩ := h
  have ht' : t = { db with
        blockIdToBlockDataDb := db.blockIdToBlockDataDb.insert block.id block
        blockIdToBlockRecordDb := t.blockIdToBlockRecordDb } ∧
      ∀ j r, t.blockIdToBlockRecordDb.lookup j = some r →
        db.blockIdToBlockRecordDb.lookup j = some r ∨
          (j = block.id ∧ r.toSignedBlockHeader = block.toSignedBlockHeader) := by
    unfold onlyIf at ht
    split at ht
    · simp only [bind_run_ok, lift_run_ok, update_run_ok] at ht
      obtain ⟨seed, _, ⟨-, rfl⟩, rfl⟩ := ht
      refine ⟨rfl, fun j r hr => ?_⟩
      change AList.lookup j (db.blockIdToBlockRecordDb.insert block.id _) = some r at hr
      rw [lookup_insert] at hr
      split at hr
      next hj =>
        cases hr
        exact Or.inr ⟨hj, rfl⟩
      next => exact Or.inl hr
    · cases ht
      exact ⟨rfl, fun j r hr => Or.inl hr⟩
  refine ⟨?_, ht'.2, fun n id => ?_⟩
  · rw [ht'.1]
  · rw [ht'.1]
    exact mem_listed block.blockNum block.id n id db.forkNumberDb

theorem storeAndIndex_stored {longest : Nat × BlockForkData}
    (h : storeAndIndex block.id block db = .ok longest d) : BlockStored block db d := by
  simp only [storeAndIndex, bind_run_ok, read_run_ok, update_run_ok] at h
  obtain ⟨_, u, hindex, _, _, ⟨rfl, rfl⟩, _, _, rfl, v, _, ⟨rfl, rfl⟩, h⟩ := h
  have hu : OnlyForks u u := rfl
  have hrest := (placeBlock_onlyForks _ _ _).run_ok (hu.storeFork block.previous _) h
  exact (indexBlock_stored hindex).onlyForks hrest

/-- What the ids of blocks say about them, when the number of each block is one more than
that of the block before it. -/
structure Honest (prev rank : Nat → Nat) (block : FullBlock) : Prop where
  notGenesis : block.id ≠ 0
  previous : prev block.id = block.previous
  number : block.blockNum = rank block.id
  next : rank block.id = rank block.previous + 1

theorem Honest.follows (h : Honest prev rank block) : Follows prev rank block :=
  ⟨h.notGenesis, h.previous, by rw [h.next]; omega⟩

theorem catalogue_stored (h : Catalogue prev rank db) (hb : Honest prev rank block)
    (htree : Tree prev rank d) (hstored : BlockStored block db d)
    (hknown : ∀ x, Known (forksOf d) x ↔ Known (forksOf db) x ∨ x = block.id) :
    Catalogue prev rank d := by
  refine ⟨htree, fun c hc hk => ?_, fun id r hr => ?_, fun id b hdata => ?_, fun id hid hk => ?_,
    fun id hid hk => ?_, fun n id hmem => ?_⟩
  · rcases (hknown c).mp hk with hk | rfl
    · exact h.numbered c hc hk
    · rw [hb.previous]
      exact hb.next
  · rcases hstored.records id r hr with hr | ⟨rfl, hheader⟩
    · exact h.records id r hr
    · refine ⟨?_, ?_⟩
      · rw [hb.previous, hheader]
      · rw [← hb.number, hheader]
  · rw [hstored.data, lookup_insert] at hdata
    split at hdata
    next hid =>
      cases hdata
      subst hid
      exact ⟨rfl, hb.previous.symm, hb.number⟩
    next => exact h.data id b hdata
  · rw [hstored.data, lookup_insert]
    split
    next => rfl
    next hne =>
      rcases (hknown id).mp hk with hk | rfl
      · exact h.stored id hid hk
      · exact absurd rfl hne
  · rw [hstored.listed]
    rcases (hknown id).mp hk with hk | rfl
    · exact Or.inl (h.listed id hid hk)
    · exact Or.inr ⟨hb.number.symm, rfl⟩
  · rw [hknown]
    rcases (hstored.listed n id).mp hmem with hmem | ⟨rfl, rfl⟩
    · obtain ⟨hid, hk, hr⟩ := h.onlyListed n id hmem
      exact ⟨hid, Or.inl hk, hr⟩
    · exact ⟨hb.notGenesis, Or.inr rfl, hb.number.symm⟩

theorem stored_sound (h : MainChain prev rank db) {id x : Nat} {g : Forks}
    (hid : id ≠ 0) (hshape : Shape prev g) (hstored : Stored (forksOf db) id (prev id) g)
    (hx : OnChain prev 0 db.headBlockId x) : ¬ Invalid g x := by
  have hsound (y : Nat) (hy : OnChain prev 0 db.headBlockId y) : ¬ Invalid (forksOf db) y :=
    valid_not_invalid (h.sound y ((h.included y).mpr hy)).1
  cases hstored.step with
  | fresh missing _ invalid =>
    rw [invalid]
    rintro (hinvalid | ⟨rfl, -⟩)
    · exact hsound x hx hinvalid
    · have hsome := (h.known hx).isSome
      rw [missing] at hsome
      cases hsome
  | waiting _ _ _ invalid =>
    rw [invalid]
    exact hsound x hx
  | joined _ _ _ _ invalid =>
    rw [invalid]
    exact hsound x hx
  | rejected _ _ invalidPrevious _ invalid =>
    rw [invalid]
    rintro (hinvalid | hbelow)
    · exact hsound x hx hinvalid
    · refine hsound (prev id) ?_ invalidPrevious
      exact (onChain_of_below hshape hx hbelow).step hid

theorem storeAndIndex_mainChain (h : MainChain prev rank db) (hb : Honest prev rank block) :
    ∃ longest d, storeAndIndex block.id block db = .ok longest d ∧ MainChain prev rank d ∧
      SameChain db d ∧ Stored (forksOf db) block.id block.previous (forksOf d) := by
  obtain ⟨longest, d, hrun, htree, hstored⟩ := storeAndIndex_run h.catalogue.tree hb.follows
  have hsame := (storeAndIndex_sameChain block.id block).run_ok (.refl db) hrun
  refine ⟨longest, d, hrun, ?_, hsame, hstored⟩
  have hcatalogue := catalogue_stored h.catalogue hb htree (storeAndIndex_stored hrun) hstored.known
  refine ⟨⟨hcatalogue, h.zero, ?_, ?_, fun x => ?_, fun x hx => ?_, fun n x => ?_⟩, fun x hx => ?_⟩
  · rw [hsame.header, hsame.head]
    exact h.number
  · rw [hsame.header, hsame.head]
    exact h.previous
  · rw [hsame.flags.included, hsame.head]
    exact h.included x
  · rw [hsame.flags.included] at hx
    refine ⟨?_, stored_linked hstored (h.sound x hx).2⟩
    rw [← hb.previous] at hstored
    have hnot := stored_sound h hb.notGenesis htree.shape hstored ((h.included x).mp hx)
    exact (hsame.flags.checked x (h.sound x hx).1).resolve_right hnot
  · rw [hsame.numbers, hsame.head]
    exact h.numbers n x
  · rw [hsame.undos] at hx
    exact h.undone x hx

end Bts.Blockchain.StoreSpec
