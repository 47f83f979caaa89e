import Bts.Base.Chains
import Bts.Blockchain.ExtendSpec

namespace Bts.Blockchain.ChainInvariant

open Base Result Exec Maps Levels Chains Errors Transactions Database Changes ExtendChain
  ForkDatabase ForkMarks ForkTree ForkFlags ExtendSpec

section Update

variable {g : Forks} {f f' : BlockForkData} {id : Nat}

theorem sameTree_update (hf : g id = some f) (hknown : f'.isKnown = f.isKnown)
    (hnext : f'.nextBlocks = f.nextBlocks) : SameTree g (Function.update g id (some f')) := by
  constructor
  · intro x
    refine (has_update (P := fun d => d.isKnown = true)).trans ?_
    by_cases hx : x = id
    · subst hx
      simp [has_of_eq hf, hknown]
    · simp [hx]
  · funext x
    unfold nextOf
    by_cases hx : x = id
    · subst hx
      rw [Function.update_self, hf]
      simp [hnext]
    · rw [Function.update_of_ne hx]

theorem linked_update (hf : g id = some f) (hlinked : f'.isLinked = f.isLinked) (x : Nat) :
    Linked (Function.update g id (some f')) x ↔ Linked g x := by
  refine (has_update (P := fun d => d.isLinked = true)).trans ?_
  by_cases hx : x = id
  · subst hx
    simp [has_of_eq hf, hlinked]
  · simp [hx]

theorem onChain_of_below {prev : Nat → Nat} {head x : Nat} (hshape : Shape prev g)
    (hx : OnChain prev 0 head x) (hbelow : Below (nextOf g) id x) : OnChain prev 0 head id := by
  induction hbelow with
  | refl => exact hx
  | tail _ hnext ih =>
    obtain ⟨hzero, hprev, -⟩ := (hshape _ _).mp hnext
    exact ih (hprev ▸ hx.step hzero)

end Update

variable [Fc] {prev rank : Nat → Nat} {db d : ChainDatabase} {block : FullBlock}
  {f : BlockForkData} {id x : Nat}

def forksAt (db : ChainDatabase) (number : Nat) : List Nat :=
  (db.forkNumberDb.lookup number).getD []

/-- What the database says about its blocks is true of their ids: `prev` and `rank` are the
previous block and the number that the id of a block, a hash, stands for. -/
structure Catalogue (prev rank : Nat → Nat) (db : ChainDatabase) : Prop where
  tree : Tree prev rank db
  numbered : ∀ c, c ≠ 0 → Known (forksOf db) c → rank c = rank (prev c) + 1
  records : ∀ id r, db.blockIdToBlockRecordDb.lookup id = some r →
    r.previous = prev id ∧ r.blockNum = rank id
  data : ∀ id b, db.blockIdToBlockDataDb.lookup id = some b →
    b.id = id ∧ b.previous = prev id ∧ b.blockNum = rank id
  stored : ∀ id, id ≠ 0 → Known (forksOf db) id → (db.blockIdToBlockDataDb.lookup id).isSome
  listed : ∀ id, id ≠ 0 → Known (forksOf db) id → id ∈ forksAt db (rank id)
  onlyListed : ∀ n, ∀ id ∈ forksAt db n, id ≠ 0 ∧ Known (forksOf db) id ∧ rank id = n

/-- The included blocks are the head and the blocks before it, they are valid, and the
index of numbers has just them. -/
structure IndexedChain (prev rank : Nat → Nat) (db : ChainDatabase) : Prop where
  catalogue : Catalogue prev rank db
  zero : rank 0 = 0
  number : db.headBlockHeader.blockNum = rank db.headBlockId
  previous : db.headBlockId ≠ 0 → db.headBlockHeader.previous = prev db.headBlockId
  included : ∀ x, Included (forksOf db) x ↔ OnChain prev 0 db.headBlockId x
  sound : ∀ x, Included (forksOf db) x → Valid (forksOf db) x ∧ Linked (forksOf db) x
  numbers : ∀ n x, db.blockNumToIdDb.lookup n = some x ↔
    x ≠ 0 ∧ OnChain prev 0 db.headBlockId x ∧ rank x = n

/-- A first block has no undo record, because none is saved below the last checkpoint. -/
structure MainChain (prev rank : Nat → Nat) (db : ChainDatabase) : Prop
    extends IndexedChain prev rank db where
  undone : ∀ id, (db.undoStateDb.lookup id).isSome → prev id ≠ 0

theorem IndexedChain.known (h : IndexedChain prev rank db) (hx : OnChain prev 0 db.headBlockId x) :
    Known (forksOf db) x :=
  h.catalogue.tree.linkedKnown x (h.sound x ((h.included x).mpr hx)).2

theorem IndexedChain.numbered (h : IndexedChain prev rank db) : Numbered prev 0 rank db.headBlockId :=
  fun y hy hroot => h.catalogue.numbered y hroot (h.known hy)

structure SameCatalogue (db d : ChainDatabase) : Prop where
  blocks : SameBlocks db d
  tree : SameTree (forksOf db) (forksOf d)
  linked : ∀ x, Linked (forksOf d) x ↔ Linked (forksOf db) x

theorem SameCatalogue.fork_tree (h : SameCatalogue db d) (htree : Tree prev rank db) :
    Tree prev rank d := by
  refine htree.same h.tree ((h.linked 0).mpr htree.genesis.2)
    (fun id hid => htree.linkedKnown id ((h.linked id).mp hid)) (fun id hid => ?_) ?_
  · rw [h.blocks.isSome]
    exact hid
  · exact seeded_iff.mp (h.blocks.seeded (seeded_iff.mpr htree.seeded))

theorem SameCatalogue.header (h : SameCatalogue db d) {r : BlockRecord}
    (hr : d.blockIdToBlockRecordDb.lookup id = some r) :
    ∃ r', db.blockIdToBlockRecordDb.lookup id = some r' ∧
      r'.toSignedBlockHeader = r.toSignedBlockHeader := by
  have hheaders := h.blocks.headers id
  rw [hr, Option.map_some] at hheaders
  exact Option.map_eq_some_iff.mp hheaders.symm

theorem SameCatalogue.catalogue (h : SameCatalogue db d) (hc : Catalogue prev rank db) :
    Catalogue prev rank d := by
  have hK := h.tree.known
  refine ⟨h.fork_tree hc.tree, fun c hzero hknown => ?_, fun id r hr => ?_, ?_,
    fun id hid hknown => ?_, fun id hid hknown => ?_, fun n id hid => ?_⟩
  · exact hc.numbered c hzero ((hK c).mp hknown)
  · obtain ⟨r', hr', hsame⟩ := h.header hr
    obtain ⟨hprevious, hnumber⟩ := hc.records id r' hr'
    exact ⟨by rw [← hsame]; exact hprevious, by rw [← hsame]; exact hnumber⟩
  · rw [h.blocks.data]
    exact hc.data
  · rw [h.blocks.data]
    exact hc.stored id hid ((hK id).mp hknown)
  · unfold forksAt
    rw [h.blocks.listed]
    exact hc.listed id hid ((hK id).mp hknown)
  · unfold forksAt at hid
    rw [h.blocks.listed] at hid
    obtain ⟨hzero, hknown, hrank⟩ := hc.onlyListed n id hid
    exact ⟨hzero, (hK id).mpr hknown, hrank⟩

theorem extended_sameCatalogue (h : Extended block f db d) (hf : forksOf db block.id = some f) :
    SameCatalogue db d := by
  refine ⟨h.blocks, ?_, fun x => ?_⟩
  · rw [h.forks]
    refine sameTree_update hf ?_ ?_
    · rfl
    · rfl
  · rw [h.forks]
    refine linked_update hf ?_ x
    rfl

variable {reason : ChainError}

theorem refused_sameCatalogue (h : Refused id reason db d) : SameCatalogue db d := by
  obtain ⟨ids, -, hforks⟩ := h.forks
  refine ⟨h.blocks, hforks ▸ sameTree_marked (mark_setInvalid reason) fun _ => rfl, fun x => ?_⟩
  rw [hforks]
  exact has_marked_same fun _ => Iff.rfl

theorem extended_included (h : Extended block f db d) (x : Nat) :
    Included (forksOf d) x ↔ x = block.id ∨ Included (forksOf db) x := by
  rw [h.forks]
  refine (has_update (P := fun d => d.isIncluded = true)).trans ?_
  by_cases hx : x = block.id <;> simp [hx]

theorem extended_valid (h : Extended block f db d) (x : Nat) :
    Valid (forksOf d) x ↔ x = block.id ∨ Valid (forksOf db) x := by
  rw [h.forks]
  refine (has_update (P := fun d => d.isValid = some true)).trans ?_
  by_cases hx : x = block.id <;> simp [hx]

theorem MainChain.undoSaved (h : MainChain prev rank db) (hsaved : UndoSaved id db d)
    (hprevious : prev id = db.headBlockId) (hx : (d.undoStateDb.lookup x).isSome) : prev x ≠ 0 := by
  rcases hsaved x hx with hold | ⟨rfl, habove⟩
  · exact h.undone x hold
  · intro hzero
    rw [h.number, ← hprevious, hzero, h.zero] at habove
    exact absurd habove (by decide)

theorem MainChain.extended (h : MainChain prev rank db) (hstep : Extended block f db d)
    (hf : forksOf db block.id = some f) (hlinked : f.isLinked = true) (hzero : block.id ≠ 0)
    (hprevious : block.previous = prev block.id) (hnumber : block.blockNum = rank block.id) :
    MainChain prev rank d := by
  have hsame := extended_sameCatalogue hstep hf
  have hknown : Known (forksOf db) block.id :=
    h.catalogue.tree.linkedKnown _ ((has_of_eq (P := fun d => d.isLinked = true) hf).mpr hlinked)
  have hrank := h.catalogue.numbered _ hzero hknown
  have hhead : prev block.id = db.headBlockId := hprevious.symm.trans hstep.previous
  have hchain (x : Nat) : OnChain prev 0 block.id x ↔ x = block.id ∨ OnChain prev 0 db.headBlockId x := by
    rw [onChain_iff, hhead]
    simp [hzero]
  refine ⟨⟨hsame.catalogue h.catalogue, h.zero, ?_, ?_, fun x => ?_, fun x hx => ?_, fun n x => ?_⟩,
    fun x hx => h.undoSaved hstep.undos hhead hx⟩
  · rw [hstep.header, hstep.head]
    exact hnumber
  · rw [hstep.header, hstep.head]
    exact fun _ => hprevious
  · rw [extended_included hstep, hstep.head, hchain, h.included]
  · rw [extended_included hstep] at hx
    rw [extended_valid hstep, hsame.linked]
    rcases hx with rfl | hx
    · exact ⟨Or.inl rfl, (has_of_eq (P := fun d => d.isLinked = true) hf).mpr hlinked⟩
    · exact ⟨Or.inr (h.sound x hx).1, (h.sound x hx).2⟩
  · rw [hstep.numbers, hstep.head, lookup_insert, hnumber, hchain]
    have hbelow : OnChain prev 0 db.headBlockId x → rank x < rank block.id := by
      intro hx
      rw [hrank, hhead]
      rcases hx.rank_le h.numbered with rfl | hlt
      · omega
      · omega
    split
    next hn =>
      constructor
      · rintro ⟨⟩
        exact ⟨hzero, Or.inl rfl, hn.symm⟩
      · rintro ⟨-, rfl | hx, hr⟩
        · rfl
        · have hlt := hbelow hx
          omega
    next hn =>
      rw [h.numbers]
      constructor
      · rintro ⟨hx0, hx, hr⟩
        exact ⟨hx0, Or.inr hx, hr⟩
      · rintro ⟨hx0, rfl | hx, hr⟩
        · exact absurd hr.symm hn
        · exact ⟨hx0, hx, hr⟩

theorem refused_included (h : Refused id reason db d) (x : Nat) :
    Included (forksOf d) x ↔ Included (forksOf db) x := by
  obtain ⟨ids, -, hforks⟩ := h.forks
  rw [hforks]
  exact has_marked_same fun _ => Iff.rfl

theorem MainChain.refused (h : MainChain prev rank db) (hstep : Refused id reason db d)
    (hid : ¬ OnChain prev 0 db.headBlockId id) (hprevious : prev id = db.headBlockId) :
    MainChain prev rank d := by
  have hsame := refused_sameCatalogue hstep
  refine ⟨⟨hsame.catalogue h.catalogue, h.zero, ?_, ?_, fun x => ?_, fun x hx => ?_, fun n x => ?_⟩,
    fun x hx => h.undoSaved hstep.undos hprevious hx⟩
  · rw [hstep.header, hstep.head]
    exact h.number
  · rw [hstep.header, hstep.head]
    exact h.previous
  · rw [refused_included hstep, hstep.head]
    exact h.included x
  · rw [refused_included hstep] at hx
    rw [hsame.linked]
    refine ⟨?_, (h.sound x hx).2⟩
    obtain ⟨ids, hids, hforks⟩ := hstep.forks
    rw [hforks]
    refine has_marked.mpr (Or.inr ⟨fun hmem => ?_, (h.sound x hx).1⟩)
    have hbelow := (hids x).mp hmem
    exact hid (onChain_of_below h.catalogue.tree.shape ((h.included x).mp hx) hbelow)
  · rw [hstep.numbers, hstep.head]
    exact h.numbers n x

def withoutHead (f : BlockForkData) (db : ChainDatabase) : ChainDatabase :=
  { storeFork db.headBlockId { f with isIncluded := false } db with
    blockNumToIdDb := db.blockNumToIdDb.erase db.headBlockHeader.blockNum }

/-- The head has its undo record, and going back by it returns. -/
def Undoable (db : ChainDatabase) : Prop :=
  ∃ f undo d, db.forkDb.lookup db.headBlockId = some f ∧
    db.undoStateDb.lookup db.headBlockId = some undo ∧ SetsSeed undo ∧
    applyChanges undo (withoutHead f db) = .ok () d

instance (db : ChainDatabase) : Decidable (Undoable db) :=
  decidable_of_iff (∃ f ∈ db.forkDb.lookup db.headBlockId,
      ∃ undo ∈ db.undoStateDb.lookup db.headBlockId,
        SetsSeed undo ∧ returns (applyChanges undo (withoutHead f db))) <| by
    constructor
    · rintro ⟨f, hf, undo, hundo, hseed, hreturns⟩
      exact ⟨f, undo, _, hf, hundo, hseed, eq_ok_of_returns hreturns⟩
    · rintro ⟨f, undo, d, hf, hundo, hseed, happly⟩
      exact ⟨f, hf, undo, hundo, hseed, by rw [happly]; rfl⟩

structure Popped (f : BlockForkData) (db d : ChainDatabase) : Prop where
  blocks : SameBlocks db d
  head : d.headBlockId = db.headBlockHeader.previous
  header : ∃ r, db.blockIdToBlockRecordDb.lookup db.headBlockHeader.previous = some r ∧
    d.headBlockHeader = r.toSignedBlockHeader
  numbers : d.blockNumToIdDb = db.blockNumToIdDb.erase db.headBlockHeader.blockNum
  forks : forksOf d = Function.update (forksOf db) db.headBlockId
    (some { f with isIncluded := false })
  undos : ∀ x, (d.undoStateDb.lookup x).isSome → (db.undoStateDb.lookup x).isSome

theorem popHead_run (hundo : Undoable db)
    (hrecord : (db.blockIdToBlockRecordDb.lookup db.headBlockHeader.previous).isSome) :
    ∃ f d, popHead db = .ok () d ∧ forksOf db db.headBlockId = some f ∧ Popped f db d := by
  obtain ⟨f, undo, d, hf, hlookup, hseed, happly⟩ := hundo
  obtain ⟨r, hr⟩ := Option.isSome_iff_exists.mp hrecord
  have hd := applyChanges_prepared hseed (withoutHead f db) (.refl db.headBlockId _)
  rw [happly] at hd
  refine ⟨f, { d with
    headBlockId := db.headBlockHeader.previous, headBlockHeader := r.toSignedBlockHeader },
    ?_, hf, ?_⟩
  · simp only [popHead, bind_run_ok, read_run_ok, update_run_ok, lift_run_ok, eq_ok_iff, getBlockHeader]
    refine ⟨db, db, ⟨rfl, rfl⟩, (), _, markIncluded_run false hf, (), _, rfl, undo, _,
      ⟨hlookup, rfl⟩, (), d, happly, (), _, rfl, r.toSignedBlockHeader, _, ⟨⟨r, hr, rfl⟩, rfl⟩, rfl⟩
  · refine ⟨⟨hd.blocks.data, hd.blocks.listed, hd.blocks.headers, hd.blocks.seeded,
      hd.blocks.clock, hd.blocks.futures⟩, rfl, ⟨r, hr, rfl⟩, hd.numbers, ?_, fun x hx => ?_⟩
    · exact hd.forksOf.trans (forksOf_storeFork _ _ _)
    · rcases hd.undos x hx with hold | ⟨rfl, -⟩
      · exact hold
      · exact Option.isSome_of_eq_some hlookup

theorem popped_sameCatalogue (h : Popped f db d) (hf : forksOf db db.headBlockId = some f) :
    SameCatalogue db d := by
  refine ⟨h.blocks, ?_, fun x => ?_⟩
  · rw [h.forks]
    refine sameTree_update hf ?_ ?_
    · rfl
    · rfl
  · rw [h.forks]
    refine linked_update hf ?_ x
    rfl

theorem popped_included (h : Popped f db d) (x : Nat) :
    Included (forksOf d) x ↔ x ≠ db.headBlockId ∧ Included (forksOf db) x := by
  rw [h.forks]
  refine (has_update (P := fun d => d.isIncluded = true)).trans ?_
  by_cases hx : x = db.headBlockId <;> simp [hx]

theorem MainChain.popped (h : MainChain prev rank db) (hstep : Popped f db d)
    (hf : forksOf db db.headBlockId = some f) (hhead : db.headBlockId ≠ 0) :
    MainChain prev rank d := by
  have hsame := popped_sameCatalogue hstep hf
  have hnew : d.headBlockId = prev db.headBlockId := hstep.head.trans (h.previous hhead)
  have hrank := h.numbered db.headBlockId (.self _) hhead
  have hchain (x : Nat) : OnChain prev 0 (prev db.headBlockId) x ↔
      x ≠ db.headBlockId ∧ OnChain prev 0 db.headBlockId x := by
    rw [show OnChain prev 0 db.headBlockId x ↔ _ from onChain_iff]
    constructor
    · intro hx
      refine ⟨?_, Or.inr ⟨hhead, hx⟩⟩
      rintro rfl
      rcases hx.rank_le (h.numbered.step hhead) with heq | hlt
      · rw [← heq] at hrank
        omega
      · omega
    · rintro ⟨hne, heq | ⟨-, hx⟩⟩
      · exact absurd heq hne
      · exact hx
  obtain ⟨r, hr, hheader⟩ := hstep.header
  rw [h.previous hhead] at hr
  obtain ⟨hprevious, hnumber⟩ := h.catalogue.records _ r hr
  refine ⟨⟨hsame.catalogue h.catalogue, h.zero, ?_, ?_, fun x => ?_, fun x hx => ?_, fun n x => ?_⟩,
    fun x hx => h.undone x (hstep.undos x hx)⟩
  · rw [hheader, hnew]
    exact hnumber
  · rw [hheader, hnew]
    exact fun _ => hprevious
  · rw [popped_included hstep, hnew, hchain, h.included]
  · rw [popped_included hstep] at hx
    rw [hsame.linked]
    refine ⟨?_, (h.sound x hx.2).2⟩
    rw [hstep.forks]
    exact (has_update (P := fun d => d.isValid = some true)).mpr (Or.inr ⟨hx.1, (h.sound x hx.2).1⟩)
  · rw [hstep.numbers, hnew, h.number, lookup_erase, hchain]
    split
    next hn =>
      refine ⟨nofun, ?_⟩
      rintro ⟨-, ⟨hne, hx⟩, hr⟩
      exact absurd (hx.unique (.self _) h.numbered (hr.trans hn)) hne
    next hn =>
      rw [h.numbers]
      constructor
      · rintro ⟨hx0, hx, hr⟩
        refine ⟨hx0, ⟨?_, hx⟩, hr⟩
        rintro rfl
        exact hn hr.symm
      · rintro ⟨hx0, ⟨-, hx⟩, hr⟩
        exact ⟨hx0, hx, hr⟩

end Bts.Blockchain.ChainInvariant
