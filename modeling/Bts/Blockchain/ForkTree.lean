import Bts.Blockchain.ForkMarks

namespace Bts.Blockchain.ForkTree

open Base Exec Maps Levels Errors Transactions Database Layers ExtendChain ForkDatabase ForkMarks

/-- The tree has data for a block, with the property `P`. -/
def Has (P : BlockForkData → Prop) (f : Forks) (id : Nat) : Prop := ∃ d, f id = some d ∧ P d

abbrev Known (f : Forks) (id : Nat) : Prop := Has (fun d => d.isKnown = true) f id
abbrev Linked (f : Forks) (id : Nat) : Prop := Has (fun d => d.isLinked = true) f id
abbrev Invalid (f : Forks) (id : Nat) : Prop := Has BlockForkData.invalid f id

section Forks

variable {P : BlockForkData → Prop} {mark : BlockForkData → BlockForkData} {f : Forks}
  {ids : List Nat} {id p x : Nat} {d : BlockForkData} {prev rank : Nat → Nat}

theorem has_of_eq (h : f id = some d) : Has P f id ↔ P d := by
  constructor
  · rintro ⟨d', hd', hP⟩
    cases h.symm.trans hd'
    exact hP
  · exact fun hP => ⟨d, h, hP⟩

theorem has_iff_any [DecidablePred P] : Has P f id ↔ (f id).any fun d => P d := by
  cases hf : f id with
  | none => simp [Has, hf]
  | some d => simp [has_of_eq hf]

instance [DecidablePred P] : Decidable (Has P f id) := decidable_of_iff _ has_iff_any.symm

theorem Has.isSome (h : Has P f id) : (f id).isSome := by
  obtain ⟨d, hd, -⟩ := h
  rw [hd]
  rfl

theorem has_update : Has P (Function.update f id (some d)) x ↔ (x = id ∧ P d) ∨ (x ≠ id ∧ Has P f x) := by
  by_cases hx : x = id
  · subst hx
    simp [has_of_eq (Function.update_self x (some d) f)]
  · simp only [Has, Function.update_of_ne hx, hx, false_and, false_or, ne_eq, not_false_eq_true,
      true_and]

theorem has_marked : Has P (marked mark ids f) x ↔
    (x ∈ ids ∧ Has (fun d => P (mark d)) f x) ∨ (x ∉ ids ∧ Has P f x) := by
  unfold Has marked
  by_cases hx : x ∈ ids
  · cases f x <;> simp [hx]
  · simp [hx]

theorem has_marked_same (h : ∀ d, P (mark d) ↔ P d) : Has P (marked mark ids f) x ↔ Has P f x := by
  rw [has_marked]
  simp only [h]
  tauto

theorem has_marked_set (h : ∀ d, P (mark d)) :
    Has P (marked mark ids f) x ↔ Has P f x ∨ (x ∈ ids ∧ (f x).isSome) := by
  rw [has_marked]
  simp only [Has, h, and_true, Option.isSome_iff_exists]
  by_cases hx : x ∈ ids
  · simp only [hx, true_and, not_true_eq_false, false_and, or_false]
    constructor
    · exact Or.inr
    · rintro (⟨d, hd, -⟩ | hd)
      · exact ⟨d, hd⟩
      · exact hd
  · simp [hx]

theorem invalid_marked (reason : ChainError) : Invalid (marked (setInvalid reason) ids f) x ↔
    Invalid f x ∨ (x ∈ ids ∧ (f x).isSome) :=
  has_marked_set (P := BlockForkData.invalid) fun _ => rfl

theorem linked_marked : Linked (marked setLinked ids f) x ↔ Linked f x ∨ (x ∈ ids ∧ (f x).isSome) :=
  has_marked_set (P := fun d => d.isLinked = true) fun _ => rfl

/-- The next blocks of a block are the known ones that name it as their previous block. -/
def Shape (prev : Nat → Nat) (f : Forks) : Prop :=
  ∀ p c, c ∈ nextOf f p ↔ c ≠ 0 ∧ prev c = p ∧ Known f c

def Ranked (prev rank : Nat → Nat) (f : Forks) : Prop :=
  ∀ c, c ≠ 0 → Known f c → rank (prev c) < rank c

theorem Shape.closed (h : Shape prev f) : Closed f :=
  fun p c hc => ((h p c).mp hc).2.2.isSome

theorem Shape.rank_lt (h : Shape prev f) (hr : Ranked prev rank f) {a b : Nat}
    (hab : b ∈ nextOf f a) : rank a < rank b := by
  obtain ⟨hb, hprev, hknown⟩ := (h a b).mp hab
  have hlt := hr b hb hknown
  rw [hprev] at hlt
  exact hlt

theorem Shape.known_below (h : Shape prev f) {a : Nat} (ha : Known f a)
    (hbelow : Below (nextOf f) a x) : Known f x := by
  induction hbelow with
  | refl => exact ha
  | tail _ hnext _ => exact ((h _ _).mp hnext).2.2

theorem ne_of_rank_lt (hrank : rank (prev id) < rank id) : prev id ≠ id := by
  intro he
  rw [he] at hrank
  exact lt_irrefl _ hrank

theorem below_iff (f : Forks) (id x : Nat) :
    Below (nextOf f) id x ↔ x = id ∨ ∃ c ∈ nextOf f id, Below (nextOf f) c x := by
  unfold Below
  rw [Relation.ReflTransGen.cases_head_iff, eq_comm]

theorem has_getD (hempty : ¬ P {}) : P ((f p).getD {}) ↔ Has P f p := by
  cases hp : f p with
  | none => simp [Has, hp, hempty]
  | some e => simp [has_of_eq hp]

@[simp] theorem inherit_isIncluded (e : BlockForkData) :
    (inherit e d).isIncluded = d.isIncluded := by
  unfold inherit
  split <;> rfl

@[simp] theorem inherit_isLinked (e : BlockForkData) : (inherit e d).isLinked = d.isLinked := by
  unfold inherit
  split <;> rfl

@[simp] theorem inherit_isKnown (e : BlockForkData) : (inherit e d).isKnown = d.isKnown := by
  unfold inherit
  split <;> rfl

@[simp] theorem inherit_nextBlocks (e : BlockForkData) :
    (inherit e d).nextBlocks = d.nextBlocks := by
  unfold inherit
  split <;> rfl

theorem inherit_invalid (e : BlockForkData) : (inherit e d).invalid ↔ e.invalid ∨ d.invalid := by
  unfold inherit
  split
  · rename_i he
    exact ⟨fun _ => Or.inl he, fun _ => rfl⟩
  · rename_i he
    simp [he]

/-- The data with which a block is stored that nobody has waited for. -/
def freshData (previous : BlockForkData) : BlockForkData :=
  inherit previous { isKnown := true, isLinked := previous.isLinked }

/-- The data of a block, known or not, that has got the next block `id`. -/
def named (f : Forks) (id p : Nat) : BlockForkData :=
  { (f p).getD {} with nextBlocks := ((f p).getD {}).nextBlocks.insert id }

theorem named_isLinked : (named f id p).isLinked = true ↔ Linked f p :=
  has_getD (P := fun d => d.isLinked = true) nofun

theorem named_invalid : (named f id p).invalid ↔ Invalid f p :=
  has_getD (P := BlockForkData.invalid) nofun

def attached (f : Forks) (id p : Nat) (d : BlockForkData) : Forks :=
  Function.update (Function.update f p (some (named f id p))) id (some d)

theorem has_attached (hne : p ≠ id) (hP : ∀ d l, P { d with nextBlocks := l } ↔ P d)
    (hempty : ¬ P {}) : Has P (attached f id p d) x ↔ (x = id ∧ P d) ∨ (x ≠ id ∧ Has P f x) := by
  unfold attached named
  rw [has_update, has_update]
  by_cases hx : x = p
  · subst hx
    cases hp : f x with
    | none =>
      have hplaceholder := mt (hP {} [id]).mp hempty
      simpa [Has, hp, hne] using hplaceholder
    | some e =>
      simpa [has_of_eq hp, hp, hne] using hP e (e.nextBlocks.insert id)
  · simp [hx]

theorem nextOf_attached (hne : p ≠ id) (hd : d.nextBlocks = nextOf f id) :
    nextOf (attached f id p d) = Function.update (nextOf f) p ((nextOf f p).insert id) := by
  funext x
  by_cases hx : x = id
  · subst hx
    simp [nextOf, attached, hne.symm, hd]
  · by_cases hp : x = p
    · subst hp
      cases hf : f x <;> simp [nextOf, attached, named, hx, hf]
    · simp [nextOf, attached, hx, hp]

theorem shape_attached (hne : prev id ≠ id) (hid : id ≠ 0) (h : Shape prev f)
    (hd : d.nextBlocks = nextOf f id) (hknown : d.isKnown = true) :
    Shape prev (attached f id (prev id) d) := by
  intro p c
  have hK : Known (attached f id (prev id) d) c ↔ _ := has_attached hne (fun _ _ => Iff.rfl) nofun
  rw [nextOf_attached hne hd, hK, Function.update_apply]
  by_cases hc : c = id
  · subst hc
    by_cases hp : p = prev c
    · simp [hp, hid, hknown]
    · simp only [hp, if_false, h p c, hknown]
      tauto
  · by_cases hp : p = prev id
    · simp only [hp, if_true, List.mem_insert_iff, hc, false_or, h (prev id) c]
      tauto
    · simp only [hp, if_false, h p c]
      tauto

/-- The same blocks are known, and they have the same next blocks. -/
structure SameTree (f g : Forks) : Prop where
  known : ∀ x, Known g x ↔ Known f x
  next : nextOf g = nextOf f

theorem sameTree_marked (hm : Mark mark) (hknown : ∀ d, (mark d).isKnown = d.isKnown) :
    SameTree f (marked mark ids f) :=
  ⟨fun _ => has_marked_same fun d => by rw [hknown], nextOf_marked hm ids f⟩

end Forks

variable [Fc] {db : ChainDatabase} {prev rank : Nat → Nat}

/-- The fork tree of a database: it grows from the genesis block, each next block is
known, and what is linked is known. -/
structure Tree (prev rank : Nat → Nat) (db : ChainDatabase) : Prop where
  genesis : Known (forksOf db) 0 ∧ Linked (forksOf db) 0
  shape : Shape prev (forksOf db)
  ranked : Ranked prev rank (forksOf db)
  linkedKnown : ∀ id, Linked (forksOf db) id → Known (forksOf db) id
  recorded : ∀ id, id ≠ 0 → Known (forksOf db) id → (db.blockIdToBlockRecordDb.lookup id).isSome
  seeded : ∃ seed, getCurrentRandomSeed db = .ok seed

/-- What the ids of blocks, which are hashes, say about the order of the blocks. -/
structure Follows (prev rank : Nat → Nat) (block : FullBlock) : Prop where
  notGenesis : block.id ≠ 0
  previous : prev block.id = block.previous
  later : rank block.previous < rank block.id

theorem mem_visited {ids : List Nat} {x : Nat} (hshape : Shape prev (forksOf db))
    (hranked : Ranked prev rank (forksOf db)) (hids : ∀ id ∈ ids, (forksOf db id).isSome) :
    x ∈ visited (nextOf (forksOf db)) db.forkDb.keys.length ids ↔
      ∃ a ∈ ids, Below (nextOf (forksOf db)) a x := by
  have hmem (id : Nat) : id ∈ db.forkDb.keys.toFinset ↔ (forksOf db id).isSome := by
    rw [List.mem_toFinset, ← AList.mem_keys, ← AList.lookup_isSome]
    rfl
  refine mem_visited_iff db.forkDb.keys.toFinset (fun a b => hshape.rank_lt hranked) ?_ ?_
    (List.toFinset_card_le _)
  · intro a _ b hb
    exact (hmem b).mpr (hshape.closed a b hb)
  · intro a ha
    exact (hmem a).mpr (hids a ha)

theorem Tree.same {db' : ChainDatabase} (h : Tree prev rank db)
    (hsame : SameTree (forksOf db) (forksOf db')) (hgenesis : Linked (forksOf db') 0)
    (hlinked : ∀ id, Linked (forksOf db') id → Known (forksOf db) id)
    (hrecords : ∀ id, (db.blockIdToBlockRecordDb.lookup id).isSome →
      (db'.blockIdToBlockRecordDb.lookup id).isSome)
    (hseeded : ∃ seed, getCurrentRandomSeed db' = .ok seed) : Tree prev rank db' := by
  have hK := hsame.known
  refine ⟨⟨(hK 0).mpr h.genesis.1, hgenesis⟩, fun p c => ?_, fun c hc hknown => ?_,
    fun id hid => ?_, fun id hid hknown => ?_, hseeded⟩
  · rw [hsame.next, hK]
    exact h.shape p c
  · exact h.ranked c hc ((hK c).mp hknown)
  · exact (hK id).mpr (hlinked id hid)
  · exact hrecords id (h.recorded id hid ((hK id).mp hknown))

theorem Tree.marked {db' : ChainDatabase} {mark : BlockForkData → BlockForkData} {ids : List Nat}
    (h : Tree prev rank db) (hm : Mark mark) (hknown : ∀ d, (mark d).isKnown = d.isKnown)
    (hlinked : ∀ d, (mark d).isLinked = d.isLinked)
    (hdb : ForksBecome db db' (marked mark ids (forksOf db))) : Tree prev rank db' := by
  have hL (x : Nat) : Linked (forksOf db') x ↔ Linked (forksOf db) x := by
    rw [hdb.2]
    exact has_marked_same fun d => by rw [hlinked]
  refine h.same (hdb.2 ▸ sameTree_marked hm hknown) ((hL 0).mpr h.genesis.2)
    (fun id hid => h.linkedKnown id ((hL id).mp hid)) (fun id hid => ?_) ?_
  · rw [hdb.1]
    exact hid
  · rw [hdb.1]
    exact h.seeded

theorem markPresent_run {mark : BlockForkData → BlockForkData} (h : Tree prev rank db)
    (hm : Mark mark) {id : Nat} (hid : (forksOf db id).isSome) :
    ∃ db' ids, markBlocks mark db.forkDb.keys.length [id] db = .ok () db' ∧
      (∀ x, x ∈ ids ↔ Below (nextOf (forksOf db)) id x) ∧
      ForksBecome db db' (marked mark ids (forksOf db)) := by
  have hsome : ∀ j ∈ [id], (forksOf db j).isSome := by
    intro j hj
    rw [List.mem_singleton.mp hj]
    exact hid
  obtain ⟨db', hrun, hforks⟩ := markBlocks_run hm db.forkDb.keys.length h.shape.closed hsome
  refine ⟨db', _, hrun, fun x => ?_, hforks⟩
  rw [mem_visited h.shape h.ranked hsome]
  simp

/-- A walk from one block marks what is below it. From a block that is not in the tree it
throws at once. -/
theorem markBelow_run {mark : BlockForkData → BlockForkData} (h : Tree prev rank db)
    (hm : Mark mark) (id : Nat) :
    (∃ db' ids, markBlocks mark db.forkDb.keys.length [id] db = .ok () db' ∧
      (∀ x, x ∈ ids ↔ Below (nextOf (forksOf db)) id x) ∧ (forksOf db id).isSome ∧
      ForksBecome db db' (marked mark ids (forksOf db))) ∨
    ∃ e, markBlocks mark db.forkDb.keys.length [id] db = .error e db := by
  cases hid : forksOf db id with
  | some d =>
    obtain ⟨db', ids, hrun, hids, hforks⟩ :=
      markPresent_run h hm (Option.isSome_of_eq_some hid)
    exact Or.inl ⟨db', ids, hrun, hids, rfl, hforks⟩
  | none =>
    right
    have hpos : db.forkDb.keys.length ≠ 0 := by
      intro hzero
      have hmem : 0 ∈ db.forkDb := AList.lookup_isSome.mp h.genesis.1.isSome
      rw [AList.mem_keys, List.length_eq_zero_iff.mp hzero] at hmem
      cases hmem
    obtain ⟨n, hn⟩ := Nat.exists_eq_succ_of_ne_zero hpos
    refine ⟨.keyNotFound, ?_⟩
    have hthrow : markBlock mark id db = .error .keyNotFound db := by
      simp only [markBlock, bind_run_error, read_run_error, read_run_ok, lift_run_error]
      right
      refine ⟨db, db, ⟨rfl, rfl⟩, Or.inl ⟨?_, rfl⟩⟩
      rw [fetchFork, show db.forkDb.lookup id = none from hid]
      rfl
    rw [hn, markBlocks, bind_run, forEach, bind_run, hthrow]

structure Indexed (id : Nat) (db u : ChainDatabase) : Prop where
  forks : u.forkDb = db.forkDb
  properties : u.propertyDb = db.propertyDb
  recorded : (u.blockIdToBlockRecordDb.lookup id).isSome
  kept : ∀ j, (db.blockIdToBlockRecordDb.lookup j).isSome →
    (u.blockIdToBlockRecordDb.lookup j).isSome

theorem indexed_storeBlockRecord (id : Nat) (r : BlockRecord) (db : ChainDatabase) :
    Indexed id db (storeBlockRecord id r db) := by
  have hlookup (j : Nat) := lookup_insert db.blockIdToBlockRecordDb id r j
  refine ⟨rfl, rfl, ?_, fun j hj => ?_⟩
  · rw [storeBlockRecord, hlookup, if_pos rfl]
    rfl
  · rw [storeBlockRecord, hlookup]
    split
    · rfl
    · exact hj

theorem recordBlock_run (id : Nat) {seed : Nat} {x : Except ChainError Nat} (hx : x = .ok seed)
    (make : Nat → BlockRecord) (db : ChainDatabase) :
    ∃ u, onlyIf ((db.blockIdToBlockRecordDb.lookup id).isNone)
      (do
        let seed ← lift x
        update (storeBlockRecord id (make seed))) db = .ok () u ∧ Indexed id db u := by
  subst hx
  cases hr : db.blockIdToBlockRecordDb.lookup id with
  | some r => exact ⟨db, rfl, rfl, rfl, Option.isSome_iff_exists.mpr ⟨r, hr⟩, fun _ hj => hj⟩
  | none => exact ⟨_, rfl, indexed_storeBlockRecord id (make seed) db⟩

theorem indexBlock_run (h : ∃ seed, getCurrentRandomSeed db = .ok seed) (id : Nat)
    (block : FullBlock) : ∃ u, indexBlock id block db = .ok () u ∧ Indexed id db u := by
  obtain ⟨seed, hseed⟩ := h
  obtain ⟨v, hv, hindexed⟩ := recordBlock_run id hseed (fun seed =>
    { block.toSignedBlockHeader with
      userTransactionIds := block.userTransactionIds, randomSeed := seed })
    { db with blockIdToBlockDataDb := db.blockIdToBlockDataDb.insert id block }
  simp only [indexBlock, bind_run_ok, read_run_ok, update_run_ok]
  refine ⟨_, ⟨db, db, ⟨rfl, rfl⟩, (), _, rfl, (), v, hv, rfl⟩, ?_⟩
  exact ⟨hindexed.forks, hindexed.properties, hindexed.recorded, hindexed.kept⟩

/-- What storing block `id`, whose previous block is `p`, does to the links and the invalid
marks. A block that other blocks wait for passes on either its link or its mark. -/
inductive StoreStep (f : Forks) (id p : Nat) (g : Forks) : Prop
  | fresh (missing : f id = none)
    (linked : ∀ x, Linked g x ↔ Linked f x ∨ (x = id ∧ Linked f p))
    (invalid : ∀ x, Invalid g x ↔ Invalid f x ∨ (x = id ∧ Invalid f p))
  | waiting (present : (f id).isSome) (unlinkedPrevious : ¬ Linked f p)
    (linked : ∀ x, Linked g x ↔ Linked f x) (invalid : ∀ x, Invalid g x ↔ Invalid f x)
  | joined (present : (f id).isSome) (linkedPrevious : Linked f p) (validPrevious : ¬ Invalid f p)
    (linked : ∀ x, Linked g x ↔ Linked f x ∨ Below (nextOf g) id x)
    (invalid : ∀ x, Invalid g x ↔ Invalid f x)
  | rejected (present : (f id).isSome) (linkedPrevious : Linked f p) (invalidPrevious : Invalid f p)
    (linked : ∀ x, Linked g x ↔ Linked f x ∨ x = id)
    (invalid : ∀ x, Invalid g x ↔ Invalid f x ∨ Below (nextOf g) id x)

structure Stored (f : Forks) (id p : Nat) (g : Forks) : Prop where
  known : ∀ x, Known g x ↔ Known f x ∨ x = id
  next : nextOf g = Function.update (nextOf f) p ((nextOf f p).insert id)
  step : StoreStep f id p g

section Place

variable {u w : ChainDatabase} {id : Nat} {d : BlockForkData}

theorem attached_reads (hne : prev id ≠ id)
    (hw : ForksBecome u w (attached (forksOf db) id (prev id) d)) (x : Nat) :
    (Known (forksOf w) x ↔ (x = id ∧ d.isKnown = true) ∨ (x ≠ id ∧ Known (forksOf db) x)) ∧
    (Linked (forksOf w) x ↔ (x = id ∧ d.isLinked = true) ∨ (x ≠ id ∧ Linked (forksOf db) x)) ∧
    (Invalid (forksOf w) x ↔ (x = id ∧ d.invalid) ∨ (x ≠ id ∧ Invalid (forksOf db) x)) := by
  rw [hw.2]
  exact ⟨has_attached hne (fun _ _ => Iff.rfl) nofun, has_attached hne (fun _ _ => Iff.rfl) nofun,
    has_attached hne (fun _ _ => Iff.rfl) nofun⟩

theorem attached_known (hne : prev id ≠ id) (hd : d.isKnown = true)
    (hw : ForksBecome u w (attached (forksOf db) id (prev id) d)) (x : Nat) :
    Known (forksOf w) x ↔ Known (forksOf db) x ∨ x = id := by
  rw [(attached_reads hne hw x).1, hd]
  tauto

theorem attached_next (hne : prev id ≠ id) (hd : d.nextBlocks = nextOf (forksOf db) id)
    (hw : ForksBecome u w (attached (forksOf db) id (prev id) d)) :
    nextOf (forksOf w) = Function.update (nextOf (forksOf db)) (prev id)
      ((nextOf (forksOf db) (prev id)).insert id) := by
  rw [hw.2]
  exact nextOf_attached hne hd

end Place

structure Arrives (prev rank : Nat → Nat) (id : Nat) (db u : ChainDatabase) : Prop where
  tree : Tree prev rank db
  notGenesis : id ≠ 0
  later : rank (prev id) < rank id
  indexed : Indexed id db u

theorem Arrives.attached {u w : ChainDatabase} {id : Nat} {d : BlockForkData}
    (h : Arrives prev rank id db u) (hd : d.nextBlocks = nextOf (forksOf db) id)
    (hknown : d.isKnown = true)
    (hw : ForksBecome u w (attached (forksOf db) id (prev id) d)) : Tree prev rank w := by
  obtain ⟨h, hid, hrank, hu⟩ := h
  have hne := ne_of_rank_lt hrank
  have hK (x : Nat) := (attached_reads hne hw x).1
  have hL (x : Nat) := (attached_reads hne hw x).2.1
  have hshape : Shape prev (forksOf w) := by
    rw [hw.2]
    exact shape_attached hne hid h.shape hd hknown
  refine ⟨⟨(hK 0).mpr (Or.inr ⟨hid.symm, h.genesis.1⟩), (hL 0).mpr (Or.inr ⟨hid.symm, h.genesis.2⟩)⟩,
    hshape, ?_, ?_, ?_, ?_⟩
  · intro c hc hknown
    rcases (hK c).mp hknown with ⟨rfl, -⟩ | ⟨-, hold⟩
    · exact hrank
    · exact h.ranked c hc hold
  · intro x hx
    rcases (hL x).mp hx with ⟨rfl, -⟩ | ⟨hxid, hold⟩
    · exact (hK x).mpr (Or.inl ⟨rfl, hknown⟩)
    · exact (hK x).mpr (Or.inr ⟨hxid, h.linkedKnown x hold⟩)
  · intro x hx hxknown
    rw [hw.1]
    rcases (hK x).mp hxknown with ⟨rfl, -⟩ | ⟨-, hold⟩
    · exact hu.recorded
    · exact hu.kept x (h.recorded x hx hold)
  · obtain ⟨seed, hseed⟩ := h.seeded
    refine ⟨seed, ?_⟩
    rw [hw.1]
    simp only [getCurrentRandomSeed, ChainInterface.getProperty, hu.properties] at hseed ⊢
    exact hseed

theorem attach_becomes {u : ChainDatabase} (hu : u.forkDb = db.forkDb) (id p : Nat)
    (d : BlockForkData) :
    ForksBecome u (storeFork id d (storeFork p (named (forksOf db) id p) u))
      (attached (forksOf db) id p d) := by
  refine ⟨rfl, ?_⟩
  have hforks : forksOf u = forksOf db := by
    unfold forksOf
    rw [hu]
  rw [forksOf_storeFork, forksOf_storeFork, hforks]
  rfl

theorem Tree.linked {db' : ChainDatabase} {l : List Nat} (h : Tree prev rank db)
    (hl : ∀ x ∈ l, Known (forksOf db) x)
    (hdb : ForksBecome db db' (ForkMarks.marked setLinked l (forksOf db))) : Tree prev rank db' := by
  have hL (x : Nat) : Linked (forksOf db') x ↔
      Linked (forksOf db) x ∨ (x ∈ l ∧ (forksOf db x).isSome) := by
    rw [hdb.2, linked_marked]
  refine h.same (hdb.2 ▸ sameTree_marked mark_setLinked fun _ => rfl)
    ((hL 0).mpr (Or.inl h.genesis.2)) (fun x hx => ?_) (fun x hx => ?_) ?_
  · rcases (hL x).mp hx with hx | ⟨hx, -⟩
    · exact h.linkedKnown x hx
    · exact hl x hx
  · rw [hdb.1]
    exact hx
  · rw [hdb.1]
    exact h.seeded

theorem Tree.known_belowNext (h : Tree prev rank db) {id c x : Nat}
    (hc : c ∈ nextOf (forksOf db) id) (hbelow : Below (nextOf (forksOf db)) c x) :
    Known (forksOf db) x :=
  h.shape.known_below ((h.shape id c).mp hc).2.2 hbelow

theorem invalidBelow_run (h : Tree prev rank db) (id : Nat) (reason : ChainError) :
    ∃ db', markBlocks (setInvalid reason) db.forkDb.keys.length (nextOf (forksOf db) id) db =
        .ok () db' ∧ Tree prev rank db' ∧ SameTree (forksOf db) (forksOf db') ∧
      (∀ x, Linked (forksOf db') x ↔ Linked (forksOf db) x) ∧
      ∀ x, Invalid (forksOf db') x ↔ Invalid (forksOf db) x ∨
        ∃ c ∈ nextOf (forksOf db) id, Below (nextOf (forksOf db)) c x := by
  have hsome := h.shape.closed id
  obtain ⟨db', hrun, hforks⟩ := markBlocks_run (mark_setInvalid reason) db.forkDb.keys.length
    h.shape.closed hsome
  refine ⟨db', hrun, h.marked (mark_setInvalid reason) (fun _ => rfl) (fun _ => rfl) hforks,
    hforks.2 ▸ sameTree_marked (mark_setInvalid reason) fun _ => rfl, fun x => ?_, fun x => ?_⟩
  · rw [hforks.2]
    exact has_marked_same fun _ => Iff.rfl
  · rw [hforks.2, invalid_marked, mem_visited h.shape h.ranked hsome]
    refine or_congr_right ⟨And.left, fun hx => ⟨hx, ?_⟩⟩
    obtain ⟨c, hc, hbelow⟩ := hx
    exact (h.known_belowNext hc hbelow).isSome

theorem linkBelow_run (h : Tree prev rank db) (id : Nat) (best : Nat × Nat × BlockForkData) :
    ∃ r db', markAsLinked db.forkDb.keys.length (nextOf (forksOf db) id) best db = .ok r db' ∧
      Tree prev rank db' ∧ SameTree (forksOf db) (forksOf db') ∧
      (∀ x, Invalid (forksOf db') x ↔ Invalid (forksOf db) x) ∧
      ∀ x, Linked (forksOf db') x ↔ Linked (forksOf db) x ∨
        ∃ c ∈ nextOf (forksOf db) id, Below (nextOf (forksOf db)) c x := by
  have hrecords : ∀ a, ∀ c ∈ nextOf (forksOf db) a,
      (db.blockIdToBlockRecordDb.lookup c).isSome := by
    intro a c hc
    obtain ⟨hne, -, hknown⟩ := (h.shape a c).mp hc
    exact h.recorded c hne hknown
  have hsome := h.shape.closed id
  obtain ⟨r, db', hrun, hforks⟩ := markAsLinked_run db.forkDb.keys.length best h.shape.closed
    hrecords fun c hc => ⟨hrecords id c hc, hsome c hc⟩
  have hvisited (x : Nat) := mem_visited h.shape h.ranked (x := x) hsome
  have hknown : ∀ x, (∃ c ∈ nextOf (forksOf db) id, Below (nextOf (forksOf db)) c x) →
      Known (forksOf db) x := by
    rintro x ⟨c, hc, hbelow⟩
    exact h.known_belowNext hc hbelow
  refine ⟨r, db', hrun, h.linked (fun x hx => hknown x ((hvisited x).mp hx)) hforks,
    hforks.2 ▸ sameTree_marked mark_setLinked fun _ => rfl, fun x => ?_, fun x => ?_⟩
  · rw [hforks.2]
    exact has_marked_same fun _ => Iff.rfl
  · rw [hforks.2, linked_marked, hvisited]
    exact or_congr_right ⟨And.left, fun hx => ⟨hx, (hknown x hx).isSome⟩⟩

section Run

variable {u : ChainDatabase} {id : Nat} {d : BlockForkData}

/-- Placing a block returns and leaves a tree in which it is stored. -/
def Placed (prev rank : Nat → Nat) (id : Nat) (placeholder : Option BlockForkData)
    (db u : ChainDatabase) : Prop :=
  ∃ r db', placeBlock id (named (forksOf db) id (prev id)) placeholder
      (storeFork (prev id) (named (forksOf db) id (prev id)) u) = .ok r db' ∧
    Tree prev rank db' ∧ Stored (forksOf db) id (prev id) (forksOf db')

section

variable (h : Arrives prev rank id db u)
include h

theorem placeFresh_run (hf : forksOf db id = none) : Placed prev rank id none db u := by
  have hne := ne_of_rank_lt h.later
  have hw := attach_becomes h.indexed.forks id (prev id) (freshData (named (forksOf db) id (prev id)))
  have hnext : (freshData (named (forksOf db) id (prev id))).nextBlocks =
      nextOf (forksOf db) id := by
    rw [freshData, inherit_nextBlocks, nextOf, hf]
    rfl
  refine ⟨_, _, rfl, h.attached hnext (inherit_isKnown _) hw,
    attached_known hne (inherit_isKnown _) hw, attached_next hne hnext hw, .fresh hf ?_ ?_⟩
  · intro x
    refine (attached_reads hne hw x).2.1.trans ?_
    rw [freshData, inherit_isLinked, named_isLinked]
    by_cases hx : x = id
    · simp [hx, Has, hf]
    · simp [hx]
  · intro x
    refine (attached_reads hne hw x).2.2.trans ?_
    rw [freshData, inherit_invalid, named_invalid]
    by_cases hx : x = id
    · simp [hx, Has, hf, BlockForkData.invalid]
    · simp [hx]

theorem placeWaiting_run (hf : forksOf db id = some d)
    (hlinked : ¬ (named (forksOf db) id (prev id)).isLinked = true) :
    Placed prev rank id (some d) db u := by
  have hne := ne_of_rank_lt h.later
  have hw := attach_becomes h.indexed.forks id (prev id) { d with isKnown := true }
  have hnext : ({ d with isKnown := true } : BlockForkData).nextBlocks =
      nextOf (forksOf db) id := by
    rw [nextOf, hf]
    rfl
  have hsome : (forksOf db id).isSome := by
    rw [hf]
    rfl
  refine ⟨(id, { d with isKnown := true }), _, ?_, h.attached hnext rfl hw,
    attached_known hne rfl hw, attached_next hne hnext hw,
    .waiting hsome (mt named_isLinked.mpr hlinked) ?_ ?_⟩
  · rw [placeBlock, if_neg hlinked]
    rfl
  · intro x
    rw [(attached_reads hne hw x).2.1]
    by_cases hx : x = id
    · simp [hx, has_of_eq hf]
    · simp [hx]
  · intro x
    rw [(attached_reads hne hw x).2.2]
    by_cases hx : x = id
    · simp [hx, has_of_eq hf, BlockForkData.invalid]
    · simp [hx]

/-- A block that others wait for and that is linked itself: what is below it becomes
linked, or invalid when its previous block is. -/
theorem placeLinked_run (hf : forksOf db id = some d)
    (hlinked : (named (forksOf db) id (prev id)).isLinked = true) :
    Placed prev rank id (some d) db u := by
  unfold Placed
  have hne := ne_of_rank_lt h.later
  have hsome : (forksOf db id).isSome := by
    rw [hf]
    rfl
  generalize hcurrent : inherit (named (forksOf db) id (prev id))
    { d with isKnown := true, isLinked := true } = current
  have hknown : current.isKnown = true := by rw [← hcurrent, inherit_isKnown]
  have hlink : current.isLinked = true := by rw [← hcurrent, inherit_isLinked]
  have hinvalid : current.invalid ↔ Invalid (forksOf db) (prev id) ∨ Invalid (forksOf db) id := by
    rw [← hcurrent, inherit_invalid, named_invalid]
    exact or_congr_right (has_of_eq (P := BlockForkData.invalid) hf).symm
  have hnext : current.nextBlocks = nextOf (forksOf db) id := by
    rw [← hcurrent, inherit_nextBlocks, nextOf, hf]
    rfl
  have hw := attach_becomes h.indexed.forks id (prev id) current
  have htree := h.attached hnext hknown hw
  generalize hstate : storeFork id current
    (storeFork (prev id) (named (forksOf db) id (prev id)) u) = w at hw htree
  have hids : current.nextBlocks = nextOf (forksOf w) id := by
    rw [attached_next hne hnext hw, Function.update_of_ne hne.symm, hnext]
  have hplace : placeBlock id (named (forksOf db) id (prev id)) (some d)
      (storeFork (prev id) (named (forksOf db) id (prev id)) u) =
      (if (named (forksOf db) id (prev id)).invalid then do
        markBlocks (setInvalid ((named (forksOf db) id (prev id)).invalidReason.getD
          (.assertion ""))) w.forkDb.keys.length current.nextBlocks
        pure (id, current)
      else markAsLinked w.forkDb.keys.length current.nextBlocks (0, 0, {})) w := by
    subst hcurrent hstate
    rw [placeBlock, if_pos hlinked]
    rfl
  rw [hplace, hids]
  have hreads := attached_reads hne hw
  have hbelow (x : Nat) := below_iff (forksOf w) id x
  by_cases hprev : (named (forksOf db) id (prev id)).invalid
  · rw [if_pos hprev]
    generalize (named (forksOf db) id (prev id)).invalidReason.getD (.assertion "") = reason
    obtain ⟨db', hrun, htree', hsame, hL, hI⟩ := invalidBelow_run htree id reason
    refine ⟨(id, current), db', by rw [bind_run, hrun]; rfl, htree', fun x => ?_, ?_,
      .rejected hsome (named_isLinked.mp hlinked) (named_invalid.mp hprev) (fun x => ?_)
        fun x => ?_⟩
    · rw [hsame.known, attached_known hne hknown hw]
    · rw [hsame.next, attached_next hne hnext hw]
    · rw [hL, (hreads x).2.1, hlink]
      by_cases hx : x = id <;> simp [hx]
    · rw [hI, (hreads x).2.2, hinvalid, hsame.next, hbelow]
      by_cases hx : x = id
      · simp [hx, named_invalid.mp hprev]
      · simp [hx]
  · rw [if_neg hprev]
    obtain ⟨r, db', hrun, htree', hsame, hI, hL⟩ := linkBelow_run htree id (0, 0, {})
    refine ⟨r, db', hrun, htree', fun x => ?_, ?_,
      .joined hsome (named_isLinked.mp hlinked) (mt named_invalid.mpr hprev) (fun x => ?_)
        fun x => ?_⟩
    · rw [hsame.known, attached_known hne hknown hw]
    · rw [hsame.next, attached_next hne hnext hw]
    · rw [hL, (hreads x).2.1, hlink, hsame.next, hbelow]
      by_cases hx : x = id <;> simp [hx]
    · rw [hI, (hreads x).2.2, hinvalid]
      by_cases hx : x = id
      · simp [hx, mt named_invalid.mpr hprev]
      · simp [hx]

theorem placeBlock_run : Placed prev rank id (forksOf db id) db u := by
  cases hf : forksOf db id with
  | none => exact placeFresh_run h hf
  | some d =>
    by_cases hlinked : (named (forksOf db) id (prev id)).isLinked = true
    · exact placeLinked_run h hf hlinked
    · exact placeWaiting_run h hf hlinked

end

theorem storeAndIndex_run {block : FullBlock} (h : Tree prev rank db)
    (hb : Follows prev rank block) :
    ∃ r db', storeAndIndex block.id block db = .ok r db' ∧ Tree prev rank db' ∧
      Stored (forksOf db) block.id block.previous (forksOf db') := by
  obtain ⟨u, hindex, hu⟩ := indexBlock_run h.seeded block.id block
  have hrank : rank (prev block.id) < rank block.id := by
    rw [hb.previous]
    exact hb.later
  obtain ⟨r, db', hrun, htree, hstored⟩ := placeBlock_run ⟨h, hb.notGenesis, hrank, hu⟩
  rw [hb.previous] at hrun hstored
  refine ⟨r, db', ?_, htree, hstored⟩
  have hforks : forksOf u = forksOf db := by
    unfold forksOf
    rw [hu.forks]
  have hpresent : (storeFork block.previous (named (forksOf db) block.id block.previous)
      u).forkDb.lookup block.id = forksOf db block.id := by
    have hlookup := congrFun (forksOf_storeFork block.previous
      (named (forksOf db) block.id block.previous) u) block.id
    rw [hforks, Function.update_of_ne (hb.previous ▸ (ne_of_rank_lt hrank).symm)] at hlookup
    exact hlookup
  rw [← hpresent] at hrun
  simp only [storeAndIndex, bind_run_ok, read_run_ok, update_run_ok]
  refine ⟨(), u, hindex, u, u, ⟨rfl, rfl⟩, (), _, rfl, _, _, ⟨rfl, rfl⟩, ?_⟩
  have hnamed : ({ (u.forkDb.lookup block.previous).getD {} with
      nextBlocks := ((u.forkDb.lookup block.previous).getD {}).nextBlocks.insert block.id } :
        BlockForkData) = named (forksOf db) block.id block.previous := by
    rw [hu.forks]
    rfl
  rw [hnamed]
  exact hrun

end Run

end Bts.Blockchain.ForkTree
