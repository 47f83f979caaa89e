import Bts.Blockchain.ForkTree

namespace Bts.Blockchain.ForkInvariants

open Base Exec Maps Levels Errors Transactions Database ExtendChain ForkDatabase ForkMarks ForkTree

section Edges

variable {f g : Forks} {prev : Nat → Nat} {id a c x : Nat}

/-- A block is linked when the block before it is. -/
def LinkedEdges (prev : Nat → Nat) (f : Forks) : Prop :=
  ∀ c, c ≠ 0 → Known f c → (Linked f c ↔ Linked f (prev c))

/-- A block is invalid when the block before it is. -/
def InvalidEdges (f : Forks) : Prop :=
  ∀ p, ∀ c ∈ nextOf f p, Invalid f p → Invalid f c

/-- All ancestors of a block, down to the genesis block, are known. -/
inductive Rooted (prev : Nat → Nat) (f : Forks) : Nat → Prop
  | genesis : Rooted prev f 0
  | next {id : Nat} (notGenesis : id ≠ 0) (known : Known f (prev id))
    (rooted : Rooted prev f (prev id)) : Rooted prev f id

/-- `a` is before `c`, with all the blocks from there on known. -/
def Ancestor (prev : Nat → Nat) (f : Forks) : Nat → Nat → Prop :=
  Relation.TransGen fun p c => c ≠ 0 ∧ prev c = p ∧ Known f c

theorem Rooted.known_prev (h : Rooted prev f id) (hid : id ≠ 0) :
    Known f (prev id) ∧ Rooted prev f (prev id) := by
  cases h with
  | genesis => exact absurd rfl hid
  | next _ known rooted => exact ⟨known, rooted⟩

theorem mem_next_stored (h : Stored f id x g) (p : Nat) :
    c ∈ nextOf g p ↔ c ∈ nextOf f p ∨ (p = x ∧ c = id) := by
  rw [h.next, Function.update_apply]
  by_cases hp : p = x
  · simp [hp, or_comm]
  · simp [hp]

theorem nextOf_eq_nil (h : f id = none) : nextOf f id = [] := by
  rw [nextOf, h]
  rfl

theorem below_prev (h : Shape prev f) (hc : c ≠ 0) (hknown : Known f c) (hne : c ≠ id) :
    Below (nextOf f) id c ↔ Below (nextOf f) id (prev c) := by
  constructor
  · intro hbelow
    rcases Relation.ReflTransGen.cases_tail hbelow with heq | ⟨b, hb, hnext⟩
    · exact absurd heq hne
    · rw [((h b c).mp hnext).2.1]
      exact hb
  · intro hbelow
    exact hbelow.tail ((h (prev c) c).mpr ⟨hc, rfl, hknown⟩)

/-- Storing a block keeps the links right unless it has been waited for and its previous
block is linked and invalid: then the blocks after it are marked and not linked. -/
def PassesLink (f : Forks) (id p : Nat) : Prop :=
  ¬ (Linked f p ∧ Invalid f p ∧ (f id).isSome ∧ ¬ Linked f id)
  deriving Decidable

/-- Storing a block keeps the marks right unless it has been waited for and its previous
block is invalid and not linked: then it does not get the mark. -/
def PassesMark (f : Forks) (id p : Nat) : Prop :=
  ¬ (¬ Linked f p ∧ Invalid f p ∧ (f id).isSome ∧ ¬ Invalid f id)
  deriving Decidable

theorem stored_linkedEdges {f g : Forks} {id : Nat} (hshape : Shape prev f)
    (hshape' : Shape prev g) (hlinked : ∀ x, Linked f x → Known f x)
    (hne : prev id ≠ id) (h : LinkedEdges prev f) (hstored : Stored f id (prev id) g)
    (hpass : PassesLink f id (prev id)) : LinkedEdges prev g := by
  intro c hc hknown
  have hold : c ≠ id → Known f c := fun hcid => ((hstored.known c).mp hknown).resolve_right hcid
  cases hstored.step with
  | fresh missing linked invalid =>
    rw [linked, linked]
    by_cases hcid : c = id
    · subst hcid
      have hnone : ¬ Linked f c := by
        rintro ⟨d, hd, -⟩
        rw [missing] at hd
        cases hd
      simp [hnone, hne]
    · have hprev : prev c ≠ id := by
        intro hp
        have hmem := (hshape id c).mpr ⟨hc, hp, hold hcid⟩
        rw [nextOf_eq_nil missing] at hmem
        cases hmem
      simp [hcid, hprev, h c hc (hold hcid)]
  | waiting present unlinkedPrevious linked invalid =>
    rw [linked, linked]
    by_cases hcid : c = id
    · subst hcid
      have hself : ¬ Linked f c := fun hl => unlinkedPrevious ((h c hc (hlinked c hl)).mp hl)
      simp [hself, unlinkedPrevious]
    · exact h c hc (hold hcid)
  | joined present linkedPrevious validPrevious linked invalid =>
    rw [linked, linked]
    by_cases hcid : c = id
    · subst hcid
      simp only [linkedPrevious, true_or, iff_true]
      exact Or.inr .refl
    · rw [h c hc (hold hcid), below_prev hshape' hc hknown hcid]
  | rejected present linkedPrevious invalidPrevious linked invalid =>
    have hself : Linked f id := by
      by_contra hnot
      exact hpass ⟨linkedPrevious, invalidPrevious, present, hnot⟩
    have hsame (x : Nat) : Linked g x ↔ Linked f x := by
      rw [linked]
      constructor
      · rintro (hx | rfl)
        · exact hx
        · exact hself
      · exact Or.inl
    rw [hsame, hsame]
    by_cases hcid : c = id
    · subst hcid
      exact h c hc (hlinked c hself)
    · exact h c hc (hold hcid)

theorem linkedEdges_marked {mark : BlockForkData → BlockForkData} {ids : List Nat}
    (hknown : ∀ d, (mark d).isKnown = d.isKnown) (hlinked : ∀ d, (mark d).isLinked = d.isLinked)
    (h : LinkedEdges prev f) : LinkedEdges prev (marked mark ids f) := by
  have hK (x : Nat) : Known (marked mark ids f) x ↔ Known f x :=
    has_marked_same fun d => by rw [hknown]
  have hL (x : Nat) : Linked (marked mark ids f) x ↔ Linked f x :=
    has_marked_same fun d => by rw [hlinked]
  intro c hc hc'
  rw [hL, hL]
  exact h c hc ((hK c).mp hc')

theorem stored_invalidEdges {f g : Forks} {id p : Nat} (h : InvalidEdges f)
    (hne : p ≠ id) (hstored : Stored f id p g) (hpass : PassesMark f id p) : InvalidEdges g := by
  intro q c hmem hq
  have hedge := (mem_next_stored hstored q).mp hmem
  cases hstored.step with
  | fresh missing linked invalid =>
    rw [invalid] at hq ⊢
    rcases hedge with hold | ⟨rfl, rfl⟩
    · have hqid : q ≠ id := by
        rintro rfl
        rw [nextOf_eq_nil missing] at hold
        cases hold
      exact Or.inl (h q c hold (hq.resolve_right fun hx => hqid hx.1))
    · exact Or.inr ⟨rfl, hq.resolve_right fun hx => hne hx.1⟩
  | waiting present unlinkedPrevious linked invalid =>
    rw [invalid] at hq ⊢
    rcases hedge with hold | ⟨rfl, rfl⟩
    · exact h q c hold hq
    · by_contra hnot
      exact hpass ⟨unlinkedPrevious, hq, present, hnot⟩
  | joined present linkedPrevious validPrevious linked invalid =>
    rw [invalid] at hq ⊢
    rcases hedge with hold | ⟨rfl, rfl⟩
    · exact h q c hold hq
    · exact absurd hq validPrevious
  | rejected present linkedPrevious invalidPrevious linked invalid =>
    rw [invalid] at hq ⊢
    rcases hedge with hold | ⟨rfl, rfl⟩
    · rcases hq with hq | hq
      · exact Or.inl (h q c hold hq)
      · exact Or.inr (hq.tail hmem)
    · exact Or.inr .refl

theorem linked_iff_of_edges {rank : Nat → Nat} (hranked : Ranked prev rank f)
    (hgenesis : Linked f 0) (hlinked : ∀ x, Linked f x → Known f x) (h : LinkedEdges prev f)
    (hknown : Known f x) : Linked f x ↔ Rooted prev f x := by
  -- The induction is on the rank: the block before a known one has a smaller rank.
  induction hr : rank x using Nat.strong_induction_on generalizing x with
  | _ n ih =>
    by_cases hx : x = 0
    · subst hx
      exact ⟨fun _ => .genesis, fun _ => hgenesis⟩
    · have hlt : rank (prev x) < n := hr ▸ hranked x hx hknown
      rw [h x hx hknown]
      constructor
      · intro hl
        have hk := hlinked _ hl
        exact .next hx hk ((ih _ hlt hk rfl).mp hl)
      · intro hrooted
        obtain ⟨hk, hrest⟩ := hrooted.known_prev hx
        exact (ih _ hlt hk rfl).mpr hrest

theorem invalid_of_edges (hshape : Shape prev f) (h : InvalidEdges f) (ha : Invalid f a)
    (hancestor : Ancestor prev f a c) : Invalid f c := by
  induction hancestor with
  | single hedge => exact h _ _ ((hshape _ _).mpr hedge) ha
  | tail _ hedge ih => exact h _ _ ((hshape _ _).mpr hedge) ih

theorem not_canLink_of_invalid (h : Invalid f c) : ∀ d, f c = some d → ¬ d.canLink := by
  intro d hd hcan
  exact hcan.2 ((has_of_eq hd).mp h)

end Edges

section Model

variable [Fc] {prev rank : Nat → Nat} {start db : ChainDatabase}

inductive ForkCall
  | store (block : FullBlock)
  | markInvalid (id : Nat) (reason : ChainError)
  | markAsUnchecked (id : Nat)

namespace ForkCall

def run : ForkCall → ChainDatabase → ChainDatabase
  | .store block, db => endState (storeAndIndex block.id block db)
  | .markInvalid id reason, db => endState (ExtendChain.markInvalid id reason db)
  | .markAsUnchecked id, db => endState (ForkDatabase.markAsUnchecked id db)

def Follows (prev rank : Nat → Nat) : ForkCall → Prop
  | .store block => ForkTree.Follows prev rank block
  | _ => True

def PassesLink (db : ChainDatabase) : ForkCall → Prop
  | .store block => ForkInvariants.PassesLink (forksOf db) block.id block.previous
  | _ => True

def PassesMark (db : ChainDatabase) : ForkCall → Prop
  | .store block => ForkInvariants.PassesMark (forksOf db) block.id block.previous
  | .markInvalid _ _ => True
  | .markAsUnchecked _ => False

end ForkCall

structure Fresh (db : ChainDatabase) : Prop where
  forks : ∀ id, forksOf db id =
    if id = 0 then some { isValid := some true, isIncluded := true, isLinked := true, isKnown := true }
    else none
  seeded : ∃ seed, getCurrentRandomSeed db = .ok seed

/-- The databases that calls lead to, each of which meets the condition `ok`. -/
inductive Reached (prev rank : Nat → Nat) (ok : ChainDatabase → ForkCall → Prop)
    (start : ChainDatabase) : ChainDatabase → Prop
  | start : Reached prev rank ok start start
  | next {db : ChainDatabase} {call : ForkCall} (reached : Reached prev rank ok start db)
    (follows : call.Follows prev rank) (meets : ok db call) :
    Reached prev rank ok start (call.run db)

theorem Fresh.known (h : Fresh db) {id : Nat} (hknown : Known (forksOf db) id) : id = 0 := by
  obtain ⟨d, hd, -⟩ := hknown
  rw [h.forks] at hd
  by_contra hid
  rw [if_neg hid] at hd
  cases hd

theorem Fresh.nextOf (h : Fresh db) (id : Nat) : ForkMarks.nextOf (forksOf db) id = [] := by
  rw [ForkMarks.nextOf, h.forks]
  split <;> rfl

theorem Fresh.tree (h : Fresh db) : Tree prev rank db := by
  have hzero := h.forks 0
  refine ⟨⟨⟨_, hzero, rfl⟩, ⟨_, hzero, rfl⟩⟩, ?_, ?_, ?_, ?_, h.seeded⟩
  · intro p c
    rw [h.nextOf]
    simp only [List.not_mem_nil, false_iff, not_and]
    exact fun hc _ hknown => hc (h.known hknown)
  · exact fun c hc hknown => absurd (h.known hknown) hc
  · rintro id ⟨d, hd, hlinked⟩
    have hid : id = 0 := by
      by_contra hid
      rw [h.forks, if_neg hid] at hd
      cases hd
    subst hid
    exact ⟨_, hzero, rfl⟩
  · exact fun id hid hknown => absurd (h.known hknown) hid

/-- What one call does: it stores a block, marks what is below a block, or throws. -/
inductive CallStep (prev : Nat → Nat) (db : ChainDatabase) : ForkCall → ChainDatabase → Prop
  | stored {db' : ChainDatabase} (block : FullBlock) (notGenesis : block.id ≠ 0)
    (previous : prev block.id = block.previous) (distinct : block.previous ≠ block.id)
    (forks : Stored (forksOf db) block.id block.previous (forksOf db')) :
    CallStep prev db (.store block) db'
  | invalidated {db' : ChainDatabase} (id : Nat) (reason : ChainError) (ids : List Nat)
    (below : ∀ x, x ∈ ids ↔ Below (nextOf (forksOf db)) id x)
    (forks : forksOf db' = marked (setInvalid reason) ids (forksOf db)) :
    CallStep prev db (.markInvalid id reason) db'
  | unchecked {db' : ChainDatabase} (id : Nat) (ids : List Nat)
    (forks : forksOf db' = marked setUnchecked ids (forksOf db)) :
    CallStep prev db (.markAsUnchecked id) db'
  | thrown (call : ForkCall) : CallStep prev db call db

theorem run_step {call : ForkCall} (h : Tree prev rank db) (hfollows : call.Follows prev rank) :
    Tree prev rank (call.run db) ∧ CallStep prev db call (call.run db) := by
  cases call with
  | store block =>
    obtain ⟨r, db', hrun, htree, hstored⟩ := storeAndIndex_run h hfollows
    have hend : ForkCall.run (.store block) db = db' := congrArg endState hrun
    have hdistinct : block.previous ≠ block.id := by
      intro he
      have hlater := hfollows.later
      rw [he] at hlater
      exact lt_irrefl _ hlater
    rw [hend]
    exact ⟨htree, .stored block hfollows.notGenesis hfollows.previous hdistinct hstored⟩
  | markInvalid id reason =>
    rcases markBelow_run h (mark_setInvalid reason) id with
      ⟨db', ids, hrun, hids, -, hforks⟩ | ⟨e, hrun⟩
    · have hend : ForkCall.run (.markInvalid id reason) db = db' := congrArg endState hrun
      rw [hend]
      exact ⟨h.marked (mark_setInvalid reason) (fun _ => rfl) (fun _ => rfl) hforks,
        .invalidated id reason ids hids hforks.2⟩
    · have hend : ForkCall.run (.markInvalid id reason) db = db := congrArg endState hrun
      rw [hend]
      exact ⟨h, .thrown _⟩
  | markAsUnchecked id =>
    rcases markBelow_run h mark_setUnchecked id with ⟨db', ids, hrun, -, -, hforks⟩ | ⟨e, hrun⟩
    · have hend : ForkCall.run (.markAsUnchecked id) db = db' := congrArg endState hrun
      rw [hend]
      exact ⟨h.marked mark_setUnchecked (fun _ => rfl) (fun _ => rfl) hforks,
        .unchecked id ids hforks.2⟩
    · have hend : ForkCall.run (.markAsUnchecked id) db = db := congrArg endState hrun
      rw [hend]
      exact ⟨h, .thrown _⟩

theorem callStep_linkedEdges {db' : ChainDatabase} {call : ForkCall} (htree : Tree prev rank db)
    (htree' : Tree prev rank db') (h : LinkedEdges prev (forksOf db))
    (hstep : CallStep prev db call db') (hpass : call.PassesLink db) :
    LinkedEdges prev (forksOf db') := by
  cases hstep with
  | stored block notGenesis previous distinct forks =>
    rw [← previous] at distinct forks
    have hpass : PassesLink (forksOf db) block.id (prev block.id) := by
      rw [previous]
      exact hpass
    exact stored_linkedEdges htree.shape htree'.shape htree.linkedKnown distinct h forks hpass
  | invalidated id reason ids below forks =>
    rw [forks]
    exact linkedEdges_marked (fun _ => rfl) (fun _ => rfl) h
  | unchecked id ids forks =>
    rw [forks]
    exact linkedEdges_marked (fun _ => rfl) (fun _ => rfl) h
  | thrown => exact h

theorem callStep_invalidEdges {db' : ChainDatabase} {call : ForkCall} (htree : Tree prev rank db)
    (h : InvalidEdges (forksOf db)) (hstep : CallStep prev db call db')
    (hpass : call.PassesMark db) : InvalidEdges (forksOf db') := by
  cases hstep with
  | stored block notGenesis previous distinct forks =>
    exact stored_invalidEdges h distinct forks hpass
  | invalidated id reason ids below forks =>
    intro p c hc hp
    rw [forks, nextOf_marked (mark_setInvalid reason)] at hc
    rw [forks, invalid_marked] at hp ⊢
    rcases hp with hp | ⟨hp, -⟩
    · exact Or.inl (h p c hc hp)
    · exact Or.inr ⟨(below c).mpr (((below p).mp hp).tail hc), htree.shape.closed p c hc⟩
  | unchecked id ids forks => exact hpass.elim
  | thrown => exact h

theorem reached_tree {ok : ChainDatabase → ForkCall → Prop} (hfresh : Fresh start)
    (h : Reached prev rank ok start db) : Tree prev rank db := by
  induction h with
  | start => exact hfresh.tree
  | next _ follows _ ih => exact (run_step ih follows).1

/-- In every run in which each stored block passes its link on, the known blocks that are
linked are those whose ancestors are all known. -/
theorem linked_iff_rooted {id : Nat} (hfresh : Fresh start)
    (h : Reached prev rank (fun db call => call.PassesLink db) start db)
    (hknown : Known (forksOf db) id) :
    Linked (forksOf db) id ↔ Rooted prev (forksOf db) id := by
  have hedges : LinkedEdges prev (forksOf db) := by
    clear hknown
    induction h with
    | start => exact fun c hc hknown => absurd (hfresh.known hknown) hc
    | next reached follows meets ih =>
      have htree := reached_tree hfresh reached
      obtain ⟨htree', hstep⟩ := run_step htree follows
      exact callStep_linkedEdges htree htree' ih hstep meets
  have htree := reached_tree hfresh h
  exact linked_iff_of_edges htree.ranked htree.genesis.2 htree.linkedKnown hedges hknown

/-- In every run in which each stored block gets the mark of the block before it, a known
block with an invalid ancestor is invalid. -/
theorem invalid_of_invalid_ancestor {a c : Nat} (hfresh : Fresh start)
    (h : Reached prev rank (fun db call => call.PassesMark db) start db)
    (ha : Known (forksOf db) a ∧ Invalid (forksOf db) a) (hancestor : Ancestor prev (forksOf db) a c) :
    Invalid (forksOf db) c ∧ ∀ d, forksOf db c = some d → ¬ d.canLink := by
  have hedges : InvalidEdges (forksOf db) := by
    clear ha hancestor
    induction h with
    | start =>
      intro p c hc
      rw [hfresh.nextOf] at hc
      cases hc
    | next reached follows meets ih =>
      have htree := reached_tree hfresh reached
      exact callStep_invalidEdges htree ih (run_step htree follows).2 meets
  have hinvalid := invalid_of_edges (reached_tree hfresh h).shape hedges ha.2 hancestor
  exact ⟨hinvalid, not_canLink_of_invalid hinvalid⟩

end Model

def samplePrev (id : Nat) : Nat := id - 1001

def sampleBlock (n : Nat) : FullBlock where
  previous := 1001 * (n - 1)
  blockNum := n
  delegateSignature := n

def freshDb : @ChainDatabase Fc.plain :=
  letI := Fc.plain
  { forkDb := (∅ : Map Nat _).insert 0
      { isValid := some true, isIncluded := true, isLinked := true, isKnown := true }
    propertyDb := (∅ : Map _ _).insert .lastRandomSeedId (.hash 0) }

theorem freshDb_fresh : @Fresh Fc.plain freshDb := by
  let := Fc.plain
  refine ⟨fun id => ?_, 0, rfl⟩
  exact lookup_insert ∅ 0 _ id

theorem sampleBlock_follows (n : Nat) :
    @ForkCall.Follows Fc.plain samplePrev id (.store (sampleBlock (n + 1))) := by
  let := Fc.plain
  have hid : (sampleBlock (n + 1)).id = 1000 * (n + 1) + (n + 1) := rfl
  have hprev : (sampleBlock (n + 1)).previous = 1001 * n := rfl
  have hsub : 1000 * (n + 1) + (n + 1) - 1001 = 1001 * n := by omega
  refine ⟨?_, (congrArg samplePrev hid).trans (hsub.trans hprev.symm), ?_⟩
  · omega
  · rw [hid, hprev, id_eq, id_eq]
    omega

/-- The third block arrives before the second one. -/
theorem linked_iff_rooted_sampleBlocks :
    letI := Fc.plain
    let db := ForkCall.run (.store (sampleBlock 2)) (ForkCall.run (.store (sampleBlock 3))
      (ForkCall.run (.store (sampleBlock 1)) freshDb))
    Known (forksOf db) 3003 ∧ Linked (forksOf db) 3003 ∧ Rooted samplePrev (forksOf db) 3003 := by
  let := Fc.plain
  intro db
  have hfirst : PassesLink (forksOf freshDb) (sampleBlock 1).id 0 := by decide +kernel
  have hthird : PassesLink (forksOf (ForkCall.run (.store (sampleBlock 1)) freshDb))
      (sampleBlock 3).id 2002 := by decide +kernel
  have hsecond : PassesLink (forksOf (ForkCall.run (.store (sampleBlock 3))
      (ForkCall.run (.store (sampleBlock 1)) freshDb))) (sampleBlock 2).id 1001 := by decide +kernel
  have hreached : Reached samplePrev id (fun db call => call.PassesLink db) freshDb db :=
    .next (.next (.next .start (sampleBlock_follows 0) hfirst) (sampleBlock_follows 2) hthird)
      (sampleBlock_follows 1) hsecond
  have hknown : Known (forksOf db) 3003 := by decide +kernel
  have hlinked : Linked (forksOf db) 3003 := by decide +kernel
  exact ⟨hknown, hlinked, (linked_iff_rooted freshDb_fresh hreached hknown).mp hlinked⟩

/-- The first of two blocks is marked invalid, and with it the second one. -/
theorem invalid_of_invalid_ancestor_sampleBlock :
    letI := Fc.plain
    let db := ForkCall.run (.markInvalid 1001 .timeInFuture) (ForkCall.run (.store (sampleBlock 2))
      (ForkCall.run (.store (sampleBlock 1)) freshDb))
    (Known (forksOf db) 1001 ∧ Invalid (forksOf db) 1001) ∧
      Ancestor samplePrev (forksOf db) 1001 2002 ∧ Invalid (forksOf db) 2002 := by
  let := Fc.plain
  intro db
  have hfirst : PassesMark (forksOf freshDb) (sampleBlock 1).id 0 := by decide +kernel
  have hsecond : PassesMark (forksOf (ForkCall.run (.store (sampleBlock 1)) freshDb))
      (sampleBlock 2).id 1001 := by decide +kernel
  have hreached : Reached samplePrev id (fun db call => call.PassesMark db) freshDb db :=
    .next (.next (.next .start (sampleBlock_follows 0) hfirst) (sampleBlock_follows 1) hsecond)
      trivial trivial
  have hmarked : Known (forksOf db) 1001 ∧ Invalid (forksOf db) 1001 := by decide +kernel
  have hancestor : Ancestor samplePrev (forksOf db) 1001 2002 :=
    .single ⟨by decide, by decide, by decide +kernel⟩
  exact ⟨hmarked, hancestor,
    (invalid_of_invalid_ancestor freshDb_fresh hreached hmarked hancestor).1⟩

/-- The third block waits for the second one, and the first one is invalid: the third
block is not linked when all its ancestors are known. -/
theorem rejected_descendant_not_linked :
    letI := Fc.plain
    ∃ db, Reached samplePrev id (fun _ _ => True) freshDb db ∧ Known (forksOf db) 3003 ∧
      Rooted samplePrev (forksOf db) 3003 ∧ ¬ Linked (forksOf db) 3003 := by
  let := Fc.plain
  have hreached : Reached samplePrev id (fun _ _ => True) freshDb
      (ForkCall.run (.store (sampleBlock 2)) (ForkCall.run (.store (sampleBlock 3))
        (ForkCall.run (.markInvalid 1001 .timeInFuture)
          (ForkCall.run (.store (sampleBlock 1)) freshDb)))) :=
    .next (.next (.next (.next .start (sampleBlock_follows 0) trivial) trivial trivial)
      (sampleBlock_follows 2) trivial) (sampleBlock_follows 1) trivial
  refine ⟨_, hreached, by decide +kernel, ?_, by decide +kernel⟩
  exact .next (by decide) (by decide +kernel) (.next (by decide) (by decide +kernel)
    (.next (by decide) (by decide +kernel) .genesis))

/-- An unlinked block is marked invalid, and the two blocks after it arrive in the wrong
order: the next block has been waited for and does not get the mark. -/
theorem waiting_block_not_invalid :
    letI := Fc.plain
    ∃ db, Reached samplePrev id (fun _ _ => True) freshDb db ∧
      (Known (forksOf db) 2002 ∧ Invalid (forksOf db) 2002) ∧
      Ancestor samplePrev (forksOf db) 2002 3003 ∧ ¬ Invalid (forksOf db) 3003 := by
  let := Fc.plain
  have hreached : Reached samplePrev id (fun _ _ => True) freshDb
      (ForkCall.run (.store (sampleBlock 3)) (ForkCall.run (.store (sampleBlock 4))
        (ForkCall.run (.markInvalid 2002 .timeInFuture)
          (ForkCall.run (.store (sampleBlock 2)) freshDb)))) :=
    .next (.next (.next (.next .start (sampleBlock_follows 1) trivial) trivial trivial)
      (sampleBlock_follows 3) trivial) (sampleBlock_follows 2) trivial
  exact ⟨_, hreached, by decide +kernel,
    .single ⟨by decide, by decide, by decide +kernel⟩, by decide +kernel⟩

end Bts.Blockchain.ForkInvariants
