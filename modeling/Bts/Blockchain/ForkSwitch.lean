import Bts.Blockchain.StoreSpec
import Bts.Blockchain.StrandedHead

namespace Bts.Blockchain.ForkSwitch

open Base Result Exec Chains Errors Transactions Database ExtendChain ForkDatabase ForkMarks
  ForkTree ExtendSpec ChainInvariant StoreSpec StrandedHead

variable [Fc]

/-- Each block that popping down to `target` takes off can be undone. -/
def PopsUndoable (target : Nat) : Nat → ChainDatabase → Prop
  | 0, _ => True
  | pops + 1, db => db.headBlockId ≠ target →
    Undoable db ∧ ∀ d, popBlock db = .ok () d → PopsUndoable target pops d

def SwitchUndoable (forkId : Nat) (db : ChainDatabase) : Prop :=
  forkId ≠ db.headBlockId → ∀ history, getForkHistory db forkId = .ok history →
    PopsUndoable (history.getLastD 0) db.headBlockHeader.blockNum db

def TryUndoable (forkId : Nat) (db : ChainDatabase) : Prop :=
  ∀ f, fetchFork db forkId = .ok f → f.canLink → SwitchUndoable forkId db

def ForksUndoable (blockId : Nat) : List Nat → ChainDatabase → Prop
  | [], _ => True
  | forkId :: rest, db => TryUndoable forkId db ∧
    ∀ d, tryFork blockId forkId db = .ok false d → ForksUndoable blockId rest d

def NumbersUndoable (blockId : Nat) : Nat → ChainDatabase → Prop
  | 0, _ => True
  | number + 1, db => ForksUndoable blockId (forksAt db (number + 1)) db ∧
    ∀ d, tryForks blockId (forksAt db (number + 1)) db = .ok false d →
      NumbersUndoable blockId number d

/-- Each block that a call of `push_block` takes off can be undone. -/
def PushUndoable (block : FullBlock) (db : ChainDatabase) : Prop :=
  ¬ TooOld block db → ∀ longest d, storeAndIndex block.id block db = .ok longest d →
    longest.2.canLink → ∀ tip, getBlock d longest.1 = .ok tip → db.getHeadBlockNum < tip.blockNum →
    NumbersUndoable block.id tip.blockNum d

instance decidablePopsUndoable (target : Nat) : ∀ pops db, Decidable (PopsUndoable target pops db)
  | 0, _ => isTrue trivial
  | pops + 1, db =>
    have := decidablePopsUndoable target pops
    inferInstanceAs (Decidable (db.headBlockId ≠ target →
      Undoable db ∧ ∀ d, popBlock db = .ok () d → PopsUndoable target pops d))

instance (forkId : Nat) (db : ChainDatabase) : Decidable (SwitchUndoable forkId db) :=
  inferInstanceAs (Decidable (_ → _))

instance (forkId : Nat) (db : ChainDatabase) : Decidable (TryUndoable forkId db) :=
  inferInstanceAs (Decidable (∀ f, fetchFork db forkId = .ok f → f.canLink → _))

instance decidableForksUndoable (blockId : Nat) :
    ∀ forks db, Decidable (ForksUndoable blockId forks db)
  | [], _ => isTrue trivial
  | forkId :: rest, db =>
    have := decidableForksUndoable blockId rest
    inferInstanceAs (Decidable (TryUndoable forkId db ∧
      ∀ d, tryFork blockId forkId db = .ok false d → ForksUndoable blockId rest d))

instance decidableNumbersUndoable (blockId : Nat) :
    ∀ number db, Decidable (NumbersUndoable blockId number db)
  | 0, _ => isTrue trivial
  | number + 1, db =>
    have := decidableNumbersUndoable blockId number
    inferInstanceAs (Decidable (ForksUndoable blockId (forksAt db (number + 1)) db ∧
      ∀ d, tryForks blockId (forksAt db (number + 1)) db = .ok false d →
        NumbersUndoable blockId number d))

instance (block : FullBlock) (db : ChainDatabase) : Decidable (PushUndoable block db) :=
  inferInstanceAs (Decidable (¬ TooOld block db → _))

/-- A chain in order, with the blocks and the links that another one has. -/
structure Reached (prev rank : Nat → Nat) (db d : ChainDatabase) : Prop where
  main : MainChain prev rank d
  linked : ∀ x, Linked (forksOf d) x ↔ Linked (forksOf db) x
  known : ∀ x, Known (forksOf d) x ↔ Known (forksOf db) x

variable {prev rank : Nat → Nat} {db d : ChainDatabase} {id forkId blockId : Nat}

theorem Reached.refl (h : MainChain prev rank db) : Reached prev rank db db :=
  ⟨h, fun _ => Iff.rfl, fun _ => Iff.rfl⟩

theorem Reached.trans {e : ChainDatabase} (h : Reached prev rank db d) (h' : Reached prev rank d e) :
    Reached prev rank db e :=
  ⟨h'.main, fun x => (h'.linked x).trans (h.linked x), fun x => (h'.known x).trans (h.known x)⟩

theorem Reached.ofSame (h : SameCatalogue db d) (hmain : MainChain prev rank d) :
    Reached prev rank db d :=
  ⟨hmain, h.linked, h.tree.known⟩

theorem reached_remembered (hmain : MainChain prev rank db) (ids : Finset Nat) :
    Reached prev rank db { db with revalidatableFutureBlocksDb := ids } := by
  obtain ⟨⟨⟨⟨genesis, shape, ranked, known, recorded, seeded⟩, numbered, records, data, stored,
    listed, onlyListed⟩, zero, number, previous, included, sound, numbers⟩, undone⟩ := hmain
  exact ⟨⟨⟨⟨⟨genesis, shape, ranked, known, recorded, seeded⟩, numbered, records, data, stored,
    listed, onlyListed⟩, zero, number, previous, included, sound, numbers⟩, undone⟩,
    fun _ => Iff.rfl, fun _ => Iff.rfl⟩

theorem getBlock_eq_ok {block : FullBlock} :
    getBlock db id = .ok block ↔ db.blockIdToBlockDataDb.lookup id = some block :=
  orThrow_eq_ok

/-- A chain whose blocks have their undo records is popped down to any of its blocks. The
first block has none, so that the genesis block is not reached. -/
theorem popTo_run {target : Nat} (pops : Nat) (hmain : MainChain prev rank db)
    (htarget : OnChain prev 0 db.headBlockId target)
    (hpops : rank db.headBlockId ≤ rank target + pops) (halong : PopsUndoable target pops db) :
    ∃ d, popTo target pops db = .ok () d ∧ Reached prev rank db d ∧ d.headBlockId = target := by
  induction pops generalizing db with
  | zero =>
    have hhead : db.headBlockId = target := by
      rcases htarget.rank_le hmain.numbered with heq | hlt
      · exact heq.symm
      · omega
    refine ⟨db, bind_run_ok.mpr ⟨db, db, rfl, lift_run_ok.mpr ⟨?_, rfl⟩⟩, .refl hmain, hhead⟩
    exact require_eq_ok.mpr hhead
  | succ pops ih =>
    by_cases hhead : db.headBlockId = target
    · refine ⟨db, bind_run_ok.mpr ⟨db, db, rfl, ?_⟩, .refl hmain, hhead⟩
      rw [onlyIf_neg (not_not.mpr hhead)]
      rfl
    · obtain heq | ⟨hroot, htarget⟩ := onChain_iff.mp htarget
      · exact absurd heq.symm hhead
      have hstep := hmain.numbered db.headBlockId (.self _) hroot
      have hknown := hmain.known (.before hroot (.self (prev db.headBlockId)))
      obtain ⟨hundo, halong⟩ := halong hhead
      have hprev : prev db.headBlockId ≠ 0 := by
        obtain ⟨f, undo, d, -, hlookup, -⟩ := hundo
        exact hmain.undone _ (Option.isSome_of_eq_some hlookup)
      obtain ⟨f, u, hpop, hf, hpopped⟩ := popHead_run hundo (by
        rw [hmain.previous hroot]
        exact hmain.catalogue.tree.recorded _ hprev hknown)
      have hreached : Reached prev rank db u :=
        .ofSame (popped_sameCatalogue hpopped hf) (hmain.popped hpopped hf hroot)
      have hu : u.headBlockId = prev db.headBlockId := hpopped.head.trans (hmain.previous hroot)
      have hblock : popBlock db = .ok () u := by
        have hnumber : db.headBlockHeader.blockNum ≠ 0 := by
          rw [hmain.number]
          omega
        refine bind_run_ok.mpr ⟨db, db, rfl, ?_⟩
        rw [onlyIf_pos hnumber]
        exact hpop
      obtain ⟨d, hd, hrest, hlast⟩ := ih hreached.main (by rw [hu]; exact htarget)
        (by rw [hu]; omega) (halong u hblock)
      refine ⟨d, bind_run_ok.mpr ⟨db, db, rfl, ?_⟩, hreached.trans hrest, hlast⟩
      rw [onlyIf_pos hhead]
      exact bind_run_ok.mpr ⟨(), u, hblock, hd⟩

/-- The way back from a block, down to the genesis block or to one that is included. -/
inductive Walk (prev : Nat → Nat) (db : ChainDatabase) : Nat → List Nat → Prop
  | stop {id : Nat} : Walk prev db id [prev id]
  | step {id : Nat} {rest : List Nat} (notGenesis : prev id ≠ 0) (linked : Linked (forksOf db) (prev id))
    (walk : Walk prev db (prev id) rest) : Walk prev db id (prev id :: rest)

variable {history : List Nat}

theorem forkHistory_walk {steps : Nat} (hc : Catalogue prev rank db)
    (h : forkHistory db steps id = .ok history) : Walk prev db id history := by
  induction steps generalizing id history with
  | zero => exact absurd h throw_eq_ok
  | succ steps ih =>
    simp only [forkHistory, getBlockHeader, eq_ok_iff] at h
    obtain ⟨_, ⟨r, hr, rfl⟩, h⟩ := h
    rw [(hc.records id r hr).1] at h
    split at h
    · cases h
      exact .stop
    next hzero =>
      simp only [eq_ok_iff, fetchFork] at h
      obtain ⟨f, hf, _, hlinked, h⟩ := h
      split at h
      · cases h
        exact .stop
      · simp only [eq_ok_iff] at h
        obtain ⟨rest, hrest, rfl⟩ := h
        exact .step hzero ⟨f, hf, hlinked⟩ (ih hrest)

/-- A run that has made block `id` the head, or has stopped before. -/
def Switched (prev rank : Nat → Nat) (id : Nat) (db : ChainDatabase)
    (r : EStateM.Result ChainError ChainDatabase Unit) : Prop :=
  Reached prev rank db (endState r) ∧ ∀ d, r = .ok () d → d.headBlockId = id

theorem extendById_run (hmain : MainChain prev rank db) (hid : id ≠ 0)
    (hlinked : Linked (forksOf db) id) (hprev : prev id = db.headBlockId) :
    Switched prev rank id db (extendById id db) := by
  obtain ⟨f, hf, hlink⟩ := hlinked
  have hknown : Known (forksOf db) id := hmain.catalogue.tree.linkedKnown id ⟨f, hf, hlink⟩
  obtain ⟨block, hdata⟩ := Option.isSome_iff_exists.mp (hmain.catalogue.stored id hid hknown)
  obtain ⟨rfl, hprevious, hnumber⟩ := hmain.catalogue.data id block hdata
  have hstep := hmain.catalogue.numbered block.id hid hknown
  rw [hprev] at hstep
  have hout : ¬ OnChain prev 0 db.headBlockId block.id := by
    intro hon
    rcases hon.rank_le hmain.numbered with heq | hlt
    · rw [heq] at hstep
      omega
    · omega
  have hread : extendById block.id db = extendChain block db := by
    change (lift (getBlock db block.id) >>= _ : DbAction Unit) db = _
    rw [lift_bind (getBlock_eq_ok.mpr hdata)]
  rw [hread]
  rcases extendChain_cases hmain.catalogue.tree hf with ⟨d, hrun, hext⟩ | ⟨e, d, hrun, href⟩
  · rw [hrun]
    refine ⟨.ofSame (extended_sameCatalogue hext hf)
      (hmain.extended hext hf hlink hid hprevious hnumber), fun u hu => ?_⟩
    cases hu
    exact hext.head
  · rw [hrun]
    refine ⟨.ofSame (refused_sameCatalogue href) (hmain.refused href hout hprev), fun u hu => ?_⟩
    cases hu

theorem extendWalk_run {start : ChainDatabase} (hwalk : Walk prev start id history)
    (hreached : Reached prev rank start db) (hid : id ≠ 0) (hlinked : Linked (forksOf db) id)
    (hhead : db.headBlockId = history.getLastD 0) :
    Switched prev rank id db (forEach (id :: history).dropLast.reverse extendById db) := by
  induction hwalk generalizing db with
  | stop =>
    obtain ⟨hend, hlast⟩ := extendById_run hreached.main hid hlinked hhead.symm
    refine ⟨bind_end hend fun _ _ _ hd => hd, fun d hd => ?_⟩
    obtain ⟨_, u, hu, hd⟩ := bind_run_ok.mp hd
    cases hd
    exact hlast _ hu
  | @step id rest notGenesis linked walk ih =>
    have hlist : (id :: prev id :: rest).dropLast.reverse =
        (prev id :: rest).dropLast.reverse ++ [id] := by
      rw [List.dropLast_cons_cons, List.reverse_cons]
    have hlast : db.headBlockId = rest.getLastD 0 := by
      cases walk with
      | stop => exact hhead
      | step => exact hhead
    rw [hlist, forEach_append]
    obtain ⟨hbelow, hprev⟩ := ih hreached notGenesis ((hreached.linked _).mpr linked) hlast
    have hstep {u : ChainDatabase} (hu : forEach (prev id :: rest).dropLast.reverse extendById db =
        .ok () u) : Reached prev rank db u ∧ Switched prev rank id u (extendById id u) := by
      rw [hu] at hbelow
      exact ⟨hbelow, extendById_run hbelow.main hid ((hbelow.linked id).mpr hlinked)
        (hprev u hu).symm⟩
    constructor
    · refine bind_end hbelow fun _ u hu _ => bind_end ?_ fun _ _ _ hd => hd
      exact (hstep hu).1.trans (hstep hu).2.1
    · intro d hd
      obtain ⟨_, u, hu, hd⟩ := bind_run_ok.mp hd
      obtain ⟨_, v, hv, hd⟩ := bind_run_ok.mp hd
      cases hd
      exact (hstep hu).2.2 _ hv

theorem Walk.getLastD_cons (h : Walk prev db id history) :
    (id :: history).getLastD 0 = history.getLastD 0 := by
  cases h with
  | stop => rfl
  | step => rfl

theorem switchToFork_run (hmain : MainChain prev rank db) (hid : forkId ≠ 0)
    (hlinked : Linked (forksOf db) forkId) (hundo : SwitchUndoable forkId db) :
    Reached prev rank db (endState (switchToFork forkId db)) := by
  unfold switchToFork
  rw [readId_bind]
  by_cases hne : forkId = db.headBlockId
  · rw [onlyIf_neg (not_not.mpr hne)]
    exact .refl hmain
  rw [onlyIf_pos hne]
  cases hhistory : getForkHistory db forkId with
  | error e => exact .refl hmain
  | ok history =>
    rw [lift_bind rfl]
    have hlast := getForkHistory_last hhistory
    have hpops := hundo hne history hhistory
    simp only [getForkHistory, eq_ok_iff] at hhistory
    obtain ⟨rest, hrest, rfl⟩ := hhistory
    have hwalk := forkHistory_walk hmain.catalogue hrest
    rw [hwalk.getLastD_cons] at hlast hpops ⊢
    have hchain : OnChain prev 0 db.headBlockId (rest.getLastD 0) := by
      rcases hlast with hzero | hincluded
      · rw [hzero]
        exact hmain.numbered.reaches_root
      · exact (hmain.included _).mp hincluded
    obtain ⟨u, hpop, hreached, hu⟩ := popTo_run _ hmain hchain (by rw [hmain.number]; omega) hpops
    rw [bind_run, hpop]
    exact hreached.trans
      (extendWalk_run hwalk hreached hid ((hreached.linked _).mpr hlinked) hu).1

theorem tryFork_run (hmain : MainChain prev rank db) (hid : forkId ≠ 0)
    (hundo : TryUndoable forkId db) :
    Reached prev rank db (endState (tryFork blockId forkId db)) := by
  unfold tryFork
  rw [readId_bind]
  cases hf : fetchFork db forkId with
  | error e => exact .refl hmain
  | ok f =>
    rw [lift_bind rfl]
    split
    next hlink =>
      have hswitch := switchToFork_run hmain hid ⟨f, orThrow_eq_ok.mp hf, hlink.1⟩ (hundo f hf hlink)
      refine onError_end (bind_end hswitch fun _ d _ hd => ?_) fun e d hd => ?_
      · exact bind_end (x := read _) hd fun _ _ _ hd => Keeps.bindLift (fun _ => .pure _) _ hd
      · refine bind_end ?_ fun _ _ _ hd => hd
        unfold onlyIf
        split
        · exact hd.trans (reached_remembered hd.main _)
        · exact hd
    next => exact .refl hmain

theorem tryForks_run {forks : List Nat} (hmain : MainChain prev rank db) (hforks : ∀ c ∈ forks, c ≠ 0)
    (hundo : ForksUndoable blockId forks db) :
    Reached prev rank db (endState (tryForks blockId forks db)) := by
  induction forks generalizing db with
  | nil => exact .refl hmain
  | cons forkId rest ih =>
    rw [List.forall_mem_cons] at hforks
    refine bind_end (tryFork_run hmain hforks.1 hundo.1) fun switched d hd hreached => ?_
    cases switched with
    | true => exact hreached
    | false => exact hreached.trans (ih hreached.main hforks.2 (hundo.2 d hd))

theorem tryNumbers_run (number : Nat) (hmain : MainChain prev rank db)
    (hundo : NumbersUndoable blockId number db) :
    Reached prev rank db (endState (tryNumbers blockId number db)) := by
  induction number generalizing db with
  | zero => exact .refl hmain
  | succ number ih =>
    have hforks : ∀ c ∈ forksAt db (number + 1), c ≠ 0 :=
      fun c hc => (hmain.catalogue.onlyListed (number + 1) c hc).1
    rw [tryNumbers, readId_bind]
    refine bind_end (tryForks_run hmain hforks hundo.1) fun switched d hd hreached => ?_
    cases switched with
    | true => exact hreached
    | false => exact hreached.trans (ih hreached.main (hundo.2 d hd))

theorem pushBlock_mainChain {block : FullBlock} (hmain : MainChain prev rank db)
    (hb : Honest prev rank block) (hundo : PushUndoable block db) :
    MainChain prev rank (endState (pushBlock block db)) := by
  by_cases hold : TooOld block db
  · rw [pushBlock_tooOld hold]
    exact hmain
  obtain ⟨longest, u, hstore, hu, -, -⟩ := storeAndIndex_mainChain hmain hb
  by_cases htries : ∃ tip, longest.2.canLink ∧ getBlock u longest.1 = .ok tip ∧
      db.getHeadBlockNum < tip.blockNum
  · obtain ⟨tip, hlink, htip, hlonger⟩ := htries
    rw [pushBlock_tries hold hstore hlink htip hlonger]
    exact (tryNumbers_run _ hu (hundo hold longest u hstore hlink tip htip hlonger)).main
  · rw [pushBlock_waits hold hstore fun hlink tip htip hlonger => htries ⟨tip, hlink, htip, hlonger⟩]
    exact hu

end Bts.Blockchain.ForkSwitch
