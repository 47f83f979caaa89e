import Bts.Base.Levels
import Bts.Blockchain.ForkWalks

namespace Bts.Blockchain.ForkMarks

open Base Result Exec Maps Levels Errors Transactions Database ExtendChain ForkDatabase

/-- The fork tree as it is read: the data of each block. -/
abbrev Forks := Nat → Option BlockForkData

def nextOf (f : Forks) (id : Nat) : List Nat := ((f id).map BlockForkData.nextBlocks).getD []

structure Mark (mark : BlockForkData → BlockForkData) : Prop where
  next : ∀ d, (mark d).nextBlocks = d.nextBlocks
  again : ∀ d, mark (mark d) = mark d

theorem mark_setLinked : Mark setLinked := ⟨fun _ => rfl, fun _ => rfl⟩
theorem mark_setInvalid (reason : ChainError) : Mark (setInvalid reason) :=
  ⟨fun _ => rfl, fun _ => rfl⟩
theorem mark_setUnchecked : Mark setUnchecked := ⟨fun _ => rfl, fun _ => rfl⟩

def marked (mark : BlockForkData → BlockForkData) (ids : List Nat) (f : Forks) : Forks :=
  fun id => if id ∈ ids then (f id).map mark else f id

section Marked

variable {mark : BlockForkData → BlockForkData} {f : Forks} {ids ids' : List Nat}

theorem nextOf_marked (hm : Mark mark) (ids : List Nat) (f : Forks) :
    nextOf (marked mark ids f) = nextOf f := by
  funext id
  unfold nextOf marked
  split
  · cases f id with
    | none => rfl
    | some d => exact hm.next d
  · rfl

theorem marked_nil (mark : BlockForkData → BlockForkData) (f : Forks) : marked mark [] f = f := by
  funext id
  simp [marked]

theorem marked_isSome {id : Nat} : (marked mark ids f id).isSome = (f id).isSome := by
  unfold marked
  split <;> simp

theorem marked_marked (hm : Mark mark) :
    marked mark ids' (marked mark ids f) = marked mark (ids ++ ids') f := by
  funext id
  unfold marked
  by_cases h : id ∈ ids <;> by_cases h' : id ∈ ids' <;> simp [h, h', hm.again, Function.comp_def]

theorem update_eq_marked {id : Nat} {d : BlockForkData} (h : f id = some d) :
    Function.update f id (some (mark d)) = marked mark [id] f := by
  funext j
  rw [Function.update_apply, marked]
  by_cases hj : j = id
  · subst hj
    simp [h]
  · simp [hj]

def Closed (f : Forks) : Prop := ∀ id, ∀ c ∈ nextOf f id, (f c).isSome

theorem closed_marked (hm : Mark mark) (h : Closed f) : Closed (marked mark ids f) := by
  intro id c hc
  rw [nextOf_marked hm] at hc
  rw [marked_isSome]
  exact h id c hc

end Marked

variable [Fc] {mark : BlockForkData → BlockForkData} {db db' db'' : ChainDatabase} {f g : Forks}

def forksOf (db : ChainDatabase) : Forks := fun id => db.forkDb.lookup id

/-- A call has changed nothing but the fork tree, which now reads `f`. -/
def ForksBecome (db db' : ChainDatabase) (f : Forks) : Prop :=
  db' = { db with forkDb := db'.forkDb } ∧ forksOf db' = f

theorem ForksBecome.trans (h : ForksBecome db db' f) (h' : ForksBecome db' db'' g) :
    ForksBecome db db'' g := by
  refine ⟨?_, h'.2⟩
  rw [h'.1, h.1]

theorem forksOf_storeFork (id : Nat) (d : BlockForkData) (db : ChainDatabase) :
    forksOf (storeFork id d db) = Function.update (forksOf db) id (some d) := by
  funext j
  rw [Function.update_apply]
  exact lookup_insert db.forkDb id d j

theorem storeFork_becomes (id : Nat) (d : BlockForkData) (db : ChainDatabase) :
    ForksBecome db (storeFork id d db) (Function.update (forksOf db) id (some d)) :=
  ⟨rfl, forksOf_storeFork id d db⟩

theorem markIncluded_run {db : ChainDatabase} {id : Nat} {f : BlockForkData} (included : Bool)
    (h : db.forkDb.lookup id = some f) : markIncluded id included db = .ok () (storeFork id { f with
      isIncluded := included, isValid := if included then some true else f.isValid } db) := by
  have hfetch : fetchFork db id = .ok f := by
    rw [fetchFork, h]
    rfl
  exact bind_run_ok.mpr ⟨db, db, rfl, bind_run_ok.mpr ⟨f, db, lift_run_ok.mpr ⟨hfetch, rfl⟩, rfl⟩⟩

theorem markBlock_run {id : Nat} {d : BlockForkData} (h : forksOf db id = some d) :
    markBlock mark id db = .ok () (storeFork id (mark d) db) := by
  simp only [markBlock, bind_run_ok, read_run_ok, lift_run_ok, update_run_ok, fetchFork,
    orThrow_eq_ok]
  exact ⟨db, db, ⟨rfl, rfl⟩, d, db, ⟨h, rfl⟩, rfl⟩

theorem markAll_run (hm : Mark mark) {ids : List Nat} (hids : ∀ id ∈ ids, (forksOf db id).isSome) :
    ∃ db', forEach ids (markBlock mark) db = .ok () db' ∧
      ForksBecome db db' (marked mark ids (forksOf db)) := by
  induction ids generalizing db with
  | nil => exact ⟨db, rfl, rfl, (marked_nil mark (forksOf db)).symm⟩
  | cons id ids ih =>
    obtain ⟨d, hd⟩ := Option.isSome_iff_exists.mp (hids id List.mem_cons_self)
    have hfirst := storeFork_becomes id (mark d) db
    rw [update_eq_marked hd] at hfirst
    have hrest : ∀ j ∈ ids, (forksOf (storeFork id (mark d) db) j).isSome := by
      intro j hj
      rw [hfirst.2, marked_isSome]
      exact hids j (List.mem_cons_of_mem id hj)
    obtain ⟨db', hrun, hforks⟩ := ih hrest
    rw [hfirst.2, marked_marked hm] at hforks
    refine ⟨db', ?_, hfirst.trans hforks⟩
    rw [forEach, bind_run, markBlock_run hd]
    exact hrun

theorem nextBlocks_eq (db : ChainDatabase) (ids : List Nat) :
    nextBlocks db ids = nextLevel (nextOf (forksOf db)) ids := rfl

theorem nextBlocks_isSome (hclosed : Closed (forksOf db)) {ids : List Nat} {id : Nat}
    (h : id ∈ nextBlocks db ids) : (forksOf db id).isSome := by
  rw [nextBlocks_eq, mem_nextLevel] at h
  obtain ⟨a, -, ha⟩ := h
  exact hclosed a id ha

theorem markBlocks_run (hm : Mark mark) (n : Nat) {ids : List Nat} (hclosed : Closed (forksOf db))
    (hids : ∀ id ∈ ids, (forksOf db id).isSome) :
    ∃ db', markBlocks mark n ids db = .ok () db' ∧
      ForksBecome db db' (marked mark (visited (nextOf (forksOf db)) n ids) (forksOf db)) := by
  induction n generalizing db ids with
  | zero => exact ⟨db, rfl, rfl, (marked_nil mark (forksOf db)).symm⟩
  | succ n ih =>
    obtain ⟨u, hrun, hforks⟩ := markAll_run hm hids
    have hclosed' : Closed (forksOf u) := by
      rw [hforks.2]
      exact closed_marked hm hclosed
    obtain ⟨db', hrun', hforks'⟩ := ih hclosed' fun id hid => nextBlocks_isSome hclosed' hid
    rw [nextBlocks_eq, hforks.2, nextOf_marked hm, marked_marked hm] at hforks'
    refine ⟨db', ?_, hforks.trans hforks'⟩
    simp only [markBlocks, bind_run_ok, read_run_ok]
    exact ⟨(), u, hrun, u, u, ⟨rfl, rfl⟩, hrun'⟩

theorem betterFork_returns (best : Nat × Nat × BlockForkData) {id : Nat}
    (hrecord : (db.blockIdToBlockRecordDb.lookup id).isSome) (hfork : (forksOf db id).isSome) :
    ∃ best', betterFork db best id = .ok best' := by
  obtain ⟨r, hr⟩ := Option.isSome_iff_exists.mp hrecord
  obtain ⟨d, hd⟩ := Option.isSome_iff_exists.mp hfork
  simp only [betterFork, fetchFork, eq_ok_iff]
  exact ⟨_, r, hr, d, hd, rfl⟩

theorem bestFork_returns {ids : List Nat} (best : Nat × Nat × BlockForkData)
    (hids : ∀ id ∈ ids, (db.blockIdToBlockRecordDb.lookup id).isSome ∧ (forksOf db id).isSome) :
    ∃ best', ids.foldlM (betterFork db) best = .ok best' := by
  induction ids generalizing best with
  | nil => exact ⟨best, rfl⟩
  | cons id ids ih =>
    obtain ⟨hrecord, hfork⟩ := hids id List.mem_cons_self
    obtain ⟨next, hnext⟩ := betterFork_returns best hrecord hfork
    obtain ⟨best', hbest⟩ := ih next fun j hj => hids j (List.mem_cons_of_mem id hj)
    exact ⟨best', foldlM_cons_eq_ok.mpr ⟨next, hnext, hbest⟩⟩

/-- The walk of `recursive_mark_as_linked` marks the blocks it visits when each next
block has its record. -/
theorem markAsLinked_run (n : Nat) {ids : List Nat} (best : Nat × Nat × BlockForkData)
    (hclosed : Closed (forksOf db))
    (hrecords : ∀ id, ∀ c ∈ nextOf (forksOf db) id, (db.blockIdToBlockRecordDb.lookup c).isSome)
    (hids : ∀ id ∈ ids, (db.blockIdToBlockRecordDb.lookup id).isSome ∧ (forksOf db id).isSome) :
    ∃ r db', markAsLinked n ids best db = .ok r db' ∧
      ForksBecome db db' (marked setLinked (visited (nextOf (forksOf db)) n ids) (forksOf db)) := by
  induction n generalizing db ids best with
  | zero => exact ⟨best.2, db, rfl, rfl, (marked_nil setLinked (forksOf db)).symm⟩
  | succ n ih =>
    obtain ⟨u, hrun, hforks⟩ := markAll_run mark_setLinked fun id hid => (hids id hid).2
    have hblocks : u.blockIdToBlockRecordDb = db.blockIdToBlockRecordDb := by rw [hforks.1]
    have hnext : nextOf (forksOf u) = nextOf (forksOf db) := by
      rw [hforks.2, nextOf_marked mark_setLinked]
    have hclosed' : Closed (forksOf u) := by
      rw [hforks.2]
      exact closed_marked mark_setLinked hclosed
    have hids' : ∀ id ∈ ids,
        (u.blockIdToBlockRecordDb.lookup id).isSome ∧ (forksOf u id).isSome := by
      intro id hid
      rw [hblocks, hforks.2, marked_isSome]
      exact hids id hid
    obtain ⟨best', hbest⟩ := bestFork_returns best hids'
    have hlevel : ∀ id ∈ nextBlocks u ids,
        (u.blockIdToBlockRecordDb.lookup id).isSome ∧ (forksOf u id).isSome := by
      intro id hid
      refine ⟨?_, nextBlocks_isSome hclosed' hid⟩
      rw [nextBlocks_eq, mem_nextLevel, hnext] at hid
      obtain ⟨a, -, ha⟩ := hid
      rw [hblocks]
      exact hrecords a id ha
    obtain ⟨r, db', hrun', hforks'⟩ := ih best' hclosed'
      (by rw [hblocks, hnext]; exact hrecords) hlevel
    rw [nextBlocks_eq, hforks.2, nextOf_marked mark_setLinked, marked_marked mark_setLinked]
      at hforks'
    refine ⟨r, db', ?_, hforks.trans hforks'⟩
    simp only [markAsLinked, bind_run_ok, read_run_ok, lift_run_ok]
    exact ⟨(), u, hrun, u, u, ⟨rfl, rfl⟩, best', u, ⟨hbest, rfl⟩, hrun'⟩

end Bts.Blockchain.ForkMarks
