import Mathlib.Data.List.Sort
import Bts.Base.Runs
import Bts.Blockchain.AccountIndexes

namespace Bts.Blockchain.VoteIndex

open Base Exec Maps Runs Records Transactions Database Stores AccountStore AccountIndexes

section Votes

variable {r : AccountRecord} {v : Int × Int} {index : List (Int × Int)}

theorem voteOf_eq_some : voteOf r = some v ↔
    ¬ r.isRetracted ∧ ∃ d, r.delegateInfo = some d ∧ v = (d.votesFor, r.id) := by
  unfold voteOf
  split
  next h => simp [h]
  next h =>
    rw [Option.map_eq_some_iff]
    simp only [h, not_false_eq_true, true_and]
    exact exists_congr fun d => and_congr_right fun _ => eq_comm

theorem voteOf_id (h : voteOf r = some v) : v.2 = r.id := by
  obtain ⟨-, d, -, rfl⟩ := voteOf_eq_some.mp h
  rfl

theorem mem_removedVote : v ∈ removedVote r index ↔ v ∈ index ∧ voteOf r ≠ some v := by
  unfold removedVote
  cases voteOf r with
  | none => simp
  | some w => simp [eq_comm (a := w)]

theorem mem_addedVote : v ∈ addedVote r index ↔ voteOf r = some v ∨ v ∈ index := by
  unfold addedVote
  cases voteOf r with
  | none => simp
  | some w => simp [eq_comm (a := w)]

end Votes

section Model

variable [Fc] {db d : ChainDatabase} {p r : AccountRecord} {v : Int × Int}

def store (r : AccountRecord) (db : ChainDatabase) : ChainDatabase :=
  endState (storeAccountRecord r db)

def getDelegatesByVote (db : ChainDatabase) (first count : Nat) : List Int :=
  (((db.delegateVoteIndexDb.insertionSort voteBefore).map Prod.snd).drop first).take count

/-- The index has the votes of the delegates that are not retracted. -/
structure Exact (db : ChainDatabase) : Prop where
  keys : ∀ id r, db.accountDb.lookup id = some r → HasSigningKey r
  votes : ∀ v, v ∈ db.delegateVoteIndexDb ↔ ∃ r, db.accountDb.lookup v.2 = some r ∧ voteOf r = some v

/-- A delegate has its signing key, and is not retracted or taken back while it keeps
its votes. -/
def Tracked (r : AccountRecord) (db : ChainDatabase) : Prop :=
  (r.isNull ∨ HasSigningKey r) ∧ ∀ p, db.accountDb.lookup r.id = some p → ¬ r.isNull →
    ∀ old new, p.delegateInfo = some old → r.delegateInfo = some new →
      old.votesFor = new.votesFor → (p.isRetracted ↔ r.isRetracted)

theorem Exact.mem_own (h : Exact db) (hp : db.accountDb.lookup p.id = some p) (hv : v.2 = p.id) :
    v ∈ db.delegateVoteIndexDb ↔ voteOf p = some v := by
  rw [h.votes, hv, hp]
  simp

theorem mem_movedVote (h : Exact db) (hp : db.accountDb.lookup r.id = some p)
    (htracked : ∀ old new, p.delegateInfo = some old → r.delegateInfo = some new →
      old.votesFor = new.votesFor → (p.isRetracted ↔ r.isRetracted)) :
    v ∈ movedVote p r db.delegateVoteIndexDb ↔
      (v.2 ≠ r.id ∧ v ∈ db.delegateVoteIndexDb) ∨ voteOf r = some v := by
  have hid : p.id = r.id := Table.key_eq hp
  have hown := fun hv => h.mem_own (v := v) (p := p) (by rw [hid]; exact hp) hv
  unfold movedVote
  split
  next hsame =>
    have hvote : voteOf p = voteOf r := by
      unfold voteOf
      cases hold : p.delegateInfo with
      | none =>
        rw [hold, Option.map_none] at hsame
        rw [Option.map_eq_none_iff.mp hsame.symm]
        simp
      | some old =>
        rw [hold, Option.map_some] at hsame
        obtain ⟨new, hnew, hvotes⟩ := Option.map_eq_some_iff.mp hsame.symm
        rw [hnew, Option.map_some, Option.map_some, hid, hvotes]
        simp only [htracked old new hold hnew hvotes.symm]
    by_cases hv : v.2 = r.id
    · rw [hown (hv.trans hid.symm), hvote]
      simp [hv]
    · have hother : voteOf r ≠ some v := fun he => hv (voteOf_id he)
      simp [hv, hother]
  next =>
    rw [mem_addedVote, mem_removedVote, or_comm]
    refine or_congr_left ?_
    by_cases hv : v.2 = r.id
    · rw [hown (hv.trans hid.symm)]
      simp [hv]
    · have hother : voteOf p ≠ some v := fun he => hv ((voteOf_id he).trans hid)
      simp [hv, hother]

theorem mem_stored (h : Exact db) (hstored : Stored r db d) (htracked : Tracked r db) :
    v ∈ d.delegateVoteIndexDb ↔
      (v.2 ≠ r.id ∧ v ∈ db.delegateVoteIndexDb) ∨ (¬ r.isNull ∧ voteOf r = some v) := by
  cases hstored with
  | nothing null missing =>
    have hother : v ∈ db.delegateVoteIndexDb → v.2 ≠ r.id := by
      rw [h.votes]
      rintro ⟨q, hq, -⟩ hv
      rw [hv, missing] at hq
      cases hq
    simp only [null, not_true_eq_false, false_and, or_false]
    exact ⟨fun hv => ⟨hother hv, hv⟩, And.right⟩
  | @removed p old null stored hold =>
    have hid : p.id = r.id := Table.key_eq stored
    simp only [null, not_true_eq_false, false_and, or_false]
    rw [mem_removedVote]
    by_cases hv : v.2 = r.id
    · rw [h.mem_own (by rw [hid]; exact stored) (hv.trans hid.symm)]
      simp [hv]
    · have hother : voteOf p ≠ some v := fun he => hv ((voteOf_id he).trans hid)
      simp [hv, hother]
  | created notNull missing hnew =>
    have hother : v ∈ db.delegateVoteIndexDb → v.2 ≠ r.id := by
      rw [h.votes]
      rintro ⟨q, hq, -⟩ hv
      rw [hv, missing] at hq
      cases hq
    rw [mem_addedVote, or_comm]
    simp only [notNull, not_false_eq_true, true_and]
    exact or_congr_left ⟨fun hv => ⟨hother hv, hv⟩, And.right⟩
  | updated notNull stored hold hnew =>
    simp only [notNull, not_false_eq_true, true_and]
    exact mem_movedVote h stored (htracked.2 _ stored notNull)

theorem Exact.store (h : Exact db) (htracked : Tracked r db) : Exact (store r db) := by
  obtain ⟨d, hrun, hstored⟩ := storeAccountRecord_run htracked.1 fun p => h.keys r.id p
  unfold VoteIndex.store
  rw [hrun]
  change Exact d
  refine ⟨fun id q hq => ?_, fun v => ?_⟩
  · rw [hstored.lookup] at hq
    split at hq
    · unfold dropNull at hq
      split at hq
      · cases hq
      next hnull =>
        cases hq
        exact htracked.1.resolve_left hnull
    · exact h.keys id q hq
  · rw [mem_stored h hstored htracked, hstored.lookup, h.votes]
    unfold dropNull
    by_cases hv : v.2 = r.id
    · by_cases hnull : r.isNull <;> simp [hv, hnull]
    · have hother : voteOf r ≠ some v := fun he => hv (voteOf_id he)
      simp [hv, hother]

theorem mem_getDelegatesByVote {id : Int} {first count : Nat}
    (h : id ∈ getDelegatesByVote db first count) : ∃ votes, (votes, id) ∈ db.delegateVoteIndexDb := by
  have hmem := List.mem_of_mem_drop (List.mem_of_mem_take h)
  obtain ⟨v, hv, rfl⟩ := List.mem_map.mp hmem
  rw [List.mem_insertionSort] at hv
  exact ⟨v.1, hv⟩

theorem getDelegatesByVote_all {id votes : Int} {count : Nat}
    (h : (votes, id) ∈ db.delegateVoteIndexDb) (hcount : db.delegateVoteIndexDb.length ≤ count) :
    id ∈ getDelegatesByVote db 0 count := by
  unfold getDelegatesByVote
  rw [List.drop_zero, List.take_of_length_le]
  · refine List.mem_map.mpr ⟨(votes, id), ?_, rfl⟩
    rw [List.mem_insertionSort]
    exact h
  · rw [List.length_map, List.length_insertionSort]
    exact hcount

/-- While no delegate is retracted or taken back with the votes it has, the index of the
votes has exactly the delegates that are not retracted, with their votes. -/
theorem voteIndex_exact {calls : List AccountRecord} (hstart : Exact db)
    (hcalls : Meets store Tracked calls db) :
    let d := run store calls db
    (∀ votes id, (votes, id) ∈ d.delegateVoteIndexDb ↔ ∃ r, d.accountDb.lookup id = some r ∧
      ¬ r.isRetracted ∧ ∃ stats, r.delegateInfo = some stats ∧ votes = stats.votesFor) ∧
      (∀ first count, ∀ id ∈ getDelegatesByVote d first count, ∃ r,
        d.accountDb.lookup id = some r ∧ r.isDelegate ∧ ¬ r.isRetracted) ∧
      ∀ id r count, d.accountDb.lookup id = some r → r.isDelegate → ¬ r.isRetracted →
        d.delegateVoteIndexDb.length ≤ count → id ∈ getDelegatesByVote d 0 count := by
  have hexact : Exact (run store calls db) :=
    hcalls.keeps (fun r t htracked ht => ht.store htracked) hstart
  have hindex : ∀ votes id, (votes, id) ∈ (run store calls db).delegateVoteIndexDb ↔
      ∃ r, (run store calls db).accountDb.lookup id = some r ∧
        ¬ r.isRetracted ∧ ∃ stats, r.delegateInfo = some stats ∧ votes = stats.votesFor := by
    intro votes id
    rw [hexact.votes]
    refine exists_congr fun r => and_congr_right fun hr => ?_
    rw [voteOf_eq_some]
    simp [Table.key_eq hr]
  refine ⟨hindex, fun first count id hid => ?_, fun id r count hr hdelegate hretracted hcount => ?_⟩
  · obtain ⟨votes, hvotes⟩ := mem_getDelegatesByVote hid
    obtain ⟨r, hr, hretracted, stats, hstats, -⟩ := (hindex votes id).mp hvotes
    exact ⟨r, hr, Option.isSome_of_eq_some hstats, hretracted⟩
  · obtain ⟨stats, hstats⟩ := Option.isSome_iff_exists.mp hdelegate
    exact getDelegatesByVote_all ((hindex _ id).mpr ⟨r, hr, hretracted, stats, hstats, rfl⟩) hcount

end Model

def candidate (votes : Int) (activeKey : Nat) : AccountRecord where
  id := 1
  name := "delegate"
  ownerKey := 5
  activeKeyHistory := (∅ : Map Nat Nat).insert 1 activeKey
  delegateInfo := some { votesFor := votes, signingKeyHistory := (∅ : Map Nat Nat).insert 1 7 }

theorem candidate_hasSigningKey (votes : Int) (activeKey : Nat) :
    HasSigningKey (candidate votes activeKey) :=
  ⟨some 7, rfl⟩

theorem voteIndex_exact_candidate :
    letI := Fc.plain
    let d := run store [candidate 10 7, candidate 20 7] {}
    ∀ votes id, (votes, id) ∈ d.delegateVoteIndexDb ↔ ∃ r, d.accountDb.lookup id = some r ∧
      ¬ r.isRetracted ∧ ∃ stats, r.delegateInfo = some stats ∧ votes = stats.votesFor := by
  let := Fc.plain
  have hstart : Exact {} := by
    refine ⟨fun id r hr => ?_, fun v => ?_⟩
    · cases hr
    · simp
  have hcalls : Meets store Tracked [candidate 10 7, candidate 20 7] {} := by
    refine ⟨⟨Or.inr (candidate_hasSigningKey 10 7), fun p hp => ?_⟩,
      ⟨Or.inr (candidate_hasSigningKey 20 7), fun p hp _ old new hold hnew hvotes => ?_⟩, trivial⟩
    · cases hp
    · have hstored : some (candidate 10 7) = some p := hp
      cases hstored
      exact ⟨fun h => h, fun h => h⟩
  exact (voteIndex_exact hstart hcalls).1

/-- A delegate that is retracted with the votes it has is still in the index and is still
elected. -/
theorem retracted_delegate_elected :
    letI := Fc.plain
    let d := run store [candidate 10 7, candidate 10 0] {}
    (∃ r ∈ d.accountDb.lookup 1, r.isRetracted) ∧ d.delegateVoteIndexDb = [(10, 1)] ∧
      getDelegatesByVote d 0 101 = [1] := by
  decide +kernel

end Bts.Blockchain.VoteIndex
