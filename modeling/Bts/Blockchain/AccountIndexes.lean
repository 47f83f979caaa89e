import Bts.Blockchain.AccountStore

namespace Bts.Blockchain.AccountIndexes

open Base Result Exec Maps Records Transactions Database Stores AccountStore

/-- The entry of an account in the index of the votes: none if it is no delegate or has
been retracted. -/
def voteOf (r : AccountRecord) : Option (Int × Int) :=
  if r.isRetracted then none else r.delegateInfo.map fun d => (d.votesFor, r.id)

def removedVote (r : AccountRecord) (index : List (Int × Int)) : List (Int × Int) :=
  (voteOf r).elim index fun v => index.filter (· ≠ v)

def addedVote (r : AccountRecord) (index : List (Int × Int)) : List (Int × Int) :=
  (voteOf r).elim index index.insert

/-- The index of the votes after an update, which looks at the votes only. -/
def movedVote (p r : AccountRecord) (index : List (Int × Int)) : List (Int × Int) :=
  if p.delegateInfo.map DelegateStats.votesFor = r.delegateInfo.map DelegateStats.votesFor then index
  else addedVote r (removedVote p index)

theorem signingKey?_cases {r : AccountRecord} {key : Option Nat} (h : r.signingKey? = .ok key) :
    (∃ d, r.delegateInfo = some d ∧ ∃ k, key = some k ∧ r.signingKey = .ok k) ∨
      (r.delegateInfo = none ∧ key = none) := by
  unfold AccountRecord.signingKey? at h
  by_cases hd : r.isDelegate
  · simp only [hd, ↓reduceIte, map_eq_ok] at h
    obtain ⟨k, hk, rfl⟩ := h
    obtain ⟨d, hd⟩ := Option.isSome_iff_exists.mp hd
    exact Or.inl ⟨d, hd, k, rfl, hk⟩
  · simp only [hd, ↓reduceIte, pure_eq_ok] at h
    rw [AccountRecord.isDelegate, Option.isSome_iff_ne_none, not_not] at hd
    exact Or.inr ⟨hd, h.symm⟩

section Model

variable [Fc] {db d : ChainDatabase} {p r : AccountRecord} {old new : Option Nat} {id : Int}

def removedKey (key : Option Nat) (m : Map Nat Int) : Map Nat Int :=
  key.elim m fun k => m.erase (Fc.address k)

def addedKey (key : Option Nat) (id : Int) (m : Map Nat Int) : Map Nat Int :=
  key.elim m fun k => m.insert (Fc.address k) id

def movedKey (old new : Option Nat) (id : Int) (m : Map Nat Int) : Map Nat Int :=
  if old.map Fc.address = new.map Fc.address then m else addedKey new id (removedKey old m)

theorem indexKeys_run (old new : Option Nat) (id : Int) (db : ChainDatabase) :
    indexKeys old new id db =
      .ok () { db with addressToAccountDb := movedKey old new id db.addressToAccountDb } := by
  cases old with
  | none =>
    cases new with
    | none => rfl
    | some n => rfl
  | some o =>
    cases new with
    | none => rfl
    | some n =>
      unfold indexKeys movedKey
      by_cases h : Fc.address o = Fc.address n
      · simp [onlyIf, h, pure_run]
      · simp only [onlyIf, h, Option.map_some, Option.some.injEq, ↓reduceIte, ne_eq,
          not_false_eq_true]
        rfl

theorem indexVotes_run (p r : AccountRecord) (db : ChainDatabase) :
    indexVotes p r db =
      .ok () { db with delegateVoteIndexDb := movedVote p r db.delegateVoteIndexDb } := by
  unfold indexVotes movedVote addedVote removedVote voteOf
  cases p.delegateInfo with
  | none =>
    cases r.delegateInfo with
    | none => rfl
    | some n => by_cases hr : r.isRetracted <;> simp [hr, onlyIf, pure_run, storeVote, update]
  | some o =>
    cases r.delegateInfo with
    | none => by_cases hp : p.isRetracted <;> simp [hp, onlyIf, pure_run, removeVote, update]
    | some n =>
      by_cases hv : o.votesFor = n.votesFor
      · simp [hv, onlyIf, pure_run]
      · by_cases hp : p.isRetracted <;> by_cases hr : r.isRetracted <;>
          simp [hv, hp, hr, onlyIf, pure_run, bind_run, storeVote, removeVote, update]

theorem indexSigningKeys_run (hold : p.signingKey? = .ok old) (hnew : r.signingKey? = .ok new)
    (db : ChainDatabase) : indexSigningKeys p r db =
      .ok () { db with addressToAccountDb := movedKey old new r.id db.addressToAccountDb } := by
  unfold indexSigningKeys
  rw [hold, hnew]
  exact indexKeys_run old new r.id db

def storedKeys (r : AccountRecord) (signing : Option Nat) (m : Map Nat Int) : Map Nat Int :=
  addedKey signing r.id (addedKey r.activeKey? r.id (m.insert (Fc.address r.ownerKey) r.id))

def removedKeys (r : AccountRecord) (signing : Option Nat) (m : Map Nat Int) : Map Nat Int :=
  removedKey signing (removedKey r.activeKey? (m.erase (Fc.address r.ownerKey)))

/-- The addresses after an account has been updated: the owner key, the active key and the
signing key are replaced one after the other. -/
def movedKeys (p r : AccountRecord) (old new : Option Nat) (m : Map Nat Int) : Map Nat Int :=
  let owner := if p.ownerKey = r.ownerKey then m
    else (m.erase (Fc.address p.ownerKey)).insert (Fc.address r.ownerKey) r.id
  movedKey old new r.id (movedKey p.activeKey? r.activeKey? r.id owner)

def movedName (p r : AccountRecord) (m : Map String Int) : Map String Int :=
  if p.name = r.name then m else (m.erase p.name).insert r.name r.id

section IndexRecord

variable (f : Nat → Map Nat Int → Map Nat Int) (g : Int × Int → List (Int × Int) → List (Int × Int))

def onAddress (a : Nat) : DbAction Unit :=
  update fun db => { db with addressToAccountDb := f a db.addressToAccountDb }

def onVote (v : Int × Int) : DbAction Unit :=
  update fun db => { db with delegateVoteIndexDb := g v db.delegateVoteIndexDb }

theorem onActive_run (r : AccountRecord) (db : ChainDatabase) :
    onlyIf (¬ r.isRetracted) (onAddress f (Fc.address r.activeKey)) db = .ok () { db with
      addressToAccountDb :=
        r.activeKey?.elim db.addressToAccountDb fun k => f (Fc.address k) db.addressToAccountDb } := by
  unfold AccountRecord.activeKey?
  by_cases hr : r.isRetracted
  · rw [onlyIf_neg (not_not.mpr hr), if_pos hr]
    rfl
  · rw [onlyIf_pos hr, if_neg hr]
    rfl

theorem eachVote_run {stats : DelegateStats} (hd : r.delegateInfo = some stats)
    (f : Int × Int → DbAction Unit) (db : ChainDatabase) :
    onlyIf (¬ r.isRetracted) (do
      let votes ← lift (netVotes r)
      f (votes, r.id)) db = (voteOf r).elim (.ok () db) fun v => f v db := by
  have hvotes : netVotes r = .ok stats.votesFor := by
    simp [netVotes, AccountRecord.delegate, hd]
  unfold voteOf
  rw [hvotes, hd]
  by_cases hr : r.isRetracted
  · rw [onlyIf_neg (not_not.mpr hr), if_pos hr]
    rfl
  · rw [onlyIf_pos hr, if_neg hr]
    rfl

theorem onSigning_run (hkey : r.signingKey? = .ok new) (db : ChainDatabase) :
    onlyIf r.isDelegate (do
      let key ← lift r.signingKey
      onAddress f (Fc.address key)
      onlyIf (¬ r.isRetracted) do
        let votes ← lift (netVotes r)
        onVote g (votes, r.id)) db = .ok () { db with
          addressToAccountDb :=
            new.elim db.addressToAccountDb fun k => f (Fc.address k) db.addressToAccountDb
          delegateVoteIndexDb :=
            (voteOf r).elim db.delegateVoteIndexDb fun v => g v db.delegateVoteIndexDb } := by
  obtain ⟨stats, hd, k, rfl, hk⟩ | ⟨hd, rfl⟩ := signingKey?_cases hkey
  · have hdelegate : r.isDelegate := Option.isSome_of_eq_some hd
    rw [onlyIf_pos hdelegate, hk]
    refine bind_run_ok.mpr ⟨k, db, rfl, bind_run_ok.mpr ⟨(), _, rfl, ?_⟩⟩
    rw [eachVote_run hd (onVote g)]
    cases voteOf r with
    | none => rfl
    | some v => rfl
  · have hdelegate : ¬ r.isDelegate := by
      rw [AccountRecord.isDelegate, hd]
      exact nofun
    rw [onlyIf_neg hdelegate]
    unfold voteOf
    rw [hd, Option.map_none, ite_self]
    rfl

end IndexRecord

theorem storeRecord_run (hkey : r.signingKey? = .ok new) (db : ChainDatabase) :
    storeRecord r db = .ok () { db with
      accountDb := db.accountDb.store r
      accountIndexDb := db.accountIndexDb.insert r.name r.id
      addressToAccountDb := storedKeys r new db.addressToAccountDb
      delegateVoteIndexDb := addedVote r db.delegateVoteIndexDb } := by
  refine bind_run_ok.mpr ⟨(), _, rfl, bind_run_ok.mpr ⟨(), _, rfl, ?_⟩⟩
  refine bind_run_ok.mpr ⟨(), _, onActive_run (fun a m => m.insert a r.id) r _, ?_⟩
  exact onSigning_run (fun a m => m.insert a r.id) (fun v l => l.insert v) hkey _

theorem removeRecord_run (hkey : r.signingKey? = .ok old) (db : ChainDatabase) :
    removeRecord r db = .ok () { db with
      accountDb := db.accountDb.erase r.id
      accountIndexDb := db.accountIndexDb.erase r.name
      addressToAccountDb := removedKeys r old db.addressToAccountDb
      delegateVoteIndexDb := removedVote r db.delegateVoteIndexDb } := by
  refine bind_run_ok.mpr ⟨(), _, rfl, bind_run_ok.mpr ⟨(), _, rfl, ?_⟩⟩
  refine bind_run_ok.mpr ⟨(), _, onActive_run (fun a m => m.erase a) r _, ?_⟩
  exact onSigning_run (fun a m => m.erase a) (fun v l => l.filter (· ≠ v)) hkey _

theorem updateRecord_run (hold : p.signingKey? = .ok old) (hnew : r.signingKey? = .ok new)
    (db : ChainDatabase) : updateRecord p r db = .ok () { db with
      accountDb := db.accountDb.store r
      accountIndexDb := movedName p r db.accountIndexDb
      addressToAccountDb := movedKeys p r old new db.addressToAccountDb
      delegateVoteIndexDb := movedVote p r db.delegateVoteIndexDb } := by
  have hname (t : ChainDatabase) : onlyIf (p.name ≠ r.name) (update fun db => { db with
      accountIndexDb := (db.accountIndexDb.erase p.name).insert r.name r.id } : DbAction Unit) t =
        .ok () { t with accountIndexDb := movedName p r t.accountIndexDb } := by
    unfold movedName
    by_cases h : p.name = r.name
    · rw [onlyIf_neg (not_not.mpr h), if_pos h]
      rfl
    · rw [onlyIf_pos h, if_neg h]
      rfl
  have howner (t : ChainDatabase) : onlyIf (p.ownerKey ≠ r.ownerKey) (do
      removeAddress (Fc.address p.ownerKey)
      storeAddress (Fc.address r.ownerKey) r.id) t = .ok () { t with
        addressToAccountDb := if p.ownerKey = r.ownerKey then t.addressToAccountDb
          else (t.addressToAccountDb.erase (Fc.address p.ownerKey)).insert
            (Fc.address r.ownerKey) r.id } := by
    by_cases h : p.ownerKey = r.ownerKey
    · rw [onlyIf_neg (not_not.mpr h), if_pos h]
      rfl
    · rw [onlyIf_pos h, if_neg h]
      rfl
  refine bind_run_ok.mpr ⟨(), _, rfl, bind_run_ok.mpr ⟨(), _, hname _, ?_⟩⟩
  refine bind_run_ok.mpr ⟨(), _, howner _, bind_run_ok.mpr ⟨(), _, indexKeys_run _ _ _ _, ?_⟩⟩
  exact bind_run_ok.mpr ⟨(), _, indexSigningKeys_run hold hnew _, indexVotes_run p r _⟩

/-- What a call of `store_account_record` does, one case for each way it can go. -/
inductive Stored (r : AccountRecord) (db : ChainDatabase) : ChainDatabase → Prop
  | nothing (null : r.isNull) (missing : db.accountDb.lookup r.id = none) : Stored r db db
  | removed {p : AccountRecord} {old : Option Nat} (null : r.isNull)
    (stored : db.accountDb.lookup r.id = some p) (hold : p.signingKey? = .ok old) :
    Stored r db { db with
      accountDb := db.accountDb.erase p.id
      accountIndexDb := db.accountIndexDb.erase p.name
      addressToAccountDb := removedKeys p old db.addressToAccountDb
      delegateVoteIndexDb := removedVote p db.delegateVoteIndexDb }
  | created {new : Option Nat} (notNull : ¬ r.isNull) (missing : db.accountDb.lookup r.id = none)
    (hnew : r.signingKey? = .ok new) :
    Stored r db { db with
      accountDb := db.accountDb.store r
      accountIndexDb := db.accountIndexDb.insert r.name r.id
      addressToAccountDb := storedKeys r new db.addressToAccountDb
      delegateVoteIndexDb := addedVote r db.delegateVoteIndexDb }
  | updated {p : AccountRecord} {old new : Option Nat} (notNull : ¬ r.isNull)
    (stored : db.accountDb.lookup r.id = some p) (hold : p.signingKey? = .ok old)
    (hnew : r.signingKey? = .ok new) :
    Stored r db { db with
      accountDb := db.accountDb.store r
      accountIndexDb := movedName p r db.accountIndexDb
      addressToAccountDb := movedKeys p r old new db.addressToAccountDb
      delegateVoteIndexDb := movedVote p r db.delegateVoteIndexDb }

theorem storeAccountRecord_run (hr : r.isNull ∨ HasSigningKey r)
    (hdb : ∀ p, db.accountDb.lookup r.id = some p → HasSigningKey p) :
    ∃ d, storeAccountRecord r db = .ok () d ∧ Stored r db d := by
  rw [storeAccountRecord_cases]
  by_cases hnull : r.isNull
  · cases hp : db.accountDb.lookup r.id with
    | none =>
      rw [if_pos hnull]
      exact ⟨db, rfl, .nothing hnull hp⟩
    | some p =>
      obtain ⟨old, hold⟩ := hdb p hp
      dsimp only
      rw [if_pos hnull]
      exact ⟨_, removeRecord_run hold db, .removed hnull hp hold⟩
  · obtain ⟨new, hnew⟩ := hr.resolve_left hnull
    cases hp : db.accountDb.lookup r.id with
    | none =>
      rw [if_neg hnull]
      exact ⟨_, storeRecord_run hnew db, .created hnull hp hnew⟩
    | some p =>
      obtain ⟨old, hold⟩ := hdb p hp
      dsimp only
      rw [if_neg hnull]
      exact ⟨_, updateRecord_run hold hnew db, .updated hnull hp hold hnew⟩

theorem Stored.lookup (h : Stored r db d) (j : Int) : d.accountDb.lookup j =
    if j = r.id then dropNull AccountRecord.isNull r else db.accountDb.lookup j := by
  unfold dropNull
  cases h with
  | nothing null missing =>
    split
    next hj => rw [hj, missing]
    next => rfl
  | removed null stored hold =>
    rw [Table.lookup_erase, Table.key_eq stored, if_pos null]
  | created notNull missing hnew => rw [Table.lookup_store, if_neg notNull]
  | updated notNull stored hold hnew => rw [Table.lookup_store, if_neg notNull]

end Model

end Bts.Blockchain.AccountIndexes
