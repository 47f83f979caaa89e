import Bts.Blockchain.Stores

namespace Bts.Blockchain.AccountStore

open Base Result Exec Maps Records Transactions Database Stores

def HasSigningKey (r : AccountRecord) : Prop := ∃ key, r.signingKey? = .ok key

theorem hasSigningKey_iff {r : AccountRecord} :
    HasSigningKey r ↔ (r.isDelegate → ∃ key, r.signingKey = .ok key) := by
  unfold HasSigningKey AccountRecord.signingKey?
  by_cases hd : r.isDelegate
  · simp only [hd, ↓reduceIte, map_eq_ok, forall_const]
    constructor
    · rintro ⟨_, key, hkey, -⟩
      exact ⟨key, hkey⟩
    · rintro ⟨key, hkey⟩
      exact ⟨_, key, hkey, rfl⟩
  · simp [hd]

theorem netVotes_of_delegate {r : AccountRecord} (h : r.isDelegate) :
    ∃ votes, netVotes r = .ok votes := by
  obtain ⟨d, hd⟩ := Option.isSome_iff_exists.mp h
  exact ⟨d.votesFor, by simp [netVotes, AccountRecord.delegate, hd]⟩

variable [Fc]

/-- The databases that agree with `db` except for the three indexes of the accounts. -/
def IndexesOnly (db db' : ChainDatabase) : Prop :=
  ∃ i a v, db' = { db with
    accountIndexDb := i, addressToAccountDb := a, delegateVoteIndexDb := v }

variable {db : ChainDatabase}

theorem indexesOnly_refl : IndexesOnly db db := ⟨_, _, _, rfl⟩

theorem storeAddress_keeps (a : Nat) (id : Int) : Keeps (IndexesOnly db) (storeAddress a id) := by
  apply Keeps.update
  rintro _ ⟨i, _, v, rfl⟩
  exact ⟨i, _, v, rfl⟩

theorem removeAddress_keeps (a : Nat) : Keeps (IndexesOnly db) (removeAddress a) := by
  apply Keeps.update
  rintro _ ⟨i, _, v, rfl⟩
  exact ⟨i, _, v, rfl⟩

theorem storeVote_keeps (w : Int × Int) : Keeps (IndexesOnly db) (storeVote w) := by
  apply Keeps.update
  rintro _ ⟨i, a, _, rfl⟩
  exact ⟨i, a, _, rfl⟩

theorem removeVote_keeps (w : Int × Int) : Keeps (IndexesOnly db) (removeVote w) := by
  apply Keeps.update
  rintro _ ⟨i, a, _, rfl⟩
  exact ⟨i, a, _, rfl⟩

theorem indexKeys_keeps (p n : Option Nat) (id : Int) :
    Keeps (IndexesOnly db) (indexKeys p n id) := by
  cases p with
  | none =>
    cases n with
    | none => exact Keeps.pure ()
    | some n => exact storeAddress_keeps _ id
  | some p =>
    cases n with
    | none => exact removeAddress_keeps _
    | some n =>
      apply Keeps.onlyIf
      exact Keeps.bind (removeAddress_keeps _) fun _ => storeAddress_keeps _ id

theorem indexSigningKeys_keeps (prev new : AccountRecord) :
    Keeps (IndexesOnly db) (indexSigningKeys prev new) := by
  refine Keeps.bindLift fun p => ?_
  refine Keeps.bindLift fun n => ?_
  exact indexKeys_keeps p n new.id

theorem indexVotes_keeps (prev new : AccountRecord) :
    Keeps (IndexesOnly db) (indexVotes prev new) := by
  unfold indexVotes
  cases prev.delegateInfo with
  | none =>
    cases new.delegateInfo with
    | none => exact Keeps.pure ()
    | some n => exact Keeps.onlyIf (storeVote_keeps _)
  | some p =>
    cases new.delegateInfo with
    | none => exact Keeps.onlyIf (removeVote_keeps _)
    | some n =>
      apply Keeps.onlyIf
      apply Keeps.bind (Keeps.onlyIf (removeVote_keeps _))
      exact fun _ => Keeps.onlyIf (storeVote_keeps _)

/-- What `store_account_record` does to the indexes of keys and of votes where there is no other
record to compare with. -/
def indexRecord (address : Nat → DbAction Unit) (vote : Int × Int → DbAction Unit)
    (r : AccountRecord) : DbAction Unit := do
  address (Fc.address r.ownerKey)
  onlyIf (¬ r.isRetracted) (address (Fc.address r.activeKey))
  onlyIf r.isDelegate do
    let key ← lift r.signingKey
    address (Fc.address key)
    onlyIf (¬ r.isRetracted) do
      let votes ← lift (netVotes r)
      vote (votes, r.id)

section IndexRecord

variable {address : Nat → DbAction Unit} {vote : Int × Int → DbAction Unit}

theorem indexRecord_keeps (haddress : ∀ a, Keeps (IndexesOnly db) (address a))
    (hvote : ∀ w, Keeps (IndexesOnly db) (vote w)) (r : AccountRecord) :
    Keeps (IndexesOnly db) (indexRecord address vote r) := by
  refine Keeps.bind (haddress _) fun _ => Keeps.bind (Keeps.onlyIf (haddress _)) fun _ => ?_
  refine Keeps.onlyIf (Keeps.bindLift fun key => Keeps.bind (haddress _) fun _ => ?_)
  exact Keeps.onlyIf (Keeps.bindLift fun votes => hvote _)

theorem indexRecord_returns_iff (haddress : ∀ a, Total (address a)) (hvote : ∀ w, Total (vote w))
    (r : AccountRecord) (db : ChainDatabase) :
    (∃ db', indexRecord address vote r db = .ok () db') ↔ HasSigningKey r := by
  rw [hasSigningKey_iff]
  constructor
  · rintro ⟨db', h⟩ hd
    simp only [indexRecord, bind_run_ok, onlyIf, hd, ↓reduceIte, lift_run_ok] at h
    obtain ⟨_, _, _, _, _, _, key, _, ⟨hkey, -⟩, -⟩ := h
    exact ⟨key, hkey⟩
  · intro hkey
    have htotal : Total (indexRecord address vote r) := by
      refine Total.bind (haddress _) fun _ => ?_
      refine Total.bind (Total.onlyIf fun _ => haddress _) fun _ => ?_
      refine Total.onlyIf fun hd => ?_
      obtain ⟨key, hkey⟩ := hkey hd
      obtain ⟨votes, hvotes⟩ := netVotes_of_delegate hd
      rw [hkey, hvotes]
      refine Total.bind (Total.lift key) fun _ => Total.bind (haddress _) fun _ => ?_
      exact Total.onlyIf fun _ => Total.bind (Total.lift votes) fun _ => hvote _
    obtain ⟨_, db', h⟩ := htotal db
    exact ⟨db', h⟩

end IndexRecord

theorem removeRecord_indexesOnly (r : AccountRecord) (db : ChainDatabase) :
    IndexesOnly { db with accountDb := db.accountDb.erase r.id } (endState (removeRecord r db)) :=
  indexRecord_keeps removeAddress_keeps removeVote_keeps r _ ⟨_, _, _, rfl⟩

theorem storeRecord_indexesOnly (r : AccountRecord) (db : ChainDatabase) :
    IndexesOnly { db with accountDb := db.accountDb.store r } (endState (storeRecord r db)) :=
  indexRecord_keeps (storeAddress_keeps · r.id) storeVote_keeps r _ ⟨_, _, _, rfl⟩

theorem updateRecord_indexesOnly (prev r : AccountRecord) (db : ChainDatabase) :
    IndexesOnly { db with accountDb := db.accountDb.store r }
      (endState (updateRecord prev r db)) := by
  have hrest : Keeps (IndexesOnly { db with accountDb := db.accountDb.store r }) (do
      onlyIf (prev.name ≠ r.name) (update fun db => { db with
        accountIndexDb := (db.accountIndexDb.erase prev.name).insert r.name r.id })
      onlyIf (prev.ownerKey ≠ r.ownerKey) do
        removeAddress (Fc.address prev.ownerKey)
        storeAddress (Fc.address r.ownerKey) r.id
      indexActiveKeys prev r
      indexSigningKeys prev r
      indexVotes prev r) := by
    refine Keeps.bind (Keeps.onlyIf (Keeps.update ?_)) fun _ => ?_
    · rintro _ ⟨_, a, v, rfl⟩
      exact ⟨_, a, v, rfl⟩
    apply Keeps.bind (Keeps.onlyIf
      (Keeps.bind (removeAddress_keeps _) fun _ => storeAddress_keeps _ _))
    intro _
    apply Keeps.bind (indexKeys_keeps _ _ _)
    intro _
    apply Keeps.bind (indexSigningKeys_keeps prev r)
    exact fun _ => indexVotes_keeps prev r
  exact hrest _ indexesOnly_refl

/-- What `store_account_record` does, also when it throws: the account is replaced
or, for a null record, removed, and apart from that only indexes change. -/
theorem storeAccountRecord_cases (r : AccountRecord) (db : ChainDatabase) :
    storeAccountRecord r db = (match db.accountDb.lookup r.id with
      | none => if r.isNull then pure () else storeRecord r
      | some p => if r.isNull then removeRecord p else updateRecord p r : DbAction Unit) db :=
  rfl

theorem storeAccountRecord_spec (r : AccountRecord) (db : ChainDatabase) :
    ∃ a, IndexesOnly { db with accountDb := a } (endState (storeAccountRecord r db)) ∧
      ∀ j, a.lookup j = if j = r.id then dropNull AccountRecord.isNull r
        else db.accountDb.lookup j := by
  rw [storeAccountRecord_cases]
  by_cases hr : r.isNull
  · cases hp : db.accountDb.lookup r.id with
    | none =>
      refine ⟨db.accountDb, ?_, ?_⟩
      · rw [if_pos hr]
        exact indexesOnly_refl
      · intro j
        by_cases hj : j = r.id <;> simp [hj, hp, hr, dropNull]
    | some p =>
      have hid : p.id = r.id := Table.key_eq hp
      refine ⟨db.accountDb.erase p.id, ?_, ?_⟩
      · simp only [hr, ↓reduceIte]
        exact removeRecord_indexesOnly p db
      · intro j
        rw [Table.lookup_erase, hid]
        simp [hr, dropNull]
  · refine ⟨db.accountDb.store r, ?_, ?_⟩
    · cases db.accountDb.lookup r.id with
      | none =>
        simp only [hr, ↓reduceIte]
        exact storeRecord_indexesOnly r db
      | some p =>
        simp only [hr, ↓reduceIte]
        exact updateRecord_indexesOnly p r db
    · intro j
      rw [Table.lookup_store]
      simp [hr, dropNull]

theorem storeAddress_total (a : Nat) (id : Int) : Total (storeAddress a id) := Total.update _

theorem removeAddress_total (a : Nat) : Total (removeAddress a) := Total.update _

theorem storeVote_total (w : Int × Int) : Total (storeVote w) := Total.update _

theorem removeVote_total (w : Int × Int) : Total (removeVote w) := Total.update _

theorem indexKeys_total (p n : Option Nat) (id : Int) : Total (indexKeys p n id) := by
  cases p with
  | none =>
    cases n with
    | none => exact Total.pure ()
    | some n => exact storeAddress_total _ id
  | some p =>
    cases n with
    | none => exact removeAddress_total _
    | some n =>
      refine Total.onlyIf fun _ => ?_
      exact Total.bind (removeAddress_total _) fun _ => storeAddress_total _ id

theorem indexVotes_total (prev new : AccountRecord) : Total (indexVotes prev new) := by
  unfold indexVotes
  cases prev.delegateInfo with
  | none =>
    cases new.delegateInfo with
    | none => exact Total.pure ()
    | some n => exact Total.onlyIf fun _ => Total.update _
  | some p =>
    cases new.delegateInfo with
    | none => exact Total.onlyIf fun _ => Total.update _
    | some n =>
      refine Total.onlyIf fun _ => ?_
      refine Total.bind (Total.onlyIf fun _ => Total.update _) fun _ => ?_
      exact Total.onlyIf fun _ => Total.update _

theorem removeRecord_returns_iff (r : AccountRecord) (db : ChainDatabase) :
    (∃ db', removeRecord r db = .ok () db') ↔ HasSigningKey r :=
  indexRecord_returns_iff removeAddress_total removeVote_total r _

theorem storeRecord_returns_iff (r : AccountRecord) (db : ChainDatabase) :
    (∃ db', storeRecord r db = .ok () db') ↔ HasSigningKey r :=
  indexRecord_returns_iff (storeAddress_total · r.id) storeVote_total r _

theorem updateRecord_returns_iff (prev r : AccountRecord) (db : ChainDatabase) :
    (∃ db', updateRecord prev r db = .ok () db') ↔ HasSigningKey prev ∧ HasSigningKey r := by
  constructor
  · rintro ⟨db', h⟩
    simp only [updateRecord, indexSigningKeys, bind_run_ok, lift_run_ok] at h
    obtain ⟨_, _, _, _, _, _, _, _, _, _, _, _, _, _, ⟨p, _, ⟨hp, -⟩, n, _, ⟨hn, -⟩, -⟩, -⟩ := h
    exact ⟨⟨p, hp⟩, ⟨n, hn⟩⟩
  · rintro ⟨⟨p, hp⟩, ⟨n, hn⟩⟩
    have hsigning : Total (indexSigningKeys prev r) := by
      unfold indexSigningKeys
      rw [hp, hn]
      refine Total.bind (Total.lift p) fun p => Total.bind (Total.lift n) fun n => ?_
      exact indexKeys_total p n r.id
    have htotal : Total (updateRecord prev r) := by
      refine Total.bind (Total.update _) fun _ => ?_
      refine Total.bind (Total.onlyIf fun _ => Total.update _) fun _ => ?_
      refine Total.bind (Total.onlyIf fun _ => ?_) fun _ => ?_
      · exact Total.bind (removeAddress_total _) fun _ => storeAddress_total _ _
      refine Total.bind (indexKeys_total _ _ _) fun _ => Total.bind hsigning fun _ => ?_
      exact indexVotes_total prev r
    obtain ⟨_, db', h⟩ := htotal db
    exact ⟨db', h⟩

/-- When `store_account_record` returns: when the records it takes apart, the new one
and the one it replaces, have their signing keys. -/
theorem storeAccountRecord_returns_iff (r : AccountRecord) (db : ChainDatabase) :
    (∃ db', storeAccountRecord r db = .ok () db') ↔
      (r.isNull ∨ HasSigningKey r) ∧ ∀ p, db.accountDb.lookup r.id = some p → HasSigningKey p := by
  rw [storeAccountRecord_cases]
  cases db.accountDb.lookup r.id with
  | none =>
    by_cases hr : r.isNull
    · simp [hr, pure_run]
    · simp [hr, storeRecord_returns_iff]
  | some p =>
    by_cases hr : r.isNull
    · simp [hr, removeRecord_returns_iff]
    · simp [hr, updateRecord_returns_iff, and_comm]

end Bts.Blockchain.AccountStore
