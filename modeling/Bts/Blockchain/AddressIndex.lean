import Bts.Blockchain.VoteIndex

namespace Bts.Blockchain.AddressIndex

open Base Maps Runs Records Transactions Database AccountStore AccountIndexes VoteIndex

section Model

variable [Fc] {db d : ChainDatabase} {p r : AccountRecord} {old new : Option Nat} {id : Int} {a : Nat}
  {m : Map Nat Int}

def ownerAddress (r : AccountRecord) : Nat := Fc.address r.ownerKey
def activeAddress (r : AccountRecord) : Option Nat := r.activeKey?.map Fc.address
def signingAddress (r : AccountRecord) : Option Nat := r.signingKey?.toOption.join.map Fc.address

def HasAddress (r : AccountRecord) (a : Nat) : Prop :=
  a = ownerAddress r ∨ activeAddress r = some a ∨ signingAddress r = some a

theorem signingAddress_eq (h : r.signingKey? = .ok new) : signingAddress r = new.map Fc.address := by
  unfold signingAddress
  rw [h]
  rfl

theorem lookup_addedKey : (addedKey new id m).lookup a =
    if new.map Fc.address = some a then some id else m.lookup a := by
  cases new with
  | none => rfl
  | some k =>
    refine (lookup_insert m (Fc.address k) id a).trans ?_
    simp [eq_comm]

theorem lookup_removedKey : (removedKey old m).lookup a =
    if old.map Fc.address = some a then none else m.lookup a := by
  cases old with
  | none => rfl
  | some k =>
    refine (lookup_erase m (Fc.address k) a).trans ?_
    simp [eq_comm]

theorem lookup_movedKey : (movedKey old new id m).lookup a =
    if old.map Fc.address = new.map Fc.address then m.lookup a
    else if new.map Fc.address = some a then some id
    else if old.map Fc.address = some a then none else m.lookup a := by
  unfold movedKey
  split
  · rfl
  · rw [lookup_addedKey, lookup_removedKey]

theorem lookup_storedKeys (h : r.signingKey? = .ok new) (ha : HasAddress r a) :
    (storedKeys r new m).lookup a = some r.id := by
  unfold storedKeys
  rw [lookup_addedKey, lookup_addedKey, lookup_insert, ← signingAddress_eq h]
  rcases ha with rfl | hactive | hsigning
  · simp [ownerAddress]
  · simp [show r.activeKey?.map Fc.address = some a from hactive]
  · simp [hsigning]

theorem lookup_storedKeys_other (h : r.signingKey? = .ok new) (ha : ¬ HasAddress r a) :
    (storedKeys r new m).lookup a = m.lookup a := by
  unfold HasAddress ownerAddress activeAddress at ha
  rw [not_or, not_or] at ha
  unfold storedKeys
  rw [lookup_addedKey, lookup_addedKey, lookup_insert, ← signingAddress_eq h, if_neg ha.2.2,
    if_neg ha.2.1, if_neg ha.1]

theorem lookup_removedKeys_other (h : p.signingKey? = .ok old) (ha : ¬ HasAddress p a) :
    (removedKeys p old m).lookup a = m.lookup a := by
  unfold HasAddress ownerAddress activeAddress at ha
  rw [not_or, not_or] at ha
  unfold removedKeys
  rw [lookup_removedKey, lookup_removedKey, lookup_erase, ← signingAddress_eq h, if_neg ha.2.2,
    if_neg ha.2.1, if_neg ha.1]

theorem movedKey_keeps (h : m.lookup a = some id)
    (hkeep : old.map Fc.address = some a → old.map Fc.address = new.map Fc.address) :
    (movedKey old new id m).lookup a = some id := by
  rw [lookup_movedKey]
  split
  · exact h
  next hne =>
    split
    · rfl
    · rw [if_neg fun hold => hne (hkeep hold)]
      exact h

theorem movedKey_sets (h : new.map Fc.address = some a)
    (hkept : old.map Fc.address = some a → m.lookup a = some id) :
    (movedKey old new id m).lookup a = some id := by
  rw [lookup_movedKey]
  split
  next hsame => exact hkept (hsame.trans h)
  next => rfl

theorem movedKey_other (hold : old.map Fc.address ≠ some a) (hnew : new.map Fc.address ≠ some a) :
    (movedKey old new id m).lookup a = m.lookup a := by
  rw [lookup_movedKey, if_neg hnew, if_neg hold, ite_self]

/-- No address of the new record is taken out by the update after it has last been put in:
the old key of one role is not the key of a role that was handled before it, and not the
key of a role that is handled after it but does not change. -/
structure Untangled (p r : AccountRecord) : Prop where
  owner : ownerAddress p ≠ ownerAddress r →
    (activeAddress r = some (ownerAddress p) → activeAddress p ≠ activeAddress r) ∧
      (signingAddress r = some (ownerAddress p) → signingAddress p ≠ signingAddress r)
  active : ∀ a, activeAddress p = some a → activeAddress p ≠ activeAddress r →
    a ≠ ownerAddress r ∧ (signingAddress r = some a → signingAddress p ≠ signingAddress r)
  signing : ∀ a, signingAddress p = some a → signingAddress p ≠ signingAddress r →
    a ≠ ownerAddress r ∧ activeAddress r ≠ some a

theorem movedKeys_own (hold : p.signingKey? = .ok old) (hnew : r.signingKey? = .ok new)
    (huntangled : Untangled p r) (hm : ∀ a, HasAddress p a → m.lookup a = some r.id)
    (ha : HasAddress r a) : (movedKeys p r old new m).lookup a = some r.id := by
  have hsigning : ∀ {a}, signingAddress p = some a → signingAddress p ≠ signingAddress r →
      a ≠ ownerAddress r ∧ activeAddress r ≠ some a := huntangled.signing _
  have hactive : ∀ {a}, activeAddress p = some a → activeAddress p ≠ activeAddress r →
      a ≠ ownerAddress r ∧ (signingAddress r = some a → signingAddress p ≠ signingAddress r) :=
    huntangled.active _
  unfold movedKeys
  generalize howner : (if p.ownerKey = r.ownerKey then m
    else (m.erase (Fc.address p.ownerKey)).insert (Fc.address r.ownerKey) r.id) = u
  -- what the first of the three steps has left
  have hu : ∀ {a}, (a = ownerAddress r ∨ (HasAddress p a ∧
      (a = ownerAddress p → ownerAddress p = ownerAddress r))) → u.lookup a = some r.id := by
    intro a ha
    rw [← howner]
    split
    next hkey =>
      have hsame : ownerAddress p = ownerAddress r := congrArg Fc.address hkey
      rcases ha with rfl | ⟨ha, -⟩
      · exact hm _ (Or.inl hsame.symm)
      · exact hm a ha
    next =>
      rw [lookup_insert, lookup_erase]
      rcases ha with rfl | ⟨ha, hkeep⟩
      · exact if_pos rfl
      · by_cases hr : a = Fc.address r.ownerKey
        · exact if_pos hr
        · rw [if_neg hr, if_neg fun hp => hr (hp.trans (hkeep hp))]
          exact hm a ha
  rw [signingAddress_eq hold, signingAddress_eq hnew] at hsigning hactive
  have howner' := huntangled.owner
  rw [signingAddress_eq hold, signingAddress_eq hnew] at howner'
  rcases ha with rfl | hr | hr
  · refine movedKey_keeps (movedKey_keeps (hu (Or.inl rfl)) fun hp => ?_) fun hp => ?_
    · by_contra hne
      exact (hactive hp hne).1 rfl
    · by_contra hne
      exact (hsigning hp hne).1 rfl
  · refine movedKey_keeps (movedKey_sets hr fun hp => hu (Or.inr ⟨Or.inr (Or.inl hp), ?_⟩)) fun hp => ?_
    · rintro rfl
      by_contra hne
      exact (howner' hne).1 hr (hp.trans hr.symm)
    · by_contra hne
      exact (hsigning hp hne).2 hr
  · rw [signingAddress_eq hnew] at hr
    refine movedKey_sets hr fun hp => movedKey_keeps (hu (Or.inr ⟨Or.inr (Or.inr ?_), ?_⟩)) fun hp' => ?_
    · rw [signingAddress_eq hold]
      exact hp
    · rintro rfl
      by_contra hne
      exact (howner' hne).2 hr (hp.trans hr.symm)
    · by_contra hne
      exact (hactive hp' hne).2 hr (hp.trans hr.symm)

theorem movedKeys_other (hold : p.signingKey? = .ok old) (hnew : r.signingKey? = .ok new)
    (hp : ¬ HasAddress p a) (hr : ¬ HasAddress r a) :
    (movedKeys p r old new m).lookup a = m.lookup a := by
  unfold HasAddress ownerAddress at hp hr
  rw [not_or, not_or] at hp hr
  rw [signingAddress_eq hold] at hp
  rw [signingAddress_eq hnew] at hr
  unfold movedKeys
  rw [movedKey_other hp.2.2 hr.2.2]
  refine (movedKey_other hp.2.1 hr.2.1).trans ?_
  split
  · rfl
  · rw [lookup_insert, lookup_erase, if_neg hr.1, if_neg hp.1]

/-- Every address of an account leads to it, and to no other account. -/
structure Resolved (db : ChainDatabase) : Prop where
  keys : ∀ id r, db.accountDb.lookup id = some r → HasSigningKey r
  apart : ∀ i j p q a, db.accountDb.lookup i = some p → db.accountDb.lookup j = some q →
    HasAddress p a → HasAddress q a → i = j
  resolved : ∀ id r a, db.accountDb.lookup id = some r → HasAddress r a →
    db.addressToAccountDb.lookup a = some id

/-- The new record shares no address with another account. -/
def Apart (r : AccountRecord) (db : ChainDatabase) : Prop :=
  ∀ j q a, db.accountDb.lookup j = some q → HasAddress r a → HasAddress q a → j = r.id

/-- A delegate has its signing key, and an update is not tangled. -/
def Tracked (r : AccountRecord) (db : ChainDatabase) : Prop :=
  (r.isNull ∨ HasSigningKey r) ∧
    ∀ p, db.accountDb.lookup r.id = some p → ¬ r.isNull → Untangled p r

theorem stored_addresses (h : Resolved db) (hstored : Stored r db d) (htracked : Tracked r db)
    (hapart : Apart r db) :
    (¬ r.isNull → HasAddress r a → d.addressToAccountDb.lookup a = some r.id) ∧
      ∀ j q, j ≠ r.id → db.accountDb.lookup j = some q → HasAddress q a →
        d.addressToAccountDb.lookup a = some j := by
  cases hstored with
  | nothing null missing => exact ⟨fun hr => absurd null hr, fun j q _ hq ha => h.resolved j q a hq ha⟩
  | removed null stored hold =>
    refine ⟨fun hr => absurd null hr, fun j q hj hq ha => ?_⟩
    rw [lookup_removedKeys_other hold fun hp => hj (h.apart j r.id _ _ a hq stored ha hp)]
    exact h.resolved j q a hq ha
  | created notNull missing hnew =>
    refine ⟨fun _ ha => lookup_storedKeys hnew ha, fun j q hj hq ha => ?_⟩
    rw [lookup_storedKeys_other hnew fun hr => hj (hapart j q a hq hr ha)]
    exact h.resolved j q a hq ha
  | updated notNull stored hold hnew =>
    refine ⟨fun _ ha => ?_, fun j q hj hq ha => ?_⟩
    · exact movedKeys_own hold hnew (htracked.2 _ stored notNull)
        (fun b hb => h.resolved r.id _ b stored hb) ha
    · rw [movedKeys_other hold hnew (fun hp => hj (h.apart j r.id _ _ a hq stored ha hp))
        fun hr => hj (hapart j q a hq hr ha)]
      exact h.resolved j q a hq ha

theorem Resolved.store (h : Resolved db) (htracked : Tracked r db) (hapart : Apart r db) :
    Resolved (store r db) := by
  obtain ⟨d, hrun, hstored⟩ := storeAccountRecord_run htracked.1 fun p => h.keys r.id p
  unfold VoteIndex.store
  rw [hrun]
  have hcases : ∀ id q, d.accountDb.lookup id = some q →
      (id = r.id ∧ q = r ∧ ¬ r.isNull) ∨ (id ≠ r.id ∧ db.accountDb.lookup id = some q) := by
    intro id q hq
    rw [hstored.lookup] at hq
    unfold dropNull at hq
    split at hq
    next hid =>
      split at hq
      · cases hq
      next hnull =>
        cases hq
        exact Or.inl ⟨hid, rfl, hnull⟩
    next hid => exact Or.inr ⟨hid, hq⟩
  refine ⟨fun id q hq => ?_, fun i j q q' a hi hj ha ha' => ?_, fun id q a hq ha => ?_⟩
  · rcases hcases id q hq with ⟨-, rfl, hnull⟩ | ⟨-, hq⟩
    · exact htracked.1.resolve_left hnull
    · exact h.keys id q hq
  · rcases hcases i q hi with ⟨rfl, rfl, -⟩ | ⟨hir, hi⟩
    · rcases hcases j q' hj with ⟨rfl, -, -⟩ | ⟨-, hj⟩
      · rfl
      · exact (hapart j q' a hj ha ha').symm
    · rcases hcases j q' hj with ⟨rfl, rfl, -⟩ | ⟨-, hj⟩
      · exact hapart i q a hi ha' ha
      · exact h.apart i j q q' a hi hj ha ha'
  · rcases hcases id q hq with ⟨rfl, rfl, hnull⟩ | ⟨hid, hq⟩
    · exact (stored_addresses h hstored htracked hapart).1 hnull ha
    · exact (stored_addresses h hstored htracked hapart).2 id q hid hq ha

/-- While no update is tangled, the owner key, the active key and the signing key of every
account that is not retracted lead to it. -/
theorem addressIndex_resolves {calls : List AccountRecord} (hstart : Resolved db)
    (hcalls : Meets store (fun r t => Apart r t ∧ Tracked r t) calls db) :
    let d := run store calls db
    ∀ id r, d.accountDb.lookup id = some r → ¬ r.isRetracted →
      d.addressToAccountDb.lookup (Fc.address r.ownerKey) = some id ∧
        d.addressToAccountDb.lookup (Fc.address r.activeKey) = some id ∧
        (r.isDelegate → ∃ key, r.signingKey = .ok key ∧
          d.addressToAccountDb.lookup (Fc.address key) = some id) := by
  intro d id r hr hretracted
  have hd : Resolved d :=
    hcalls.keeps (fun r t htracked ht => ht.store htracked.2 htracked.1) hstart
  refine ⟨hd.resolved id r _ hr (Or.inl rfl), hd.resolved id r _ hr (Or.inr (Or.inl ?_)),
    fun hdelegate => ?_⟩
  · unfold activeAddress AccountRecord.activeKey?
    rw [if_neg hretracted]
    rfl
  · obtain ⟨key, hkey⟩ := hasSigningKey_iff.mp (hd.keys id r hr) hdelegate
    refine ⟨key, hkey, hd.resolved id r _ hr (Or.inr (Or.inr ?_))⟩
    have hsigning : r.signingKey? = .ok (some key) := by
      unfold AccountRecord.signingKey?
      rw [if_pos hdelegate, hkey]
      rfl
    exact signingAddress_eq hsigning

end Model

def keyedAccount (activeKey signingKey : Nat) : AccountRecord where
  id := 1
  name := "delegate"
  ownerKey := 5
  activeKeyHistory := (∅ : Map Nat Nat).insert 1 activeKey
  delegateInfo := some { signingKeyHistory := (∅ : Map Nat Nat).insert 1 signingKey }

theorem emptyDb_resolved :
    letI := Fc.plain
    Resolved {} := by
  let := Fc.plain
  have hnone (id : Int) : ({} : ChainDatabase).accountDb.lookup id = none := Table.lookup_empty id
  refine ⟨fun id r hr => ?_, fun i _ p _ _ hi => ?_, fun id r _ hr => ?_⟩
  · cases (hnone id).symm.trans hr
  · cases (hnone i).symm.trans hi
  · cases (hnone id).symm.trans hr

theorem addressIndex_resolves_keyedAccount :
    letI := Fc.plain
    let d := run store [keyedAccount 6 7, keyedAccount 8 7] {}
    ∀ id r, d.accountDb.lookup id = some r → ¬ r.isRetracted →
      d.addressToAccountDb.lookup (Fc.address r.ownerKey) = some id := by
  let := Fc.plain
  have hcalls : Meets store (fun r t => Apart r t ∧ Tracked r t)
      [keyedAccount 6 7, keyedAccount 8 7] {} := by
    refine ⟨⟨fun j q a hq => ?_, Or.inr ⟨some 7, rfl⟩, fun p hp => ?_⟩,
      ⟨fun j q a hq _ _ => ?_, Or.inr ⟨some 7, rfl⟩, fun p hp _ => ?_⟩, trivial⟩
    · cases (Table.lookup_empty j).symm.trans hq
    · cases (Table.lookup_empty _).symm.trans hp
    · have hstored : (Table.empty.store (keyedAccount 6 7)).lookup j = some q := hq
      rw [Table.lookup_store, Table.lookup_empty] at hstored
      split at hstored
      next hj => exact hj
      next => cases hstored
    · have hstored : some (keyedAccount 6 7) = some p := hp
      cases hstored
      refine ⟨fun hne => absurd rfl hne, fun a ha _ => ?_, fun a _ hne => absurd rfl hne⟩
      cases ha
      decide
  exact fun id r hr hretracted =>
    (addressIndex_resolves emptyDb_resolved hcalls id r hr hretracted).1

/-- A delegate whose signing key is its active key gets another active key: the address of
its signing key does not lead to it any more. -/
theorem signing_address_lost :
    letI := Fc.plain
    let d := run store [keyedAccount 7 7, keyedAccount 8 7] {}
    (∃ r ∈ d.accountDb.lookup 1, ¬ r.isRetracted ∧ r.signingKey.toOption = some 7) ∧
      d.addressToAccountDb.lookup (Fc.address 7) = none := by
  decide +kernel

end Bts.Blockchain.AddressIndex
