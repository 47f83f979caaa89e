import Bts.Base.Indexes
import Bts.Blockchain.AddressIndex
import Bts.Blockchain.ApplySpec

namespace Bts.Blockchain.LayerLookups

open Base Exec Maps Overlay Indexes Runs Records Transactions Pending Database Stores AccountStore
  AccountIndexes AddressIndex Layers Changes ApplySpec

def HasName (r : AccountRecord) (name : String) : Prop := r.name = name

def HasSymbol (r : AssetRecord) (symbol : String) : Prop := r.symbol = symbol

inductive StoreCall
  | asset (r : AssetRecord)
  | account (r : AccountRecord)

section Model

variable [Fc] {db d : ChainDatabase} {layer : PendingState} {p q r : AccountRecord}

/-- The layer after a call, which leaves it as it is where it throws. -/
def StoreCall.store : StoreCall → PendingState → PendingState
  | .asset r, layer => layer.storeAssetRecord r
  | .account r, layer => (layer.storeAccountRecord r).toOption.getD layer

/-- The indexes of the names, the addresses and the symbols agree with the records. -/
structure Consistent (db : ChainDatabase) : Prop where
  keys : ∀ id r, db.accountDb.lookup id = some r → HasSigningKey r
  names : Indexed HasName db.accountDb.lookup (db.accountIndexDb.lookup ·)
  addresses : Indexed HasAddress db.accountDb.lookup (db.addressToAccountDb.lookup ·)
  symbols : Indexed HasSymbol db.assetDb.lookup (db.symbolIndexDb.lookup ·)

/-- Each role of the account that had an address still has it. -/
structure KeepsRoles (p r : AccountRecord) : Prop where
  owner : ownerAddress p = ownerAddress r
  active : ∀ a, activeAddress p = some a → activeAddress r = some a
  signing : ∀ a, signingAddress p = some a → signingAddress r = some a

theorem KeepsRoles.trans (h : KeepsRoles p q) (h' : KeepsRoles q r) : KeepsRoles p r :=
  ⟨h.owner.trans h'.owner, fun a ha => h'.active a (h.active a ha),
    fun a ha => h'.signing a (h.signing a ha)⟩

theorem KeepsRoles.hasAddress {a : Nat} (h : KeepsRoles p r) (ha : HasAddress p a) :
    HasAddress r a := by
  rcases ha with rfl | ha | ha
  · exact Or.inl h.owner
  · exact Or.inr (Or.inl (h.active a ha))
  · exact Or.inr (Or.inr (h.signing a ha))

theorem KeepsRoles.untangled (h : KeepsRoles p r) : Untangled p r := by
  refine ⟨fun hne => absurd h.owner hne, fun a ha hne => ?_, fun a ha hne => ?_⟩
  · exact absurd (ha.trans (h.active a ha).symm) hne
  · exact absurd (ha.trans (h.signing a ha).symm) hne

def accountView (db : ChainDatabase) (layer : PendingState) : Int → Option AccountRecord :=
  stacked layer.accounts.lookup db.accountDb.lookup

/-- An asset is stored only as it is. An account is not removed, keeps its name and the
address of each role that has one, and takes no name or address of another account. -/
def Compatible (db : ChainDatabase) : StoreCall → PendingState → Prop
  | .asset r, _ => db.assetDb.lookup r.id = some r ∧ ¬ r.isNull
  | .account r, layer =>
    ¬ r.isNull ∧ HasSigningKey r ∧
      (∀ p, accountView db layer r.id = some p → p.name = r.name ∧ KeepsRoles p r) ∧
      ∀ j q, accountView db layer j = some q →
        (q.name = r.name → j = r.id) ∧ ∀ a, HasAddress r a → HasAddress q a → j = r.id

structure Blank (layer : PendingState) : Prop where
  assets : ∀ id, layer.assets.lookup id = none
  accounts : ∀ id, layer.accounts.lookup id = none
  names : ∀ n, layer.accountIdIndex.lookup n = none
  addresses : ∀ a, layer.keyToAccount.lookup a = none
  symbols : ∀ s, layer.symbolIdIndex.lookup s = none

/-- What compatible calls make of a blank layer. -/
structure Layered (db : ChainDatabase) (layer : PendingState) : Prop where
  assets : ∀ id r, layer.assets.lookup id = some r → db.assetDb.lookup id = some r ∧ ¬ r.isNull
  symbols : ∀ s, layer.symbolIdIndex.lookup s = none
  accounts : ∀ id r, layer.accounts.lookup id = some r → ¬ r.isNull ∧ HasSigningKey r
  names : Indexed HasName layer.accounts.lookup (layer.accountIdIndex.lookup ·)
  addresses : Indexed HasAddress layer.accounts.lookup (layer.keyToAccount.lookup ·)
  fitNames : Fitting HasName db.accountDb.lookup layer.accounts.lookup
  fitAddresses : Fitting HasAddress db.accountDb.lookup layer.accounts.lookup
  roles : ∀ id p r, db.accountDb.lookup id = some p → layer.accounts.lookup id = some r →
    KeepsRoles p r

theorem Blank.layered (h : Blank layer) (hdb : Consistent db) : Layered db layer where
  assets id r hr := by cases (h.assets id).symm.trans hr
  symbols := h.symbols
  accounts id r hr := by cases (h.accounts id).symm.trans hr
  names := Indexed.empty h.accounts h.names
  addresses := Indexed.empty h.accounts h.addresses
  fitNames := Fitting.empty hdb.names h.accounts
  fitAddresses := Fitting.empty hdb.addresses h.accounts
  roles id p r _ hr := by cases (h.accounts id).symm.trans hr

theorem storeAccountRecord_eq {new : Option Nat} (h : r.signingKey? = .ok new) :
    layer.storeAccountRecord r = .ok { layer with
      accounts := layer.accounts.store r
      accountIdIndex := layer.accountIdIndex.insert r.name r.id
      keyToAccount := storedKeys r new layer.keyToAccount } := by
  unfold PendingState.storeAccountRecord
  rw [h]
  rfl

theorem Layered.storeAsset {r : AssetRecord} (h : Layered db layer)
    (hr : db.assetDb.lookup r.id = some r) (hnull : ¬ r.isNull) :
    Layered db (layer.storeAssetRecord r) :=
  { h with
    assets := by
      intro id q hq
      have hq : (layer.assets.store r).lookup id = some q := hq
      rw [Table.lookup_store] at hq
      split at hq
      next hid =>
        cases hq
        rw [hid]
        exact ⟨hr, hnull⟩
      next => exact h.assets id q hq }

theorem Layered.storeAccount (h : Layered db layer) (hr : Compatible db (.account r) layer) :
    Layered db (StoreCall.store (.account r) layer) := by
  obtain ⟨hnull, ⟨new, hnew⟩, hown, hother⟩ := hr
  have hstore : StoreCall.store (.account r) layer = { layer with
      accounts := layer.accounts.store r
      accountIdIndex := layer.accountIdIndex.insert r.name r.id
      keyToAccount := storedKeys r new layer.keyToAccount } := by
    change (layer.storeAccountRecord r).toOption.getD layer = _
    rw [storeAccountRecord_eq hnew]
    rfl
  rw [hstore]
  have hlookup (id : Int) : (layer.accounts.store r).lookup id =
      if id = r.id then some r else layer.accounts.lookup id := Table.lookup_store ..
  have hname : Fits HasName (accountView db layer) r.id r :=
    ⟨fun p n hp hn => (hown p hp).1.symm.trans hn,
      fun j q n hq hn hn' => (hother j q hq).1 (hn'.trans hn.symm)⟩
  have haddress : Fits HasAddress (accountView db layer) r.id r :=
    ⟨fun p a hp => (hown p hp).2.hasAddress, fun j q a hq => (hother j q hq).2 a⟩
  refine { h with
    accounts := ?_
    names := h.names.store hname.of_stacked hlookup (fun n hn => ?_) fun n hn => ?_
    addresses := h.addresses.store haddress.of_stacked hlookup (fun a => lookup_storedKeys hnew)
      fun a => lookup_storedKeys_other hnew
    fitNames := h.fitNames.store hname hlookup
    fitAddresses := h.fitAddresses.store haddress hlookup
    roles := ?_ }
  · intro id q hq
    rw [hlookup] at hq
    split at hq
    · cases hq
      exact ⟨hnull, new, hnew⟩
    · exact h.accounts id q hq
  · rw [lookup_insert, if_pos hn.symm]
  · rw [lookup_insert, if_neg fun hn' => hn hn'.symm]
  · intro id p q hp hq
    rw [hlookup] at hq
    split at hq
    next hid =>
      cases hq
      rw [hid] at hp
      cases hl : layer.accounts.lookup r.id with
      | none => exact (hown p (stacked_eq_some.mpr (Or.inr ⟨hl, hp⟩))).2
      | some p' =>
        exact (h.roles r.id p p' hp hl).trans (hown p' (stacked_eq_some.mpr (Or.inl hl))).2
    next => exact h.roles id p q hp hq

theorem Layered.store {call : StoreCall} (h : Layered db layer) (hcall : Compatible db call layer) :
    Layered db (call.store layer) := by
  cases call with
  | asset r => exact h.storeAsset hcall.1 hcall.2
  | account r => exact h.storeAccount hcall

/-- The database while the accounts of the layer are written to it. -/
structure Between (db : ChainDatabase) (layer : PendingState) (d : ChainDatabase) : Prop where
  records : ∀ id r, d.accountDb.lookup id = some r →
    layer.accounts.lookup id = some r ∨ db.accountDb.lookup id = some r
  names : Indexed HasName d.accountDb.lookup (d.accountIndexDb.lookup ·)
  addresses : Indexed HasAddress d.accountDb.lookup (d.addressToAccountDb.lookup ·)

theorem Between.roles (hl : Layered db layer) (h : Between db layer d)
    (hr : layer.accounts.lookup r.id = some r) (hp : d.accountDb.lookup r.id = some p) :
    p.name = r.name ∧ KeepsRoles p r := by
  rcases h.records r.id p hp with hp | hp
  · cases hr.symm.trans hp
    exact ⟨rfl, rfl, fun _ => id, fun _ => id⟩
  · exact ⟨(hl.fitNames.kept r.id r p _ hr hp rfl).symm, hl.roles r.id p r hp hr⟩

theorem Between.store (hl : Layered db layer)
    (hkeys : ∀ id r, db.accountDb.lookup id = some r → HasSigningKey r)
    (hr : layer.accounts.lookup r.id = some r) (h : Between db layer d) :
    Between db layer (endState (storeAccountRecord r d)) := by
  obtain ⟨hnull, hkey⟩ := hl.accounts r.id r hr
  have hsigning : ∀ p, d.accountDb.lookup r.id = some p → HasSigningKey p := by
    intro p hp
    rcases h.records r.id p hp with hp | hp
    · exact (hl.accounts r.id p hp).2
    · exact hkeys r.id p hp
  obtain ⟨d', hrun, hstored⟩ := storeAccountRecord_run (Or.inr hkey) hsigning
  rw [hrun]
  change Between db layer d'
  have hlookup (j : Int) : d'.accountDb.lookup j =
      if j = r.id then some r else d.accountDb.lookup j := by
    rw [hstored.lookup]
    unfold dropNull
    rw [if_neg hnull]
  have hname := hl.fitNames.fits h.records hr
  have haddress := hl.fitAddresses.fits h.records hr
  refine ⟨fun id q hq => ?_, h.names.store hname hlookup ?_ ?_,
    h.addresses.store haddress hlookup ?_ ?_⟩
  · rw [hlookup] at hq
    split at hq
    next hid =>
      cases hq
      exact Or.inl (hid ▸ hr)
    next => exact h.records id q hq
  · rintro n rfl
    cases hstored with
    | nothing null => exact absurd null hnull
    | removed null => exact absurd null hnull
    | created => exact (lookup_insert ..).trans (if_pos rfl)
    | @updated p _ _ _ stored =>
      have hsame := (h.roles hl hr stored).1
      unfold movedName
      rw [if_pos hsame]
      exact (h.names r.name r.id).mpr ⟨p, stored, hsame⟩
  · intro n hn
    cases hstored with
    | nothing null => exact absurd null hnull
    | removed null => exact absurd null hnull
    | created => exact (lookup_insert ..).trans (if_neg fun hn' => hn hn'.symm)
    | updated notNull stored =>
      unfold movedName
      rw [if_pos (h.roles hl hr stored).1]
  · intro a ha
    cases hstored with
    | nothing null => exact absurd null hnull
    | removed null => exact absurd null hnull
    | created notNull missing hnew => exact lookup_storedKeys hnew ha
    | @updated p _ _ notNull stored hold hnew =>
      exact movedKeys_own hold hnew (h.roles hl hr stored).2.untangled
        (fun b hb => (h.addresses b r.id).mpr ⟨p, stored, hb⟩) ha
  · intro a ha
    cases hstored with
    | nothing null => exact absurd null hnull
    | removed null => exact absurd null hnull
    | created notNull missing hnew => exact lookup_storedKeys_other hnew ha
    | updated notNull stored hold hnew =>
      exact movedKeys_other hold hnew (fun hp => ha ((h.roles hl hr stored).2.hasAddress hp)) ha

def accountTables (d : ChainDatabase) : Table AccountRecord.id × Map String Int × Map Nat Int :=
  (d.accountDb, d.accountIndexDb, d.addressToAccountDb)

theorem Between.congr {d' : ChainDatabase} (h : Between db layer d)
    (hd : accountTables d' = accountTables d) : Between db layer d' := by
  simp only [accountTables, Prod.mk.injEq] at hd
  obtain ⟨hrecords, hnames, haddresses⟩ := hd
  refine ⟨?_, ?_, ?_⟩
  · rw [hrecords]
    exact h.records
  · rw [hrecords, hnames]
    exact h.names
  · rw [hrecords, haddresses]
    exact h.addresses

theorem applyChanges_between (hdb : Consistent db) (hl : Layered db layer)
    (h : applyChanges layer db = .ok () d) : Between db layer d := by
  obtain ⟨u, v, hu, hv, hd⟩ := applyChanges_only accountTables 2 rfl (fun _ => rfl) h
  have hstart : Between db layer db := ⟨fun _ _ => Or.inr, hdb.names, hdb.addresses⟩
  have hloop : Keeps (Between db layer) (forEach layer.accounts.rows.entries fun e =>
      storeAccountRecord e.2) := by
    refine Keeps.forEach fun e he d hd => ?_
    have hr : layer.accounts.lookup e.1 = some e.2 := lookup_of_mem he
    refine Between.store hl hdb.keys ?_ hd
    rw [Table.key_eq hr]
    exact hr
  exact (hloop.run_ok (hstart.congr hu) hv).congr hd

theorem applyChanges_accountView (hl : Layered db layer) (h : applyChanges layer db = .ok () d)
    (id : Int) : d.accountDb.lookup id = accountView db layer id := by
  rw [applyChanges_accounts h]
  unfold overlay accountView stacked Table.lookup
  cases hr : layer.accounts.rows.lookup id with
  | none => rfl
  | some r =>
    dsimp only [dropNull]
    rw [if_neg (hl.accounts id r hr).1]
    rfl

theorem applyChanges_symbols (hdb : Consistent db) (hl : Layered db layer)
    (h : applyChanges layer db = .ok () d) :
    d.assetDb.lookup = db.assetDb.lookup ∧ ∀ s, d.symbolIndexDb.lookup s = db.symbolIndexDb.lookup s := by
  let Same (t : ChainDatabase) : Prop := t.assetDb.lookup = db.assetDb.lookup ∧
    ∀ s, t.symbolIndexDb.lookup s = db.symbolIndexDb.lookup s
  let tables (t : ChainDatabase) := (t.assetDb, t.symbolIndexDb)
  have hcongr {t t' : ChainDatabase} (ht : tables t' = tables t) (hsame : Same t) : Same t' := by
    obtain ⟨hassets, hsymbols⟩ := Prod.mk.injEq .. ▸ ht
    refine ⟨?_, ?_⟩
    · rw [hassets]
      exact hsame.1
    · rw [hsymbols]
      exact hsame.2
  obtain ⟨u, v, hu, hv, hd⟩ := applyChanges_only tables 1 rfl (fun _ => rfl) h
  have hloop : Keeps Same (forEach layer.assets.rows.entries fun e =>
      update (·.storeAssetRecord e.2) : DbAction Unit) := by
    refine Keeps.forEach fun e he => Keeps.update fun t ht => ?_
    have hr : layer.assets.lookup e.1 = some e.2 := lookup_of_mem he
    obtain ⟨hstored, hnull⟩ := hl.assets e.1 e.2 hr
    have hid : e.2.id = e.1 := Table.key_eq hr
    refine ⟨funext fun id => ?_, fun s => ?_⟩
    · refine (lookup_putTable ..).trans ?_
      rw [ht.1, dropNull, if_neg hnull, hid]
      split
      next hid' => rw [hid', hstored]
      next => rfl
    · dsimp only [ChainDatabase.storeAssetRecord]
      unfold ChainDatabase.indexSymbol
      rw [if_neg hnull, lookup_insert, ht.2, hid]
      split
      next hs => exact ((hdb.symbols s e.1).mpr ⟨e.2, hstored, hs.symm⟩).symm
      next => rfl
  exact hcongr hd (hloop.run_ok (hcongr hu ⟨rfl, fun _ => rfl⟩) hv)

theorem getAccountRecordByName_eq (name : String) :
    (ChainInterface.pending layer (.database db)).getAccountRecordByName name =
      (layer.accountIdIndex.lookup name).elim
        ((db.accountIndexDb.lookup name).bind db.accountDb.lookup) (accountView db layer) := by
  unfold ChainInterface.getAccountRecordByName
  cases layer.accountIdIndex.lookup name with
  | none => rfl
  | some id => rfl

theorem getAccountRecordByAddress_eq (owner : Nat) :
    (ChainInterface.pending layer (.database db)).getAccountRecordByAddress owner =
      (layer.keyToAccount.lookup owner).elim
        ((db.addressToAccountDb.lookup owner).bind db.accountDb.lookup) (accountView db layer) := by
  unfold ChainInterface.getAccountRecordByAddress
  cases layer.keyToAccount.lookup owner with
  | none => rfl
  | some id => rfl

/-- A layer that compatible calls have filled finds accounts by their names and addresses,
and assets by their symbols, as the database does once the changes have been applied. -/
theorem lookups_agree {start : PendingState} {calls : List StoreCall} (hdb : Consistent db)
    (hstart : Blank start) (hcalls : Meets StoreCall.store (Compatible db) calls start)
    (happly : applyChanges (run StoreCall.store calls start) db = .ok () d) :
    let view := ChainInterface.pending (run StoreCall.store calls start) (.database db)
    (∀ name, view.getAccountRecordByName name = d.getAccountRecordByName name) ∧
      (∀ owner, view.getAccountRecordByAddress owner = d.getAccountRecordByAddress owner) ∧
      ∀ symbol, view.getAssetRecordBySymbol symbol = d.getAssetRecordBySymbol symbol := by
  intro view
  have hl : Layered db (run StoreCall.store calls start) :=
    hcalls.keeps (fun call layer hcall h => h.store hcall) (hstart.layered hdb)
  have hd := applyChanges_between hdb hl happly
  have hrecords := funext (applyChanges_accountView hl happly)
  refine ⟨fun name => Option.ext fun r => ?_, fun owner => Option.ext fun r => ?_, fun symbol => ?_⟩
  · rw [getAccountRecordByName_eq]
    refine (hl.fitNames.find_eq_some hl.names hdb.names).trans ?_
    refine Iff.trans ?_ hd.names.find_eq_some.symm
    rw [hrecords]
    rfl
  · rw [getAccountRecordByAddress_eq]
    refine (hl.fitAddresses.find_eq_some hl.addresses hdb.addresses).trans ?_
    refine Iff.trans ?_ hd.addresses.find_eq_some.symm
    rw [hrecords]
    rfl
  · obtain ⟨hassets, hsymbols⟩ := applyChanges_symbols hdb hl happly
    unfold view ChainInterface.getAssetRecordBySymbol ChainDatabase.getAssetRecordBySymbol
    rw [hl.symbols, hassets, hsymbols]
    rfl

end Model

def coin : AssetRecord where
  id := 1
  symbol := "COIN"
  issuerAccountId := 1

def coinDb : @ChainDatabase Fc.plain :=
  letI := Fc.plain
  { assetDb := Table.empty.store coin, symbolIndexDb := (∅ : Map String Int).insert "COIN" 1 }

theorem coinDb_consistent :
    letI := Fc.plain
    Consistent coinDb := by
  let := Fc.plain
  have hnone (id : Int) : coinDb.accountDb.lookup id = none := Table.lookup_empty id
  have hassets : Indexed HasSymbol (Table.empty : Table AssetRecord.id).lookup
      fun s => (∅ : Map String Int).lookup s :=
    Indexed.empty Table.lookup_empty fun s => AList.lookup_empty s
  have hfits : Fits HasSymbol (Table.empty : Table AssetRecord.id).lookup 1 coin := by
    refine ⟨fun w _ hw => ?_, fun j w _ hw => ?_⟩
    · cases (Table.lookup_empty _).symm.trans hw
    · cases (Table.lookup_empty _).symm.trans hw
  refine ⟨fun id r hr => ?_, Indexed.empty hnone fun n => AList.lookup_empty n,
    Indexed.empty hnone fun a => AList.lookup_empty a,
    hassets.store hfits (fun id => Table.lookup_store ..) (fun s hs => ?_) fun s hs => ?_⟩
  · cases (hnone id).symm.trans hr
  · exact (lookup_insert ..).trans (if_pos (Eq.symm hs))
  · exact (lookup_insert ..).trans (if_neg fun hs' => hs (Eq.symm hs'))

theorem applyChanges_coinDb :
    letI := Fc.plain
    ∃ d, applyChanges (run StoreCall.store [.account (keyedAccount 6 7), .asset coin] {}) coinDb =
      .ok () d :=
  ⟨_, rfl⟩

theorem lookups_agree_coinDb :
    letI := Fc.plain
    let layer := run StoreCall.store [.account (keyedAccount 6 7), .asset coin] {}
    ∃ d, applyChanges layer coinDb = .ok () d ∧
      ∀ name, (ChainInterface.pending layer (.database coinDb)).getAccountRecordByName name =
        d.getAccountRecordByName name := by
  let := Fc.plain
  obtain ⟨d, hd⟩ := applyChanges_coinDb
  have hview (id : Int) : accountView coinDb {} id = none := by
    unfold accountView stacked
    exact congrArg₂ Option.or (Table.lookup_empty id) (Table.lookup_empty id)
  have hcalls : Meets StoreCall.store (Compatible coinDb)
      [.account (keyedAccount 6 7), .asset coin] {} := by
    refine ⟨⟨by decide, ⟨some 7, rfl⟩, fun p hp => ?_, fun j q hq => ?_⟩, ⟨rfl, by decide⟩, trivial⟩
    · cases (hview _).symm.trans hp
    · cases (hview j).symm.trans hq
  have hblank : Blank ({} : PendingState) :=
    ⟨Table.lookup_empty, Table.lookup_empty, fun n => AList.lookup_empty n,
      fun a => AList.lookup_empty a, fun s => AList.lookup_empty s⟩
  exact ⟨d, hd, (lookups_agree coinDb_consistent hblank hcalls hd).1⟩

/-- A new symbol does not resolve in the layer, an address an account no longer uses does,
and so does the name of an account that is removed. -/
theorem lookups_differ :
    letI := Fc.plain
    let newSymbol := run StoreCall.store [.asset coin] {}
    let keyed := endState (storeAccountRecord (keyedAccount 6 7) {})
    let newKey := run StoreCall.store [.account (keyedAccount 8 7)] {}
    let removed := run StoreCall.store [.account (keyedAccount 6 7).makeNull] {}
    (∃ d, applyChanges newSymbol {} = .ok () d ∧
      ((ChainInterface.pending newSymbol (.database {})).getAssetRecordBySymbol "COIN").isNone ∧
      (d.getAssetRecordBySymbol "COIN").map AssetRecord.id = some 1) ∧
    (∃ d, applyChanges newKey keyed = .ok () d ∧
      ((ChainInterface.pending newKey (.database keyed)).getAccountRecordByAddress 6).map
        AccountRecord.id = some 1 ∧
      (d.getAccountRecordByAddress 6).isNone) ∧
    ∃ d, applyChanges removed keyed = .ok () d ∧
      ((ChainInterface.pending removed (.database keyed)).getAccountRecordByName "delegate").map
        AccountRecord.id = some 1 ∧
      (d.getAccountRecordByName "delegate").isNone := by
  refine ⟨⟨_, rfl, ?_⟩, ⟨_, rfl, ?_⟩, ⟨_, rfl, ?_⟩⟩
  · decide +kernel
  · decide +kernel
  · decide +kernel

end Bts.Blockchain.LayerLookups
