import Bts.Blockchain.UndoSpec

namespace Bts.Blockchain.UndoApply

open Base Result Exec Maps Overlay Errors Records MarketRecords Transactions Pending Database Layers
  AccountStore Changes TransactionStore ApplySpec UndoSpec

section Records

variable [Fc] {db db1 db2 : ChainDatabase} {s t u : PendingState}

/-- The accounts of a layer can be stored: their signing keys and those of the records
they replace are there. -/
def AccountsStorable (t : Table AccountRecord.id) (db : ChainDatabase) : Prop :=
  ∀ k r, t.lookup k = some r →
    (r.isNull ∨ HasSigningKey r) ∧ ∀ p, db.accountDb.lookup k = some p → HasSigningKey p

theorem forEach_storeAccountRecord_returns_iff (t : Table AccountRecord.id) (db : ChainDatabase) :
    (∃ db', forEach t.rows.entries (fun e => Stores.storeAccountRecord e.2) db = .ok () db') ↔
      AccountsStorable t db := by
  have hcells := forEach_returns_iff (f := fun e => Stores.storeAccountRecord e.2) Sigma.fst
    (fun (d : ChainDatabase) k => d.accountDb.lookup k)
    (fun e o => (e.2.isNull ∨ HasSigningKey e.2) ∧ ∀ p, o = some p → HasSigningKey p)
    t.rows.nodupKeys
    (fun e he d => by
      rw [storeAccountRecord_returns_iff, t.keyed (lookup_of_mem he)])
    (fun e he d k hk => by
      obtain ⟨a, ⟨i, ad, v, hd⟩, ha⟩ := storeAccountRecord_spec e.2 d
      rw [hd, ha, t.keyed (lookup_of_mem he), if_neg hk])
    db
  rw [hcells]
  constructor
  · intro h k r hr
    exact h ⟨k, r⟩ (mem_of_lookup hr)
  · intro h e he
    exact h e.1 e.2 (lookup_of_mem he)

theorem undo_accountsStorable (hs : AccountsStorable s.accounts db) (hu : UndoOf s u db)
    (h1 : Applied s db db1) : AccountsStorable u.accounts db1 := by
  intro k r hr
  rw [hu.accounts] at hr
  obtain ⟨r', hr', rfl⟩ := Option.map_eq_some_iff.mp hr
  obtain ⟨hnew, hold⟩ := hs k r' hr'
  constructor
  · cases hk : db.accountDb.lookup k with
    | none => exact Or.inl rfl
    | some p => exact Or.inr (hold p hk)
  · intro p hp
    have hrows : s.accounts.rows.lookup k = some r' := hr'
    rw [h1.accounts, overlay, hrows] at hp
    dsimp only at hp
    unfold dropNull at hp
    split at hp
    · cases hp
    · cases hp
      exact hnew.resolve_left ‹_›

/-- A transaction of the layer is on record already and is not expired. -/
def ReplaysRecorded (s : PendingState) (db : ChainDatabase) : Prop :=
  forkBlockNumV0426 ≤ db.getHeadBlockNum ∧ ∃ id r r', s.transactions.lookup id = some r' ∧
    r'.trx.operations ≠ [] ∧ db.idToTransactionRecordDb.lookup id = some r ∧ Remembered db r

theorem undo_transactions (hu : UndoOf s u db) (id : Nat) : u.transactions.lookup id =
    (s.transactions.lookup id).map fun _ => ((db.getTransaction id).toOption.join).getD .null := by
  have hmap := undoMapM_eq_ok (fun k v hv => getTransaction_toOption hv) hu.transactions
  rw [hmap, lookup_undoMap]

theorem applied_transaction (h : Applied s db db1) {id : Nat} {r : TransactionRecord}
    (hr : s.transactions.lookup id = some r) :
    (db1.idToTransactionRecordDb.lookup id).isSome ↔ r.trx.operations ≠ [] := by
  rw [h.records, overlay, hr]
  by_cases hops : r.trx.operations = []
  · simp [dropNull, hops]
  · simp [dropNull, hops]

variable {e : ChainError}

theorem undo_transaction_error (hu : UndoOf s u db) (h1 : Applied s db db1) {d : ChainDatabase}
    (hd : transactionView d = transactionView db1) {d' : ChainDatabase}
    (h : forEach u.transactions.entries (fun e => Stores.storeTransaction e.1 e.2) d =
      .error e d') :
    e = .duplicateTransaction ∧ ReplaysRecorded s db := by
  have hblocks : d.toBlockStore = db.toBlockStore := (congrArg Prod.fst hd).trans h1.blocks
  have hrecords : d.idToTransactionRecordDb = db1.idToTransactionRecordDb :=
    congrArg (·.2.2) hd
  have htrack : d.trackStats = true := by
    rw [hblocks]
    exact h1.trackStats
  obtain ⟨⟨id, r⟩, hmem, hops, herr⟩ :=
    forEach_storeTransaction_error u.transactions.nodupKeys htrack h
  have hr : u.transactions.lookup id = some r := lookup_of_mem hmem
  rw [undo_transactions hu] at hr
  obtain ⟨r', hr', rfl⟩ := Option.map_eq_some_iff.mp hr
  cases hg : (db.getTransaction id).toOption.join with
  | none =>
    rw [hg] at hops
    exact absurd rfl hops
  | some w =>
    rw [hg] at herr
    obtain ⟨hrecord, hid⟩ := getTransaction_recorded hg
    obtain ⟨he, hrem, hfork, hsome, -⟩ := herr hid
    unfold Remembered at hrem
    rw [hblocks] at hrem hfork
    rw [hrecords] at hsome
    exact ⟨he, hfork, id, w, r', hr', (applied_transaction h1 hr').mp hsome, hrecord, hrem⟩

theorem changeLoops_before {τ : Type} {g : ChainDatabase → τ} {i : Nat}
    (hg : ∀ d, g (columnsOf i d) = g d) (h : forEach ((changeLoops s).take i) id db = .ok () db1) : g db1 = g db := by
  have hframe := forEach_frame (g := g) (l := (changeLoops s).take i) (f := id)
    (fun c hc => changeLoops_frame hg c (by
      rw [List.eraseIdx_eq_take_drop_succ]
      exact List.mem_append_left _ hc)) db
  rw [h] at hframe
  exact hframe

theorem changeLoops_total {i : Nat} {c : DbAction Unit} (hc : (changeLoops s)[i]? = some c)
    (h2 : i ≠ 2) (h11 : i ≠ 11) (h18 : i ≠ 18) : Total c := by
  match i, hc with
  | 0, hc | 1, hc | 3, hc | 4, hc | 5, hc | 6, hc | 7, hc | 8, hc | 9, hc | 10, hc
  | 12, hc | 13, hc | 14, hc | 15, hc | 16, hc | 17, hc =>
    cases hc
    exact Total.forEach fun _ _ => Total.update _
  | 19, hc =>
    cases hc
    exact Total.update _
  | 2, _ => exact absurd rfl h2
  | 11, _ => exact absurd rfl h11
  | 18, _ => exact absurd rfl h18
  | n + 20, hc => cases hc

theorem setMarketTransactions_error {trxs : List MarketTransaction} {db' : ChainDatabase}
    (h : Stores.setMarketTransactions trxs db = .error e db') :
    ¬ db.trackStats = true := by
  simp only [Stores.setMarketTransactions, bind_run_error, read_run_error, read_run_ok,
    lift_run_error, require_eq_error, update_run_error, false_or, and_false, exists_false,
    or_false] at h
  obtain ⟨_, _, ⟨rfl, rfl⟩, ⟨hnot, -⟩, -⟩ := h
  exact hnot

theorem undo_throws (hs : AccountsStorable s.accounts db) (hu : UndoOf s u db)
    (h1 : Applied s db db1) (h2 : applyChanges u db1 = .error e db2) :
    e = .duplicateTransaction ∧ ReplaysRecorded s db := by
  obtain ⟨i, c, d, hc, hd, herr⟩ := forEach_error h2
  by_cases hi2 : i = 2
  · subst hi2
    cases hc
    have hstorable := undo_accountsStorable hs hu h1
    have hbefore : d.accountDb = db1.accountDb :=
      changeLoops_before (g := (·.accountDb)) (i := 2) (fun _ => rfl) hd
    unfold AccountsStorable at hstorable
    rw [← hbefore] at hstorable
    obtain ⟨d', hd'⟩ := (forEach_storeAccountRecord_returns_iff u.accounts d).mpr hstorable
    exact absurd (hd'.symm.trans herr) (by simp)
  by_cases hi11 : i = 11
  · subst hi11
    cases hc
    exact undo_transaction_error hu h1 (changeLoops_before (fun _ => rfl) hd) herr
  by_cases hi18 : i = 18
  · subst hi18
    cases hc
    have htrack : d.trackStats = true := by
      rw [changeLoops_before (g := (·.toBlockStore)) (i := 18) (fun _ => rfl) hd, h1.blocks]
      exact h1.trackStats
    exact absurd htrack (setMarketTransactions_error herr)
  · exact absurd herr (changeLoops_total hc hi2 hi11 hi18).no_error

theorem applyChanges_accountsStorable (h : applyChanges s db = .ok () db1) :
    AccountsStorable s.accounts db := by
  obtain ⟨d, d', hd, hloop, -⟩ := applyChanges_only (·.accountDb) 2 rfl (fun _ => rfl) h
  have hstorable := (forEach_storeAccountRecord_returns_iff s.accounts d).mp ⟨d', hloop⟩
  unfold AccountsStorable at hstorable ⊢
  rw [hd] at hstorable
  exact hstorable

/-- The transactions of a layer can be stored: they are not on record with their digests known,
and their digests differ. -/
structure TransactionsStorable (s : PendingState) (db : ChainDatabase) : Prop where
  ids : ∀ id r, s.transactions.lookup id = some r → r.trx.operations ≠ [] → r.trx.id = id
  fresh : ∀ id r, s.transactions.lookup id = some r → Remembered db r → ¬ Duplicate db id r
  distinct : forkBlockNumV0426 ≤ db.getHeadBlockNum → ∀ id id' r r',
    s.transactions.lookup id = some r → s.transactions.lookup id' = some r' →
    r.trx.digest db.chainId = r'.trx.digest db.chainId → id = id'

theorem TransactionsStorable.of_view {d : ChainDatabase} (h : TransactionsStorable s db)
    (hview : transactionView d = transactionView db) : TransactionsStorable s d := by
  have hblocks : d.toBlockStore = db.toBlockStore := congrArg Prod.fst hview
  refine ⟨h.ids, fun id r hr hrem => ?_, ?_⟩
  · rw [view_duplicate hview]
    exact h.fresh id r hr ((view_remembered hview r).mp hrem)
  · rw [hblocks]
    exact h.distinct

theorem TransactionsStorable.no_error (h : TransactionsStorable s db)
    (htrack : db.trackStats = true) {db' : ChainDatabase} :
    forEach s.transactions.entries (fun e => Stores.storeTransaction e.1 e.2) db ≠ .error e db' := by
  intro herr
  obtain ⟨⟨id, r⟩, hmem, hops, hdup⟩ :=
    forEach_storeTransaction_error s.transactions.nodupKeys htrack herr
  have hr := lookup_of_mem hmem
  obtain ⟨-, hrem, hfork, hrecord, hknown⟩ := hdup (h.ids id r hr hops)
  rcases hknown with hold | ⟨⟨id', r'⟩, hmem', hne, hsame⟩
  · exact h.fresh id r hr hrem ⟨hfork, hold, hrecord⟩
  · have hr' := lookup_of_mem hmem'
    exact hne (h.distinct hfork id' id r' r hr' hr (congrArg Prod.snd hsame).symm)

theorem applyChanges_returns (haccounts : AccountsStorable s.accounts db)
    (htransactions : TransactionsStorable s db) (htrack : db.trackStats = true) :
    ∃ db', applyChanges s db = .ok () db' := by
  cases hrun : applyChanges s db with
  | ok _ db' => exact ⟨db', rfl⟩
  | error e db' =>
    exfalso
    obtain ⟨i, c, d, hc, hd, herr⟩ := forEach_error hrun
    by_cases hi2 : i = 2
    · subst hi2
      cases hc
      have hbefore : d.accountDb = db.accountDb :=
        changeLoops_before (g := (·.accountDb)) (i := 2) (fun _ => rfl) hd
      have hstorable : AccountsStorable s.accounts d := by
        unfold AccountsStorable
        rw [hbefore]
        exact haccounts
      obtain ⟨d', hd'⟩ := (forEach_storeAccountRecord_returns_iff s.accounts d).mpr hstorable
      exact absurd (hd'.symm.trans herr) (by simp)
    by_cases hi11 : i = 11
    · subst hi11
      cases hc
      have hview := changeLoops_before (g := transactionView) (fun _ => rfl) hd
      have hblocks : d.toBlockStore = db.toBlockStore := congrArg Prod.fst hview
      exact (htransactions.of_view hview).no_error (hblocks ▸ htrack) herr
    by_cases hi18 : i = 18
    · subst hi18
      cases hc
      have hblocks : d.toBlockStore = db.toBlockStore :=
        changeLoops_before (g := (·.toBlockStore)) (i := 18) (fun _ => rfl) hd
      exact setMarketTransactions_error herr (hblocks ▸ htrack)
    · exact absurd herr (changeLoops_total hc hi2 hi11 hi18).no_error

/-- The records that a layer and a database keep under one transaction id are of one
transaction: their hashes do not collide. -/
def NoIdCollision (s : PendingState) (db : ChainDatabase) : Prop :=
  ∀ id r r', s.transactions.lookup id = some r' → db.idToTransactionRecordDb.lookup id = some r →
    r.trx.id = r'.trx.id → r.trx = r'.trx

/-- A transaction that is on record stops the undo state: its digest is remembered by
the layer and its record is there. -/
theorem replay_stops_undo (hc : NoIdCollision s db) (hu : UndoOf s u db)
    (h1 : Applied s db db1) (h2 : Applied u db1 db2) : ¬ ReplaysRecorded s db := by
  rintro ⟨hfork, id, r, r', hr', hops', hr, hrem⟩
  have hget := undo_transactions hu id
  rw [hr', Option.map_some] at hget
  obtain ⟨w, hw⟩ := undoMapM_reads hu.transactions hr'
  have hread := getTransaction_toOption hw
  have hrecorded : w = some r := by
    simp only [ChainDatabase.getTransaction, eq_ok_iff, hr] at hw
    obtain ⟨_, -, _, -, hw⟩ := hw
    exact hw.symm
  rw [hread, hrecorded, Option.getD_some] at hget
  have hid : r.trx.id = id := by
    have hjoin : (db.getTransaction id).toOption.join = some r := by rw [hread, hrecorded]
    exact (getTransaction_recorded hjoin).2
  have htrx : r.trx = r'.trx := hc id r r' hr' hr (hid.trans (h1.ids id r' hr' hops').symm)
  have hrem' : Remembered db1 r := by
    unfold Remembered
    rw [h1.blocks]
    exact hrem
  apply h2.fresh id r hget hrem'
  refine ⟨?_, (h1.unique _).mpr (Or.inr ⟨id, r', hr', ?_, ?_⟩), ?_⟩
  · rw [h1.blocks]
    exact hfork
  · unfold Remembered at hrem ⊢
    rw [← htrx]
    exact hrem
  · unfold entryOf
    rw [h1.blocks, htrx]
  · exact (applied_transaction h1 hr').mpr hops'

theorem undo_returns_iff (hc : NoIdCollision s db) (hu : UndoOf s u db)
    (h1 : applyChanges s db = .ok () db1) :
    (∃ db2, applyChanges u db1 = .ok () db2) ↔ ¬ ReplaysRecorded s db := by
  have happlied := applyChanges_applied h1
  constructor
  · rintro ⟨db2, h2⟩
    exact replay_stops_undo hc hu happlied (applyChanges_applied h2)
  · intro hnot
    cases h2 : applyChanges u db1 with
    | ok _ db2 => exact ⟨db2, rfl⟩
    | error e db2 =>
      have hthrow := undo_throws (applyChanges_accountsStorable h1) hu happlied h2
      exact absurd hthrow.2 hnot

/-- The undo state of a layer restores every record of the database exactly when the
layer holds no transaction that is on record already. -/
theorem undo_restores_records_iff (hdb : NoNullRecords db)
    (hundo : getUndoState s (.database db) = .ok u) (happly : applyChanges s db = .ok () db1)
    (hc : NoIdCollision s db) :
    (∃ db2, applyChanges u db1 = .ok () db2 ∧ SameRecords db db2) ↔ ¬ ReplaysRecorded s db := by
  have hu := getUndoState_spec hundo
  rw [← undo_returns_iff hc hu happly]
  constructor
  · rintro ⟨db2, h2, -⟩
    exact ⟨db2, h2⟩
  · rintro ⟨db2, h2⟩
    exact ⟨db2, h2, undo_sameRecords hdb hu (applyChanges_applied happly)
      (applyChanges_applied h2)⟩

end Records

/-- A transaction with a slate, the layer that holds both, a database on which the
layer is new and one in which the transaction is on record with its digest purged. -/
def slateTrx : SignedTransaction where
  expiration := 100
  operations := [.defineDelegateSlate ⟨[1]⟩]

def slateLayer : @PendingState Fc.plain :=
  letI := Fc.plain
  { transactions := (∅ : Map Nat _).insert slateTrx.id { trx := slateTrx }
    slates := (∅ : Map Nat _).insert 1 [1] }

def forkHead : @ChainDatabase Fc.plain :=
  letI := Fc.plain
  { headBlockHeader := { blockNum := forkBlockNumV0426, timestamp := 50 } }

def recordedHead : @ChainDatabase Fc.plain :=
  letI := Fc.plain
  { forkHead with
    idToTransactionRecordDb := (∅ : Map Nat _).insert slateTrx.id { trx := slateTrx } }

theorem undo_restores_records_iff_forkHead :
    letI := Fc.plain
    ∃ u db1, getUndoState slateLayer (.database forkHead) = .ok u ∧
      applyChanges slateLayer forkHead = .ok () db1 ∧
      ((∃ db2, applyChanges u db1 = .ok () db2 ∧ SameRecords forkHead db2) ↔
        ¬ ReplaysRecorded slateLayer forkHead) := by
  let := Fc.plain
  have hnull : NoNullRecords forkHead := by
    constructor <;> intro k v hv <;> cases hv
  have hids : NoIdCollision slateLayer forkHead := by
    intro id r r' _ hr
    cases hr
  exact ⟨_, _, rfl, rfl, undo_restores_records_iff hnull rfl rfl hids⟩

theorem undo_of_recorded_transaction_throws :
    letI := Fc.plain
    NoNullRecords recordedHead ∧
      ∃ u db1, getUndoState slateLayer (.database recordedHead) = .ok u ∧
        applyChanges slateLayer recordedHead = .ok () db1 ∧
        ∃ db2, applyChanges u db1 = .error .duplicateTransaction db2 ∧
          db2.slateDb.lookup 1 ≠ recordedHead.slateDb.lookup 1 := by
  let := Fc.plain
  have hnull : NoNullRecords recordedHead := by
    constructor <;> intro k v hv <;> cases hv
  exact ⟨hnull, _, _, rfl, rfl, _, rfl, by decide⟩

section Statuses

variable [Fc] {db db1 db2 : ChainDatabase} {s t u : PendingState}

def SameStatusesAndSlots (db db' : ChainDatabase) : Prop :=
  (∀ quoteId baseId, (ChainInterface.database db').getMarketStatus quoteId baseId =
    (ChainInterface.database db).getMarketStatus quoteId baseId) ∧
  ∀ startTime, (ChainInterface.database db').getSlotRecord startTime =
    (ChainInterface.database db).getSlotRecord startTime

/-- Each status the layer writes replaces one that is there, or is a null status where
there is none. -/
def ReplacesStatuses (s : PendingState) (db : ChainDatabase) : Prop :=
  (∀ k, (s.marketStatuses.lookup k).isSome → ((db.marketStatusDb.lookup k).isSome ↔ k.1 ≠ k.2)) ∧
    ((∃ k, (s.marketStatuses.lookup k).isSome ∧ db.marketStatusDb.lookup k = none) →
      db.marketStatusDb.lookup (0, 0) = none)

def ReplacesSlots (s : PendingState) (db : ChainDatabase) : Prop :=
  (∀ t, (s.slots.lookup t).isSome → ((db.slotRecordDb.lookup t).isSome ↔ t ≠ 0)) ∧
    ((∃ t, (s.slots.lookup t).isSome ∧ db.slotRecordDb.lookup t = none) →
      db.slotRecordDb.lookup 0 = none)

theorem statuses_restored_iff (hu : UndoOf s u db) (h1 : Applied s db db1)
    (h2 : Applied u db1 db2) :
    (∀ k, db2.marketStatusDb.lookup k = db.marketStatusDb.lookup k) ↔ ReplacesStatuses s db := by
  refine overlay_undo_shared ?_ ?_ hu.marketStatuses h1.marketStatuses h2.marketStatuses
  · exact fun _ => Iff.rfl
  · rfl

theorem slots_restored_iff (hu : UndoOf s u db) (h1 : Applied s db db1)
    (h2 : Applied u db1 db2) :
    (∀ t, db2.slotRecordDb.lookup t = db.slotRecordDb.lookup t) ↔ ReplacesSlots s db := by
  refine overlay_undo_shared ?_ ?_ hu.slots h1.slots h2.slots
  · exact fun _ => Iff.rfl
  · rfl

theorem sameStatusesAndSlots_iff (h : db2.toBlockStore = db.toBlockStore)
    (htrack : db.trackStats = true) : SameStatusesAndSlots db db2 ↔
      (∀ k, db2.marketStatusDb.lookup k = db.marketStatusDb.lookup k) ∧
        ∀ t, db2.slotRecordDb.lookup t = db.slotRecordDb.lookup t := by
  refine and_congr ?_ (forall_congr' fun t => ?_)
  · exact ⟨fun hk k => hk k.1 k.2, fun hk q b => hk (q, b)⟩
  · simp [ChainInterface.getSlotRecord, ChainDatabase.getSlotRecord, require, h, htrack]

/-- The undo state restores the statuses and the slots exactly when the layer adds
none. -/
theorem undo_restores_statuses_iff
    (hundo : getUndoState s (.database db) = .ok u) (happly : applyChanges s db = .ok () db1)
    (hc : NoIdCollision s db) :
    (∃ db2, applyChanges u db1 = .ok () db2 ∧ SameStatusesAndSlots db db2) ↔
      ¬ ReplaysRecorded s db ∧ ReplacesStatuses s db ∧ ReplacesSlots s db := by
  have hu := getUndoState_spec hundo
  have h1 := applyChanges_applied happly
  have hsame : ∀ db2, applyChanges u db1 = .ok () db2 →
      (SameStatusesAndSlots db db2 ↔ ReplacesStatuses s db ∧ ReplacesSlots s db) := by
    intro db2 hdb2
    have h2 := applyChanges_applied hdb2
    rw [sameStatusesAndSlots_iff (h2.blocks.trans h1.blocks) h1.trackStats,
      statuses_restored_iff hu h1 h2, slots_restored_iff hu h1 h2]
  rw [← undo_returns_iff hc hu happly]
  constructor
  · rintro ⟨db2, h2, hdb2⟩
    exact ⟨⟨db2, h2⟩, (hsame db2 h2).mp hdb2⟩
  · rintro ⟨⟨db2, h2⟩, hcond⟩
    exact ⟨db2, h2, (hsame db2 h2).mpr hcond⟩

end Statuses

def firstStatusLayer : @PendingState Fc.plain :=
  letI := Fc.plain
  (({} : PendingState).storeMarketStatus { quoteId := 1 }).storeSlotRecord { startTime := 60 }

/-- A chain on which the layer writes over a status and a slot. -/
def statusHead : @ChainDatabase Fc.plain :=
  letI := Fc.plain
  { forkHead with
    marketStatusDb := Table.empty.store { quoteId := 1, lastError := some .keyNotFound }
    slotRecordDb := Table.empty.store { startTime := 60, blockId := some 5 } }

theorem statusHead_replaces :
    letI := Fc.plain
    ReplacesStatuses firstStatusLayer statusHead ∧ ReplacesSlots firstStatusLayer statusHead := by
  let := Fc.plain
  have hkey {K V : Type} [DecidableEq K] {key : V → K} {v : V} {k : K}
      (h : ((Table.empty : Table key).store v |>.lookup k).isSome) : k = key v := by
    rw [Table.lookup_store] at h
    by_contra hk
    rw [if_neg hk] at h
    cases h
  refine ⟨⟨fun k hk => ?_, ?_⟩, fun t ht => ?_, ?_⟩
  · obtain rfl := hkey hk
    decide
  · rintro ⟨k, hk, hnone⟩
    obtain rfl := hkey hk
    cases hnone
  · obtain rfl := hkey ht
    decide
  · rintro ⟨t, ht, hnone⟩
    obtain rfl := hkey ht
    cases hnone

theorem undo_restores_statuses_iff_statusHead :
    letI := Fc.plain
    ∃ u db1 db2, getUndoState firstStatusLayer (.database statusHead) = .ok u ∧
      applyChanges firstStatusLayer statusHead = .ok () db1 ∧ applyChanges u db1 = .ok () db2 ∧
      SameStatusesAndSlots statusHead db2 := by
  let := Fc.plain
  have hids : NoIdCollision firstStatusLayer statusHead := by
    intro id r r' _ hr
    cases hr
  have hfresh : ¬ ReplaysRecorded firstStatusLayer statusHead := by
    rintro ⟨-, id, r, r', hr', -⟩
    cases hr'
  obtain ⟨db2, h2, hsame⟩ :=
    (undo_restores_statuses_iff rfl rfl hids).mpr ⟨hfresh, statusHead_replaces⟩
  exact ⟨_, _, db2, rfl, rfl, h2, hsame⟩

theorem undo_keeps_first_status_and_slot :
    letI := Fc.plain
    ∃ u db1 db2, getUndoState firstStatusLayer (.database forkHead) = .ok u ∧
      applyChanges firstStatusLayer forkHead = .ok () db1 ∧ applyChanges u db1 = .ok () db2 ∧
      forkHead.marketStatusDb.lookup (1, 0) = none ∧
      (db2.marketStatusDb.lookup (1, 0)).isSome ∧
      forkHead.slotRecordDb.lookup 60 = none ∧ (db2.slotRecordDb.lookup 60).isSome := by
  exact ⟨_, _, _, rfl, rfl, rfl, rfl, rfl, rfl, rfl⟩

end Bts.Blockchain.UndoApply
