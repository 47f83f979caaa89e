import Bts.Blockchain.BaseSupply
import Bts.Blockchain.ChainRuns
import Bts.Blockchain.RecordWrites

namespace Bts.Blockchain.DelegatePay

open Base Result Exec Word Maps Runs Amounts Records Transactions Pending Database Layers Rules
  Evaluation Evaluate Effects AssetEffects Supply UserSupply ApplySpec MarketExecute MarketWrites
  MarketAssets ExtendChain HeaderChecks BlockParts AssetHistory BaseSupply ChainRuns RecordWrites

theorem maxPay_nonneg (now : Nat) : 0 ≤ getMaxDelegatePayIssuedPerBlock now := by
  unfold getMaxDelegatePayIssuedPerBlock
  split
  · generalize (now - 1415188800) / (4 * 365 * secondsPerDay) = periods
    induction periods with
    | zero => decide
    | succ n ih =>
      rw [Function.iterate_succ_apply']
      exact Int.ediv_nonneg ih (by decide)
  · decide

section Model

variable [Fc] {db db' : ChainDatabase} {l l' : PendingState} {block : FullBlock}

structure Divides (db : ChainDatabase) (fees : Int) (p : Paycheck) : Prop where
  shares_nonneg : 0 ≤ p.sharesIssued
  shares_le : p.sharesIssued ≤ getMaxDelegatePayIssuedPerBlock db.now
  fees_eq : p.feesCollected + p.feesDestroyed + p.feesLeft = fees
  parts_nonneg : 0 ≤ fees → 0 ≤ p.feesCollected ∧ 0 ≤ p.feesDestroyed ∧ 0 ≤ p.feesLeft

theorem acceptedShares_bounds {payRate : Nat} (hrate : payRate ≤ 100) :
    0 ≤ acceptedShares db payRate ∧
      acceptedShares db payRate ≤ getMaxDelegatePayIssuedPerBlock db.now := by
  have hpay := maxPay_nonneg db.now
  unfold acceptedShares
  generalize getMaxDelegatePayIssuedPerBlock db.now = pay at hpay ⊢
  have hrate' : (payRate : Int) ≤ 100 := by exact_mod_cast hrate
  constructor
  · exact Int.ediv_nonneg (Int.mul_nonneg hpay (Int.natCast_nonneg _)) (by decide)
  · have hprod : pay * payRate ≤ pay * 100 := Int.mul_le_mul_of_nonneg_left hrate' hpay
    omega

theorem paycheck_divides {payRate : Nat} {fees : Int} {p : Paycheck} (hrate : payRate ≤ 100)
    (h : paycheck db payRate fees = .ok p) : Divides db fees p := by
  have hbounds : 0 ≤ acceptedShares db payRate ∧ _ := acceptedShares_bounds hrate
  obtain ⟨hnonneg, hle⟩ := hbounds
  unfold paycheck at h
  split at h
  · simp only [eq_ok_iff] at h
    obtain ⟨_, _, rfl⟩ := h
    exact ⟨hnonneg, hle, by simp, fun hfees => ⟨le_rfl, hfees, le_rfl⟩⟩
  · simp only [eq_ok_iff] at h
    obtain ⟨_, ⟨hmax, hcollected, hdestroyed⟩, _, _, rfl⟩ := h
    refine ⟨hnonneg, hle, by dsimp only; omega, fun hfees => ⟨hcollected, hdestroyed, ?_⟩⟩
    have hpart : fees.tdiv (14 * blocksPerDay) ≤ fees := Int.tdiv_le_self _ hfees
    dsimp only
    omega

structure Pays (db : ChainDatabase) (c c' : ChainInterface) (base : AssetRecord) (r : AccountRecord)
    (d : DelegateStats) (p : Paycheck) : Prop where
  known : c.getAssetRecord 0 = some base
  account : c.getAccountRecord r.id = some r
  delegate : r.delegateInfo = some d
  divides : Divides db base.collectedFees p
  supplied : c'.getAssetRecord 0 = some { base with
    currentShareSupply := int64 (base.currentShareSupply + p.sharesIssued - p.feesDestroyed)
    collectedFees := p.feesLeft }
  paid : c'.getAccountRecord r.id = some { r with delegateInfo := some { d with
    votesFor := int64 (d.votesFor + (p.sharesIssued + p.feesCollected))
    payBalance := int64 (d.payBalance + (p.sharesIssued + p.feesCollected))
    totalPaid := int64 (d.totalPaid + (p.sharesIssued + p.feesCollected)) } }
  others : ∀ id, id ≠ r.id → c'.getAccountRecord id = c.getAccountRecord id

theorem payDelegate_ok {signee blockId : Nat} {record : BlockRecord}
    (h : payDelegate db l signee blockId = .ok (l', record)) :
    ∃ base r d p, Pays db (.pending l (.database db)) (.pending l' (.database db)) base r d p ∧
      record.signeeSharesIssued = p.sharesIssued := by
  simp only [payDelegate, eq_ok_iff, Prod.mk.injEq, AccountRecord.delegate] at h
  obtain ⟨base, hbase, signee, _, r, hr, d, hd, _, hrate, p, hp, paid, hpaid, _, _, rfl, rfl⟩ := h
  have hid := ProductionInfo.getAccountRecord_id hr
  rw [← hid] at hr
  have hstored := getAccountRecord_store hpaid (.database db)
  refine ⟨base, r, d, p, ⟨hbase, hr, hd, paycheck_divides hrate hp, ?_, ?_, ?_⟩, rfl⟩
  · rw [getAssetRecord_store]
    exact if_pos (getAssetRecord_id hbase).symm
  · exact (hstored r.id).trans (if_pos rfl)
  · exact fun id hne => (hstored id).trans (if_neg hne)

variable {a : AssetRecord} {trx : SignedTransaction} {blockNum k : Nat}

/-- The markets of a block leave the supply of the base asset as it is, because it is the
quote asset of none. -/
theorem executeMarkets_base {timestamp : Nat} (h : executeMarkets db l timestamp = .ok l')
    (hindex : l.symbolIdIndex = ∅) (hnumbered : Numbered (assetsOf (.pending l (.database db))))
    (ha : (ChainInterface.pending l (.database db)).getAssetRecord 0 = some a) :
    ∃ b, (ChainInterface.pending l' (.database db)).getAssetRecord 0 = some b ∧
      b.currentShareSupply = a.currentShareSupply ∧ b.issuerAccountId = a.issuerAccountId := by
  refine (executeMarkets_keeps (I := fun u => Grows (.database db) l [] u ∧
    ∃ b, (ChainInterface.pending u (.database db)).getAssetRecord 0 = some b ∧
      b.currentShareSupply = a.currentShareSupply ∧ b.issuerAccountId = a.issuerAccountId)
    ?_ ?_ h ⟨.refl hindex, a, ha, rfl, rfl⟩).2
  · rintro u u' quoteId baseId trxs hpair hexecute ⟨hgrows, b, hb, hsupply, hissuer⟩
    refine ⟨hgrows.trans (execute_grows hexecute (ne_of_lt hpair) hgrows.index), ?_⟩
    rcases execute_traded hexecute with htraded | hsame
    · obtain ⟨c, d, hc, hd, fees, hbase⟩ := htraded.base
      by_cases hzero : baseId = 0
      · rw [hzero] at hc hd
        cases hb.symm.trans hc
        exact ⟨d, hd, by rw [hbase]; exact ⟨hsupply, hissuer⟩⟩
      · -- The base asset of the pair has an id that is not negative, so that the quote asset
        -- is not the one with the id zero.
        have hbook : Numbered (assetsOf (.pending u (.database db))) :=
          hgrows.changes.keeps (fun _ _ _ hstep => hstep.numbered) hnumbered
        have hquote : (0 : Int) ≠ quoteId :=
          ne_of_lt (lt_of_le_of_lt (hbook.records _ _ hc) hpair)
        exact ⟨b, (htraded.others 0 hquote (Ne.symm hzero)).trans hb, hsupply, hissuer⟩
    · exact ⟨b, (congrFun hsame 0).trans hb, hsupply, hissuer⟩
  · rintro u trxs ⟨hgrows, hb⟩
    exact ⟨hgrows.trans (SameAssets.grows ⟨rfl, rfl, rfl⟩ hgrows.index), hb⟩

/-- What the transactions of a block burn and pay on debts of the base asset. -/
def destroyed (trxs : List SignedTransaction) : Int :=
  (trxs.map fun trx => burned 0 trx.operations + covered 0 trx.operations).sum

theorem evaluate_destroys {s t : EvaluationState} {skip : Bool} (h : evaluate s trx skip = .ok t) :
    (∀ op ∈ trx.operations, 0 ≤ burnedBy 0 op) ∧ 0 ≤ covered 0 trx.operations := by
  obtain ⟨_, keys, u, _, hops, -⟩ := evaluate_ok h
  refine ⟨base_burns hops, List.sum_nonneg fun x hx => ?_⟩
  obtain ⟨op, hop, rfl⟩ := List.mem_map.mp hx
  obtain ⟨v, w, hstep⟩ := foldlM_mem_ok hops hop
  simp only [evaluateNext, eq_ok_iff] at hstep
  obtain ⟨w', hw, -⟩ := hstep
  cases op with
  | cover op =>
    show 0 ≤ if op.coverIndex.orderPrice.quoteAssetId = 0 then op.amount else 0
    split
    · exact (cover_spends hw).1
    · exact le_rfl
  | _ => exact le_rfl

theorem evaluate_base {s t : EvaluationState} {skip : Bool} (h : evaluate s trx skip = .ok t)
    (hfits : ∀ op ∈ trx.operations, Fits (amountOf op))
    (hissues : issued 0 trx.operations ≤ burned 0 trx.operations)
    (ha : s.currentState.getAssetRecord 0 = some a) (hs : Fits a.currentShareSupply)
    (hroom : -9223372036854775808 ≤ a.currentShareSupply - burned 0 trx.operations -
      covered 0 trx.operations) :
    ∃ b, t.currentState.getAssetRecord 0 = some b ∧ Fits b.currentShareSupply ∧
      b.currentShareSupply ≤ a.currentShareSupply ∧
      a.currentShareSupply - (burned 0 trx.operations + covered 0 trx.operations) ≤
        b.currentShareSupply ∧ b.issuerAccountId = a.issuerAccountId := by
  obtain ⟨hburns, -⟩ := evaluate_destroys h
  obtain ⟨b, keys, hb, -, hchange⟩ := evaluate_supply h
    (fun op hop => amountsFit_of_fits (hfits op hop)) hburns ha hs
  obtain ⟨paid, wraps, hpaid, hcovered, hsupply, -⟩ := hchange.supply
  have hissued := hchange.issued_nonneg
  have hb' := hchange.fits
  refine ⟨b, hb, hb', ?_, ?_, hchange.issuer⟩ <;> unfold Fits at hb' <;> omega

theorem applyTransaction_ok (h : applyTransaction db blockNum l (trx, k) = .ok l') :
    ∃ t, evaluate { prev := .database db, chainId := db.chainId, layer := l } trx
        db.skipSignatureVerification = .ok t ∧
      (ChainInterface.pending l' (.database db)).getAssetRecord = t.currentState.getAssetRecord := by
  simp only [applyTransaction, bind_eq_ok] at h
  obtain ⟨t, heval, hstore⟩ := h
  refine ⟨t, heval, ?_⟩
  funext id
  unfold EvaluationState.currentState
  rw [evaluate_prev heval, getAssetRecord_pending, (storeTransaction_same hstore).assets]
  rfl

theorem destroyed_nonneg {trxs : List SignedTransaction}
    (h : (trxs.zipIdx k).foldlM (applyTransaction db blockNum) l = .ok l') :
    0 ≤ destroyed trxs := by
  induction trxs generalizing l k with
  | nil => exact le_rfl
  | cons trx trxs ih =>
    rw [List.zipIdx_cons, foldlM_cons_eq_ok] at h
    obtain ⟨u, hu, ht⟩ := h
    obtain ⟨t, heval, -⟩ := applyTransaction_ok hu
    obtain ⟨hburns, hcovered⟩ := evaluate_destroys heval
    exact Int.add_nonneg (Int.add_nonneg (burned_nonneg hburns) hcovered) (ih ht)

theorem applyTransactions_base {trxs : List SignedTransaction}
    (h : (trxs.zipIdx k).foldlM (applyTransaction db blockNum) l = .ok l')
    (hfits : ∀ trx ∈ trxs, ∀ op ∈ trx.operations, Fits (amountOf op))
    (hissues : ∀ trx ∈ trxs, issued 0 trx.operations ≤ burned 0 trx.operations)
    (ha : (ChainInterface.pending l (.database db)).getAssetRecord 0 = some a)
    (hs : Fits a.currentShareSupply)
    (hroom : -9223372036854775808 ≤ a.currentShareSupply - destroyed trxs) :
    ∃ b, (ChainInterface.pending l' (.database db)).getAssetRecord 0 = some b ∧
      Fits b.currentShareSupply ∧ b.currentShareSupply ≤ a.currentShareSupply ∧
      b.issuerAccountId = a.issuerAccountId := by
  induction trxs generalizing l k a with
  | nil =>
    rw [List.zipIdx_nil, foldlM_nil_eq_ok] at h
    subst h
    exact ⟨a, ha, hs, le_rfl, rfl⟩
  | cons trx trxs ih =>
    rw [List.zipIdx_cons, foldlM_cons_eq_ok] at h
    obtain ⟨u, hu, ht⟩ := h
    rw [List.forall_mem_cons] at hfits hissues
    have hrest := destroyed_nonneg ht
    have hsum : destroyed (trx :: trxs) =
        burned 0 trx.operations + covered 0 trx.operations + destroyed trxs := rfl
    obtain ⟨t, heval, hread⟩ := applyTransaction_ok hu
    obtain ⟨b, hb, hbfits, hle, hge, hissuer⟩ :=
      evaluate_base heval hfits.1 hissues.1 ha hs (by omega)
    obtain ⟨c, hc, hcfits, hle', hissuer'⟩ :=
      ih ht hfits.2 hissues.2 ((congrFun hread 0).trans hb) hbfits (by omega)
    exact ⟨c, hc, hcfits, hle'.trans hle, hissuer'.trans hissuer⟩

def baseFees (db : ChainDatabase) : Int := ((db.assetDb.lookup 0).map AssetRecord.collectedFees).getD 0

def baseSupply (db : ChainDatabase) : Int := supplyOf (.database db) 0

theorem baseSupply_eq {base : AssetRecord} (h : db.assetDb.lookup 0 = some base) :
    baseSupply db = base.currentShareSupply := by
  unfold baseSupply supplyOf
  rw [show (ChainInterface.database db).getAssetRecord 0 = some base from h]
  rfl

/-- A block whose transactions issue no more base shares than they burn, on a chain where
the fees and what they destroy are covered by the supply. Delegates are paid in another way
before the fork, and supplies are calculated anew at it. -/
structure Frugal (block : FullBlock) (db : ChainDatabase) : Prop where
  forked : forkBlockNumV0424 ≤ db.getHeadBlockNum
  fits : ∀ trx ∈ block.userTransactions, ∀ op ∈ trx.operations, Fits (amountOf op)
  issues : ∀ trx ∈ block.userTransactions, issued 0 trx.operations ≤ burned 0 trx.operations
  fees : 0 ≤ baseFees db
  covered : baseFees db + destroyed block.userTransactions ≤ baseSupply db

structure Sound (db : ChainDatabase) : Prop where
  noNull : NoNullAsset db
  numbered : Numbered (assetsOf (.database db))
  fits : Fits (baseSupply db)

theorem extendChain_supply (h : extendChain block db = .ok () db') (hsound : Sound db)
    (hfrugal : Frugal block db)
    (hroom : baseSupply db + getMaxDelegatePayIssuedPerBlock db.now ≤ maxShares) :
    Sound db' ∧ baseSupply db' ≤ baseSupply db + getMaxDelegatePayIssuedPerBlock db.now := by
  obtain ⟨hnoNull, hnumbered⟩ := extendChain_numbered h hsound.noNull hsound.numbered
  obtain ⟨signee, produced, paid, middle, applied, layer, d, u, hlayers, ⟨_, _, _, rfl⟩, happlied,
    ⟨forks, numbers, rfl⟩⟩ := extendChain_parts h
  obtain ⟨record, hpays⟩ := hlayers.pays
  have hproduced := updateDelegateProductionInfo_same hlayers.produces
  obtain ⟨base, r, stats, p, hpaid, -⟩ := payDelegate_ok hpays
  have hbase : db.assetDb.lookup 0 = some base := by
    have hknown := hpaid.known
    rw [getAssetRecord_pending, hproduced.assets] at hknown
    exact hknown
  have hsupply := baseSupply_eq hbase
  have hfees : baseFees db = base.collectedFees := by
    unfold baseFees
    rw [hbase]
    rfl
  have hgrown : Grows (.database db) {} [] produced := hproduced.grows rfl
  have hpaidGrown := hgrown.trans (payDelegate_grows hpays hgrown.index)
  have hgrownNumbered {symbols : List String} {l : PendingState} (hl : Grows (.database db) {} symbols l) :
      Numbered (assetsOf (.pending l (.database db))) :=
    hl.changes.keeps (fun _ _ _ hstep => hstep.numbered) hsound.numbered
  obtain ⟨hshares, hsharesLe, hsum, hparts⟩ := hpaid.divides
  have hcovered := hfrugal.covered
  have hfeesNonneg := hfrugal.fees
  rw [hfees] at hcovered hfeesNonneg
  have hfills := hlayers.fills
  unfold Filled at hfills
  have hburnt : 0 ≤ destroyed block.userTransactions := by
    split_ifs at hfills
    · exact destroyed_nonneg hfills.1
    · exact destroyed_nonneg hfills.2
  have hmax : maxShares = 1000000000000000 := rfl
  -- The shares of the paycheck come in at the start, and nothing overflows.
  have hissued : int64 (base.currentShareSupply + p.sharesIssued - p.feesDestroyed) =
      base.currentShareSupply + p.sharesIssued - p.feesDestroyed := int64_self
  have hsupplied := hpaid.supplied
  have happliedBase : ∃ c, (ChainInterface.pending applied (.database db)).getAssetRecord 0 = some c ∧
      Fits c.currentShareSupply ∧
      c.currentShareSupply ≤ base.currentShareSupply + p.sharesIssued - p.feesDestroyed ∧
      c.issuerAccountId = base.issuerAccountId := by
    split_ifs at hfills
    · have hgrown := hpaidGrown.trans (applyTransactions_grow hfills.1 hpaidGrown.index)
      obtain ⟨b, hb, hbFits, hbSupply, hbIssuer⟩ := applyTransactions_base hfills.1 hfrugal.fits
        hfrugal.issues hsupplied (by dsimp only; unfold Fits; omega) (by dsimp only; omega)
      obtain ⟨c, hc, hcSupply, hcIssuer⟩ :=
        executeMarkets_base hfills.2 hgrown.index (hgrownNumbered hgrown) hb
      dsimp only at hbSupply hbIssuer
      exact ⟨c, hc, hcSupply ▸ hbFits, by omega, hcIssuer.trans hbIssuer⟩
    · obtain ⟨b, hb, hbSupply, hbIssuer⟩ :=
        executeMarkets_base hfills.1 hpaidGrown.index (hgrownNumbered hpaidGrown) hsupplied
      dsimp only at hbSupply hbIssuer
      obtain ⟨c, hc, hcFits, hcSupply, hcIssuer⟩ := applyTransactions_base hfills.2 hfrugal.fits
        hfrugal.issues hb (by unfold Fits; omega) (by omega)
      exact ⟨c, hc, hcFits, by omega, hcIssuer.trans hbIssuer⟩
  obtain ⟨c, hc, hcFits, hcSupply, hcIssuer⟩ := happliedBase
  obtain ⟨properties, hlayer, -⟩ := hlayers.finishes
  have hstored : (assetsOf (.database u)).records 0 = some c := by
    rw [applied_assets happlied hsound.noNull, AssetBook.stored_eq_some]
    refine ⟨?_, ?_⟩
    · rw [hlayer]
      exact hc
    · unfold AssetRecord.isNull
      rw [hcIssuer]
      exact hsound.noNull 0 base hbase
  have hend : baseSupply u = c.currentShareSupply := baseSupply_eq hstored
  refine ⟨⟨hnoNull, hnumbered, ?_⟩, ?_⟩
  · show Fits (baseSupply u)
    rw [hend]
    exact hcFits
  · show baseSupply u ≤ _
    omega

theorem storeAccountRecord_assetDb (r : AccountRecord) (P : Table AssetRecord.id → Prop) :
    Keeps (fun d : ChainDatabase => P d.assetDb) (Stores.storeAccountRecord r) := by
  intro d hd
  obtain ⟨_, _, _, _, hend⟩ := storeAccountRecord_keeps r d ⟨_, AccountStore.indexesOnly_refl⟩
  rw [hend]
  exact hd

def GenesisAssets (t : Table AssetRecord.id) : Prop :=
  ∀ id a, t.lookup id = some a → ¬ a.isNull ∧ 0 ≤ id

omit [Fc] in
theorem GenesisAssets.store {t : Table AssetRecord.id} (h : GenesisAssets t) (hnull : ¬ a.isNull)
    (hid : 0 ≤ a.id) :
    GenesisAssets (putTable AssetRecord.isNull t a) := by
  intro id b hb
  rw [lookup_putTable] at hb
  split at hb
  next heq =>
    rw [dropNull, if_neg hnull] at hb
    cases hb
    exact ⟨hnull, heq ▸ hid⟩
  next => exact h id b hb

theorem initializeGenesis_assets (config : Genesis.GenesisConfig) (chainId : Nat) :
    Keeps (fun d : ChainDatabase => GenesisAssets d.assetDb)
      (Genesis.initializeGenesis config chainId) := by
  refine Keeps.bind (Keeps.update fun _ h => h) fun _ => ?_
  refine Keeps.bind (Keeps.update fun _ h => h) fun _ => Keeps.bindLift fun _ => ?_
  refine Keeps.bind (storeAccountRecord_assetDb _ _) fun _ => ?_
  refine Keeps.bind (Keeps.forEach fun e _ => ?_) fun _ => ?_
  · exact Keeps.bindLift fun r => storeAccountRecord_assetDb r _
  refine Keeps.bind (Keeps.forEach fun e _ => Keeps.update fun _ h => h) fun _ => ?_
  refine Keeps.bind (Keeps.forEach fun e _ => Keeps.update fun _ h => h) fun _ => ?_
  refine Keeps.bindRead fun d => Keeps.bindLift fun total => ?_
  have hgod : ¬ AssetRecord.godIssuerId = AssetRecord.nullIssuerId := by decide
  have hmarket : ¬ AssetRecord.marketIssuerId = AssetRecord.nullIssuerId := by decide
  refine Keeps.bind (Keeps.update fun _ h => h.store hgod le_rfl) fun _ => ?_
  refine Keeps.bind (Keeps.forEach fun e _ => Keeps.update fun _ h =>
    h.store hmarket (Int.natCast_nonneg _)) fun _ => ?_
  refine Keeps.bind (Keeps.update fun _ h => h) fun _ => Keeps.bind (Keeps.update fun _ h => h) fun _ => ?_
  exact Keeps.bindRead fun d => Keeps.lift _

omit [Fc] in
theorem add_fits {a b c : Asset} (h : Asset.add a b = .ok c) : Fits c.amount := by
  simp only [Asset.add, eq_ok_iff] at h
  obtain ⟨_, _, _, _, rfl⟩ := h
  exact int64_fits _

/-- A chain made from a genesis file has sound assets. -/
theorem initializeGenesis_sound {config : Genesis.GenesisConfig} {chainId : Nat}
    (h : Genesis.initializeGenesis config chainId {} = .ok () db) : Sound db := by
  have hassets := initializeGenesis_assets config chainId {} (fun _ _ hnone => by cases hnone)
  rw [h] at hassets
  simp only [Genesis.initializeGenesis, bind_run_ok, read_run_ok, lift_run_ok, update_run_ok] at h
  obtain ⟨_, _, -, _, _, -, _, _, -, _, _, -, _, _, -, _, _, -, _, _, -, _, _, -, _, _, -, _, _, -,
    _, _, -, _, d, -, _, _, rfl, _, _, ⟨rfl, rfl⟩, hsane, rfl⟩ := h
  refine ⟨fun id a ha => (hassets id a ha).1, ⟨fun id a ha => (hassets id a ha).2, fun n hn => ?_⟩, ?_⟩
  · unfold assetsOf ChainInterface.lastAssetId ChainInterface.getIntProperty at hn
    cases hn
    omega
  · simp only [Genesis.sanityCheck, eq_ok_iff] at hsane
    obtain ⟨held, hheld, total, htotal, base, hbase, _, hsupply, -⟩ := hsane
    have hfits : Fits total.amount := by
      refine foldlM_keeps (P := fun a : Asset => Fits a.amount) (fun _ _ _ _ _ => add_fits) ?_ htotal
      refine foldlM_keeps (P := fun a : Asset => Fits a.amount) (fun r _ t _ _ h => ?_) (by decide) hheld
      simp only [Genesis.addRecord, eq_ok_iff] at h
      exact h.elim fun _ h => add_fits h.2
    rw [← hsupply, ← baseSupply_eq hbase] at hfits
    exact hfits

theorem catalogued_frugal {d : ChainDatabase} (h : Catalogued db d) (hfrugal : Frugal block db) :
    Frugal block d := by
  obtain ⟨forks, records, data, numbers, rfl⟩ := h
  exact ⟨hfrugal.forked, hfrugal.fits, hfrugal.issues, hfrugal.fees, hfrugal.covered⟩

theorem catalogued_sound {d : ChainDatabase} (h : Catalogued db d) (hsound : Sound db) : Sound d := by
  obtain ⟨forks, records, data, numbers, rfl⟩ := h
  exact ⟨hsound.noNull, hsound.numbered, hsound.fits⟩

structure KeepsAssets (db d : ChainDatabase) : Prop where
  noNull : NoNullAsset d
  numbered : Numbered (assetsOf (.database d))
  kept : ∀ id a, db.assetDb.lookup id = some a → (assetsOf (.database d)).Keeps id a

/-- Accepted blocks change only the supply, the fees and the date of an asset. -/
theorem assets_kept {blocks : List FullBlock} (hsound : Sound db)
    (hblocks : Meets grow (fun block d => returns (advance block d)) blocks db) :
    KeepsAssets db (run grow blocks db) := by
  refine hblocks.keeps (fun block d hreturns hd => ?_)
    ⟨hsound.noNull, hsound.numbered, fun _ a ha => ⟨a, ha, _, _, _, rfl⟩⟩
  obtain ⟨_, ⟨_, _, _, _, rfl⟩, hextend⟩ := grow_ok hreturns
  obtain ⟨hnull, hnumbered⟩ := extendChain_numbered hextend hd.noNull hd.numbered
  refine ⟨hnull, hnumbered, fun id a ha => ?_⟩
  obtain ⟨book, hchanges, hstored⟩ := extendChain_assets hextend hd.noNull
  obtain ⟨b, hb, _, _, _, rfl⟩ := hchanges.keeps (fun _ _ _ => Change.keeps) (hd.kept id a ha)
  rw [hstored]
  exact ⟨_, AssetBook.stored_eq_some.mpr ⟨hb, hsound.noNull id a ha⟩, _, _, _, rfl⟩

/-- What the schedule allows the block after `db` to be paid. -/
def scheduled (_block : FullBlock) (db : ChainDatabase) : Int :=
  getMaxDelegatePayIssuedPerBlock db.now

/-- The shares that the record of a block says `pay_delegate` has issued for it. -/
def createdShares (block : FullBlock) (db : ChainDatabase) : Int :=
  (((grow block db).blockIdToBlockRecordDb.lookup block.id).map BlockRecord.signeeSharesIssued).getD 0

theorem grow_supply (h : returns (advance block db)) (hfrugal : Frugal block db) (hsound : Sound db)
    (hroom : baseSupply db + scheduled block db ≤ maxShares) :
    Sound (grow block db) ∧ baseSupply (grow block db) ≤ baseSupply db + scheduled block db := by
  obtain ⟨d, hd, hextend⟩ := grow_ok h
  have hsupply : baseSupply d = baseSupply db := by
    obtain ⟨forks, records, data, numbers, rfl⟩ := hd
    rfl
  have hnow : d.now = db.now := by
    obtain ⟨forks, records, data, numbers, rfl⟩ := hd
    rfl
  unfold scheduled at hroom ⊢
  rw [← hsupply, ← hnow] at hroom ⊢
  exact extendChain_supply hextend (catalogued_sound hd hsound) (catalogued_frugal hd hfrugal) hroom

theorem saveUndoState_records {d d' : ChainDatabase} {blockId : Nat} {layer : PendingState}
    (h : saveUndoState blockId layer d = .ok () d') :
    d'.blockIdToBlockRecordDb = d.blockIdToBlockRecordDb := by
  have hkeeps : Keeps (fun u => u.blockIdToBlockRecordDb = d.blockIdToBlockRecordDb)
      (saveUndoState blockId layer) := by
    refine Keeps.bindRead fun s => Keeps.onlyIf ?_
    refine Keeps.bindLift fun undo => Keeps.bind (Keeps.update fun _ ht => ht) fun _ => ?_
    refine Keeps.bindRead fun s => Keeps.onlyIf ?_
    exact Keeps.bindLift fun old => Keeps.update fun _ ht => ht
  have hend := hkeeps d rfl
  rw [h] at hend
  exact hend

theorem extendChain_record (h : extendChain block db = .ok () db') :
    ∃ signee produced paid record, payDelegate db produced signee block.id = .ok (paid, record) ∧
      db'.blockIdToBlockRecordDb.lookup block.id = some record := by
  obtain ⟨v, hv, rfl⟩ := HeaderChecks.extendChain_ok h
  rw [extendBlock, bind_run_ok] at hv
  obtain ⟨layer, d, hprepare, hcommit⟩ := hv
  simp only [prepareBlock, payBlock, bind_run_ok, read_run_ok, lift_run_ok,
    update_run_ok, pure_run_ok, bind_eq_ok] at hprepare
  obtain ⟨_, _, ⟨rfl, rfl⟩, signee, _, ⟨-, rfl⟩, _, _, ⟨-, rfl⟩, _, _, ⟨-, rfl⟩, ⟨paid, record⟩,
    _, ⟨⟨produced, -, hpaid⟩, rfl⟩, _, _, rfl, filled, _, ⟨-, rfl⟩, _, _, hundo, -, rfl⟩ := hprepare
  simp only [commitBlock, markIncluded, bind_run_ok, read_run_ok, lift_run_ok,
    update_run_ok] at hcommit
  obtain ⟨_, u, happly, _, _, ⟨_, _, ⟨rfl, rfl⟩, f, _, ⟨-, rfl⟩, rfl⟩, _, _, rfl, rfl⟩ := hcommit
  refine ⟨signee, produced, paid, record, hpaid, ?_⟩
  have hblocks : u.blockIdToBlockRecordDb = _ :=
    congrArg BlockStore.blockIdToBlockRecordDb (applyChanges_applied happly).blocks
  change u.blockIdToBlockRecordDb.lookup block.id = some record
  rw [hblocks]
  refine (congrArg (·.lookup block.id) (saveUndoState_records hundo)).trans ?_
  exact (lookup_insert _ _ _ _).trans (if_pos rfl)

theorem created_le_scheduled (h : returns (advance block db)) :
    createdShares block db ≤ scheduled block db := by
  obtain ⟨d, hd, hextend⟩ := grow_ok h
  have hnow : d.now = db.now := by
    obtain ⟨forks, records, data, numbers, rfl⟩ := hd
    rfl
  obtain ⟨signee, produced, paid, record, hpays, hrecord⟩ := extendChain_record hextend
  obtain ⟨base, r, stats, p, hpaid, hshares⟩ := payDelegate_ok hpays
  unfold createdShares scheduled
  rw [hrecord, ← hnow]
  change record.signeeSharesIssued ≤ _
  rw [hshares]
  exact hpaid.divides.shares_le

/-- The fees cover what is destroyed of them, and no sum leaves `int64_t`. -/
structure PayRoom (db : ChainDatabase) (base : AssetRecord) (d : DelegateStats) : Prop where
  fees : 0 ≤ base.collectedFees
  least : Fits (base.currentShareSupply - base.collectedFees)
  most : Fits (base.currentShareSupply + getMaxDelegatePayIssuedPerBlock db.now)
  pay : Fits d.payBalance
  paid : Fits (d.payBalance + getMaxDelegatePayIssuedPerBlock db.now + base.collectedFees)

/-- The supply changes by as much as the pay of one delegate and the fees do: in the
arithmetic of `int64_t` always, and exactly where no sum leaves it. -/
def PayAddsUp (db : ChainDatabase) (c c' : ChainInterface) : Prop :=
  ∃ base base' r r' d d', c.getAssetRecord 0 = some base ∧ c'.getAssetRecord 0 = some base' ∧
    c.getAccountRecord r.id = some r ∧ c'.getAccountRecord r.id = some r' ∧
    r.delegateInfo = some d ∧ r'.delegateInfo = some d' ∧
    (∀ id, id ≠ r.id → c'.getAccountRecord id = c.getAccountRecord id) ∧
    base'.currentShareSupply = int64 (base.currentShareSupply + (d'.payBalance - d.payBalance) +
      (base'.collectedFees - base.collectedFees)) ∧
    (PayRoom db base d → base'.currentShareSupply = base.currentShareSupply +
      (d'.payBalance - d.payBalance) + (base'.collectedFees - base.collectedFees))

theorem payDelegate_addsUp {signee blockId : Nat} {record : BlockRecord}
    (h : payDelegate db l signee blockId = .ok (l', record)) :
    PayAddsUp db (.pending l (.database db)) (.pending l' (.database db)) := by
  obtain ⟨base, r, d, p, hpays, -⟩ := payDelegate_ok h
  refine ⟨base, _, r, _, d, _, hpays.known, hpays.supplied, hpays.account, hpays.paid,
    hpays.delegate, rfl, hpays.others, ?_, ?_⟩
  · have hfees := hpays.divides.fees_eq
    dsimp only
    unfold int64
    omega
  · intro hroom
    obtain ⟨hfees, hleast, hmost, hpay, hpaid⟩ := hroom
    obtain ⟨hshares, hsharesLe, hsum, hparts⟩ := hpays.divides
    unfold Fits at hleast hmost hpay hpaid
    have hsupply : int64 (base.currentShareSupply + p.sharesIssued - p.feesDestroyed) =
        base.currentShareSupply + p.sharesIssued - p.feesDestroyed :=
      int64_of_fits (by unfold Fits; omega)
    have hbalance : int64 (d.payBalance + (p.sharesIssued + p.feesCollected)) =
        d.payBalance + (p.sharesIssued + p.feesCollected) := int64_self
    dsimp only
    omega

/-- Along a run of accepted blocks the shares that `pay_delegate` creates stay within the
schedule, each of its calls adds up, and where the blocks are frugal the supply stays below
its limit if it left room for the schedule at the start. -/
theorem pay_within_schedule {blocks : List FullBlock} (hsound : Sound db)
    (hblocks : Meets grow (fun block d => returns (advance block d) ∧ Frugal block d) blocks db) :
    total grow createdShares blocks db ≤ total grow scheduled blocks db ∧
      (baseSupply db ≤ maxShares - total grow scheduled blocks db →
        ∀ n, baseSupply (run grow (blocks.take n) db) ≤ maxShares) ∧
      ∀ (d : ChainDatabase) (layer paid : PendingState) (signee blockId : Nat) (record : BlockRecord),
        forkBlockNumV0424 ≤ d.getHeadBlockNum →
          payDelegate d layer signee blockId = .ok (paid, record) →
            PayAddsUp d (.pending layer (.database d)) (.pending paid (.database d)) := by
  refine ⟨hblocks.total_le fun block d hb => created_le_scheduled hb.1, fun hstart n => ?_,
    fun d layer paid signee blockId record _ hpay => payDelegate_addsUp hpay⟩
  have hnonneg : ∀ (block : FullBlock) (d : ChainDatabase), 0 ≤ scheduled block d :=
    fun _ d => maxPay_nonneg d.now
  have htake : total grow scheduled (blocks.take n) db ≤ total grow scheduled blocks db :=
    total_take_le hnonneg blocks n db
  have hbound : baseSupply (run grow (blocks.take n) db) ≤
      baseSupply db + total grow scheduled (blocks.take n) db :=
    Meets.within hnonneg (fun _ _ hb hd hroom => grow_supply hb.1 hb.2 hd hroom) (hblocks.take n)
      hsound (by omega)
  omega

instance (block : FullBlock) (db : ChainDatabase) : Decidable (Frugal block db) :=
  decidable_of_iff (forkBlockNumV0424 ≤ db.getHeadBlockNum ∧
      (∀ trx ∈ block.userTransactions, ∀ op ∈ trx.operations, Fits (amountOf op)) ∧
      (∀ trx ∈ block.userTransactions, issued 0 trx.operations ≤ burned 0 trx.operations) ∧
      0 ≤ baseFees db ∧ baseFees db + destroyed block.userTransactions ≤ baseSupply db)
    ⟨fun ⟨hforked, hfits, hissues, hfees, hcovered⟩ => ⟨hforked, hfits, hissues, hfees, hcovered⟩,
      fun h => ⟨h.forked, h.fits, h.issues, h.fees, h.covered⟩⟩

end Model

def paidProducer : AccountRecord :=
  { producer with
    delegateInfo := some { signingKeyHistory := (∅ : Map Nat Nat).insert 1 7, payRate := 100 } }

/-- A chain whose only delegate takes the whole pay, with room in the supply for the pay of
two blocks. -/
def payChain : @ChainDatabase Fc.plain :=
  letI := Fc.plain
  { headChain headNum with
    accountDb := Table.empty.store paidProducer
    assetDb := Table.empty.store (Genesis.baseAsset 50 (maxShares - 10000000)) }

def twoBlocks (trxs : List SignedTransaction) : List FullBlock :=
  [{ previous := 5, blockNum := headNum + 1, timestamp := 1010
     transactionDigest := trxs.length, delegateSignature := 7, userTransactions := trxs },
    { previous := 1000 * (headNum + 1) + 7, blockNum := headNum + 2
      timestamp := 1020, delegateSignature := 7 }]

/-- Anyone issues the shares that the schedule has left to the second block. -/
def fillTrx : SignedTransaction where
  expiration := 1100
  operations := [.issueAsset { amount := ⟨5000000, 0⟩ },
    .deposit { amount := 5000000, condition := { assetId := 0, data := .signature 7 none } }]

theorem payChain_sound : @Sound Fc.plain payChain := by
  let := Fc.plain
  have hlookup (id : Int) : payChain.assetDb.lookup id =
      if id = 0 then some (Genesis.baseAsset 50 (maxShares - 10000000)) else none :=
    Table.lookup_store Table.empty _ id
  have hrecord (id : Int) (a : AssetRecord) (ha : payChain.assetDb.lookup id = some a) :
      id = 0 ∧ Genesis.baseAsset 50 (maxShares - 10000000) = a := by
    rw [hlookup] at ha
    split at ha
    next hid => exact ⟨hid, Option.some.inj ha⟩
    next => cases ha
  have hlast : (assetsOf (.database payChain)).last = none := by decide +kernel
  refine ⟨fun id a ha => ?_, ⟨fun id a ha => (hrecord id a ha).1.ge, fun n hn => ?_⟩,
    by decide +kernel⟩
  · rw [← (hrecord id a ha).2]
    decide
  · rw [hlast] at hn
    cases hn

theorem twoBlocks_frugal :
    letI := Fc.plain
    Meets grow (fun block d => returns (advance block d) ∧ Frugal block d) (twoBlocks []) payChain := by
  decide +kernel

theorem assets_kept_twoBlocks :
    letI := Fc.plain
    KeepsAssets payChain (run grow (twoBlocks [fillTrx]) payChain) :=
  letI := Fc.plain
  assets_kept payChain_sound (by decide +kernel)

theorem twoBlocks_scheduled :
    letI := Fc.plain
    total grow scheduled (twoBlocks []) payChain = 10000000 ∧
      baseSupply payChain ≤ maxShares - 10000000 := by
  decide +kernel

theorem pay_within_schedule_twoBlocks :
    letI := Fc.plain
    total grow createdShares (twoBlocks []) payChain ≤ 10000000 ∧
      ∀ n, baseSupply (run grow ((twoBlocks []).take n) payChain) ≤ maxShares := by
  let := Fc.plain
  obtain ⟨hcreated, hsupply, -⟩ := pay_within_schedule payChain_sound twoBlocks_frugal
  rw [twoBlocks_scheduled.1] at hcreated hsupply
  exact ⟨hcreated, hsupply twoBlocks_scheduled.2⟩

/-- After two accepted blocks the supply is above its limit, although it left room for the
schedule of both at the start. -/
theorem supply_exceeds_maxShares :
    letI := Fc.plain
    Meets grow (fun block d => returns (advance block d)) (twoBlocks [fillTrx]) payChain ∧
      baseSupply payChain ≤ maxShares - total grow scheduled (twoBlocks [fillTrx]) payChain ∧
      maxShares < baseSupply (run grow (twoBlocks [fillTrx]) payChain) := by
  decide +kernel

end Bts.Blockchain.DelegatePay
