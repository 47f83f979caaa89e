import Bts.Blockchain.AssetEffects
import Bts.Blockchain.ExtendChain

namespace Bts.Blockchain.Signatures

open Base Exec Result Maps Errors Amounts Records MarketRecords Transactions Pending Database Layers
  Evaluation Operations MarketOperations Evaluate Effects AssetEffects
  Changes ExtendChain

theorem foldlM_map_ok {ε σ α : Type} {f : σ → α → Except ε σ} {F : σ → σ}
    (hf : ∀ u a, f (F u) a = F <$> f u a) {l : List α} {u v : σ} (h : l.foldlM f u = .ok v) :
    l.foldlM f (F u) = .ok (F v) := by
  induction l generalizing u with
  | nil =>
    rw [foldlM_nil_eq_ok] at h ⊢
    rw [h]
  | cons a l ih =>
    rw [foldlM_cons_eq_ok] at h ⊢
    obtain ⟨w, hw, hrest⟩ := h
    refine ⟨F w, ?_, ih hrest⟩
    rw [hf, hw]
    rfl

theorem ok_of_map {ε σ : Type} {x y : Except ε σ} {F : σ → σ} {a : σ} (h : x = F <$> y)
    (hy : y = .ok a) : x = .ok (F a) := by
  rw [h, hy]
  rfl

section Model

variable [Fc] {s t : EvaluationState}

/-- What other signatures make different: the transaction, the keys that have signed it, and
the records of what is burnt, which name its id. -/
structure Signing where
  trx : SignedTransaction
  keys : Finset Nat
  burns : Map BurnRecordKey BurnRecordValue

def resign (g : Signing) (s : EvaluationState) : EvaluationState :=
  { s with trx := g.trx, signedKeys := g.keys, layer := { s.layer with burns := g.burns } }

variable {g : Signing}

theorem subBalance_resign (id : Nat) (amount : Asset) :
    (resign g s).subBalance id amount = resign g <$> s.subBalance id amount := by
  simp only [EvaluationState.subBalance, map_bind, map_pure]
  rfl

theorem addBalance_resign (amount : Asset) :
    (resign g s).addBalance amount = resign g <$> s.addBalance amount := by
  simp only [EvaluationState.addBalance, map_bind, map_pure]
  rfl

theorem adjustVote_resign (slateId : Nat) (amount : Int) :
    (resign g s).adjustVote slateId amount = resign g <$> s.adjustVote slateId amount := by
  unfold EvaluationState.adjustVote
  split
  · rfl
  · simp only [map_bind, map_pure]
    rfl

theorem addRequiredFees_resign (fee : Int) :
    (resign g s).addRequiredFees fee = resign g <$> s.addRequiredFees fee := by
  simp only [EvaluationState.addRequiredFees, map_bind, map_pure]
  rfl

theorem storeAccountRecord_resign (r : AccountRecord) :
    (resign g s).storeAccountRecord r = resign g <$> s.storeAccountRecord r := by
  simp only [EvaluationState.storeAccountRecord, PendingState.storeAccountRecord, map_bind, map_pure,
    bind_assoc, pure_bind]
  rfl

theorem updateDelegateVote_resign (vote : Int × Int) :
    (resign g s).updateDelegateVote vote = resign g <$> s.updateDelegateVote vote := by
  simp only [EvaluationState.updateDelegateVote, map_bind, storeAccountRecord_resign]
  rfl

theorem chargeTransactionFee_resign (assetId : Int) :
    (resign g s).chargeTransactionFee assetId = resign g <$> s.chargeTransactionFee assetId := by
  simp only [EvaluationState.chargeTransactionFee, map_bind, subBalance_resign, apply_ite, map_pure]
  rfl

theorem addAltFee_resign (assetId fee : Int) :
    (resign g s).addAltFee assetId fee = resign g <$> s.addAltFee assetId fee := by
  simp only [EvaluationState.addAltFee, map_bind, apply_ite, map_pure]
  rfl

theorem collectFee_resign (assetId fee : Int) :
    (resign g s).collectFee assetId fee = resign g <$> s.collectFee assetId fee := by
  simp only [EvaluationState.collectFee, map_bind, apply_ite, map_pure]
  rfl

theorem postEvaluate_resign (h : s.postEvaluate = .ok t) :
    (resign g s).postEvaluate = .ok (resign g t) := by
  simp only [EvaluationState.postEvaluate, bind_eq_ok] at h ⊢
  obtain ⟨u, hu, v, hv, ht⟩ := h
  refine ⟨resign g u, ?_, resign g v, ?_, ?_⟩
  · exact foldlM_map_ok (fun _ e => chargeTransactionFee_resign e.1) hu
  · exact foldlM_map_ok (fun _ e => addAltFee_resign e.1 e.2) hv
  · exact foldlM_map_ok (fun _ e => collectFee_resign e.1 e.2) ht

theorem updateDelegateVotes_resign (h : s.updateDelegateVotes = .ok t) :
    (resign g s).updateDelegateVotes = .ok (resign g t) :=
  foldlM_map_ok (fun _ e => updateDelegateVote_resign (e.1, e.2)) h

theorem checkSignature_resign (hkeys : s.signedKeys ⊆ g.keys) {a : Nat} (h : s.checkSignature a) :
    (resign g s).checkSignature a :=
  h.imp_right fun ha => hkeys ha

variable {siginfo : MultisigMetaInfo} {r : AccountRecord} {y : EvaluationState × AccountRecord}
  {op : CreateAssetOperation} {ops : List Operation}

theorem verifyAuthority_mono (hsigned : ∀ a, s.checkSignature a → t.checkSignature a)
    (h : s.verifyAuthority siginfo) : t.verifyAuthority siginfo :=
  Nat.le_trans h (Finset.card_le_card
    (Finset.monotone_filter_right _ fun a _ ha => hsigned a ha))

section

variable (hkeys : s.signedKeys ⊆ g.keys)
include hkeys

theorem verifyAuthority_resign (h : s.verifyAuthority siginfo) :
    (resign g s).verifyAuthority siginfo :=
  verifyAuthority_mono (fun _ => checkSignature_resign hkeys) h

theorem hasSigned_resign (h : s.hasSigned r) : (resign g s).hasSigned r :=
  h.imp_right fun h => h.imp (checkSignature_resign hkeys) (checkSignature_resign hkeys)

theorem anyParentHasSigned_resign {name : String}
    (h : s.anyParentHasSigned name = true) :
    (resign g s).anyParentHasSigned name = true := by
  unfold EvaluationState.anyParentHasSigned at h ⊢
  rw [List.any_eq_true] at h ⊢
  obtain ⟨parent, hparent, hany⟩ := h
  refine ⟨parent, hparent, ?_⟩
  rw [Option.any_eq_true] at hany ⊢
  obtain ⟨r, hr, hsigned⟩ := hany
  refine ⟨r, hr, ?_⟩
  rw [decide_eq_true_eq] at hsigned ⊢
  exact hasSigned_resign hkeys hsigned

theorem accountOrAnyParentHasSigned_resign
    (h : s.accountOrAnyParentHasSigned r) :
    (resign g s).accountOrAnyParentHasSigned r :=
  h.imp (hasSigned_resign hkeys) (anyParentHasSigned_resign hkeys)

theorem checkWithdrawCondition_resign {r : BalanceRecord}
    (h : checkWithdrawCondition s r = .ok ()) :
    checkWithdrawCondition (resign g s) r = .ok () := by
  unfold checkWithdrawCondition at h ⊢
  split at h
  · rw [require_eq_ok] at h ⊢
    exact checkSignature_resign hkeys h
  all_goals exact absurd h throw_eq_ok

theorem checkWithdraw_resign {a : AssetRecord} {r : BalanceRecord}
    (h : checkWithdraw s a r = .ok ()) : checkWithdraw (resign g s) a r = .ok () := by
  unfold checkWithdraw at h ⊢
  split
  next => rfl
  next hnew =>
    have hold : ¬ (a.isRetractable ∧ s.verifyAuthority a.authority) :=
      fun hsigned => hnew ⟨hsigned.1, verifyAuthority_resign hkeys hsigned.2⟩
    rw [if_neg hold] at h
    simp only [bind_eq_ok] at h ⊢
    obtain ⟨u, hfrozen, v, hauth, hcondition⟩ := h
    exact ⟨u, hfrozen, v, hauth, checkWithdrawCondition_resign hkeys hcondition⟩

end

theorem payYield_resign {a : AssetRecord} {r : BalanceRecord} {y : EvaluationState × BalanceRecord}
    (h : payYield s a r = .ok y) :
    payYield (resign g s) a r = .ok (resign g y.1, y.2) := by
  unfold payYield at h ⊢
  split at h
  next hmarket =>
    rw [if_pos hmarket]
    simp only [bind_eq_ok] at h ⊢
    obtain ⟨yield, hyield, hrest⟩ := h
    refine ⟨yield, hyield, ?_⟩
    split at hrest
    next hpositive =>
      rw [if_pos hpositive]
      rw [pure_eq_ok] at hrest ⊢
      rw [← hrest]
      rfl
    next hnone =>
      rw [if_neg hnone]
      rw [pure_eq_ok] at hrest ⊢
      rw [← hrest]
  next hmarket =>
    rw [if_neg hmarket]
    rw [pure_eq_ok] at h ⊢
    rw [← h]

/-- An evaluation that does the same when more keys have signed. -/
def Resigns (g : Signing) (f : EvaluationState → Except ChainError EvaluationState) : Prop :=
  ∀ s t, s.signedKeys ⊆ g.keys → f s = .ok t → f (resign g s) = .ok (resign g t)

theorem withdraw_resign (op : WithdrawOperation) : Resigns g (WithdrawOperation.evaluate op) := by
  intro s t hkeys h
  simp only [WithdrawOperation.evaluate, eq_ok_iff] at h ⊢
  obtain ⟨_, hpos, r, hr, spendable, hspendable, _, hfunds, a, ha, _, hcheck, u, hvote, y, hyield, v,
    hadd, rfl⟩ := h
  refine ⟨(), hpos, r, hr, spendable, hspendable, (), hfunds, a, ha, (), checkWithdraw_resign hkeys hcheck,
    resign g u, ok_of_map (adjustVote_resign _ _) hvote,
    (resign g y.1, y.2), payYield_resign hyield, resign g v,
    ok_of_map (addBalance_resign _) hadd, rfl⟩

theorem deposit_resign (op : DepositOperation) : Resigns g (DepositOperation.evaluate op) := by
  intro s t _ h
  simp only [DepositOperation.evaluate, eq_ok_iff] at h ⊢
  obtain ⟨_, hpos, _, hcondition, date, hdate, u, hsub, v, hvote, a, ha, _, hslate, _, hauth, rfl⟩ := h
  exact ⟨(), hpos, (), hcondition, date, hdate, resign g u,
    ok_of_map (subBalance_resign _ _) hsub, resign g v,
    ok_of_map (adjustVote_resign _ _) hvote, a, ha, (), hslate, (), hauth, rfl⟩

theorem makeDelegate_resign {payRate key : Nat} (h : makeDelegate s r payRate key = .ok y) :
    makeDelegate (resign g s) r payRate key = .ok (resign g y.1, y.2) := by
  simp only [makeDelegate, eq_ok_iff] at h ⊢
  obtain ⟨d, hd, fee, hfee, u, hu, rfl⟩ := h
  exact ⟨d, hd, fee, hfee, resign g u,
    ok_of_map (addRequiredFees_resign fee) hu, rfl⟩

theorem registerDelegate_resign {payRate key : Nat} (h : registerDelegate s r payRate key = .ok y) :
    registerDelegate (resign g s) r payRate key = .ok (resign g y.1, y.2) := by
  unfold registerDelegate at h ⊢
  split at h
  next hrate =>
    rw [if_pos hrate]
    exact makeDelegate_resign h
  next hrate =>
    rw [if_neg hrate]
    rw [pure_eq_ok] at h ⊢
    rw [← h]

theorem registerAccount_resign (op : RegisterAccountOperation) :
    Resigns g (RegisterAccountOperation.evaluate op) := by
  intro s t hkeys h
  simp only [RegisterAccountOperation.evaluate, eq_ok_iff] at h ⊢
  obtain ⟨_, hname, _, hfree, _, howner, _, hactive, _, hparent, last, hlast, r, hr, y, hy, hstore⟩ := h
  refine ⟨(), hname, (), hfree, (), howner, (), hactive, (),
    fun hsome => anyParentHasSigned_resign hkeys (hparent hsome), last, hlast, r, hr,
    (resign g y.1, y.2), registerDelegate_resign hy, ?_⟩
  exact ok_of_map (storeAccountRecord_resign y.2) hstore

theorem replaceActiveKey_resign (hkeys : s.signedKeys ⊆ g.keys) {r r' : AccountRecord} {key : Nat}
    (h : replaceActiveKey s r key = .ok r') :
    replaceActiveKey (resign g s) r key = .ok r' := by
  simp only [replaceActiveKey, eq_ok_iff] at h ⊢
  obtain ⟨_, hfree, _, hsigned, r'', hr, _, hdelegate, _, hpay, hrest⟩ := h
  exact ⟨(), hfree, (), hsigned.imp (checkSignature_resign hkeys) (anyParentHasSigned_resign hkeys),
    r'', hr, (), hdelegate, (), hpay, hrest⟩

theorem updateActiveKey_resign (hkeys : s.signedKeys ⊆ g.keys) {r r' : AccountRecord}
    {key : Option Nat} (h : updateActiveKey s r key = .ok r') :
    updateActiveKey (resign g s) r key = .ok r' := by
  have hkeep (h : updateActiveKey.keepActiveKey s r = .ok r') :
      updateActiveKey.keepActiveKey (resign g s) r = .ok r' := by
    simp only [updateActiveKey.keepActiveKey, eq_ok_iff] at h ⊢
    obtain ⟨_, hsigned, hr⟩ := h
    exact ⟨(), accountOrAnyParentHasSigned_resign hkeys hsigned, hr⟩
  unfold updateActiveKey at h ⊢
  split at h
  next key =>
    split at h
    next hne =>
      rw [if_pos hne]
      exact replaceActiveKey_resign hkeys h
    next heq =>
      rw [if_neg heq]
      exact hkeep h
  next => exact hkeep h

theorem updateDelegate_resign {payRate : Nat} (h : updateDelegate s r payRate = .ok y) :
    updateDelegate (resign g s) r payRate = .ok (resign g y.1, y.2) := by
  simp only [updateDelegate, eq_ok_iff] at h ⊢
  obtain ⟨_, hrate, hrest⟩ := h
  refine ⟨(), hrate, ?_⟩
  split at hrest
  next => exact registerDelegate_resign hrest
  next d hd =>
    simp only [eq_ok_iff] at hrest ⊢
    obtain ⟨_, hle, rfl⟩ := hrest
    exact ⟨(), hle, rfl⟩

theorem updateAccount_resign (op : UpdateAccountOperation) :
    Resigns g (UpdateAccountOperation.evaluate op) := by
  intro s t hkeys h
  simp only [UpdateAccountOperation.evaluate, eq_ok_iff] at h ⊢
  obtain ⟨r, hr, _, hretracted, r', hr', y, hy, hstore⟩ := h
  refine ⟨r, hr, (), hretracted, r', updateActiveKey_resign hkeys hr',
    (resign g y.1, y.2), updateDelegate_resign hy, ?_⟩
  exact ok_of_map (storeAccountRecord_resign _) hstore

theorem withdrawPay_resign (op : WithdrawPayOperation) :
    Resigns g (WithdrawPayOperation.evaluate op) := by
  intro s t hkeys h
  simp only [WithdrawPayOperation.evaluate, eq_ok_iff] at h ⊢
  obtain ⟨_, hpos, r, hr, d, hd, _, hfunds, _, hsigned, u, hadd, hstore⟩ := h
  refine ⟨(), hpos, r, hr, d, hd, (), hfunds, (), accountOrAnyParentHasSigned_resign hkeys hsigned,
    resign g u, ?_, ok_of_map (storeAccountRecord_resign _) hstore⟩
  exact ok_of_map (addBalance_resign (s := { s with netDelegateVotes := _ }) _) hadd

theorem updateBlockSigningKey_resign (op : UpdateBlockSigningKey) :
    Resigns g (UpdateBlockSigningKey.evaluate op) := by
  intro s t hkeys h
  simp only [UpdateBlockSigningKey.evaluate, eq_ok_iff] at h ⊢
  obtain ⟨_, hfork, r, hr, _, hretracted, _, hdelegate, _, hfree, key, hkey, _, hsigned, r', hr',
    hstore⟩ := h
  refine ⟨(), hfork, r, hr, (), hretracted, (), hdelegate, (), hfree, key, hkey, (),
    hsigned.imp (checkSignature_resign hkeys) (accountOrAnyParentHasSigned_resign hkeys), r', hr', ?_⟩
  exact ok_of_map (storeAccountRecord_resign _) hstore

theorem updateFeed_resign (op : UpdateFeedOperation) : Resigns g (UpdateFeedOperation.evaluate op) := by
  intro s t hkeys h
  simp only [UpdateFeedOperation.evaluate, eq_ok_iff] at h ⊢
  obtain ⟨r, hr, _, hretracted, _, hdelegate, key, hkey, _, hsigned, rfl⟩ := h
  exact ⟨r, hr, (), hretracted, (), hdelegate, key, hkey, (),
    hsigned.imp (checkSignature_resign hkeys) (accountOrAnyParentHasSigned_resign hkeys), rfl⟩

theorem checkParentSymbol_resign (hkeys : s.signedKeys ⊆ g.keys) {symbol : String}
    (h : checkParentSymbol s symbol = .ok ()) :
    checkParentSymbol (resign g s) symbol = .ok () := by
  unfold checkParentSymbol at h ⊢
  split at h
  next hdot =>
    rw [if_pos hdot]
    simp only [eq_ok_iff] at h ⊢
    obtain ⟨a, ha, hauth⟩ := h
    exact ⟨a, ha, verifyAuthority_resign hkeys hauth⟩
  next hdot =>
    rw [if_neg hdot]
    rfl

theorem createAsset_parent (h : CreateAssetOperation.evaluate op s = .ok t) :
    checkParentSymbol s op.symbol = .ok () := by
  simp only [CreateAssetOperation.evaluate, bind_eq_ok] at h
  obtain ⟨_, -, _, -, _, hparent, -⟩ := h
  exact hparent

theorem createAsset_resign
    (hparent : checkParentSymbol (resign g s) op.symbol = .ok ())
    (h : CreateAssetOperation.evaluate op s = .ok t) :
    CreateAssetOperation.evaluate op (resign g s) = .ok (resign g t) := by
  simp only [CreateAssetOperation.evaluate, eq_ok_iff] at h ⊢
  obtain ⟨valid, hvalid, _, hsymbol, _, _, _, hfree, _, hname, last, hlast, _, hid, authority,
    hauthority, _, hmax, _, hprecision, u, hu, rfl⟩ := h
  exact ⟨valid, hvalid, (), hsymbol, (), hparent, (), hfree, (), hname, last, hlast, (), hid, authority,
    hauthority, (), hmax, (), hprecision, resign g u,
    ok_of_map (addRequiredFees_resign _) hu, rfl⟩

theorem issueAsset_resign (op : IssueAssetOperation) : Resigns g (IssueAssetOperation.evaluate op) := by
  intro s t hkeys h
  simp only [IssueAssetOperation.evaluate, eq_ok_iff] at h ⊢
  obtain ⟨a, ha, _, hissued, _, hauth, _, hpos, _, hcan, u, hu, rfl⟩ := h
  exact ⟨a, ha, (), hissued, (), verifyAuthority_resign hkeys hauth, (), hpos, (), hcan,
    resign g u, ok_of_map (addBalance_resign _) hu, rfl⟩

theorem defineDelegateSlate_resign (op : DefineDelegateSlateOperation) :
    Resigns g (DefineDelegateSlateOperation.evaluate op) := by
  intro s t _ h
  simp only [DefineDelegateSlateOperation.evaluate, eq_ok_iff] at h ⊢
  obtain ⟨_, hsize, hrest⟩ := h
  refine ⟨(), hsize, ?_⟩
  split at hrest
  next hknown =>
    refine (if_pos hknown).trans ?_
    rw [pure_eq_ok] at hrest ⊢
    rw [hrest]
  next hnew =>
    refine (if_neg hnew).trans ?_
    simp only [eq_ok_iff] at hrest ⊢
    obtain ⟨_, hdelegates, rfl⟩ := hrest
    exact ⟨(), hdelegates, rfl⟩

theorem changeOrder_resign {amount : Int} {delta : Asset} {current : Option OrderRecord}
    {y : EvaluationState × OrderRecord} (h : changeOrder s amount delta current = .ok y) :
    changeOrder (resign g s) amount delta current = .ok (resign g y.1, y.2) := by
  unfold changeOrder at h ⊢
  split at h
  next hneg =>
    rw [if_pos hneg]
    simp only [eq_ok_iff] at h ⊢
    obtain ⟨order, horder, _, hfunds, u, hu, rfl⟩ := h
    exact ⟨order, horder, (), hfunds, resign g u,
      ok_of_map (addBalance_resign _) hu, rfl⟩
  next hneg =>
    rw [if_neg hneg]
    simp only [eq_ok_iff] at h ⊢
    obtain ⟨u, hu, rfl⟩ := h
    exact ⟨resign g u, ok_of_map (subBalance_resign _ _) hu, rfl⟩

theorem short_resign (op : ShortOperation) : Resigns g (ShortOperation.evaluate op) := by
  intro s t hkeys h
  simp only [ShortOperation.evaluate, eq_ok_iff] at h ⊢
  obtain ⟨_, hrate, _, hordered, _, hbase, _, hasset, a, ha, _, hmarket, _, hzero, _, hsigned, y, hy, _,
    hbalance, rfl⟩ := h
  exact ⟨(), hrate, (), hordered, (), hbase, (), hasset, a, ha, (), hmarket, (), hzero, (),
    fun hneg => checkSignature_resign hkeys (hsigned hneg), (resign g y.1, y.2),
    changeOrder_resign hy, (), hbalance, rfl⟩

theorem settleCover_resign {op : CoverOperation} {cover : CollateralRecord}
    (h : settleCover op cover s = .ok t) :
    settleCover op cover (resign g s) = .ok (resign g t) := by
  unfold settleCover at h ⊢
  split at h
  next hleft =>
    rw [if_pos hleft]
    simp only [eq_ok_iff] at h ⊢
    obtain ⟨index, hindex, rfl⟩ := h
    exact ⟨index, hindex, rfl⟩
  next hleft =>
    rw [if_neg hleft]
    exact ok_of_map (addBalance_resign _) h

theorem cover_resign (op : CoverOperation) : Resigns g (CoverOperation.evaluate op) := by
  intro s t hkeys h
  simp only [CoverOperation.evaluate, eq_ok_iff] at h ⊢
  obtain ⟨_, hprice, _, hzero, _, hpos, _, hsigned, u, hu, cover, hcover, a, ha, payment, hpayment, _,
    hrate, hsettle⟩ := h
  refine ⟨(), hprice, (), hzero, (), hpos, (), checkSignature_resign hkeys hsigned,
    resign g u, ok_of_map (subBalance_resign _ _) hu, cover, hcover, a, ha,
    payment, hpayment, (), hrate, ?_⟩
  exact settleCover_resign hsettle

theorem addCollateral_resign (op : AddCollateralOperation) :
    Resigns g (AddCollateralOperation.evaluate op) := by
  intro s t _ h
  simp only [AddCollateralOperation.evaluate, eq_ok_iff] at h ⊢
  obtain ⟨_, hprice, _, hzero, _, hpos, u, hu, cover, hcover, price, hcall, rfl⟩ := h
  exact ⟨(), hprice, (), hzero, (), hpos, resign g u,
    ok_of_map (subBalance_resign _ _) hu, cover, hcover, price, hcall, rfl⟩

def paidAsset : Operation → Option Int
  | .bid op => some op.bidIndex.orderPrice.quoteAssetId
  | .ask op => some op.askIndex.orderPrice.baseAssetId
  | _ => none

def retractor (c : ChainInterface) (id : Int) : Option MultisigMetaInfo :=
  (c.getAssetRecord id).bind fun a => if a.isRetractable then some a.authority else none

/-- The issuer of a retractable asset has signed the transaction of an order that pays it. -/
def Overrides (s : EvaluationState) (op : Operation) : Prop :=
  ∃ id ∈ paidAsset op, ∃ siginfo ∈ retractor s.currentState id, s.verifyAuthority siginfo
  deriving Decidable

theorem retractor_eq_some {c : ChainInterface} {id : Int} :
    retractor c id = some siginfo ↔
      ∃ a, c.getAssetRecord id = some a ∧ a.isRetractable ∧ a.authority = siginfo := by
  unfold retractor
  rw [Option.bind_eq_some_iff]
  constructor
  · rintro ⟨a, ha, hif⟩
    split at hif
    next hflag =>
      cases hif
      exact ⟨a, ha, hflag, rfl⟩
    next => cases hif
  · rintro ⟨a, ha, hflag, rfl⟩
    exact ⟨a, ha, if_pos hflag⟩

theorem checkOrder_not_override {index : MarketIndexKey}
    {pays : AssetRecord → AssetRecord → AssetRecord} (h : checkOrder s index pays = .ok ())
    {base quote : AssetRecord}
    (hbase : s.currentState.getAssetRecord index.orderPrice.baseAssetId = some base)
    (hquote : s.currentState.getAssetRecord index.orderPrice.quoteAssetId = some quote) :
    ¬ ((pays base quote).isRetractable ∧ s.verifyAuthority (pays base quote).authority) := by
  simp only [checkOrder, eq_ok_iff] at h
  obtain ⟨_, -, b, hb, q, hq, _, -, _, -, _, -, hoverride, -⟩ := h
  cases hb.symm.trans hbase
  cases hq.symm.trans hquote
  exact of_decide_eq_false hoverride

theorem checkOrder_resign (hkeys : s.signedKeys ⊆ g.keys) {index : MarketIndexKey}
    {pays : AssetRecord → AssetRecord → AssetRecord} (h : checkOrder s index pays = .ok ())
    (hno : ∀ base quote, s.currentState.getAssetRecord index.orderPrice.baseAssetId = some base →
      s.currentState.getAssetRecord index.orderPrice.quoteAssetId = some quote →
      ¬ ((pays base quote).isRetractable ∧
        (resign g s).verifyAuthority (pays base quote).authority)) :
    checkOrder (resign g s) index pays = .ok () := by
  simp only [checkOrder, eq_ok_iff] at h ⊢
  obtain ⟨_, hprice, base, hbase, quote, hquote, _, htrader, _, htrader', _, hsigned, hoverride,
    hfrozen⟩ := h
  refine ⟨(), hprice, base, hbase, quote, hquote, (), htrader, (), htrader', (), ?_,
    decide_eq_false (hno base quote hbase hquote), hfrozen⟩
  refine Or.inr (checkSignature_resign hkeys (hsigned.resolve_left ?_))
  rw [hoverride]
  exact Bool.false_ne_true

theorem bid_resign (hkeys : s.signedKeys ⊆ g.keys) {op : BidOperation}
    (h : BidOperation.evaluate op s = .ok t)
    (hno : ¬ Overrides (resign g s) (.bid op)) :
    BidOperation.evaluate op (resign g s) = .ok (resign g t) := by
  simp only [BidOperation.evaluate, eq_ok_iff] at h ⊢
  obtain ⟨_, hcheck, _, hasset, _, hzero, y, hy, rfl⟩ := h
  refine ⟨(), checkOrder_resign hkeys hcheck ?_, (), hasset, (), hzero, (resign g y.1, y.2),
    changeOrder_resign hy, rfl⟩
  rintro _ quote - hquote ⟨hflag, hauth⟩
  exact hno ⟨_, rfl, quote.authority, retractor_eq_some.mpr ⟨quote, hquote, hflag, rfl⟩, hauth⟩

theorem ask_resign (hkeys : s.signedKeys ⊆ g.keys) {op : AskOperation}
    (h : AskOperation.evaluate op s = .ok t)
    (hno : ¬ Overrides (resign g s) (.ask op)) :
    AskOperation.evaluate op (resign g s) = .ok (resign g t) := by
  simp only [AskOperation.evaluate, eq_ok_iff] at h ⊢
  obtain ⟨_, hcheck, _, hasset, _, hzero, y, hy, _, hbalance, rfl⟩ := h
  refine ⟨(), checkOrder_resign hkeys hcheck ?_, (), hasset, (), hzero, (resign g y.1, y.2),
    changeOrder_resign hy, (), hbalance, rfl⟩
  rintro base _ hbase - ⟨hflag, hauth⟩
  exact hno ⟨_, rfl, base.authority, retractor_eq_some.mpr ⟨base, hbase, hflag, rfl⟩, hauth⟩

def burnValue (op : BurnOperation) : BurnRecordValue :=
  { amount := op.amount, message := op.message, signer := op.messageSignature }

def burnInto (id : Nat) (burns : Map BurnRecordKey BurnRecordValue) :
    Operation → Map BurnRecordKey BurnRecordValue
  | .burn op => burns.insert { accountId := op.accountId, transactionId := id } (burnValue op)
  | _ => burns

def Signing.burn (g : Signing) (op : Operation) : Signing :=
  { g with burns := burnInto g.trx.id g.burns op }

theorem burn_resign {op : BurnOperation} (h : BurnOperation.evaluate op s = .ok t) :
    BurnOperation.evaluate op (resign g s) =
      .ok (resign (g.burn (.burn op)) t) := by
  simp only [BurnOperation.evaluate, eq_ok_iff] at h ⊢
  obtain ⟨_, hmessage, _, hfee, a, ha, _, hissued, u, hu, _, haccount, rfl⟩ := h
  exact ⟨(), hmessage, (), hfee, a, ha, (), hissued, resign g u,
    ok_of_map (subBalance_resign _ _) hu, (), haccount, rfl⟩

/-- An operation with more signatures does the same, if these are not those of an issuer who
could retract what an order pays. -/
theorem evaluateNext_resign (hkeys : s.signedKeys ⊆ g.keys) {op : Operation}
    (h : evaluateNext s op = .ok t) (hno : ¬ Overrides (resign g s) op) :
    evaluateNext (resign g s) op =
      .ok (resign (g.burn op) t) := by
  simp only [evaluateNext, eq_ok_iff] at h ⊢
  obtain ⟨u, hu, rfl⟩ := h
  refine ⟨resign (g.burn op) u, ?_, rfl⟩
  cases op with
  | withdraw op => exact withdraw_resign op _ _ hkeys hu
  | deposit op => exact deposit_resign op _ _ hkeys hu
  | registerAccount op => exact registerAccount_resign op _ _ hkeys hu
  | updateAccount op => exact updateAccount_resign op _ _ hkeys hu
  | withdrawPay op => exact withdrawPay_resign op _ _ hkeys hu
  | updateBlockSigningKey op => exact updateBlockSigningKey_resign op _ _ hkeys hu
  | createAsset op =>
    exact createAsset_resign (checkParentSymbol_resign hkeys (createAsset_parent hu)) hu
  | issueAsset op => exact issueAsset_resign op _ _ hkeys hu
  | bid op => exact bid_resign hkeys hu hno
  | ask op => exact ask_resign hkeys hu hno
  | short op => exact short_resign op _ _ hkeys hu
  | cover op => exact cover_resign op _ _ hkeys hu
  | addCollateral op => exact addCollateral_resign op _ _ hkeys hu
  | defineDelegateSlate op => exact defineDelegateSlate_resign op _ _ hkeys hu
  | updateFeed op => exact updateFeed_resign op _ _ hkeys hu
  | burn op => exact burn_resign hu
  | disabled op data => exact absurd hu throw_eq_ok
  | unregistered type data => exact absurd hu throw_eq_ok

theorem evaluateNext_not_override {op : Operation} (h : evaluateNext s op = .ok t) :
    ¬ Overrides s op := by
  rintro ⟨id, hid, siginfo, hretractor, hauth⟩
  obtain ⟨a, ha, hflag, rfl⟩ := retractor_eq_some.mp hretractor
  simp only [evaluateNext, bind_eq_ok] at h
  obtain ⟨u, hu, -⟩ := h
  cases op with
  | bid op =>
    cases hid
    simp only [evaluateOperation, BidOperation.evaluate, bind_eq_ok] at hu
    obtain ⟨_, hcheck, -⟩ := hu
    have hbase := hcheck
    simp only [checkOrder, eq_ok_iff] at hbase
    obtain ⟨_, -, base, hbase, -⟩ := hbase
    exact checkOrder_not_override hcheck hbase ha ⟨hflag, hauth⟩
  | ask op =>
    cases hid
    simp only [evaluateOperation, AskOperation.evaluate, bind_eq_ok] at hu
    obtain ⟨_, hcheck, -⟩ := hu
    have hquote := hcheck
    simp only [checkOrder, eq_ok_iff] at hquote
    obtain ⟨_, -, _, -, quote, hquote, -⟩ := hquote
    exact checkOrder_not_override hcheck ha hquote ⟨hflag, hauth⟩
  | _ => cases hid

theorem createAsset_flags (h : CreateAssetOperation.evaluate op s = .ok t) {id : Int}
    {a : AssetRecord} (ha : t.currentState.getAssetRecord id = some a) :
    s.currentState.getAssetRecord id = some a ∨ a.flags = 0 := by
  simp only [CreateAssetOperation.evaluate, eq_ok_iff] at h
  obtain ⟨_, -, _, -, _, -, _, -, _, -, last, -, _, -, authority, -, _, -, _, -, u, hu, rfl⟩ := h
  obtain ⟨b, rfl⟩ := EvaluationState.addRequiredFees_ok hu
  have hread := (getAssetRecord_store _ _ _ id).symm.trans ha
  split at hread
  next =>
    cases hread
    exact Or.inr rfl
  next => exact Or.inl hread

theorem retractor_congr {c c' : ChainInterface} {id : Int} {a a' : AssetRecord}
    (h : c.getAssetRecord id = some a) (h' : c'.getAssetRecord id = some a')
    (hissuer : a'.issuerAccountId = a.issuerAccountId) (hflags : a'.flags = a.flags)
    (hauthority : a'.authority = a.authority) : retractor c' id = retractor c id := by
  unfold retractor
  rw [h, h']
  simp only [Option.bind_some, AssetRecord.hasFlag, AssetRecord.isUserIssued, hissuer, hflags,
    hauthority]

theorem evaluateNext_retractor {op : Operation} (h : evaluateNext s op = .ok t) (id : Int) :
    retractor t.currentState id = retractor s.currentState id := by
  obtain ⟨hctx, heffect⟩ := evaluateNext_effect h
  have hstep := effect_assetStep heffect id
  have hread : (ChainInterface.pending t.layer s.prev).getAssetRecord id =
      t.currentState.getAssetRecord id := by
    rw [← hctx.prev]
    rfl
  rw [hread] at hstep
  generalize hs : s.currentState.getAssetRecord id = x at hstep
  generalize ht : t.currentState.getAssetRecord id = y at hstep
  cases hstep with
  | same =>
    unfold retractor
    rw [hs, ht]
  | fees | issue | cover | burn => exact retractor_congr hs ht rfl rfl rfl
  | create op a =>
    simp only [evaluateNext, eq_ok_iff] at h
    obtain ⟨u, hu, rfl⟩ := h
    have hflags := (createAsset_flags hu ht).resolve_left (by simp [hs])
    unfold retractor
    rw [hs, ht]
    simp [AssetRecord.hasFlag, hflags]

theorem Overrides.congr {op : Operation} (h : Overrides s op)
    (hretractor : ∀ id, retractor t.currentState id = retractor s.currentState id)
    (hskip : t.skipSignatureCheck = s.skipSignatureCheck) (hsigned : t.signedKeys = s.signedKeys) :
    Overrides t op := by
  obtain ⟨id, hid, siginfo, hsiginfo, hauth⟩ := h
  refine ⟨id, hid, siginfo, (hretractor id).trans hsiginfo, verifyAuthority_mono (fun a ha => ?_) hauth⟩
  unfold EvaluationState.checkSignature at ha ⊢
  rw [hskip, hsigned]
  exact ha

theorem operations_not_override (h : ops.foldlM evaluateNext s = .ok t) :
    ∀ op ∈ ops, ¬ Overrides s op := by
  induction ops, s, h using foldlM_induct with
  | nil => exact fun op hop => absurd hop List.not_mem_nil
  | cons op ops s u hu hrest ih =>
    have hctx := (evaluateNext_effect hu).1
    rw [List.forall_mem_cons]
    refine ⟨evaluateNext_not_override hu, fun op' hop' hover => ih op' hop' ?_⟩
    exact hover.congr (evaluateNext_retractor hu) hctx.skipSignatureCheck hctx.signedKeys

def burnAll (id : Nat) (ops : List Operation) (burns : Map BurnRecordKey BurnRecordValue) :
    Map BurnRecordKey BurnRecordValue :=
  ops.foldl (burnInto id) burns

/-- The operations of a transaction, by induction on their list. The keys that have signed and
the assets that can be retracted are the same all along. -/
theorem operations_resign (hkeys : s.signedKeys ⊆ g.keys) (h : ops.foldlM evaluateNext s = .ok t)
    (hno : ∀ op ∈ ops, ¬ Overrides (resign g s) op) :
    ops.foldlM evaluateNext (resign g s) =
      .ok (resign { g with burns := burnAll g.trx.id ops g.burns } t) := by
  induction ops generalizing s g with
  | nil =>
    rw [foldlM_nil_eq_ok] at h ⊢
    rw [h]
    rfl
  | cons op ops ih =>
    rw [foldlM_cons_eq_ok] at h ⊢
    obtain ⟨u, hu, hrest⟩ := h
    rw [List.forall_mem_cons] at hno
    have hctx := (evaluateNext_effect hu).1
    refine ⟨resign (g.burn op) u, evaluateNext_resign hkeys hu hno.1, ?_⟩
    refine ih (hctx.signedKeys ▸ hkeys) hrest fun op' hop' hover => hno.2 op' hop' ?_
    refine hover.congr (fun id => ?_) hctx.skipSignatureCheck.symm rfl
    exact (evaluateNext_retractor hu id).symm

theorem mem_recoverKeys {digest : Nat} {signatures : List Nat} {start found : Finset Nat}
    (h : signatures.foldlM (fun keys signature => do
      let key ← orThrow (Fc.publicKey digest signature) ChainError.invalidSignature
      pure (keys ∪ keyAddresses key)) start = .ok found) (a : Nat) :
    a ∈ found ↔ a ∈ start ∨ ∃ signature ∈ signatures, ∃ key,
      Fc.publicKey digest signature = some key ∧ a ∈ keyAddresses key := by
  induction signatures, start, h using foldlM_induct with
  | nil => simp
  | cons signature signatures start next hnext hrest ih =>
    simp only [eq_ok_iff] at hnext
    obtain ⟨key, hkey, rfl⟩ := hnext
    simp [ih, hkey, or_assoc]

theorem signedKeysOf_mono {skip : Bool} {digest : Nat} {signatures more : List Nat}
    {found keys : Finset Nat} (hmore : signatures ⊆ more)
    (h : signedKeysOf skip digest signatures = .ok found)
    (h' : signedKeysOf skip digest more = .ok keys) : found ⊆ keys := by
  unfold signedKeysOf at h h'
  split at h
  next hskip =>
    cases h
    exact Finset.empty_subset _
  next hskip =>
    rw [if_neg hskip] at h'
    intro a ha
    rw [mem_recoverKeys h] at ha
    rw [mem_recoverKeys h']
    refine Or.inr ?_
    obtain ⟨signature, hsignature, hkey⟩ := ha.resolve_left (Finset.notMem_empty a)
    exact ⟨signature, hmore hsignature, hkey⟩

def signing (s : EvaluationState) : Signing := ⟨s.trx, s.signedKeys, s.layer.burns⟩

theorem burns_of_resign (g : Signing) {x : Except ChainError EvaluationState} (h : x = .ok t)
    (hrun : x = .ok (resign g t)) : t.layer.burns = g.burns :=
  congrArg (fun u : EvaluationState => u.layer.burns) (Except.ok.inj (h.symm.trans hrun))

theorem operations_burns {ops : List Operation} (h : ops.foldlM evaluateNext s = .ok t) :
    t.layer.burns = burnAll s.trx.id ops s.layer.burns :=
  burns_of_resign _ h
    (operations_resign (g := signing s) (Finset.Subset.refl _) h (operations_not_override h))

theorem postEvaluate_burns (h : s.postEvaluate = .ok t) : t.layer.burns = s.layer.burns :=
  burns_of_resign _ h (postEvaluate_resign (g := signing s) h)

theorem updateDelegateVotes_burns (h : s.updateDelegateVotes = .ok t) :
    t.layer.burns = s.layer.burns :=
  burns_of_resign _ h (updateDelegateVotes_resign (g := signing s) h)

/-- Both transactions leave the same records. What they burn is on record under the id of the
transaction that burns it. -/
structure SameEffect (s : EvaluationState) (trx trx' : SignedTransaction) (t t' : EvaluationState) :
    Prop where
  records : t'.layer = { t.layer with burns := t'.layer.burns }
  burnt : t.layer.burns = burnAll trx.id trx.operations s.layer.burns
  burntAgain : t'.layer.burns = burnAll trx'.id trx.operations s.layer.burns

/-- The state in which the operations of a transaction are evaluated. -/
def signedState (s : EvaluationState) (trx : SignedTransaction) (skip : Bool) (keys : Finset Nat) :
    EvaluationState :=
  { s with
    skipSignatureCheck := skip, trx, signedKeys := s.signedKeys ∪ keys, currentOpIndex := 0 }

theorem evaluate_parts {trx : SignedTransaction} {skip : Bool} :
    evaluate s trx skip = .ok t ↔ checkTransaction s.currentState trx s.chainId = .ok () ∧
      ∃ keys u v, signedKeysOf skip (trx.digest s.chainId) trx.signatures = .ok keys ∧
        trx.operations.foldlM evaluateNext (signedState s trx skip keys) = .ok u ∧
        u.postEvaluate = .ok v ∧ v.validateRequiredFee = .ok () ∧ v.updateDelegateVotes = .ok t := by
  simp only [evaluate, bind_eq_ok]
  constructor
  · rintro ⟨_, hcheck, keys, hkeys, u, hu, v, hv, _, hfee, ht⟩
    exact ⟨hcheck, keys, u, v, hkeys, hu, hv, hfee, ht⟩
  · rintro ⟨hcheck, keys, u, v, hkeys, hu, hv, hfee, ht⟩
    exact ⟨(), hcheck, keys, hkeys, u, hu, v, hv, (), hfee, ht⟩

theorem evaluate_burns {trx : SignedTransaction} {skip : Bool} (h : evaluate s trx skip = .ok t) :
    t.layer.burns = burnAll trx.id trx.operations s.layer.burns := by
  obtain ⟨-, keys, u, v, -, hu, hv, -, ht⟩ := evaluate_parts.mp h
  rw [updateDelegateVotes_burns ht, postEvaluate_burns hv, operations_burns hu]
  rfl

/-- A transaction that is accepted is accepted with more signatures as well, and with the same
effect, exactly when these signatures are valid, the result is not found to be on record, and no
order is overridden by an issuer who has signed now. -/
theorem more_signatures_iff {trx trx' : SignedTransaction} {skip : Bool}
    (h : evaluate s trx skip = .ok t) (hops : trx'.operations = trx.operations)
    (hexpiration : trx'.expiration = trx.expiration)
    (hdigest : trx'.digest s.chainId = trx.digest s.chainId)
    (hsignatures : trx.signatures ⊆ trx'.signatures) :
    (∃ t', evaluate s trx' skip = .ok t' ∧ SameEffect s trx trx' t t') ↔
      ∃ keys, signedKeysOf skip (trx.digest s.chainId) trx'.signatures = .ok keys ∧
        checkDuplicate s.currentState trx' s.chainId = .ok () ∧
        ∀ op ∈ trx.operations, ¬ Overrides (signedState s trx' skip keys) op := by
  obtain ⟨hcheck, keys, u, v, hkeys, hu, hv, hfee, ht⟩ := evaluate_parts.mp h
  constructor
  · rintro ⟨t', ht', -⟩
    obtain ⟨hcheck', keys', u', v', hkeys', hu', -⟩ := evaluate_parts.mp ht'
    rw [hops] at hu'
    rw [hdigest] at hkeys'
    simp only [checkTransaction, bind_eq_ok] at hcheck'
    obtain ⟨_, -, _, -, hduplicate⟩ := hcheck'
    exact ⟨keys', hkeys', hduplicate, operations_not_override hu'⟩
  · rintro ⟨keys', hkeys', hduplicate, hno⟩
    have hsubset : (signedState s trx skip keys).signedKeys ⊆ s.signedKeys ∪ keys' :=
      Finset.union_subset_union_right (signedKeysOf_mono hsignatures hkeys hkeys')
    let g : Signing :=
      ⟨trx', s.signedKeys ∪ keys', burnAll trx'.id trx.operations s.layer.burns⟩
    have hrun : trx.operations.foldlM evaluateNext (signedState s trx' skip keys') = .ok (resign g u) :=
      operations_resign (g := ⟨trx', s.signedKeys ∪ keys', s.layer.burns⟩) hsubset hu hno
    refine ⟨resign g t, evaluate_parts.mpr ⟨?_, keys', _, resign g v, hdigest ▸ hkeys', ?_,
      postEvaluate_resign hv, hfee, updateDelegateVotes_resign ht⟩, rfl, evaluate_burns h, rfl⟩
    · simp only [checkTransaction, eq_ok_iff] at hcheck ⊢
      obtain ⟨_, hlive, _, hlate, -⟩ := hcheck
      rw [← hexpiration] at hlive hlate
      exact ⟨(), hlive, (), hlate, hduplicate⟩
    · rw [hops]
      exact hrun

end Model

/-- A chain where the key 7 has some gold. -/
def goldChain : @ChainDatabase Fc.plain :=
  letI := Fc.plain
  { headBlockHeader := { blockNum := forkBlockNumV0426, timestamp := 1000 }
    propertyDb := (∅ : Map _ _).insert .chainId (.hash 0)
    assetDb := (Table.empty.store { id := 0, symbol := "BTS", issuerAccountId := 0 }).store
      { id := 1, symbol := "GOLD", issuerAccountId := 5, currentShareSupply := 300
        maximumShareSupply := 1000, authority := { required := 1, owners := {9} } }
    balanceDb := Table.empty.store
      { condition := { assetId := 1, data := .signature 7 none }, balance := 300 } }

def goldState (db : @ChainDatabase Fc.plain) : @EvaluationState Fc.plain :=
  letI := Fc.plain
  { chainId := db.chainId, prev := .database db }

def goldBid (signatures : List Nat) : SignedTransaction where
  expiration := 2000
  operations := [.withdraw ⟨7001, 100, []⟩,
    .bid { amount := 100, bidIndex := { orderPrice := ⟨1, 0, 1⟩, owner := 7 } }]
  signatures

theorem goldBid_not_override :
    letI := Fc.plain
    ∀ op ∈ (goldBid [7]).operations, ¬ Overrides (signedState (goldState goldChain) (goldBid [7, 8]) false
      (∅ ∪ keyAddresses 7 ∪ keyAddresses 8)) op := by
  decide +kernel

theorem more_signatures_iff_goldBid :
    letI := Fc.plain
    ∃ t t', evaluate (goldState goldChain) (goldBid [7]) false = .ok t ∧
      evaluate (goldState goldChain) (goldBid [7, 8]) false = .ok t' ∧
      SameEffect (goldState goldChain) (goldBid [7]) (goldBid [7, 8]) t t' := by
  let := Fc.plain
  have hok : (evaluate (goldState goldChain) (goldBid [7]) false).isOk := by decide +kernel
  obtain ⟨t, ht⟩ := exists_ok_of_isOk hok
  have hiff := @more_signatures_iff _ (goldState goldChain) t (goldBid [7]) (goldBid [7, 8]) false ht
    rfl rfl rfl (by decide)
  obtain ⟨t', ht', hsame⟩ := hiff.mpr ⟨_, rfl, rfl, goldBid_not_override⟩
  exact ⟨t, t', ht, ht', hsame⟩

/-- The chain after a block with a transaction that two keys have signed. -/
def recordedChain : @ChainDatabase Fc.plain :=
  letI := Fc.plain
  match applyTransaction goldChain (forkBlockNumV0426 + 1) {} (goldBid [7, 8], 0) with
  | .ok layer => endState (applyChanges layer goldChain)
  | .error _ => goldChain

/-- With one of its signatures the transaction is accepted once more. With both of them it is
refused, as it is on record. -/
theorem recorded_signatures_refused :
    letI := Fc.plain
    (goldBid [7, 8]).operations = (goldBid [7]).operations ∧
    (goldBid [7, 8]).expiration = (goldBid [7]).expiration ∧
    (goldBid [7]).signatures ⊆ (goldBid [7, 8]).signatures ∧
    (∃ layer, applyTransaction goldChain (forkBlockNumV0426 + 1) {} (goldBid [7, 8], 0) = .ok layer ∧
      returns (applyChanges layer goldChain)) ∧
    (∃ t, evaluate (goldState recordedChain) (goldBid [7]) false = .ok t) ∧
    ¬ ∃ t, evaluate (goldState recordedChain) (goldBid [7, 8]) false = .ok t := by
  let := Fc.plain
  have hok : (evaluate (goldState recordedChain) (goldBid [7]) false).isOk := by decide +kernel
  have hrefused : (evaluate (goldState recordedChain) (goldBid [7, 8]) false).isOk = false := by
    decide +kernel
  refine ⟨rfl, rfl, by decide, by decide +kernel, exists_ok_of_isOk hok, ?_⟩
  rintro ⟨t, ht⟩
  rw [ht] at hrefused
  cases hrefused

end Bts.Blockchain.Signatures
