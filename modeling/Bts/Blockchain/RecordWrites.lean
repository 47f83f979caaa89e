import Bts.Blockchain.AssetEffects
import Bts.Blockchain.ProductionInfo
import Bts.Blockchain.SlateVotes

namespace Bts.Blockchain.RecordWrites

open Base Result Word Maps Amounts Records MarketRecords Transactions Pending Layers Rules
  Evaluation Operations MarketOperations Evaluate Effects SlateVotes ProductionInfo

variable [Fc] {s t : EvaluationState} {layer : PendingState}

/-- A withdrawal from the record `r` of the asset `a`, with the yield that it is paid, leaves
the record `r'`. -/
structure Withdraws (s : EvaluationState) (op : WithdrawOperation) (t : EvaluationState)
    (r r' : BalanceRecord) (a : AssetRecord) (yield : Int) : Prop where
  positive : 0 < op.amount
  known : s.currentState.getBalanceRecord op.balanceId = some r
  asset : s.currentState.getAssetRecord r.condition.assetId = some a
  allowed : checkWithdraw s a r = .ok ()
  yield_nonneg : 0 ≤ yield
  stored : t.layer.balances = s.layer.balances.store r'
  condition : r'.condition = r.condition
  balance : r'.balance = int64 (r.balance + yield - op.amount)
  fees : (yield = 0 ∧ t.layer.assets = s.layer.assets) ∨ (a.isMarketIssued ∧
    t.layer.assets = s.layer.assets.store { a with collectedFees := int64 (a.collectedFees - yield) })

theorem withdraw_ok {op : WithdrawOperation} (h : WithdrawOperation.evaluate op s = .ok t) :
    ∃ r r' a yield, Withdraws s op t r r' a yield := by
  simp only [WithdrawOperation.evaluate, eq_ok_iff] at h
  obtain ⟨_, hpos, r, hr, _, -, _, -, a, ha, _, hcheck, s₁, h₁, ⟨s₂, r₂⟩, h₂, s₃, h₃, rfl⟩ := h
  obtain ⟨b₁, rfl⟩ := EvaluationState.adjustVote_ok h₁
  obtain ⟨b₃, rfl⟩ := EvaluationState.addBalance_ok h₃
  unfold payYield at h₂
  split at h₂
  next hmarket =>
    simp only [bind_eq_ok] at h₂
    obtain ⟨yield, -, h₂⟩ := h₂
    split at h₂
    next hyield =>
      cases h₂
      exact ⟨r, _, a, yield.amount, ⟨hpos, hr, ha, hcheck, hyield.le, rfl, rfl, int64_sub_int64 _ _,
        Or.inr ⟨hmarket, rfl⟩⟩⟩
    next =>
      cases h₂
      refine ⟨r, _, a, 0, ⟨hpos, hr, ha, hcheck, le_rfl, rfl, rfl, ?_, Or.inl ⟨rfl, rfl⟩⟩⟩
      rw [Int.add_zero]
  next =>
    cases h₂
    refine ⟨r, _, a, 0, ⟨hpos, hr, ha, hcheck, le_rfl, rfl, rfl, ?_, Or.inl ⟨rfl, rfl⟩⟩⟩
    rw [Int.add_zero]

structure Deposits (s : EvaluationState) (op : DepositOperation) (t : EvaluationState)
    (r' : BalanceRecord) : Prop where
  positive : 0 < op.amount
  stored : t.layer.balances = s.layer.balances.store r'
  condition : r'.condition = (depositRecord op s).condition
  balance : r'.balance = int64 ((depositRecord op s).balance + op.amount)
  assets : t.layer.assets = s.layer.assets

theorem deposit_ok {op : DepositOperation} (h : DepositOperation.evaluate op s = .ok t) :
    ∃ r', Deposits s op t r' := by
  have hpos := deposit_positive h
  simp only [DepositOperation.evaluate, eq_ok_iff] at h
  obtain ⟨_, _, _, _, date, _, s₁, h₁, s₂, h₂, a, _, _, _, _, _, rfl⟩ := h
  obtain ⟨b₁, rfl⟩ := EvaluationState.subBalance_ok h₁
  obtain ⟨b₂, rfl⟩ := EvaluationState.adjustVote_ok h₂
  exact ⟨_, ⟨hpos, rfl, rfl, rfl, rfl⟩⟩

variable {op : Operation} {p r : AccountRecord}

theorem effect_balances (h : Effect s op layer) (hwithdraw : ∀ o, op ≠ .withdraw o)
    (hdeposit : ∀ o, op ≠ .deposit o) :
    layer.balances = s.layer.balances := by
  cases h with
  | withdraw op | withdrawYield op => exact absurd rfl (hwithdraw op)
  | deposit op => exact absurd rfl (hdeposit op)
  | registerAccount op id r layer stored =>
    obtain ⟨_, _, _, rfl⟩ := AssetEffects.storeAccountRecord_ok stored
    rfl
  | updateAccount op r layer stored | withdrawPay op r layer stored
  | updateBlockSigningKey op r layer stored =>
    obtain ⟨_, _, _, rfl⟩ := AssetEffects.storeAccountRecord_ok stored
    rfl
  | _ => rfl

theorem changeOrder_record {amount : Int} {delta : Asset} {current : Option OrderRecord}
    {r : OrderRecord} (h : changeOrder s amount delta current = .ok (t, r)) :
    r = current.getD {} := by
  unfold changeOrder at h
  split at h
  · simp only [eq_ok_iff, Prod.mk.injEq] at h
    obtain ⟨order, rfl, _, _, _, _, _, rfl⟩ := h
    rfl
  · simp only [eq_ok_iff, Prod.mk.injEq] at h
    obtain ⟨_, _, _, rfl⟩ := h
    rfl

theorem checkOrder_signed {index : MarketIndexKey} {pays : AssetRecord → AssetRecord → AssetRecord}
    {u : Unit} (h : checkOrder s index pays = .ok u) : s.checkSignature index.owner := by
  simp only [checkOrder, eq_ok_iff] at h
  obtain ⟨_, -, _, -, _, -, _, -, _, -, _, hsigned, hoverride, -⟩ := h
  refine hsigned.resolve_left fun hissuer => ?_
  rw [hissuer] at hoverride
  exact absurd hoverride (by decide)

theorem bid_ok {op : BidOperation} (h : BidOperation.evaluate op s = .ok t) :
    s.checkSignature op.bidIndex.owner ∧
      ∃ r, t.layer.bids = s.layer.bids.insert op.bidIndex r ∧ r.balance =
        int64 (((s.currentState.getBidRecord op.bidIndex).getD {}).balance + op.amount) := by
  simp only [BidOperation.evaluate, eq_ok_iff] at h
  obtain ⟨_, hcheck, _, _, _, _, ⟨s₁, r⟩, h₁, rfl⟩ := h
  obtain ⟨b₁, rfl⟩ := changeOrder_ok h₁
  rw [changeOrder_record h₁]
  exact ⟨checkOrder_signed hcheck, _, rfl, rfl⟩

theorem ask_ok {op : AskOperation} (h : AskOperation.evaluate op s = .ok t) :
    s.checkSignature op.askIndex.owner ∧
      ∃ r, t.layer.asks = s.layer.asks.insert op.askIndex r ∧ r.balance =
        int64 (((s.currentState.getAskRecord op.askIndex).getD {}).balance + op.amount) := by
  simp only [AskOperation.evaluate, eq_ok_iff] at h
  obtain ⟨_, hcheck, _, _, _, _, ⟨s₁, r⟩, h₁, _, _, rfl⟩ := h
  obtain ⟨b₁, rfl⟩ := changeOrder_ok h₁
  rw [changeOrder_record h₁]
  exact ⟨checkOrder_signed hcheck, _, rfl, rfl⟩

theorem short_ok {op : ShortOperation} (h : ShortOperation.evaluate op s = .ok t) :
    (op.amount < 0 → s.checkSignature op.shortIndex.owner) ∧
      ∃ r, t.layer.shorts = s.layer.shorts.insert op.shortIndex r ∧ 0 ≤ r.balance ∧
        r.balance = int64 (((s.currentState.getShortRecord op.shortIndex).getD {}).balance + op.amount) ∧
        r.limitPrice = op.limitPrice := by
  simp only [ShortOperation.evaluate, eq_ok_iff] at h
  obtain ⟨_, _, _, _, _, _, _, _, a, _, _, _, _, _, _, hsigned, ⟨s₁, r⟩, h₁, _, hnonneg, rfl⟩ := h
  obtain ⟨b₁, rfl⟩ := changeOrder_ok h₁
  rw [changeOrder_record h₁] at hnonneg ⊢
  exact ⟨hsigned, _, rfl, hnonneg, rfl, rfl⟩

theorem effect_orders (h : Effect s op layer) :
    ((∀ o, op ≠ .bid o) → layer.bids = s.layer.bids) ∧
      ((∀ o, op ≠ .ask o) → layer.asks = s.layer.asks) ∧
      ((∀ o, op ≠ .short o) → layer.shorts = s.layer.shorts) := by
  cases h with
  | bid op => exact ⟨fun hne => absurd rfl (hne op), fun _ => rfl, fun _ => rfl⟩
  | ask op => exact ⟨fun _ => rfl, fun hne => absurd rfl (hne op), fun _ => rfl⟩
  | short op => exact ⟨fun _ => rfl, fun _ => rfl, fun hne => absurd rfl (hne op)⟩
  | registerAccount op id r layer stored =>
    obtain ⟨_, _, _, rfl⟩ := AssetEffects.storeAccountRecord_ok stored
    exact ⟨fun _ => rfl, fun _ => rfl, fun _ => rfl⟩
  | updateAccount op r layer stored | withdrawPay op r layer stored
  | updateBlockSigningKey op r layer stored =>
    obtain ⟨_, _, _, rfl⟩ := AssetEffects.storeAccountRecord_ok stored
    exact ⟨fun _ => rfl, fun _ => rfl, fun _ => rfl⟩
  | _ => exact ⟨fun _ => rfl, fun _ => rfl, fun _ => rfl⟩

theorem settled_holdings (h : Settled s t) : t.layer.balances = s.layer.balances ∧
    t.layer.bids = s.layer.bids ∧ t.layer.asks = s.layer.asks ∧ t.layer.shorts = s.layer.shorts := by
  obtain ⟨-, hsettles⟩ := h
  generalize t.layer = layer at hsettles ⊢
  induction hsettles with
  | refl => exact ⟨rfl, rfl, rfl, rfl⟩
  | tail _ hstep ih =>
    cases hstep with
    | fee a fees known => exact ih
    | votes layer' r stored =>
      obtain ⟨_, _, _, rfl⟩ := AssetEffects.storeAccountRecord_ok stored
      exact ih

theorem storeAccountRecord_fields {l l' : PendingState} {r : AccountRecord}
    (h : l.storeAccountRecord r = .ok l') :
    ∃ keys, l' = { l with
      accounts := l.accounts.store r
      accountIdIndex := l.accountIdIndex.insert r.name r.id
      keyToAccount := keys } := by
  simp only [PendingState.storeAccountRecord, eq_ok_iff] at h
  obtain ⟨_, _, rfl⟩ := h
  exact ⟨_, rfl⟩

theorem getAccountRecord_store {l l' : PendingState} {r : AccountRecord}
    (h : l.storeAccountRecord r = .ok l') (prev : ChainInterface) (id : Int) :
    (ChainInterface.pending l' prev).getAccountRecord id =
      if id = r.id then some r else (ChainInterface.pending l prev).getAccountRecord id := by
  obtain ⟨keys, rfl⟩ := storeAccountRecord_fields h
  exact ChainInterface.find_store (·.accounts) (·.accountDb) rfl id

def payOf (r : AccountRecord) : Int := r.delegateInfo.elim 0 DelegateStats.payBalance

def votesFor (r : AccountRecord) : Int := r.delegateInfo.elim 0 DelegateStats.votesFor

def withStats (r : AccountRecord) (d : DelegateStats) : AccountRecord :=
  { r with delegateInfo := some d }

structure SameStanding (p r : AccountRecord) : Prop where
  id : r.id = p.id
  name : r.name = p.name
  pay : payOf r = payOf p
  votes : votesFor r = votesFor p
  delegate : p.isDelegate → r.isDelegate

omit [Fc] in
theorem SameStanding.refl (r : AccountRecord) : SameStanding r r := ⟨rfl, rfl, rfl, rfl, fun h => h⟩

omit [Fc] in
theorem SameStanding.trans {p q r : AccountRecord} (h : SameStanding p q) (h' : SameStanding q r) :
    SameStanding p r :=
  ⟨h'.id.trans h.id, h'.name.trans h.name, h'.pay.trans h.pay, h'.votes.trans h.votes,
    fun hp => h'.delegate (h.delegate hp)⟩

omit [Fc] in
theorem SameStanding.withStats {p : AccountRecord} {d d' : DelegateStats}
    (hd : p.delegateInfo = some d) (hpay : d'.payBalance = d.payBalance)
    (hvotes : d'.votesFor = d.votesFor) : SameStanding p (withStats p d') := by
  refine ⟨rfl, rfl, ?_, ?_, fun _ => rfl⟩
  · unfold payOf
    rw [hd]
    exact hpay
  · unfold votesFor
    rw [hd]
    exact hvotes

/-- A record may be written in the place of `p` by those who control it; anyone else leaves
its keys as they are. -/
structure Rewrites (s : EvaluationState) (p r : AccountRecord) : Prop where
  known : s.currentState.getAccountRecord p.id = some p
  standing : SameStanding p r
  signed : s.accountOrAnyParentHasSigned p ∨
    (r.ownerKey = p.ownerKey ∧ r.activeKeyHistory = p.activeKeyHistory)

inductive AccountWrite (s : EvaluationState) : Operation → PendingState → Prop
  | none (op : Operation) (layer : PendingState) (accounts : layer.accounts = s.layer.accounts)
    (names : layer.accountIdIndex = s.layer.accountIdIndex)
    (last : layer.properties.lookup .lastAccountId = s.layer.properties.lookup .lastAccountId) :
    AccountWrite s op layer
  | register (op : RegisterAccountOperation) (last : Int) (r : AccountRecord) (layer : PendingState)
    (nameFree : s.currentState.getAccountRecordByName op.name = Option.none)
    (parent : (getParentAccountName op.name).isSome → s.anyParentHasSigned op.name = true)
    (lastId : s.currentState.lastAccountId = .ok last)
    (id : r.id = last + 1) (name : r.name = op.name) (pay : payOf r = 0) (votes : votesFor r = 0)
    (stored : (s.layer.setProperty .lastAccountId (.int (last + 1))).storeAccountRecord r =
      .ok layer) :
    AccountWrite s (.registerAccount op) layer
  | rewrite (op : Operation) (p r : AccountRecord) (layer : PendingState) (rewrites : Rewrites s p r)
    (stored : s.layer.storeAccountRecord r = .ok layer) : AccountWrite s op layer
  | withdrawPay (op : WithdrawPayOperation) (p : AccountRecord) (d : DelegateStats)
    (layer : PendingState) (positive : 0 < op.amount)
    (known : s.currentState.getAccountRecord op.accountId.natAbs = some p)
    (delegate : p.delegateInfo = some d) (funds : op.amount ≤ d.payBalance)
    (signed : s.accountOrAnyParentHasSigned p)
    (stored : s.layer.storeAccountRecord
      (withStats p { d with payBalance := int64 (d.payBalance - op.amount) }) = .ok layer) :
    AccountWrite s (.withdrawPay op) layer

omit [Fc] in
theorem setActiveKey_ok {now key : Nat} (h : p.setActiveKey now key = .ok r) :
    r = { p with activeKeyHistory := p.activeKeyHistory.insert now key } := by
  simp only [AccountRecord.setActiveKey, eq_ok_iff] at h
  obtain ⟨_, _, rfl⟩ := h
  rfl

omit [Fc] in
theorem setSigningKey_ok {num key : Nat} (h : p.setSigningKey num key = .ok r) :
    ∃ d, p.delegateInfo = some d ∧
      r = withStats p { d with signingKeyHistory := d.signingKeyHistory.insert num key } := by
  simp only [AccountRecord.setSigningKey, AccountRecord.delegate, eq_ok_iff] at h
  obtain ⟨d, hd, rfl⟩ := h
  exact ⟨d, hd, rfl⟩

theorem registerDelegate_record {payRate key : Nat}
    (h : registerDelegate s p payRate key = .ok (t, r)) :
    ∃ info, r = { p with delegateInfo := info } ∧
      (info = p.delegateInfo ∨ ∃ history, info = some { payRate, signingKeyHistory := history }) := by
  unfold registerDelegate at h
  split at h
  · simp only [makeDelegate, eq_ok_iff, Prod.mk.injEq] at h
    obtain ⟨keyed, hkeyed, _, _, _, _, _, rfl⟩ := h
    obtain ⟨d, hd, rfl⟩ := setSigningKey_ok hkeyed
    cases hd
    exact ⟨_, rfl, Or.inr ⟨_, rfl⟩⟩
  · cases h
    exact ⟨_, rfl, Or.inl rfl⟩

theorem registerAccount_write {op : RegisterAccountOperation}
    (h : RegisterAccountOperation.evaluate op s = .ok t) :
    AccountWrite s (.registerAccount op) t.layer := by
  simp only [RegisterAccountOperation.evaluate, eq_ok_iff] at h
  obtain ⟨_, _, _, hfree, _, _, _, _, _, hparent, last, hlast, r₁, h₁, ⟨s₂, r₂⟩, h₂, h⟩ := h
  obtain ⟨b₂, rfl⟩ := registerDelegate_ok h₂
  obtain ⟨layer, hstore, rfl⟩ := EvaluationState.storeAccountRecord_ok h
  have hr₁ := setActiveKey_ok h₁
  obtain ⟨info, rfl, hinfo⟩ := registerDelegate_record h₂
  subst hr₁
  have hnew : info.elim 0 DelegateStats.payBalance = 0 ∧ info.elim 0 DelegateStats.votesFor = 0 := by
    rcases hinfo with rfl | ⟨history, rfl⟩
    · exact ⟨rfl, rfl⟩
    · exact ⟨rfl, rfl⟩
  refine .register op last _ layer (Option.isNone_iff_eq_none.mp hfree) hparent hlast ?_ ?_ ?_ ?_ hstore
  · rfl
  · rfl
  · exact hnew.1
  · exact hnew.2

theorem hasSigned_of_owner {r : AccountRecord} (hlive : ¬ r.isRetracted)
    (h : s.checkSignature (Fc.address r.ownerKey)) : s.hasSigned r := ⟨hlive, Or.inr h⟩

theorem updateActiveKey_ok {key : Option Nat} (hlive : ¬ p.isRetracted)
    (h : updateActiveKey s p key = .ok r) : s.accountOrAnyParentHasSigned p ∧ SameStanding p r := by
  have hkeep (h : updateActiveKey.keepActiveKey s p = .ok r) :
      s.accountOrAnyParentHasSigned p ∧ SameStanding p r := by
    simp only [updateActiveKey.keepActiveKey, eq_ok_iff] at h
    obtain ⟨_, hsigned, rfl⟩ := h
    exact ⟨hsigned, .refl p⟩
  unfold updateActiveKey at h
  split at h
  next key =>
    split at h
    · simp only [replaceActiveKey, eq_ok_iff] at h
      obtain ⟨_, -, _, hsigned, q, hq, _, -, _, -, h⟩ := h
      obtain rfl := setActiveKey_ok hq
      refine ⟨hsigned.imp (hasSigned_of_owner hlive) id, ?_⟩
      have hkeyed : SameStanding p { p with
          activeKeyHistory := p.activeKeyHistory.insert s.currentState.now key } :=
        ⟨rfl, rfl, rfl, rfl, fun hp => hp⟩
      split at h
      · obtain ⟨d, hd, rfl⟩ := setSigningKey_ok h
        exact hkeyed.trans (.withStats hd rfl rfl)
      · rw [pure_eq_ok] at h
        exact h ▸ hkeyed
    · exact hkeep h
  next => exact hkeep h

theorem updateDelegate_standing {payRate : Nat} (h : updateDelegate s p payRate = .ok (t, r)) :
    SameStanding p r := by
  simp only [updateDelegate, eq_ok_iff] at h
  obtain ⟨_, -, h⟩ := h
  split at h
  next hnone =>
    obtain ⟨info, rfl, rfl | ⟨history, rfl⟩⟩ := registerDelegate_record h
    · exact .refl p
    · -- A delegate that has just been made has neither pay nor votes.
      refine ⟨rfl, rfl, ?_, ?_, fun _ => rfl⟩
      · unfold payOf
        rw [hnone]
        rfl
      · unfold votesFor
        rw [hnone]
        rfl
  next d hd =>
    simp only [eq_ok_iff, Prod.mk.injEq] at h
    obtain ⟨_, _, _, rfl⟩ := h
    exact .withStats hd rfl rfl

theorem updateAccount_write {op : UpdateAccountOperation}
    (h : UpdateAccountOperation.evaluate op s = .ok t) :
    AccountWrite s (.updateAccount op) t.layer := by
  simp only [UpdateAccountOperation.evaluate, eq_ok_iff] at h
  obtain ⟨p, hp, _, hlive, r₁, h₁, ⟨s₂, r₂⟩, h₂, h⟩ := h
  obtain ⟨b₂, rfl⟩ := updateDelegate_ok h₂
  obtain ⟨layer, hstore, rfl⟩ := EvaluationState.storeAccountRecord_ok h
  obtain ⟨hsigned, hkeyed⟩ := updateActiveKey_ok hlive h₁
  have hpublic : SameStanding r₁ { r₁ with publicData := op.publicData.getD r₁.publicData } :=
    ⟨rfl, rfl, rfl, rfl, fun hr => hr⟩
  have hupdated := (hkeyed.trans hpublic).trans (updateDelegate_standing h₂)
  have hknown : s.currentState.getAccountRecord p.id = some p := by
    rw [getAccountRecord_id hp]
    exact hp
  refine .rewrite _ p _ layer ⟨hknown, hupdated.trans ?_, Or.inl hsigned⟩ hstore
  exact ⟨rfl, rfl, rfl, rfl, fun hr => hr⟩

theorem withdrawPay_write {op : WithdrawPayOperation}
    (h : WithdrawPayOperation.evaluate op s = .ok t) : AccountWrite s (.withdrawPay op) t.layer := by
  simp only [WithdrawPayOperation.evaluate, eq_ok_iff] at h
  obtain ⟨_, hpos, p, hp, d, hd, _, hfunds, _, hsigned, s₁, h₁, h⟩ := h
  obtain ⟨b₁, rfl⟩ := EvaluationState.addBalance_ok h₁
  obtain ⟨layer, hstore, rfl⟩ := EvaluationState.storeAccountRecord_ok h
  exact .withdrawPay op p d layer hpos hp hd hfunds hsigned hstore

theorem updateBlockSigningKey_write {op : UpdateBlockSigningKey}
    (h : UpdateBlockSigningKey.evaluate op s = .ok t) :
    AccountWrite s (.updateBlockSigningKey op) t.layer := by
  simp only [UpdateBlockSigningKey.evaluate, eq_ok_iff] at h
  obtain ⟨_, _, p, hp, _, _, _, _, _, _, key, _, _, _, r₁, h₁, h⟩ := h
  obtain ⟨layer, hstore, rfl⟩ := EvaluationState.storeAccountRecord_ok h
  obtain ⟨d, hd, rfl⟩ := setSigningKey_ok h₁
  have hknown : s.currentState.getAccountRecord p.id = some p := by
    rw [getAccountRecord_id hp]
    exact hp
  have hkeyed : SameStanding p _ := .withStats hd rfl rfl
  refine .rewrite _ p _ layer ⟨hknown, hkeyed.trans ?_, Or.inr ⟨?_, ?_⟩⟩ hstore
  · exact ⟨rfl, rfl, rfl, rfl, fun hr => hr⟩
  · rfl
  · rfl

def writesAccount : Operation → Bool
  | .registerAccount _ | .updateAccount _ | .withdrawPay _ | .updateBlockSigningKey _ => true
  | _ => false

theorem effect_accounts (h : Effect s op layer) (hop : writesAccount op = false) :
    AccountWrite s op layer := by
  cases h with
  | registerAccount | updateAccount | withdrawPay | updateBlockSigningKey => cases hop
  | createAsset op last =>
    exact .none _ _ rfl rfl ((lookup_insert _ _ _ _).trans (if_neg (by decide)))
  | _ => exact .none _ _ rfl rfl rfl

theorem evaluateNext_accounts (h : evaluateNext s op = .ok t) : AccountWrite s op t.layer := by
  have heffect := (evaluateNext_effect h).2
  simp only [evaluateNext, eq_ok_iff] at h
  obtain ⟨u, hu, rfl⟩ := h
  dsimp only at heffect ⊢
  cases op with
  | registerAccount op => exact registerAccount_write hu
  | updateAccount op => exact updateAccount_write hu
  | withdrawPay op => exact withdrawPay_write hu
  | updateBlockSigningKey op => exact updateBlockSigningKey_write hu
  | _ => exact effect_accounts heffect rfl

end Bts.Blockchain.RecordWrites
