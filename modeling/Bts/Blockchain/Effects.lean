import Mathlib.Logic.Relation
import Bts.Blockchain.Evaluate

namespace Bts.Blockchain.Effects

open Base Result Word Amounts Records MarketRecords Transactions Pending Layers Rules Evaluation
  Operations MarketOperations Evaluate

theorem isValidSymbolName_ok {headBlockNum : Nat} {symbol : String} {valid : Bool}
    (h : isValidSymbolName headBlockNum symbol = .ok valid) : symbol ≠ "BTSX" := by
  simp only [isValidSymbolName, eq_ok_iff] at h
  obtain ⟨_, hname, _⟩ := h
  exact hname

variable [Fc]

/-- What an accepted operation leaves in the layer. Each case keeps the checks that later
results rest on. -/
inductive Effect (s : EvaluationState) : Operation → PendingState → Prop
  | withdraw (op : WithdrawOperation) (r : BalanceRecord) :
    Effect s (.withdraw op) (s.layer.storeBalanceRecord r)
  | withdrawYield (op : WithdrawOperation) (r : BalanceRecord) (a : AssetRecord) (fees : Int)
    (known : s.currentState.getAssetRecord r.condition.assetId = some a) :
    Effect s (.withdraw op)
      ((s.layer.storeAssetRecord { a with collectedFees := fees }).storeBalanceRecord r)
  | deposit (op : DepositOperation) (r : BalanceRecord) :
    Effect s (.deposit op) (s.layer.storeBalanceRecord r)
  | registerAccount (op : RegisterAccountOperation) (id : Int) (r : AccountRecord)
    (layer : PendingState)
    (stored : (s.layer.setProperty .lastAccountId (.int id)).storeAccountRecord r = .ok layer) :
    Effect s (.registerAccount op) layer
  | updateAccount (op : UpdateAccountOperation) (r : AccountRecord) (layer : PendingState)
    (stored : s.layer.storeAccountRecord r = .ok layer) :
    Effect s (.updateAccount op) layer
  | withdrawPay (op : WithdrawPayOperation) (r : AccountRecord) (layer : PendingState)
    (stored : s.layer.storeAccountRecord r = .ok layer) :
    Effect s (.withdrawPay op) layer
  | updateBlockSigningKey (op : UpdateBlockSigningKey) (r : AccountRecord) (layer : PendingState)
    (stored : s.layer.storeAccountRecord r = .ok layer) :
    Effect s (.updateBlockSigningKey op) layer
  | createAsset (op : CreateAssetOperation) (last : Int) (a : AssetRecord)
    (symbolFree : s.currentState.getAssetRecordBySymbol op.symbol = none)
    (lastId : s.currentState.lastAssetId = .ok last)
    (idFree : s.currentState.getAssetRecord (last + 1) = none)
    (id : a.id = last + 1) (symbol : a.symbol = op.symbol)
    (issuer : a.issuerAccountId = op.issuerAccountId)
    (supply : a.currentShareSupply = 0) (maximum : 0 < a.maximumShareSupply)
    (exists_issuer : op.issuerAccountId ≠ AssetRecord.marketIssuerId →
      (s.currentState.getAccountRecord op.issuerAccountId).isSome)
    (symbolName : op.symbol ≠ "BTSX") :
    Effect s (.createAsset op)
      ((s.layer.setProperty .lastAssetId (.int (last + 1))).storeAssetRecord a)
  | issueAsset (op : IssueAssetOperation) (a : AssetRecord) (now : Nat)
    (known : s.currentState.getAssetRecord op.amount.assetId = some a)
    (signed : s.verifyAuthority a.authority) (issuable : a.canIssue op.amount)
    (notMarketIssued : ¬ a.isMarketIssued) :
    Effect s (.issueAsset op) (s.layer.storeAssetRecord { a with
      currentShareSupply := int64 (a.currentShareSupply + op.amount.amount), lastUpdate := now })
  | bid (op : BidOperation) (r : OrderRecord)
    (base : (s.currentState.getAssetRecord op.bidIndex.orderPrice.baseAssetId).isSome)
    (quote : (s.currentState.getAssetRecord op.bidIndex.orderPrice.quoteAssetId).isSome) :
    Effect s (.bid op) (s.layer.storeBidRecord op.bidIndex r)
  | ask (op : AskOperation) (r : OrderRecord)
    (base : (s.currentState.getAssetRecord op.askIndex.orderPrice.baseAssetId).isSome)
    (quote : (s.currentState.getAssetRecord op.askIndex.orderPrice.quoteAssetId).isSome) :
    Effect s (.ask op) (s.layer.storeAskRecord op.askIndex r)
  | short (op : ShortOperation) (r : OrderRecord)
    (ordered : op.shortIndex.orderPrice.baseAssetId < op.shortIndex.orderPrice.quoteAssetId)
    (base : op.shortIndex.orderPrice.baseAssetId = 0) :
    Effect s (.short op) (s.layer.storeShortRecord op.shortIndex r)
  | coverPaid (op : CoverOperation) (a : AssetRecord) (old : CollateralRecord) (payment : Payment)
    (known : s.currentState.getAssetRecord op.coverIndex.orderPrice.quoteAssetId = some a)
    (position : s.currentState.getCollateralRecord op.coverIndex = some old)
    (paid : coverPayment op old s.currentState.now = .ok payment)
    (nothingLeft : ¬ 0 < payment.payoffBalance) :
    Effect s (.cover op) ((s.layer.storeAssetRecord { a with
      currentShareSupply := int64 (a.currentShareSupply - payment.principlePaid.amount)
      collectedFees := int64 (a.collectedFees + payment.interestPaid.amount) }).storeCollateralRecord
        op.coverIndex {})
  | coverLeft (op : CoverOperation) (a : AssetRecord) (old : CollateralRecord) (payment : Payment)
    (index : MarketIndexKey)
    (known : s.currentState.getAssetRecord op.coverIndex.orderPrice.quoteAssetId = some a)
    (position : s.currentState.getCollateralRecord op.coverIndex = some old)
    (paid : coverPayment op old s.currentState.now = .ok payment)
    (left : 0 < payment.payoffBalance)
    (moved : newCoverIndex op { old with payoffBalance := payment.payoffBalance } = .ok index) :
    Effect s (.cover op) (((s.layer.storeAssetRecord { a with
      currentShareSupply := int64 (a.currentShareSupply - payment.principlePaid.amount)
      collectedFees := int64 (a.collectedFees + payment.interestPaid.amount) }).storeCollateralRecord
        op.coverIndex {}).storeCollateralRecord index
          { old with payoffBalance := payment.payoffBalance })
  | addCollateral (op : AddCollateralOperation) (old : CollateralRecord) (price : Price)
    (position : s.currentState.getCollateralRecord op.coverIndex = some old)
    (positive : 0 < op.amount)
    (called : callPrice op.coverIndex old.payoffBalance
      (int64 (old.collateralBalance + op.amount)) = .ok price) :
    Effect s (.addCollateral op) ((s.layer.storeCollateralRecord op.coverIndex
      {}).storeCollateralRecord { orderPrice := price, owner := op.coverIndex.owner }
        { old with collateralBalance := int64 (old.collateralBalance + op.amount) })
  | knownSlate (op : DefineDelegateSlateOperation) :
    Effect s (.defineDelegateSlate op) s.layer
  | newSlate (op : DefineDelegateSlateOperation) (id : Nat) :
    Effect s (.defineDelegateSlate op) (s.layer.storeDelegateSlate id op.supportedDelegates)
  | updateFeed (op : UpdateFeedOperation) (r : FeedRecord) (feed : r.feed = op.feed) :
    Effect s (.updateFeed op) ((s.layer.setFeed r).setMarketDirty op.feed.feedId 0)
  | burn (op : BurnOperation) (a : AssetRecord) (key : BurnRecordKey) (value : BurnRecordValue)
    (known : s.currentState.getAssetRecord op.amount.assetId = some a)
    (baseFee : op.amount.assetId = 0 → minBurnFee ≤ op.amount.amount)
    (notMarketIssued : ¬ a.isMarketIssued) :
    Effect s (.burn op) ((s.layer.storeAssetRecord { a with
      currentShareSupply := int64 (a.currentShareSupply - op.amount.amount) }).storeBurnRecord
        key value)

namespace EvaluationState

def withBalances (s : EvaluationState) (b : TransactionBalances) : EvaluationState :=
  { s with toTransactionBalances := b }

variable {s t : EvaluationState} {b : TransactionBalances}

theorem subBalance_ok {id : Nat} {amount : Asset} (h : s.subBalance id amount = .ok t) :
    ∃ b, t = withBalances s b := by
  simp only [EvaluationState.subBalance, eq_ok_iff] at h
  obtain ⟨_, _, _, _, rfl⟩ := h
  exact ⟨_, rfl⟩

theorem addBalance_ok {amount : Asset} (h : s.addBalance amount = .ok t) :
    ∃ b, t = withBalances s b := by
  simp only [EvaluationState.addBalance, eq_ok_iff] at h
  obtain ⟨_, _, rfl⟩ := h
  exact ⟨_, rfl⟩

theorem adjustVote_ok {slateId : Nat} {amount : Int} (h : s.adjustVote slateId amount = .ok t) :
    ∃ b, t = withBalances s b := by
  unfold EvaluationState.adjustVote at h
  split at h
  · rw [pure_eq_ok] at h
    exact ⟨s.toTransactionBalances, h.symm⟩
  · simp only [eq_ok_iff] at h
    obtain ⟨_, _, rfl⟩ := h
    exact ⟨_, rfl⟩

theorem addRequiredFees_ok {fee : Int} (h : s.addRequiredFees fee = .ok t) :
    ∃ b, t = withBalances s b := by
  simp only [EvaluationState.addRequiredFees, eq_ok_iff] at h
  obtain ⟨_, _, rfl⟩ := h
  exact ⟨_, rfl⟩

theorem storeAccountRecord_ok {r : AccountRecord} (h : s.storeAccountRecord r = .ok t) :
    ∃ layer, s.layer.storeAccountRecord r = .ok layer ∧ t = { s with layer } := by
  simp only [EvaluationState.storeAccountRecord, eq_ok_iff] at h
  obtain ⟨layer, hstore, rfl⟩ := h
  exact ⟨layer, hstore, rfl⟩

end EvaluationState

open EvaluationState

variable {s t : EvaluationState}

/-- What an operation does not change: the transaction, its signatures and the state
below the layer. -/
structure SameContext (s t : EvaluationState) : Prop where
  prev : t.prev = s.prev
  chainId : t.chainId = s.chainId
  skipSignatureCheck : t.skipSignatureCheck = s.skipSignatureCheck
  trx : t.trx = s.trx
  signedKeys : t.signedKeys = s.signedKeys

theorem SameContext.refl (s : EvaluationState) : SameContext s s := ⟨rfl, rfl, rfl, rfl, rfl⟩

theorem SameContext.trans {s t u : EvaluationState} (h : SameContext s t) (h' : SameContext t u) :
    SameContext s u :=
  ⟨h'.prev.trans h.prev, h'.chainId.trans h.chainId,
    h'.skipSignatureCheck.trans h.skipSignatureCheck, h'.trx.trans h.trx,
    h'.signedKeys.trans h.signedKeys⟩

theorem currentState_eq (h : SameContext s t) : t.currentState = .pending t.layer s.prev := by
  unfold EvaluationState.currentState
  rw [h.prev]

theorem withdraw_effect {op : WithdrawOperation} (h : WithdrawOperation.evaluate op s = .ok t) :
    SameContext s t ∧ Effect s (.withdraw op) t.layer := by
  simp only [WithdrawOperation.evaluate, eq_ok_iff] at h
  obtain ⟨_, _, r, _, _, _, _, _, a, ha, _, _, s₁, h₁, ⟨s₂, r₂⟩, h₂, s₃, h₃, rfl⟩ := h
  obtain ⟨b₁, rfl⟩ := adjustVote_ok h₁
  obtain ⟨b₃, rfl⟩ := addBalance_ok h₃
  unfold payYield at h₂
  split at h₂
  · simp only [bind_eq_ok] at h₂
    obtain ⟨yield, _, h₂⟩ := h₂
    split at h₂
    · cases h₂
      refine ⟨⟨rfl, rfl, rfl, rfl, rfl⟩, ?_⟩
      exact .withdrawYield op _ a _ ha
    · cases h₂
      exact ⟨⟨rfl, rfl, rfl, rfl, rfl⟩, .withdraw op _⟩
  · cases h₂
    exact ⟨⟨rfl, rfl, rfl, rfl, rfl⟩, .withdraw op _⟩

theorem deposit_effect {op : DepositOperation} (h : DepositOperation.evaluate op s = .ok t) :
    SameContext s t ∧ Effect s (.deposit op) t.layer := by
  simp only [DepositOperation.evaluate, eq_ok_iff] at h
  obtain ⟨_, _, _, _, date, _, s₁, h₁, s₂, h₂, a, _, _, _, _, _, rfl⟩ := h
  obtain ⟨b₁, rfl⟩ := subBalance_ok h₁
  obtain ⟨b₂, rfl⟩ := adjustVote_ok h₂
  exact ⟨⟨rfl, rfl, rfl, rfl, rfl⟩, .deposit op _⟩

theorem burn_effect {op : BurnOperation} (h : BurnOperation.evaluate op s = .ok t) :
    SameContext s t ∧ Effect s (.burn op) t.layer := by
  simp only [BurnOperation.evaluate, eq_ok_iff] at h
  obtain ⟨_, _, _, hfee, a, ha, _, hissued, s₁, h₁, _, _, rfl⟩ := h
  obtain ⟨b₁, rfl⟩ := subBalance_ok h₁
  exact ⟨⟨rfl, rfl, rfl, rfl, rfl⟩, .burn op a _ _ ha hfee hissued⟩

theorem defineDelegateSlate_effect {op : DefineDelegateSlateOperation}
    (h : DefineDelegateSlateOperation.evaluate op s = .ok t) :
    SameContext s t ∧ Effect s (.defineDelegateSlate op) t.layer := by
  simp only [DefineDelegateSlateOperation.evaluate, eq_ok_iff] at h
  obtain ⟨_, _, h⟩ := h
  split at h
  · rw [pure_eq_ok] at h
    subst h
    exact ⟨.refl s, .knownSlate op⟩
  · simp only [eq_ok_iff] at h
    obtain ⟨_, _, rfl⟩ := h
    exact ⟨⟨rfl, rfl, rfl, rfl, rfl⟩, .newSlate op _⟩

theorem registerDelegate_ok {r r' : AccountRecord} {payRate key : Nat}
    (h : registerDelegate s r payRate key = .ok (t, r')) : ∃ b, t = withBalances s b := by
  unfold registerDelegate at h
  split at h
  · simp only [makeDelegate, eq_ok_iff, Prod.mk.injEq] at h
    obtain ⟨_, _, _, _, s₁, h₁, rfl, _⟩ := h
    exact addRequiredFees_ok h₁
  · cases h
    exact ⟨_, rfl⟩

theorem updateDelegate_ok {r r' : AccountRecord} {payRate : Nat}
    (h : updateDelegate s r payRate = .ok (t, r')) : ∃ b, t = withBalances s b := by
  simp only [updateDelegate, bind_eq_ok] at h
  obtain ⟨_, _, h⟩ := h
  split at h
  · exact registerDelegate_ok h
  · simp only [eq_ok_iff, Prod.mk.injEq] at h
    obtain ⟨_, _, rfl, _⟩ := h
    exact ⟨_, rfl⟩

theorem registerAccount_effect {op : RegisterAccountOperation}
    (h : RegisterAccountOperation.evaluate op s = .ok t) :
    SameContext s t ∧ Effect s (.registerAccount op) t.layer := by
  simp only [RegisterAccountOperation.evaluate, eq_ok_iff] at h
  obtain ⟨_, _, _, _, _, _, _, _, _, _, id, _, r₁, _, ⟨s₂, r₂⟩, h₂, h⟩ := h
  obtain ⟨b₂, rfl⟩ := registerDelegate_ok h₂
  obtain ⟨layer, hstore, rfl⟩ := storeAccountRecord_ok h
  exact ⟨⟨rfl, rfl, rfl, rfl, rfl⟩, .registerAccount op _ r₂ layer hstore⟩

theorem updateAccount_effect {op : UpdateAccountOperation}
    (h : UpdateAccountOperation.evaluate op s = .ok t) :
    SameContext s t ∧ Effect s (.updateAccount op) t.layer := by
  simp only [UpdateAccountOperation.evaluate, eq_ok_iff] at h
  obtain ⟨r, _, _, _, r₁, _, ⟨s₂, r₂⟩, h₂, h⟩ := h
  obtain ⟨b₂, rfl⟩ := updateDelegate_ok h₂
  obtain ⟨layer, hstore, rfl⟩ := storeAccountRecord_ok h
  exact ⟨⟨rfl, rfl, rfl, rfl, rfl⟩, .updateAccount op _ layer hstore⟩

theorem withdrawPay_effect {op : WithdrawPayOperation}
    (h : WithdrawPayOperation.evaluate op s = .ok t) :
    SameContext s t ∧ Effect s (.withdrawPay op) t.layer := by
  simp only [WithdrawPayOperation.evaluate, eq_ok_iff] at h
  obtain ⟨_, _, r, _, d, _, _, _, _, _, s₁, h₁, h⟩ := h
  obtain ⟨b₁, rfl⟩ := addBalance_ok h₁
  obtain ⟨layer, hstore, rfl⟩ := storeAccountRecord_ok h
  exact ⟨⟨rfl, rfl, rfl, rfl, rfl⟩, .withdrawPay op _ layer hstore⟩

theorem updateBlockSigningKey_effect {op : UpdateBlockSigningKey}
    (h : UpdateBlockSigningKey.evaluate op s = .ok t) :
    SameContext s t ∧ Effect s (.updateBlockSigningKey op) t.layer := by
  simp only [UpdateBlockSigningKey.evaluate, eq_ok_iff] at h
  obtain ⟨_, _, r, _, _, _, _, _, _, _, key, _, _, _, r₁, _, h⟩ := h
  obtain ⟨layer, hstore, rfl⟩ := storeAccountRecord_ok h
  exact ⟨⟨rfl, rfl, rfl, rfl, rfl⟩, .updateBlockSigningKey op _ layer hstore⟩

theorem updateFeed_effect {op : UpdateFeedOperation}
    (h : UpdateFeedOperation.evaluate op s = .ok t) :
    SameContext s t ∧ Effect s (.updateFeed op) t.layer := by
  simp only [UpdateFeedOperation.evaluate, eq_ok_iff] at h
  obtain ⟨r, _, _, _, _, _, key, _, _, _, rfl⟩ := h
  exact ⟨⟨rfl, rfl, rfl, rfl, rfl⟩, .updateFeed op _ rfl⟩

theorem issuerAuthority_ok {id : Int} {authority : MultisigMetaInfo}
    (h : issuerAuthority s id = .ok authority) (hid : id ≠ AssetRecord.marketIssuerId) :
    (s.currentState.getAccountRecord id).isSome := by
  simp only [issuerAuthority, ne_eq, hid, not_false_eq_true, ↓reduceIte, eq_ok_iff] at h
  obtain ⟨r, hr, _⟩ := h
  exact Option.isSome_of_eq_some hr

theorem createAsset_effect {op : CreateAssetOperation}
    (h : CreateAssetOperation.evaluate op s = .ok t) :
    SameContext s t ∧ Effect s (.createAsset op) t.layer := by
  simp only [CreateAssetOperation.evaluate, eq_ok_iff, Option.isNone_iff_eq_none] at h
  obtain ⟨valid, hvalid, _, _, _, _, _, hsymbol, _, _, last, hlast, _, hfree, authority, hauth, _,
    hmax, _, _, s₁, h₁, rfl⟩ := h
  obtain ⟨b₁, rfl⟩ := addRequiredFees_ok h₁
  refine ⟨⟨rfl, rfl, rfl, rfl, rfl⟩, ?_⟩
  exact .createAsset op last _ hsymbol hlast hfree rfl rfl rfl rfl hmax.1
    (issuerAuthority_ok hauth) (isValidSymbolName_ok hvalid)

theorem issueAsset_effect {op : IssueAssetOperation}
    (h : IssueAssetOperation.evaluate op s = .ok t) :
    SameContext s t ∧ Effect s (.issueAsset op) t.layer := by
  simp only [IssueAssetOperation.evaluate, eq_ok_iff] at h
  obtain ⟨a, ha, _, hmarket, _, hsigned, _, _, _, hissue, s₁, h₁, rfl⟩ := h
  obtain ⟨b₁, rfl⟩ := addBalance_ok h₁
  exact ⟨⟨rfl, rfl, rfl, rfl, rfl⟩, .issueAsset op a _ ha hsigned hissue hmarket⟩

theorem checkOrder_ok {index : MarketIndexKey} {pays : AssetRecord → AssetRecord → AssetRecord}
    {u : Unit} (h : checkOrder s index pays = .ok u) :
    (s.currentState.getAssetRecord index.orderPrice.baseAssetId).isSome ∧
      (s.currentState.getAssetRecord index.orderPrice.quoteAssetId).isSome := by
  simp only [checkOrder, eq_ok_iff] at h
  obtain ⟨_, _, base, hbase, quote, hquote, _⟩ := h
  exact ⟨Option.isSome_of_eq_some hbase, Option.isSome_of_eq_some hquote⟩

theorem changeOrder_ok {amount : Int} {delta : Asset} {current : Option OrderRecord}
    {r : OrderRecord} (h : changeOrder s amount delta current = .ok (t, r)) :
    ∃ b, t = withBalances s b := by
  unfold changeOrder at h
  split at h
  · simp only [eq_ok_iff, Prod.mk.injEq] at h
    obtain ⟨_, _, _, _, s₁, h₁, rfl, _⟩ := h
    exact addBalance_ok h₁
  · simp only [eq_ok_iff, Prod.mk.injEq] at h
    obtain ⟨s₁, h₁, rfl, _⟩ := h
    exact subBalance_ok h₁

theorem bid_effect {op : BidOperation} (h : BidOperation.evaluate op s = .ok t) :
    SameContext s t ∧ Effect s (.bid op) t.layer := by
  simp only [BidOperation.evaluate, eq_ok_iff] at h
  obtain ⟨_, hcheck, _, _, _, _, ⟨s₁, r⟩, h₁, rfl⟩ := h
  obtain ⟨b₁, rfl⟩ := changeOrder_ok h₁
  obtain ⟨hbase, hquote⟩ := checkOrder_ok hcheck
  exact ⟨⟨rfl, rfl, rfl, rfl, rfl⟩, .bid op _ hbase hquote⟩

theorem ask_effect {op : AskOperation} (h : AskOperation.evaluate op s = .ok t) :
    SameContext s t ∧ Effect s (.ask op) t.layer := by
  simp only [AskOperation.evaluate, eq_ok_iff] at h
  obtain ⟨_, hcheck, _, _, _, _, ⟨s₁, r⟩, h₁, _, _, rfl⟩ := h
  obtain ⟨b₁, rfl⟩ := changeOrder_ok h₁
  obtain ⟨hbase, hquote⟩ := checkOrder_ok hcheck
  exact ⟨⟨rfl, rfl, rfl, rfl, rfl⟩, .ask op _ hbase hquote⟩

theorem short_effect {op : ShortOperation} (h : ShortOperation.evaluate op s = .ok t) :
    SameContext s t ∧ Effect s (.short op) t.layer := by
  simp only [ShortOperation.evaluate, eq_ok_iff] at h
  obtain ⟨_, _, _, hordered, _, hbase, _, _, a, _, _, _, _, _, _, _, ⟨s₁, r⟩, h₁, _, _, rfl⟩ := h
  obtain ⟨b₁, rfl⟩ := changeOrder_ok h₁
  exact ⟨⟨rfl, rfl, rfl, rfl, rfl⟩, .short op _ hordered hbase⟩

theorem cover_effect {op : CoverOperation} (h : CoverOperation.evaluate op s = .ok t) :
    SameContext s t ∧ Effect s (.cover op) t.layer := by
  simp only [CoverOperation.evaluate, eq_ok_iff] at h
  obtain ⟨_, _, _, _, _, _, _, _, s₁, h₁, old, hold, a, ha, payment, hpayment, _, _, h⟩ := h
  obtain ⟨b₁, rfl⟩ := subBalance_ok h₁
  unfold settleCover at h
  split at h
  · rename_i hleft
    simp only [eq_ok_iff] at h
    obtain ⟨index, hindex, rfl⟩ := h
    refine ⟨⟨rfl, rfl, rfl, rfl, rfl⟩, ?_⟩
    exact .coverLeft op a old payment index ha hold hpayment hleft hindex
  · rename_i hleft
    obtain ⟨b₂, rfl⟩ := addBalance_ok h
    refine ⟨⟨rfl, rfl, rfl, rfl, rfl⟩, ?_⟩
    exact .coverPaid op a old payment ha hold hpayment hleft

theorem addCollateral_effect {op : AddCollateralOperation}
    (h : AddCollateralOperation.evaluate op s = .ok t) :
    SameContext s t ∧ Effect s (.addCollateral op) t.layer := by
  simp only [AddCollateralOperation.evaluate, eq_ok_iff] at h
  obtain ⟨_, _, _, hzero, _, hneg, s₁, h₁, old, hold, price, hprice, rfl⟩ := h
  obtain ⟨b₁, rfl⟩ := subBalance_ok h₁
  refine ⟨⟨rfl, rfl, rfl, rfl, rfl⟩, ?_⟩
  exact .addCollateral op old price hold (by omega) hprice

theorem evaluateOperation_effect {op : Operation} (h : evaluateOperation s op = .ok t) :
    SameContext s t ∧ Effect s op t.layer := by
  cases op with
  | withdraw op => exact withdraw_effect h
  | deposit op => exact deposit_effect h
  | registerAccount op => exact registerAccount_effect h
  | updateAccount op => exact updateAccount_effect h
  | withdrawPay op => exact withdrawPay_effect h
  | updateBlockSigningKey op => exact updateBlockSigningKey_effect h
  | createAsset op => exact createAsset_effect h
  | issueAsset op => exact issueAsset_effect h
  | bid op => exact bid_effect h
  | ask op => exact ask_effect h
  | short op => exact short_effect h
  | cover op => exact cover_effect h
  | addCollateral op => exact addCollateral_effect h
  | defineDelegateSlate op => exact defineDelegateSlate_effect h
  | updateFeed op => exact updateFeed_effect h
  | burn op => exact burn_effect h
  | disabled op data => exact absurd h throw_eq_ok
  | unregistered type data => exact absurd h throw_eq_ok

theorem evaluateNext_effect {op : Operation} (h : evaluateNext s op = .ok t) :
    SameContext s t ∧ Effect s op t.layer := by
  simp only [evaluateNext, eq_ok_iff] at h
  obtain ⟨u, hu, rfl⟩ := h
  obtain ⟨hctx, heffect⟩ := evaluateOperation_effect hu
  exact ⟨⟨hctx.prev, hctx.chainId, hctx.skipSignatureCheck, hctx.trx, hctx.signedKeys⟩, heffect⟩

theorem getAssetRecord_id {c : ChainInterface} {id : Int} {a : AssetRecord}
    (h : c.getAssetRecord id = some a) : a.id = id :=
  ChainInterface.find_key (·.assets) (·.assetDb) h

/-- The end of a transaction takes its fees and counts its votes. -/
inductive Settles (prev : ChainInterface) : PendingState → PendingState → Prop
  | fee (layer : PendingState) (a : AssetRecord) (fees : Int)
    (known : (ChainInterface.pending layer prev).getAssetRecord a.id = some a) :
    Settles prev layer (layer.storeAssetRecord { a with collectedFees := fees })
  | votes (layer layer' : PendingState) (r : AccountRecord)
    (stored : layer.storeAccountRecord r = .ok layer') :
    Settles prev layer layer'

def Settled (s t : EvaluationState) : Prop :=
  SameContext s t ∧ Relation.ReflTransGen (Settles s.prev) s.layer t.layer

theorem Settled.refl (s : EvaluationState) : Settled s s := ⟨.refl s, .refl⟩

theorem Settled.withBalances {b : TransactionBalances} (h : Settled s t) :
    Settled s (withBalances t b) :=
  ⟨h.1.trans ⟨rfl, rfl, rfl, rfl, rfl⟩, h.2⟩

theorem Settled.step {layer : PendingState} (h : Settled s t) (hstep : Settles t.prev t.layer layer) :
    Settled s { t with layer } := by
  rw [h.1.prev] at hstep
  exact ⟨h.1.trans ⟨rfl, rfl, rfl, rfl, rfl⟩, h.2.tail hstep⟩

variable {u : EvaluationState}

theorem Settled.chargeTransactionFee {assetId : Int} (h : Settled s t)
    (hu : t.chargeTransactionFee assetId = .ok u) : Settled s u := by
  simp only [EvaluationState.chargeTransactionFee, bind_eq_ok] at hu
  obtain ⟨r, _, hu⟩ := hu
  split at hu
  · obtain ⟨b, rfl⟩ := subBalance_ok hu
    exact h.withBalances
  · rw [pure_eq_ok] at hu
    exact hu ▸ h

theorem Settled.addAltFee {assetId fee : Int} (h : Settled s t)
    (hu : t.addAltFee assetId fee = .ok u) : Settled s u := by
  simp only [EvaluationState.addAltFee, bind_eq_ok] at hu
  obtain ⟨_, _, hu⟩ := hu
  split at hu
  · rw [pure_eq_ok] at hu
    exact hu ▸ h
  · simp only [bind_eq_ok] at hu
    obtain ⟨r, _, hu⟩ := hu
    split at hu
    · simp only [eq_ok_iff] at hu
      obtain ⟨_, _, rfl⟩ := hu
      exact h.withBalances
    · rw [pure_eq_ok] at hu
      exact hu ▸ h

theorem Settled.collectFee {assetId fee : Int} (h : Settled s t)
    (hu : t.collectFee assetId fee = .ok u) : Settled s u := by
  simp only [EvaluationState.collectFee, bind_eq_ok] at hu
  obtain ⟨_, _, hu⟩ := hu
  split at hu
  · simp only [eq_ok_iff] at hu
    obtain ⟨a, ha, rfl⟩ := hu
    have hid := getAssetRecord_id ha
    exact h.step (.fee t.layer a _ (hid ▸ ha))
  · rw [pure_eq_ok] at hu
    exact hu ▸ h

theorem Settled.updateDelegateVote {vote : Int × Int} (h : Settled s t)
    (hu : t.updateDelegateVote vote = .ok u) : Settled s u := by
  simp only [EvaluationState.updateDelegateVote, bind_eq_ok] at hu
  obtain ⟨r, _, voted, _, hu⟩ := hu
  obtain ⟨layer, hstore, rfl⟩ := storeAccountRecord_ok hu
  exact h.step (.votes t.layer layer voted hstore)

theorem Settled.postEvaluate (h : Settled s t) (hu : t.postEvaluate = .ok u) : Settled s u := by
  simp only [EvaluationState.postEvaluate, bind_eq_ok] at hu
  obtain ⟨t₁, h₁, t₂, h₂, h₃⟩ := hu
  have hcharged : Settled s t₁ :=
    foldlM_keeps (fun _ _ _ _ hv hw => hv.chargeTransactionFee hw) h h₁
  have hpaid : Settled s t₂ :=
    foldlM_keeps (fun _ _ _ _ hv hw => hv.addAltFee hw) hcharged.withBalances h₂
  exact foldlM_keeps (fun _ _ _ _ hv hw => hv.collectFee hw) hpaid h₃

def begin (s : EvaluationState) (trx : SignedTransaction) (skipSignatureCheck : Bool)
    (keys : Finset Nat) : EvaluationState :=
  { s with skipSignatureCheck, trx, signedKeys := s.signedKeys ∪ keys, currentOpIndex := 0 }

variable {trx : SignedTransaction}

theorem evaluate_ok {skip : Bool} (h : evaluate s trx skip = .ok t) :
    checkTransaction s.currentState trx s.chainId = .ok () ∧
      ∃ keys u, signedKeysOf skip (trx.digest s.chainId) trx.signatures = .ok keys ∧
        trx.operations.foldlM evaluateNext (begin s trx skip keys) = .ok u ∧ Settled u t := by
  simp only [evaluate, bind_eq_ok] at h
  obtain ⟨_, hcheck, keys, hkeys, u, hops, v, hpost, _, _, hvotes⟩ := h
  refine ⟨hcheck, keys, u, hkeys, hops, ?_⟩
  have hsettled := (Settled.refl u).postEvaluate hpost
  exact foldlM_keeps (fun _ _ _ _ hv hw => hv.updateDelegateVote hw) hsettled hvotes

theorem operations_context {ops : List Operation} (h : ops.foldlM evaluateNext s = .ok t) :
    SameContext s t :=
  foldlM_keeps (fun _ _ _ _ hv hw => hv.trans (evaluateNext_effect hw).1) (.refl s) h

theorem evaluate_prev {skip : Bool} (h : evaluate s trx skip = .ok t) : t.prev = s.prev := by
  obtain ⟨_, keys, u, _, hops, hsettled⟩ := evaluate_ok h
  exact hsettled.1.prev.trans (operations_context hops).prev

theorem evaluate_keeps {I : PendingState → Prop} {skip : Bool}
    (hop : ∀ op ∈ trx.operations, ∀ u l, u.prev = s.prev → Effect u op l → I u.layer → I l)
    (hend : ∀ l l', Settles s.prev l l' → I l → I l') (h : evaluate s trx skip = .ok t)
    (hs : I s.layer) : I t.layer := by
  obtain ⟨_, keys, u, _, hops, hsettled⟩ := evaluate_ok h
  have hdone : u.prev = s.prev ∧ I u.layer := by
    refine foldlM_keeps (P := fun v => v.prev = s.prev ∧ I v.layer) ?_ ⟨rfl, hs⟩ hops
    rintro op hmem v w ⟨hprev, hv⟩ hw
    obtain ⟨hctx, heffect⟩ := evaluateNext_effect hw
    exact ⟨hctx.prev.trans hprev, hop op hmem v _ hprev heffect hv⟩
  have hsteps := hsettled.2
  rw [hdone.1] at hsteps
  generalize t.layer = l at hsteps
  induction hsteps with
  | refl => exact hdone.2
  | tail _ hstep ih => exact hend _ _ hstep ih

end Bts.Blockchain.Effects
