import Bts.Blockchain.Evaluation

/-!
The versions of the operations that run from block 991700 on, here and for the market.
-/

namespace Bts.Blockchain.Operations

open Base Result Word Errors Amounts Records Transactions Database Layers Rules Evaluation

variable [Fc]

/-- A restricted asset needs an authorization for every owner of the balance. -/
def checkAuthorizations (c : ChainInterface) (a : AssetRecord) (r : BalanceRecord) :
    Except ChainError Unit :=
  if a.isRestricted then do
    let owners ← r.owners
    require (∀ owner ∈ owners, (c.getAuthorization a.id owner).isSome)
      (.assertion "eval_state._current_state->get_authorization(asset_rec->id, owner)")
  else pure ()

def checkWithdrawCondition (s : EvaluationState) (r : BalanceRecord) : Except ChainError Unit :=
  match r.condition.data with
  | .signature owner _ => require (s.checkSignature owner) .missingSignature
  | .vesting _ _ _ _ | .multisig _ _ _ | .password _ _ _ _ _ =>
    throw (.assertion "!\"Not supported yet!\"")
  | .null | .reserved | .escrow _ _ _ _ _ => throw .invalidWithdrawCondition

/-- The checks of a withdrawal that the issuer has not signed for. -/
def checkWithdraw (s : EvaluationState) (a : AssetRecord) (r : BalanceRecord) :
    Except ChainError Unit :=
  if a.isRetractable ∧ s.verifyAuthority a.authority then pure ()
  else do
    require (¬ a.isBalanceFrozen) (.assertion "!asset_rec->is_balance_frozen()")
    checkAuthorizations s.currentState a r
    checkWithdrawCondition s r

/-- The yield of a balance of a market issued asset, paid from the collected fees. -/
def payYield (s : EvaluationState) (a : AssetRecord) (r : BalanceRecord) :
    Except ChainError (EvaluationState × BalanceRecord) :=
  if a.isMarketIssued then do
    let now := s.currentState.now
    let yield ← calculateYield r now r.balance a.collectedFees a.currentShareSupply
    if 0 < yield.amount then
      let id := r.condition.assetId
      let paid := { a with collectedFees := int64 (a.collectedFees - yield.amount) }
      pure ({ s with
        yield := s.yield.insert id (int64 ((s.yield.lookup id).getD 0 + yield.amount))
        layer := s.layer.storeAssetRecord paid },
        { r with balance := int64 (r.balance + yield.amount), depositDate := now })
    else pure (s, r)
  else pure (s, r)

def WithdrawOperation.evaluate (op : WithdrawOperation) (s : EvaluationState) :
    Except ChainError EvaluationState := do
  require (0 < op.amount) .negativeWithdraw
  let r ← orThrow (s.currentState.getBalanceRecord op.balanceId) .unknownBalanceRecord
  let spendable ← r.getSpendableBalance s.currentState.now
  require (op.amount ≤ spendable.amount) .insufficientFunds
  let a ← orThrow (s.currentState.getAssetRecord r.condition.assetId)
    (.assertion "asset_rec.valid()")
  checkWithdraw s a r
  let s ← s.adjustVote (if r.condition.assetId = 0 then r.condition.slateId else 0)
    (int64 (-op.amount))
  let (s, r) ← payYield s a r
  let s ← s.addBalance { amount := op.amount, assetId := r.condition.assetId }
  let r := { r with balance := int64 (r.balance - op.amount), lastUpdate := s.currentState.now }
  pure { s with layer := s.layer.storeBalanceRecord r }

/-- The date of a deposit on a balance that is not empty: the average weighted by the
amounts. -/
def averageDate (r : BalanceRecord) (now : Nat) (amount : Int) : Except ChainError Nat := do
  let total := uint128 (int64 (r.balance + amount))
  require (total ≠ 0) (.assertion "")
  let sum := (mul128 r.depositDate (uint128 r.balance) + mul128 now (uint128 amount)) % 2 ^ 128
  require (sum / total < 2 ^ 32) (.assertion "hi == 0")
  pure (sum / total)

def depositDate (r : BalanceRecord) (now : Nat) (amount : Int) : Except ChainError Nat :=
  if r.balance = 0 then pure now else averageDate r now amount

def isDepositable (condition : WithdrawCondition) : Prop :=
  match condition.data with
  | .signature _ _ | .vesting _ _ _ _ | .multisig _ _ _ | .escrow _ _ _ _ _ => True
  | .null | .password _ _ _ _ _ | .reserved => False

instance (condition : WithdrawCondition) : Decidable (isDepositable condition) := by
  unfold isDepositable
  split <;> infer_instance

def DepositOperation.evaluate (op : DepositOperation) (s : EvaluationState) :
    Except ChainError EvaluationState := do
  require (0 < op.amount) .negativeDeposit
  let head := s.currentState.getHeadBlockNum
  let now := s.currentState.now
  require (forkBlockNumV0428 ≤ head → isDepositable op.condition) .invalidWithdrawCondition
  let id := Fc.conditionAddress op.condition
  let r := (s.currentState.getBalanceRecord id).getD { condition := op.condition }
  let date ← depositDate r now op.amount
  let s ← s.subBalance id { amount := op.amount, assetId := r.condition.assetId }
  let s ← s.adjustVote (if r.condition.assetId = 0 then r.condition.slateId else 0) op.amount
  let a ← orThrow (s.currentState.getAssetRecord r.condition.assetId)
    (.assertion "asset_rec.valid()")
  require (forkBlockNumV0428 ≤ head → a.isMarketIssued → r.condition.slateId = 0)
    (.assertion "cur_record->condition.slate_id == 0")
  checkAuthorizations s.currentState a r
  let balance := int64 (r.balance + op.amount)
  let r := { r with balance, depositDate := date, lastUpdate := now }
  pure { s with layer := s.layer.storeBalanceRecord r }

def checkBurnAccount (c : ChainInterface) (accountId : Int) : Except ChainError Unit :=
  require (accountId = 0 ∨ (c.getAccountRecord accountId.natAbs).isSome)
    (.assertion "account_rec.valid()")

def BurnOperation.evaluate (op : BurnOperation) (s : EvaluationState) :
    Except ChainError EvaluationState := do
  require (op.message ≠ "" → op.amount.assetId = 0) (.assertion "amount.asset_id == 0")
  require (op.amount.assetId = 0 → minBurnFee ≤ op.amount.amount)
    (.assertion "amount.amount >= BTS_BLOCKCHAIN_MIN_BURN_FEE")
  let a ← orThrow (s.currentState.getAssetRecord op.amount.assetId)
    (.assertion "asset_rec.valid()")
  require (¬ a.isMarketIssued) (.assertion "!asset_rec->is_market_issued()")
  let s ← s.subBalance 0 op.amount
  let burnt := { a with currentShareSupply := int64 (a.currentShareSupply - op.amount.amount) }
  let layer := s.layer.storeAssetRecord burnt
  checkBurnAccount (.pending layer s.prev) op.accountId
  let key := { accountId := op.accountId, transactionId := s.trx.id }
  let value := { amount := op.amount, message := op.message, signer := op.messageSignature }
  pure { s with layer := layer.storeBurnRecord key value }

def DefineDelegateSlateOperation.evaluate (op : DefineDelegateSlateOperation)
    (s : EvaluationState) : Except ChainError EvaluationState := do
  require (op.supportedDelegates.length ≤ maxSlateSize) .tooManyDelegatesInSlate
  let id := delegateSlateId op.supportedDelegates
  if (s.currentState.getDelegateSlate id).isSome then pure s
  else do
    op.supportedDelegates.forM fun delegateId => s.verifyDelegateId delegateId.natAbs
    pure { s with layer := s.layer.storeDelegateSlate id op.supportedDelegates }

def isDelegateRate (payRate : Nat) : Prop := payRate ≤ 100
  deriving Decidable

/-- A new delegate: its statistics, its signing key and the fee it has to pay. -/
def makeDelegate (s : EvaluationState) (r : AccountRecord) (payRate key : Nat) :
    Except ChainError (EvaluationState × AccountRecord) := do
  let r := { r with delegateInfo := some { payRate } }
  let r ← r.setSigningKey s.currentState.getHeadBlockNum key
  let fee ← getDelegateRegistrationFee s.currentState.now payRate
  let s ← s.addRequiredFees fee
  pure (s, r)

def registerDelegate (s : EvaluationState) (r : AccountRecord) (payRate key : Nat) :
    Except ChainError (EvaluationState × AccountRecord) :=
  if isDelegateRate payRate then makeDelegate s r payRate key else pure (s, r)

def RegisterAccountOperation.evaluate (op : RegisterAccountOperation) (s : EvaluationState) :
    Except ChainError EvaluationState := do
  let c := s.currentState
  require (isValidAccountName op.name = true) .invalidAccountName
  require ((c.getAccountRecordByName op.name).isNone) .accountAlreadyRegistered
  require ((c.getAccountRecordByAddress (Fc.address op.ownerKey)).isNone) .accountKeyInUse
  require ((c.getAccountRecordByAddress (Fc.address op.activeKey)).isNone) .accountKeyInUse
  require ((getParentAccountName op.name).isSome → s.anyParentHasSigned op.name = true)
    .missingParentAccountSignature
  let id := (← c.lastAccountId) + 1
  let s := { s with layer := s.layer.setProperty .lastAccountId (.int id) }
  let r : AccountRecord :=
    { id, name := op.name, publicData := op.publicData, ownerKey := op.ownerKey,
      registrationDate := c.now, lastUpdate := c.now, metaData := op.metaData }
  let r ← r.setActiveKey c.now op.activeKey
  let (s, r) ← registerDelegate s r op.delegatePayRate op.activeKey
  s.storeAccountRecord r

/-- The branch of `update_account` that changes the active key. Up to the fork a delegate
cannot be retracted and signs with its new key. -/
def replaceActiveKey (s : EvaluationState) (r : AccountRecord) (key : Nat) :
    Except ChainError AccountRecord := do
  let c := s.currentState
  let head := c.getHeadBlockNum
  require ((c.getAccountRecordByAddress (Fc.address key)).isNone) .accountKeyInUse
  require (s.checkSignature (Fc.address r.ownerKey) ∨ s.anyParentHasSigned r.name = true)
    .missingSignature
  let r ← r.setActiveKey c.now key
  require (r.isRetracted → r.isDelegate → forkBlockNumV0428 ≤ head)
    (.assertion "get_head_block_num() >= BTS_V0_4_28_FORK_BLOCK_NUM")
  require (r.isRetracted → ∀ d ∈ r.delegateInfo, d.payBalance ≤ 0) .payBalanceRemaining
  if head < forkBlockNumV0428 ∧ r.isDelegate then r.setSigningKey head r.activeKey else pure r

def updateActiveKey (s : EvaluationState) (r : AccountRecord) (key : Option Nat) :
    Except ChainError AccountRecord :=
  match key with
  | some key => if key ≠ r.activeKey then replaceActiveKey s r key else keepActiveKey
  | none => keepActiveKey
where
  keepActiveKey : Except ChainError AccountRecord := do
    require (s.accountOrAnyParentHasSigned r) .missingSignature
    pure r

/-- A delegate stays one and cannot raise its pay rate. -/
def updateDelegate (s : EvaluationState) (r : AccountRecord) (payRate : Nat) :
    Except ChainError (EvaluationState × AccountRecord) := do
  require (r.isDelegate → isDelegateRate payRate) (.assertion "this->is_delegate()")
  match r.delegateInfo with
  | none => registerDelegate s r payRate r.activeKey
  | some d =>
    require (payRate ≤ d.payRate)
      (.assertion "this->delegate_pay_rate <= current_record->delegate_info->pay_rate")
    pure (s, { r with delegateInfo := some { d with payRate } })

def UpdateAccountOperation.evaluate (op : UpdateAccountOperation) (s : EvaluationState) :
    Except ChainError EvaluationState := do
  let r ← orThrow (s.currentState.getAccountRecord op.accountId) .unknownAccountId
  require (¬ r.isRetracted) .accountRetracted
  let r ← updateActiveKey s r op.activeKey
  let r := { r with publicData := op.publicData.getD r.publicData }
  let (s, r) ← updateDelegate s r op.delegatePayRate
  s.storeAccountRecord { r with lastUpdate := s.currentState.now }

def WithdrawPayOperation.evaluate (op : WithdrawPayOperation) (s : EvaluationState) :
    Except ChainError EvaluationState := do
  require (0 < op.amount) .negativeWithdraw
  let id : Int := op.accountId.natAbs
  let r ← orThrow (s.currentState.getAccountRecord id) .unknownAccountId
  let d ← orThrow r.delegateInfo .notADelegate
  require (op.amount ≤ d.payBalance) .insufficientFunds
  require (s.accountOrAnyParentHasSigned r) .missingSignature
  let votes := EvaluationState.addVotes s.netDelegateVotes id (int64 (-op.amount))
  let s ← { s with netDelegateVotes := votes }.addBalance { amount := op.amount }
  s.storeAccountRecord
    { r with delegateInfo := some { d with payBalance := int64 (d.payBalance - op.amount) } }

def UpdateBlockSigningKey.evaluate (op : UpdateBlockSigningKey) (s : EvaluationState) :
    Except ChainError EvaluationState := do
  let c := s.currentState
  require (forkBlockNumV0428 ≤ c.getHeadBlockNum)
    (.assertion "get_head_block_num() >= BTS_V0_4_28_FORK_BLOCK_NUM")
  let r ← orThrow (c.getAccountRecord op.accountId) .unknownAccountId
  require (¬ r.isRetracted) .accountRetracted
  require r.isDelegate .notADelegate
  require ((c.getAccountRecordByAddress (Fc.address op.blockSigningKey)).isNone) .accountKeyInUse
  let signingKey ← r.signingKey
  require (s.checkSignature (Fc.address signingKey) ∨ s.accountOrAnyParentHasSigned r)
    .missingSignature
  let r ← r.setSigningKey c.getHeadBlockNum op.blockSigningKey
  s.storeAccountRecord { r with lastUpdate := c.now }

def UpdateFeedOperation.evaluate (op : UpdateFeedOperation) (s : EvaluationState) :
    Except ChainError EvaluationState := do
  let c := s.currentState
  let r ← orThrow (c.getAccountRecord op.feed.delegateId) .unknownAccountId
  require (¬ r.isRetracted) .accountRetracted
  require r.isDelegate .notADelegate
  let signingKey ← r.signingKey
  require (s.checkSignature (Fc.address signingKey) ∨ s.accountOrAnyParentHasSigned r)
    .missingSignature
  let layer := s.layer.setFeed { feed := op.feed, value := op.value, lastUpdate := c.now }
  pure { s with layer := layer.setMarketDirty op.feed.feedId 0 }

/-- A symbol with a dot needs the authority of the asset before the dot. -/
def checkParentSymbol (s : EvaluationState) (symbol : String) : Except ChainError Unit :=
  if '.' ∈ symbol.toList then do
    let parent := String.ofList (symbol.toList.takeWhile (· ≠ '.'))
    let a ← orThrow (s.currentState.getAssetRecordBySymbol parent)
      (.assertion "parent_asset_record.valid()")
    require (s.verifyAuthority a.authority) .missingSignature
  else pure ()

def issuerAuthority (s : EvaluationState) (issuerAccountId : Int) :
    Except ChainError MultisigMetaInfo :=
  if issuerAccountId ≠ AssetRecord.marketIssuerId then do
    let r ← orThrow (s.currentState.getAccountRecord issuerAccountId) .unknownAccountId
    pure { required := 1, owners := {Fc.address r.activeKey} }
  else pure {}

def CreateAssetOperation.evaluate (op : CreateAssetOperation) (s : EvaluationState) :
    Except ChainError EvaluationState := do
  let c := s.currentState
  let valid ← isValidSymbolName c.getHeadBlockNum op.symbol
  require (valid = true) .invalidAssetSymbol
  checkParentSymbol s op.symbol
  require ((c.getAssetRecordBySymbol op.symbol).isNone) .assetSymbolInUse
  require (op.name ≠ "") .invalidAssetName
  let id := (← c.lastAssetId) + 1
  require ((c.getAssetRecord id).isNone) .assetIdInUse
  let authority ← issuerAuthority s op.issuerAccountId
  require (0 < op.maximumShareSupply ∧ op.maximumShareSupply ≤ maxShares) .invalidAssetAmount
  require (isPowerOfTen op.precision) .invalidPrecision
  let s ← s.addRequiredFees (getAssetRegistrationFee op.symbol.toList.length)
  let layer := s.layer.setProperty .lastAssetId (.int id)
  let permissions := AssetRecord.retractable ||| AssetRecord.marketHalt |||
    AssetRecord.balanceHalt ||| AssetRecord.supplyUnlimit
  let a : AssetRecord :=
    { id, symbol := op.symbol, name := op.name, description := op.description,
      publicData := op.publicData, issuerAccountId := op.issuerAccountId,
      precision := op.precision, registrationDate := c.now, lastUpdate := c.now,
      maximumShareSupply := op.maximumShareSupply, issuerPermissions := permissions, authority }
  pure { s with layer := layer.storeAssetRecord a }

def IssueAssetOperation.evaluate (op : IssueAssetOperation) (s : EvaluationState) :
    Except ChainError EvaluationState := do
  let a ← orThrow (s.currentState.getAssetRecord op.amount.assetId) .unknownAssetId
  require (¬ a.isMarketIssued) .notUserIssued
  require (s.verifyAuthority a.authority) .missingSignature
  require (0 < op.amount.amount) .negativeIssue
  require (a.canIssue op.amount) .overIssue
  let s ← s.addBalance op.amount
  let currentShareSupply := int64 (a.currentShareSupply + op.amount.amount)
  let a := { a with currentShareSupply, lastUpdate := s.currentState.now }
  pure { s with layer := s.layer.storeAssetRecord a }

end Bts.Blockchain.Operations
