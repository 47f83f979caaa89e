import Bts.Blockchain.Rules

namespace Bts.Blockchain.Evaluation

open Base Result Word Maps Errors Amounts Records Transactions Pending Layers Rules

/-- The amounts and votes that the operations of a transaction add up. -/
structure TransactionBalances where
  providedDeposits : Map Nat Asset := ∅
  deposits : Map Int Asset := ∅
  withdraws : Map Int Asset := ∅
  yield : Map Int Int := ∅
  deltas : Map Nat Asset := ∅
  requiredFees : Asset := {}
  altFeesPaid : Asset := {}
  balance : Map Int Int := ∅
  netDelegateVotes : Map Int Int := ∅

variable [Fc]

/-- The `transaction_evaluation_state` of a transaction that writes to `layer` on `prev`. -/
structure EvaluationState extends TransactionBalances where
  prev : ChainInterface
  chainId : Nat
  skipSignatureCheck : Bool := false
  trx : SignedTransaction := { expiration := 0, operations := [] }
  currentOpIndex : Nat := 0
  signedKeys : Finset Nat := ∅
  layer : PendingState := {}

/-- `m[k] += amount` for the maps of assets, where a new entry is the amount itself. -/
def addAsset {K : Type} [DecidableEq K] (m : Map K Asset) (k : K) (amount : Asset) :
    Except ChainError (Map K Asset) :=
  match m.lookup k with
  | none => pure (m.insert k amount)
  | some a => do
    let sum ← Asset.add a amount
    pure (m.insert k sum)

namespace EvaluationState

variable (s : EvaluationState)

def currentState : ChainInterface := .pending s.layer s.prev

def checkSignature (a : Nat) : Prop := s.skipSignatureCheck = true ∨ a ∈ s.signedKeys
  deriving Decidable

def verifyAuthority (siginfo : MultisigMetaInfo) : Prop :=
  siginfo.required ≤ (siginfo.owners.filter fun a => s.checkSignature a).card
  deriving Decidable

/-- An account that is not retracted has signed with one of its keys. -/
def hasSigned (r : AccountRecord) : Prop :=
  ¬ r.isRetracted ∧
    (s.checkSignature (Fc.address r.activeKey) ∨ s.checkSignature (Fc.address r.ownerKey))
  deriving Decidable

def anyParentHasSigned (accountName : String) : Bool :=
  (parentNames accountName.toList).any fun parent =>
    (s.currentState.getAccountRecordByName (String.ofList parent)).any fun r => s.hasSigned r

def accountOrAnyParentHasSigned (r : AccountRecord) : Prop :=
  s.hasSigned r ∨ s.anyParentHasSigned r.name = true
  deriving Decidable

def verifyDelegateId (id : Int) : Except ChainError Unit := do
  let account ← orThrow (s.currentState.getAccountRecord id) .unknownAccountId
  require account.isDelegate .notADelegate

def addProvided (balanceId : Nat) (amount : Asset) : Except ChainError (Map Nat Asset) :=
  if balanceId ≠ 0 then addAsset s.providedDeposits balanceId amount
  else pure s.providedDeposits

def subBalance (balanceId : Nat) (amount : Asset) : Except ChainError EvaluationState := do
  let providedDeposits ← s.addProvided balanceId amount
  let deposits ← addAsset s.deposits amount.assetId amount
  let left := (s.balance.lookup amount.assetId).getD 0
  pure { s with
    providedDeposits, deposits
    balance := s.balance.insert amount.assetId (int64 (left - amount.amount))
    deltas := s.deltas.insert s.currentOpIndex amount }

def addBalance (amount : Asset) : Except ChainError EvaluationState := do
  let withdraws ← addAsset s.withdraws amount.assetId amount
  let left := (s.balance.lookup amount.assetId).getD 0
  pure { s with
    withdraws
    balance := s.balance.insert amount.assetId (int64 (left + amount.amount))
    deltas := s.deltas.insert s.currentOpIndex amount.neg }

def addVotes (votes : Map Int Int) (delegateId amount : Int) : Map Int Int :=
  votes.insert delegateId (int64 ((votes.lookup delegateId).getD 0 + amount))

/-- `adjust_vote`. Negative votes are not enabled, so that an entry against a delegate
counts for it. -/
def adjustVote (slateId : Nat) (amount : Int) : Except ChainError EvaluationState :=
  if slateId = 0 then pure s
  else do
    let slate ← orThrow (s.currentState.getDelegateSlate slateId) .unknownDelegateSlate
    let netDelegateVotes :=
      slate.foldl (fun votes id => addVotes votes id.natAbs amount) s.netDelegateVotes
    pure { s with netDelegateVotes }

def addRequiredFees (fee : Int) : Except ChainError EvaluationState := do
  let requiredFees ← Asset.add s.requiredFees { amount := fee }
  pure { s with requiredFees }

def validateAsset (a : Asset) : Except ChainError Unit :=
  require (s.currentState.getAssetRecord a.assetId).isSome .unknownAssetId

def storeAccountRecord (r : AccountRecord) : Except ChainError EvaluationState := do
  let layer ← s.layer.storeAccountRecord r
  pure { s with layer }

def updateDelegateVote (vote : Int × Int) : Except ChainError EvaluationState := do
  let r ← orThrow (s.currentState.getAccountRecord vote.1) (.assertion "!!del_rec")
  let voted ← r.adjustVotesFor vote.2
  s.storeAccountRecord voted

def updateDelegateVotes : Except ChainError EvaluationState :=
  s.netDelegateVotes.entries.foldlM (fun s e => s.updateDelegateVote (e.1, e.2)) s

def validateRequiredFee : Except ChainError Unit := do
  let xtsFees ← Asset.add { amount := (s.balance.lookup 0).getD 0 } s.altFeesPaid
  require (¬ Asset.lt xtsFees s.requiredFees) .insufficientFee

/-- The transaction fee of an asset that is withdrawn from. -/
def chargeTransactionFee (assetId : Int) : Except ChainError EvaluationState := do
  let r ← orThrow (s.currentState.getAssetRecord assetId) .unknownAssetId
  if 0 < r.id ∧ r.isMarketIssued ∧ 0 < r.transactionFee then
    s.subBalance 0 { amount := r.transactionFee, assetId := r.id }
  else pure s

/-- The fees with a fee in another asset added, two thirds of it at the median price. -/
def convertFee (assetId fee : Int) : Except ChainError Asset := do
  match ← s.currentState.getMedianDelegatePrice assetId 0 with
  | none => pure s.altFeesPaid
  | some price =>
    let value ← multiply { amount := (int64 (fee * 2)).tdiv 3, assetId } price
    Asset.add s.altFeesPaid value

def addAltFee (assetId fee : Int) : Except ChainError EvaluationState := do
  require (0 ≤ fee) .negativeFee
  if assetId = 0 ∨ fee = 0 then pure s
  else do
    let r ← orThrow (s.currentState.getAssetRecord assetId) .unknownAssetId
    if r.isMarketIssued then do
      let altFeesPaid ← s.convertFee assetId fee
      pure { s with altFeesPaid }
    else pure s

def collectFee (assetId fee : Int) : Except ChainError EvaluationState := do
  require (0 ≤ fee) .negativeFee
  if 0 < fee then do
    let r ← orThrow (s.currentState.getAssetRecord assetId) .unknownAssetId
    let collected := { r with collectedFees := int64 (r.collectedFees + fee) }
    pure { s with layer := s.layer.storeAssetRecord collected }
  else pure s

def postEvaluate : Except ChainError EvaluationState := do
  let s ← s.withdraws.entries.foldlM (fun s e => s.chargeTransactionFee e.1) s
  let s := { s with balance := s.balance.insert 0 ((s.balance.lookup 0).getD 0) }
  let s ← s.balance.entries.foldlM (fun s e => s.addAltFee e.1 e.2) s
  s.balance.entries.foldlM (fun s e => s.collectFee e.1 e.2) s

end EvaluationState

end Bts.Blockchain.Evaluation
