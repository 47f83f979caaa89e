import Bts.Blockchain.MarketOperations

namespace Bts.Blockchain.Evaluate

open Base.Result Errors Transactions Database Layers Rules Evaluation Operations MarketOperations

variable [Fc]

def disabledText : DisabledOperation → String
  | .shortV1 => "!\"short_operation_v1 is no longer supported!\""
  | _ => "!\"This operation is not enabled yet!\""

def evaluateOperation (s : EvaluationState) (op : Operation) : Except ChainError EvaluationState :=
  match op with
  | .withdraw op => WithdrawOperation.evaluate op s
  | .deposit op => DepositOperation.evaluate op s
  | .registerAccount op => RegisterAccountOperation.evaluate op s
  | .updateAccount op => UpdateAccountOperation.evaluate op s
  | .withdrawPay op => WithdrawPayOperation.evaluate op s
  | .updateBlockSigningKey op => UpdateBlockSigningKey.evaluate op s
  | .createAsset op => CreateAssetOperation.evaluate op s
  | .issueAsset op => IssueAssetOperation.evaluate op s
  | .bid op => BidOperation.evaluate op s
  | .ask op => AskOperation.evaluate op s
  | .short op => ShortOperation.evaluate op s
  | .cover op => CoverOperation.evaluate op s
  | .addCollateral op => AddCollateralOperation.evaluate op s
  | .defineDelegateSlate op => DefineDelegateSlateOperation.evaluate op s
  | .updateFeed op => UpdateFeedOperation.evaluate op s
  | .burn op => BurnOperation.evaluate op s
  | .disabled op _ => throw (.assertion (disabledText op))
  | .unregistered _ _ => throw .unsupportedOperation

def evaluateNext (s : EvaluationState) (op : Operation) : Except ChainError EvaluationState := do
  let s ← evaluateOperation s op
  pure { s with currentOpIndex := s.currentOpIndex + 1 }

/-- The addresses under which a key counts as having signed. -/
def keyAddresses (key : Nat) : Finset Nat :=
  {Fc.address key, Fc.ptsAddress key false 56, Fc.ptsAddress key true 56,
    Fc.ptsAddress key false 0, Fc.ptsAddress key true 0}

def recoverKeys (digest : Nat) (signatures : List Nat) : Except ChainError (Finset Nat) :=
  signatures.foldlM (fun keys signature => do
    let key ← orThrow (Fc.publicKey digest signature) .invalidSignature
    pure (keys ∪ keyAddresses key)) ∅

def signedKeysOf (skipSignatureCheck : Bool) (digest : Nat) (signatures : List Nat) :
    Except ChainError (Finset Nat) :=
  if skipSignatureCheck then pure ∅ else recoverKeys digest signatures

/-- A known digest is a duplicate only where its transaction is found under its id. -/
def checkDuplicate (c : ChainInterface) (trx : SignedTransaction) (chainId : Nat) :
    Except ChainError Unit :=
  if forkBlockNumV0426 ≤ c.getHeadBlockNum ∧
      c.isKnownTransaction trx.expiration (trx.digest chainId) = true then do
    let current ← c.getTransaction trx.id
    require current.isNone .duplicateTransaction
  else pure ()

def checkTransaction (c : ChainInterface) (trx : SignedTransaction) (chainId : Nat) :
    Except ChainError Unit := do
  require (c.now < trx.expiration) .expiredTransaction
  require (trx.expiration ≤ c.now + maxTransactionExpirationSec) .invalidTransactionExpiration
  checkDuplicate c trx chainId

/-- `evaluate` of a fresh evaluation state, on the layer of the transaction. -/
def evaluate (s : EvaluationState) (trx : SignedTransaction) (skipSignatureCheck : Bool) :
    Except ChainError EvaluationState := do
  checkTransaction s.currentState trx s.chainId
  let keys ← signedKeysOf skipSignatureCheck (trx.digest s.chainId) trx.signatures
  let s ← trx.operations.foldlM evaluateNext
    { s with skipSignatureCheck, trx, signedKeys := s.signedKeys ∪ keys, currentOpIndex := 0 }
  let s ← s.postEvaluate
  s.validateRequiredFee
  s.updateDelegateVotes

end Bts.Blockchain.Evaluate
