namespace Bts.Blockchain.Errors

/-- The exceptions of the block chain library and of the wallet. An `FC_ASSERT` keeps its text
and is empty where the source gives none. -/
inductive ChainError
  | assertion (text : String)
  | additionOverflow | subtractionOverflow | assetTypeMismatch
  | assetDivideBySelf | assetDivideByZero
  | expiredTransaction | invalidTransactionExpiration | duplicateTransaction
  | invalidSignature | missingSignature | missingParentAccountSignature
  | unknownAssetId | unknownAssetSymbol | unknownAccountId | unknownBalanceRecord
  | unknownDelegateSlate | unknownMarketOrder | unknownBlock | unlinkableBlock | keyNotFound | badCast
  | invalidAssetSymbol | assetSymbolInUse | assetIdInUse | invalidAssetName
  | invalidAssetAmount | invalidPrecision | notUserIssued | negativeIssue | overIssue
  | invalidAccountName | accountAlreadyRegistered | accountKeyInUse | accountRetracted
  | payBalanceRemaining | notADelegate | tooManyDelegatesInSlate
  | negativeDeposit | negativeWithdraw | invalidWithdrawCondition
  | insufficientFunds | insufficientFee | negativeFee | insufficientRelayFee
  | zeroAmount | zeroPrice | insufficientFeeds
  | failedCheckpointVerification | invalidBlockTimestamp | timeInPast | timeInFuture
  | invalidBlockDigest | invalidDelegateSignee | duplicateTransactionInBlock
  | invalidPreviousBlockId | blockNumbersNotSequential | blockOlderThanUndoHistory
  | unsupportedOperation | wrongChainId
  | privateKeyNotFound | doubleCover
  deriving DecidableEq

end Bts.Blockchain.Errors
