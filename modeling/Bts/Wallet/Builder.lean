import Mathlib.Data.Prod.Lex
import Bts.Base.Ledger
import Bts.Blockchain.MarketEngine
import Bts.Blockchain.Evaluate

namespace Bts.Wallet.Builder

open Base Result Word Maps Ledger Blockchain Errors Amounts Records MarketRecords Transactions
  Database Layers Rules MarketEngine

def defaultTransactionFee : Int := 50000

structure KeyRecord where
  publicKey : Nat
  accountAddress : Nat
  hasPrivateKey : Bool

structure WalletAccount where
  name : String
  ownerKey : Nat

variable [Fc]

def WalletAccount.ownerAddress (account : WalletAccount) : Nat := Fc.address account.ownerKey

/-- What a transaction builder reads of its wallet and of the chain below it. `set_transaction_fee`
keeps a fee of the base asset that is not negative. -/
structure WalletImpl where
  blockchain : ChainDatabase
  pendingTransactions : List SignedTransaction := []
  orderId : Blockchain.MarketRecords.OrderType → MarketIndexKey → Nat
  lookupKey : Nat → Option KeyRecord
  lookupAccountByKey : Nat → Option WalletAccount
  lookupAccount : Nat → Option WalletAccount
  getAccountBalanceRecords : String → Bool → List (String × List BalanceRecord)
  getNewPublicKey : String → Nat
  selectDelegateVote : List Int := []
  transactionPriorityFee : Int := defaultTransactionFee
  transactionExpiration : Nat := 3600
  now : Nat
  fee_nonneg : 0 ≤ transactionPriorityFee
  fee_fits : Fits transactionPriorityFee

/-- The books in the order in which `scan_market_orders` reads them. -/
def scanMarketOrders (db : ChainDatabase) : List MarketOrder :=
  let orders (type : Blockchain.MarketRecords.OrderType) (book : Map MarketIndexKey OrderRecord) : List MarketOrder :=
    book.entries.map fun e => { type, marketIndex := e.1, state := e.2 }
  orders .askOrder db.askDb ++ orders .bidOrder db.bidDb ++
    orders .relativeAskOrder db.relativeAskDb ++ orders .relativeBidOrder db.relativeBidDb ++
    db.shortDb.entries.map (fun e =>
      { type := .shortOrder, marketIndex := e.1, state := e.2, collateral := some e.2.balance
        interestRate := some e.1.orderPrice }) ++
    db.collateralDb.entries.map fun e => Market.coverOrder e.1 e.2

namespace WalletImpl

variable (w : WalletImpl)

def getMarketOrder (id : Nat) : Option MarketOrder :=
  (scanMarketOrders w.blockchain).find? fun o => w.orderId o.type o.marketIndex = id

/-- `get_transaction_fee`. A fee in another asset is three times the fee, at the median price. -/
def getTransactionFee (assetId : Int) : Except ChainError Asset := do
  let fee : Asset := { amount := w.transactionPriorityFee }
  if assetId = 0 then pure fee
  else do
    let a ← orThrow ((ChainInterface.database w.blockchain).getAssetRecord assetId)
      (.assertion "asset_rec.valid()")
    if a.isMarketIssued then
      match ← (ChainInterface.database w.blockchain).getMedianDelegatePrice assetId 0 with
      | none => pure fee
      | some median => do
        let twice ← Asset.add fee fee
        let thrice ← Asset.add fee twice
        multiply thrice median
    else pure fee

/-- The spendable amounts of the balances of an account, added up for each asset. -/
def sumBalances (records : List BalanceRecord) : Except ChainError (Entries Int) :=
  records.foldlM (fun balances r => do
    let balance ← r.getSpendableBalance w.blockchain.now
    pure (credit balance.assetId balance.amount balances)) []

def getAccountBalances (name : String) (includeEmpty : Bool) :
    Except ChainError (List (String × Entries Int)) :=
  ((w.getAccountBalanceRecords name includeEmpty).filter fun item => !item.2.isEmpty).mapM
    fun item => do
      let balances ← w.sumBalances item.2
      pure (item.1, balances)

/-- The first asset of an account that can pay the fee. -/
def feeFrom : Entries Int → Except ChainError (Option Asset)
  | [] => pure none
  | (assetId, amount) :: rest => do
    let fee ← w.getTransactionFee assetId
    if fee.assetId = assetId ∧ fee.amount ≤ amount then pure (some fee) else feeFrom rest

end WalletImpl

/-- The withdrawals of `withdraw_to_transaction`, from one balance record after the other. -/
def withdrawFrom (now : Nat) : Asset → List BalanceRecord → Except ChainError (List Operation)
  | _, [] => throw .insufficientFunds
  | remaining, r :: rest => do
    let balance ← r.getSpendableBalance now
    if balance.amount ≤ 0 ∨ balance.assetId ≠ remaining.assetId then withdrawFrom now remaining rest
    else do
      let owners ← r.owners
      require (owners ≠ ∅) (.assertion "This balance is screwed.")
      if balance.amount < remaining.amount then do
        let remaining ← Asset.sub remaining balance
        let more ← withdrawFrom now remaining rest
        pure (.withdraw { balanceId := Fc.conditionAddress r.condition, amount := balance.amount } :: more)
      else do
        require (0 < remaining.amount) (.assertion "amount > 0")
        pure [.withdraw { balanceId := Fc.conditionAddress r.condition, amount := remaining.amount }]

def WalletImpl.withdrawToTransaction (w : WalletImpl) (amount : Asset) (accountName : String) :
    Except ChainError (List Operation) := do
  require (accountName ≠ "") (.assertion "!from_account_name.empty()")
  let records ← orThrow ((w.getAccountBalanceRecords accountName true).lookup accountName)
    .insufficientFunds
  withdrawFrom w.blockchain.now amount records

/-- The owner address of an account and an asset. -/
abbrev BalanceKey := Nat ×ₗ Int

/-- A transaction that is being put together, with what each account has still to be paid or
to pay. -/
structure TransactionBuilder where
  operations : List Operation := []
  expiration : Nat := 0
  fee : Asset := {}
  accountsWithCovers : Finset Nat := ∅
  outstandingBalances : Entries BalanceKey := []
  orderKeys : Map Nat Nat := ∅

namespace TransactionBuilder

variable (w : WalletImpl) (b : TransactionBuilder)

def addOperations (ops : List Operation) : TransactionBuilder :=
  { b with operations := b.operations ++ ops }

def deductBalance (account : Nat) (amount : Asset) : Except ChainError TransactionBuilder := do
  require (0 ≤ amount.amount)
    (.assertion "Don't deduct a negative amount. Call credit_balance instead.")
  let key : BalanceKey := toLex (account, amount.assetId)
  pure { b with outstandingBalances := credit key (-amount.amount) b.outstandingBalances }

def creditBalance (account : Nat) (amount : Asset) : Except ChainError TransactionBuilder := do
  require (0 ≤ amount.amount)
    (.assertion "Don't credit a negative amount. Call deduct_balance instead.")
  let key : BalanceKey := toLex (account, amount.assetId)
  pure { b with outstandingBalances := credit key amount.amount b.outstandingBalances }

def orderKeyForAccount (account : Nat) (name : String) : TransactionBuilder × Nat :=
  let key := (b.orderKeys.lookup account).getD 0
  if key = 0 then
    ({ b with orderKeys := b.orderKeys.insert account (w.getNewPublicKey name) },
      w.getNewPublicKey name)
  else (b, key)

def coverKey (account : WalletAccount) (order : MarketOrder) : Except ChainError KeyRecord := do
  let key ← orThrow (w.lookupKey order.getOwner) .privateKeyNotFound
  require key.hasPrivateKey .privateKeyNotFound
  let accountKey ← orThrow (w.lookupKey key.accountAddress)
    (.assertion "account_key_record.valid() && account_key_record->has_private_key()")
  require accountKey.hasPrivateKey
    (.assertion "account_key_record.valid() && account_key_record->has_private_key()")
  let record ← orThrow (w.lookupAccountByKey accountKey.publicKey)
    (.assertion "account_record.valid()")
  require (record.name = account.name)
    (.assertion "Refusing to cover order belonging to $\x7bowner\x7d when $\x7bfrom\x7d requested the cover!")
  pure key

def isCoverOf (owner : Nat) : Operation → Bool
  | .cover op => op.coverIndex.owner = owner
  | _ => false

def checkDoubleCover (account : WalletAccount) (order : MarketOrder) : Except ChainError Unit := do
  require (account.ownerAddress ∉ b.accountsWithCovers) .doubleCover
  require (w.pendingTransactions.all fun trx => trx.operations.all fun op =>
    !isCoverOf order.getOwner op) .doubleCover

/-- The age of a position in whole seconds at the time a new transaction expires. -/
def ageAtExpiration (expiration : Nat) : Nat :=
  (((w.blockchain.now + w.transactionExpiration : Nat) - ((expiration : Int) - maxShortPeriodSec)) %
    2 ^ 32).toNat

/-- The debt of a position with the interest until the transaction expires. -/
def debtAtExpiration (order : MarketOrder) (assetId : Int) : Except ChainError Asset := do
  let balance ← order.getBalance
  require (balance.amount ≠ 0) .zeroAmount
  require (balance.assetId = assetId)
    (.assertion "Asset types of cover amount $\x7bc\x7d and short position $\x7bs\x7d do not match.")
  let expiration ← orThrow order.expiration (.assertion "order->expiration")
  let rate ← orThrow order.interestRate (.assertion "order->interest_rate")
  let interest ← getInterestOwed balance rate (ageAtExpiration w expiration)
  Asset.add balance interest

def checkCoverFunds (account : WalletAccount) (amount : Asset) : Except ChainError Unit := do
  let summary ← w.getAccountBalances account.name true
  let balances ← orThrow summary.head? (.assertion "Account has no balances! Cannot cover.")
  let available ← orThrow (balances.2.lookup amount.assetId)
    (.assertion "Account has no balance in asset to cover!")
  require (Asset.le amount { amount := available, assetId := amount.assetId })
    (.assertion "Cannot cover by $\x7bcover_amount\x7d as account only has $\x7bbalance\x7d")

/-- The amount of a cover, which is the whole debt when none or more is asked for. -/
def amountToCover (debt requested : Asset) : Asset :=
  if Asset.lt debt requested ∨ requested.amount = 0 then debt else requested

/-- If the cover consumes the position, the account recovers the collateral. -/
def recoverCollateral (account : WalletAccount) (order : MarketOrder) (left : Asset) :
    Except ChainError TransactionBuilder :=
  if left.amount = 0 then do
    let collateral ← orThrow order.collateral (.assertion "order->collateral")
    b.creditBalance account.ownerAddress { amount := collateral }
  else pure b

def submitCover (account : WalletAccount) (requested : Asset) (orderId : Nat) :
    Except ChainError TransactionBuilder := do
  let order ← orThrow (w.getMarketOrder orderId) .unknownMarketOrder
  let key ← coverKey w account order
  b.checkDoubleCover w account order
  let address := account.ownerAddress
  let b := { b with
    accountsWithCovers := insert address b.accountsWithCovers
    orderKeys := if address ∈ b.orderKeys then b.orderKeys
      else b.orderKeys.insert address key.publicKey }
  let debt ← debtAtExpiration w order requested.assetId
  let amount := amountToCover debt requested
  checkCoverFunds w account amount
  let left ← Asset.sub debt amount
  let b ← b.recoverCollateral account order left
  let b ← b.deductBalance address amount
  pure (b.addOperations [.cover { amount := amount.amount, coverIndex := order.marketIndex }])

/-- The positive balances of all accounts, added up for each asset. -/
def allPositiveBalances : Entries Int :=
  b.outstandingBalances.foldl (fun balances e =>
    if 0 < e.2 then credit (ofLex e.1).2 e.2 balances else balances) []

/-- A fee that is taken out of the balances in its asset, one after the other. -/
def payFrom (assetId : Int) : Int → Entries BalanceKey → Option (Entries BalanceKey)
  | _, [] => none
  | required, (k, v) :: rest =>
    if (ofLex k).2 ≠ assetId then (payFrom assetId required rest).map ((k, v) :: ·)
    else if v < required then (payFrom assetId (int64 (required - v)) rest).map ((k, 0) :: ·)
    else some ((k, int64 (v - required)) :: rest)

def feePayer (balances : List (String × Entries Int)) :
    Entries BalanceKey → Except ChainError (Option (Nat × Asset))
  | [] => pure none
  | (k, _) :: rest =>
    let holder := (ofLex k).1
    match (w.lookupAccount holder).bind fun account => balances.lookup account.name with
    | none => feePayer balances rest
    | some amounts => do
      match ← w.feeFrom amounts with
      | some fee => pure (some (holder, fee))
      | none => feePayer balances rest

def unableToPayFee : ChainError :=
  .assertion "Unable to pay fee; no remaining balances can cover it and no account can pay it."

def withdrawFee : Except ChainError TransactionBuilder := do
  let balances ← w.getAccountBalances "" false
  match ← feePayer w balances b.outstandingBalances with
  | none => throw unableToPayFee
  | some (holder, fee) => do
    let b ← b.deductBalance holder fee
    pure { b with fee }

def payFee : Except ChainError TransactionBuilder := do
  let required := (← w.feeFrom b.allPositiveBalances).getD { amount := 0, assetId := -1 }
  if required.assetId ≠ -1 then do
    let paid ← orThrow (payFrom required.assetId required.amount b.outstandingBalances)
      unableToPayFee
    pure { b with fee := required, outstandingBalances := paid }
  else b.withdrawFee w

/-- The operation that defines the slate of the wallet where the chain does not know it, and
the slate of the deposits. -/
def voteSlate : List Operation × Nat :=
  let slate := w.selectDelegateVote
  let id := delegateSlateId slate
  if slate ≠ [] ∧ ((ChainInterface.database w.blockchain).getDelegateSlate id).isNone then
    ([.defineDelegateSlate { supportedDelegates := slate }], id)
  else ([], 0)

/-- The operations that settle the outstanding balance of an account. -/
def settleBalance (slateId : Nat) (b : TransactionBuilder) (e : BalanceKey × Int) :
    Except ChainError TransactionBuilder := do
  let (account, assetId) := ofLex e.1
  let record ← orThrow (w.lookupAccount account) (.assertion "lookup_account")
  let (b, key) := b.orderKeyForAccount w account record.name
  if e.2 = 0 then pure b
  else if 0 < e.2 then
    pure (b.addOperations [.deposit { amount := e.2, condition :=
      { assetId, slateId, data := .signature (Fc.address key) none } }])
  else do
    let ops ← w.withdrawToTransaction (Asset.neg { amount := e.2, assetId }) record.name
    pure (b.addOperations ops)

def finalize (payFee : Bool) : Except ChainError TransactionBuilder := do
  require (b.operations ≠ []) (.assertion "Cannot finalize empty transaction")
  let (slate, slateId) := voteSlate w
  let b := b.addOperations slate
  let b ← if payFee then b.payFee w else pure b
  let b ← b.outstandingBalances.foldlM (settleBalance w slateId) b
  pure { b with
    expiration := if b.expiration = 0 then w.now + w.transactionExpiration else b.expiration }

end TransactionBuilder

/-- The transaction of `cover_short`, before it is signed. -/
def WalletImpl.coverShort (w : WalletImpl) (account : WalletAccount) (requested : Asset)
    (orderId : Nat) : Except ChainError TransactionBuilder := do
  let b ← ({} : TransactionBuilder).submitCover w account requested orderId
  b.finalize w true

end Bts.Wallet.Builder
