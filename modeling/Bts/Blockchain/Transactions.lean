import Bts.Base.Fixed
import Bts.Blockchain.MarketRecords

namespace Bts.Blockchain.Transactions

open Amounts Records MarketRecords

structure WithdrawOperation where
  balanceId : Nat
  amount : Int
  claimInputData : List Nat := []

structure DepositOperation where
  amount : Int
  condition : WithdrawCondition

structure RegisterAccountOperation where
  name : String
  publicData : Variant := .null
  ownerKey : Nat
  activeKey : Nat
  delegatePayRate : Nat := 255
  metaData : Option AccountMetaInfo := none

structure UpdateAccountOperation where
  accountId : Int
  publicData : Option Variant := none
  activeKey : Option Nat := none
  delegatePayRate : Nat := 255

structure WithdrawPayOperation where
  amount : Int
  accountId : Int

structure UpdateBlockSigningKey where
  accountId : Int
  blockSigningKey : Nat

structure CreateAssetOperation where
  symbol : String
  name : String
  description : String := ""
  publicData : Variant := .null
  issuerAccountId : Int
  maximumShareSupply : Int := 0
  precision : Nat := 0

structure IssueAssetOperation where
  amount : Asset

structure BidOperation where
  amount : Int
  bidIndex : MarketIndexKey

structure AskOperation where
  amount : Int
  askIndex : MarketIndexKey

structure ShortOperation where
  amount : Int
  shortIndex : MarketIndexKey
  limitPrice : Option Price := none

structure CoverOperation where
  amount : Int
  coverIndex : MarketIndexKey
  newCoverPrice : Option Price := none

structure AddCollateralOperation where
  amount : Int
  coverIndex : MarketIndexKey

structure DefineDelegateSlateOperation where
  supportedDelegates : List Int

structure UpdateFeedOperation where
  feed : FeedIndex
  value : Variant

structure BurnOperation where
  amount : Asset
  accountId : Int := 0
  message : String := ""
  messageSignature : Option Nat := none

namespace BidOperation
def getAmount (op : BidOperation) : Asset :=
  { amount := op.amount, assetId := op.bidIndex.orderPrice.quoteAssetId }
end BidOperation

namespace AskOperation
def getAmount (op : AskOperation) : Asset :=
  { amount := op.amount, assetId := op.askIndex.orderPrice.baseAssetId }
end AskOperation

namespace ShortOperation
def getAmount (op : ShortOperation) : Asset :=
  { amount := op.amount, assetId := op.shortIndex.orderPrice.baseAssetId }
end ShortOperation

namespace CoverOperation
def getAmount (op : CoverOperation) : Asset :=
  { amount := op.amount, assetId := op.coverIndex.orderPrice.quoteAssetId }
end CoverOperation

namespace AddCollateralOperation
def getAmount (op : AddCollateralOperation) : Asset :=
  { amount := op.amount, assetId := op.coverIndex.orderPrice.baseAssetId }
end AddCollateralOperation

/-- The operations that `operation_factory` knows but that refuse every
evaluation, and the one of the old short orders. -/
inductive DisabledOperation
  | updateAsset | updateAssetExt | authorize | createAssetProposal | releaseEscrow
  | relativeBid | relativeAsk | updateBalanceVote | setObject | setEdge | shortV1
  deriving DecidableEq

inductive Operation
  | withdraw (op : WithdrawOperation)
  | deposit (op : DepositOperation)
  | registerAccount (op : RegisterAccountOperation)
  | updateAccount (op : UpdateAccountOperation)
  | withdrawPay (op : WithdrawPayOperation)
  | updateBlockSigningKey (op : UpdateBlockSigningKey)
  | createAsset (op : CreateAssetOperation)
  | issueAsset (op : IssueAssetOperation)
  | bid (op : BidOperation)
  | ask (op : AskOperation)
  | short (op : ShortOperation)
  | cover (op : CoverOperation)
  | addCollateral (op : AddCollateralOperation)
  | defineDelegateSlate (op : DefineDelegateSlateOperation)
  | updateFeed (op : UpdateFeedOperation)
  | burn (op : BurnOperation)
  | disabled (op : DisabledOperation) (data : List Nat)
  /-- A type number that no operation is registered for. -/
  | unregistered (type : Nat) (data : List Nat)

structure Transaction where
  expiration : Nat
  delegateSlateId : Option Nat := none
  operations : List Operation

structure SignedTransaction extends Transaction where
  signatures : List Nat := []

structure TransactionLocation where
  blockNum : Nat := 0
  trxNum : Nat := 0

/-- What the database keeps of an evaluated transaction. The null record is the
one of a transaction without operations. -/
structure TransactionRecord where
  trx : SignedTransaction
  chainLocation : TransactionLocation := {}

def TransactionRecord.null : TransactionRecord where
  trx := { expiration := 0, operations := [] }

structure BlockHeader where
  previous : Nat := 0
  blockNum : Nat := 0
  timestamp : Nat := 0
  transactionDigest : Nat := 0
  nextSecretHash : Nat := 0
  previousSecret : Nat := 0

structure SignedBlockHeader extends BlockHeader where
  delegateSignature : Nat := 0

structure FullBlock extends SignedBlockHeader where
  userTransactions : List SignedTransaction := []

structure BlockRecord extends SignedBlockHeader where
  userTransactionIds : List Nat := []
  signeeSharesIssued : Int := 0
  signeeFeesCollected : Int := 0
  signeeFeesDestroyed : Int := 0
  randomSeed : Nat := 0

/-- The parts of the `fc` library and of the serialisation the chain computes
with: hashes, addresses, the recovery of the key behind a signature and the
operations of `fc::real128`, whose numbers are given by their bits. -/
class Fc where
  address : Nat → Nat
  ptsAddress : Nat → Bool → Nat → Nat
  conditionAddress : WithdrawCondition → Nat
  slateHash : List Int → Nat
  publicKey : Nat → Nat → Option Nat
  transactionDigest : Transaction → Nat → Nat
  transactionId : SignedTransaction → Nat
  headerDigest : BlockHeader → Nat
  blockId : SignedBlockHeader → Nat
  transactionIdsDigest : List Nat → Nat
  ripemd160 : Nat → Nat
  sha256 : Nat → Nat
  sha256Words : Nat → Nat → Nat
  randomSeed : Nat → Nat → Nat
  real128 : Int → Nat
  realAdd : Nat → Nat → Nat
  realSub : Nat → Nat → Nat
  realMul : Nat → Nat → Nat
  realDiv : Nat → Nat → Nat
  realToUint64 : Nat → Option Nat

/-- `fc::real128` has eighteen decimals. -/
def realPrecision : Nat := 1000000000000000000

def toUint64 (x : Nat) : Option Nat := if x < 2 ^ 64 then some x else none

/-- Stand-ins for the library to run the chain with: a key is its own address and
signs with its own number. -/
@[reducible] def Fc.plain : Fc where
  address key := key
  ptsAddress key _ _ := 1000000 + key
  conditionAddress
    | { assetId, data := .signature owner _, .. } => 1000 * owner + assetId.toNat
    | _ => 0
  slateHash l := l.length
  publicKey _ signature := some signature
  transactionDigest trx _ := 1000 * trx.expiration + trx.operations.length
  transactionId trx :=
    1000 * (1000 * trx.expiration + trx.operations.length) + trx.signatures.length
  headerDigest header := header.blockNum
  blockId header := 1000 * header.blockNum + header.delegateSignature
  transactionIdsDigest := List.length
  ripemd160 x := x
  sha256 x := x
  sha256Words x y := x + y
  randomSeed secret seed := secret + seed
  real128 n := Base.Fixed.ofNat realPrecision n.toNat
  realAdd x y := x + y
  realSub x y := x - y
  realMul := Base.Fixed.mul realPrecision
  realDiv := Base.Fixed.div realPrecision
  realToUint64 x := toUint64 (Base.Fixed.floor realPrecision x)

variable [Fc]

def Transaction.digest (trx : Transaction) (chainId : Nat) : Nat := Fc.transactionDigest trx chainId

def SignedTransaction.id (trx : SignedTransaction) : Nat := Fc.transactionId trx

namespace FullBlock

def id (b : FullBlock) : Nat := Fc.blockId b.toSignedBlockHeader

def userTransactionIds (b : FullBlock) : List Nat := b.userTransactions.map SignedTransaction.id

def validateDigest (b : FullBlock) : Prop :=
  Fc.transactionIdsDigest b.userTransactionIds = b.transactionDigest
  deriving Decidable

def validateUnique (b : FullBlock) : Prop := b.userTransactionIds.Nodup
  deriving Decidable

end FullBlock

def BalanceRecord.balanceId (r : BalanceRecord) : Nat := Fc.conditionAddress r.condition

def delegateSlateId (supportedDelegates : List Int) : Nat :=
  match supportedDelegates with
  | [] => 0
  | l => Fc.slateHash l

end Bts.Blockchain.Transactions
