import Mathlib.Data.Finset.Card
import Bts.Base.Maps
import Bts.Blockchain.Amounts

namespace Bts.Blockchain.Records

open Base Result Word Maps Errors Amounts

/-- The values of `fc::variant` that the chain tells apart. -/
inductive Variant
  | null
  | price (p : Price)
  | data (n : Nat)
  deriving DecidableEq

structure MultisigMetaInfo where
  required : Nat := 0
  owners : Finset Nat := ∅

structure AssetRecord where
  id : Int
  symbol : String
  name : String := ""
  description : String := ""
  publicData : Variant := .null
  issuerAccountId : Int
  precision : Nat := 0
  registrationDate : Nat := 0
  lastUpdate : Nat := 0
  currentShareSupply : Int := 0
  maximumShareSupply : Int := 0
  collectedFees : Int := 0
  flags : Nat := 0
  issuerPermissions : Nat := 0
  transactionFee : Int := 0
  authority : MultisigMetaInfo := {}

namespace AssetRecord

def godIssuerId : Int := 0
def nullIssuerId : Int := -1
def marketIssuerId : Int := -2

def retractable : Nat := 1
def restricted : Nat := 2
def marketHalt : Nat := 4
def balanceHalt : Nat := 8
def supplyUnlimit : Nat := 16

def makeNull (r : AssetRecord) : AssetRecord := { r with issuerAccountId := nullIssuerId }

def isNull (r : AssetRecord) : Prop := r.issuerAccountId = nullIssuerId
  deriving Decidable

def isMarketIssued (r : AssetRecord) : Prop := r.issuerAccountId = marketIssuerId
  deriving Decidable

def isUserIssued (r : AssetRecord) : Prop := godIssuerId < r.issuerAccountId
  deriving Decidable

def hasFlag (r : AssetRecord) (flag : Nat) : Prop := r.isUserIssued ∧ r.flags &&& flag ≠ 0
  deriving Decidable

abbrev isRetractable (r : AssetRecord) : Prop := r.hasFlag retractable
abbrev isRestricted (r : AssetRecord) : Prop := r.hasFlag restricted
abbrev isMarketFrozen (r : AssetRecord) : Prop := r.hasFlag marketHalt
abbrev isBalanceFrozen (r : AssetRecord) : Prop := r.hasFlag balanceHalt

/-- `can_issue`, with the sum taken in `int64_t` as the source takes it. -/
def canIssue (r : AssetRecord) (amount : Asset) : Prop :=
  r.id = amount.assetId ∧ 0 < amount.amount ∧
    r.currentShareSupply < int64 (r.currentShareSupply + amount.amount) ∧
    int64 (r.currentShareSupply + amount.amount) ≤ r.maximumShareSupply
  deriving Decidable

end AssetRecord

structure TitanMemo where
  oneTimeKey : Nat
  encryptedMemoData : List Nat

inductive WithdrawData
  | null
  | signature (owner : Nat) (memo : Option TitanMemo)
  | vesting (owner startTime duration : Nat) (originalBalance : Int)
  | multisig (required : Nat) (owners : Finset Nat) (memo : Option TitanMemo)
  | password (payee payor timeout passwordHash : Nat) (memo : Option TitanMemo)
  | reserved
  | escrow (sender receiver escrow agreementDigest : Nat) (memo : Option TitanMemo)

structure WithdrawCondition where
  assetId : Int := 0
  slateId : Nat := 0
  data : WithdrawData := .null

structure BalanceRecord where
  condition : WithdrawCondition
  balance : Int := 0
  depositDate : Nat := 0
  lastUpdate : Nat := 0

namespace BalanceRecord

def isNull (r : BalanceRecord) : Prop := r.balance = 0
  deriving Decidable

def makeNull (r : BalanceRecord) : BalanceRecord := { r with balance := 0 }

def owners (r : BalanceRecord) : Except ChainError (Finset Nat) :=
  match r.condition.data with
  | .signature owner _ => pure {owner}
  | .vesting owner _ _ _ => pure {owner}
  | .multisig _ owners _ => pure owners
  | _ => throw (.assertion "This balance's condition type doesn't have a true owner.")

/-- `get_spendable_balance`. The product of the vesting branch is taken in
`int64_t`. -/
def getSpendableBalance (r : BalanceRecord) (atTime : Nat) : Except ChainError Asset :=
  match r.condition.data with
  | .signature _ _ | .escrow _ _ _ _ _ | .multisig _ _ _ =>
    pure { amount := r.balance, assetId := r.condition.assetId }
  | .vesting _ startTime duration originalBalance => do
    let elapsed : Int := atTime - startTime
    let claimable := int64 (originalBalance * elapsed) |>.tdiv duration
    require ((startTime + duration) % 2 ^ 32 ≤ atTime ∨ atTime ≤ startTime ∨
      (0 ≤ claimable ∧ claimable < originalBalance)) (.assertion "")
    let maxClaimable := if (startTime + duration) % 2 ^ 32 ≤ atTime then originalBalance
      else if startTime < atTime then claimable else 0
    let claimedSoFar := int64 (originalBalance - r.balance)
    require (0 ≤ claimedSoFar ∧ claimedSoFar ≤ originalBalance) (.assertion "")
    let spendable := int64 (maxClaimable - claimedSoFar)
    require (0 ≤ spendable ∧ spendable ≤ originalBalance) (.assertion "")
    pure { amount := spendable, assetId := r.condition.assetId }
  | _ => pure {}

end BalanceRecord

structure DelegateStats where
  votesFor : Int := 0
  payRate : Nat := 0
  signingKeyHistory : Map Nat Nat := ∅
  lastBlockNumProduced : Nat := 0
  nextSecretHash : Option Nat := none
  payBalance : Int := 0
  totalPaid : Int := 0
  blocksProduced : Nat := 0
  blocksMissed : Nat := 0

structure AccountMetaInfo where
  type : Nat
  data : List Nat

/-- An account. The null public key is `0`. -/
structure AccountRecord where
  id : Int := 0
  name : String
  publicData : Variant := .null
  ownerKey : Nat
  activeKeyHistory : Map Nat Nat := ∅
  registrationDate : Nat := 0
  lastUpdate : Nat := 0
  delegateInfo : Option DelegateStats := none
  metaData : Option AccountMetaInfo := none

namespace AccountRecord

def isNull (r : AccountRecord) : Prop := r.ownerKey = 0
  deriving Decidable

def makeNull (r : AccountRecord) : AccountRecord := { r with ownerKey := 0 }
def activeKey (r : AccountRecord) : Nat := (last r.activeKeyHistory).getD 0

def isRetracted (r : AccountRecord) : Prop := r.activeKey = 0
  deriving Decidable

def isDelegate (r : AccountRecord) : Prop := r.delegateInfo.isSome = true
  deriving Decidable

def delegate (r : AccountRecord) : Except ChainError DelegateStats :=
  orThrow r.delegateInfo (.assertion "is_delegate()")

def setActiveKey (r : AccountRecord) (now key : Nat) : Except ChainError AccountRecord := do
  require (now ≠ 0) (.assertion "now != fc::time_point_sec()")
  pure { r with activeKeyHistory := r.activeKeyHistory.insert now key }

def setSigningKey (r : AccountRecord) (blockNum key : Nat) : Except ChainError AccountRecord := do
  let d ← r.delegate
  let history := d.signingKeyHistory.insert blockNum key
  pure { r with delegateInfo := some { d with signingKeyHistory := history } }

def signingKey (r : AccountRecord) : Except ChainError Nat := do
  let d ← r.delegate
  orThrow (last d.signingKeyHistory) (.assertion "!signing_key_history.empty()")

def activeKey? (r : AccountRecord) : Option Nat :=
  if r.isRetracted then none else some r.activeKey

def signingKey? (r : AccountRecord) : Except ChainError (Option Nat) :=
  if r.isDelegate then some <$> r.signingKey else pure none

def adjustVotesFor (r : AccountRecord) (delta : Int) : Except ChainError AccountRecord := do
  let d ← r.delegate
  pure { r with delegateInfo := some { d with votesFor := int64 (d.votesFor + delta) } }

end AccountRecord

structure FeedIndex where
  feedId : Int
  delegateId : Int
  deriving DecidableEq

structure FeedRecord where
  feed : FeedIndex
  value : Variant := .null
  lastUpdate : Nat := 0

def FeedRecord.isNull (r : FeedRecord) : Prop := r.value = .null
  deriving Decidable

structure BurnRecordKey where
  accountId : Int
  transactionId : Nat
  deriving DecidableEq

structure BurnRecordValue where
  amount : Asset := {}
  message : String := ""
  signer : Option Nat := none

def BurnRecordValue.isNull (r : BurnRecordValue) : Prop := r.amount.amount = 0
  deriving Decidable

structure SlotRecord where
  startTime : Nat := 0
  blockProducerId : Int := 0
  blockId : Option Nat := none

def SlotRecord.isNull (r : SlotRecord) : Prop := r.startTime = 0
  deriving Decidable

end Bts.Blockchain.Records
