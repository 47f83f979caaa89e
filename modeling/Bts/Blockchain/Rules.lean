import Bts.Blockchain.Layers

namespace Bts.Blockchain.Rules

open Base Result Word Errors Amounts Records Transactions Database

def blockchainPrecision : Int := 100000
def maxTransactionExpirationSec : Nat := 60 * 60 * 24 * 2
def minYieldPeriodSec : Int := 60 * 60 * 24
def minBurnFee : Int := blockchainPrecision * 1
def maxShortPeriodSec : Nat := 30 * 24 * 60 * 60
def maxSlateSize : Nat := numDelegates + numDelegates / 10
def maxDelegatePayPerBlock : Int := 50 * blockchainPrecision
def secondsPerYear : Nat := 8640 * 365 * 10

/-- The account names behind the dots of a name: its parent, the parent of that, and so
on. -/
def parentNames : List Char → List (List Char)
  | [] => []
  | c :: rest => if c = '.' then rest :: parentNames rest else parentNames rest

def getParentAccountName (name : String) : Option String :=
  (parentNames name.toList).head?.map String.ofList

def isNameEnd (c : Char) : Bool := c.isAlphanum && !c.isUpper

/-- What `is_valid_account_name` asks of a name before it turns to the parent. Every
character of an accepted name is one byte. -/
def isValidNamePart (name : List Char) : Bool :=
  let subname := name.takeWhile (· ≠ '.')
  1 ≤ name.length && name.length ≤ 63 && name.head?.any Char.isAlpha &&
    name.getLast?.any isNameEnd && subname.getLast?.any isNameEnd &&
    subname.all fun c => isNameEnd c || c = '-'

def isValidAccountName (name : String) : Bool :=
  (name.toList :: parentNames name.toList).all isValidNamePart

def isValidSymbolName (headBlockNum : Nat) (symbol : String) : Except ChainError Bool := do
  require (symbol ≠ "BTSX") (.assertion "symbol != \"BTSX\"")
  let cs := symbol.toList
  pure (3 ≤ cs.length && cs.length ≤ 8 && (cs.filter (· = '.')).length ≤ 1 &&
    cs.all (fun c => c = '.' || c.isUpper) && cs.getLast? ≠ some '.' && cs.head? ≠ some '.' &&
    !(forkBlockNumV0428 ≤ headBlockNum && cs.take 3 = ['B', 'I', 'T']))

def isPowerOfTen (n : Nat) : Prop := n ∈ (List.range 16).map (10 ^ ·)
  deriving Decidable

/-- The pay of a block is halved every four years of 365 days. -/
def getMaxDelegatePayIssuedPerBlock (now : Nat) : Int :=
  if 1415188800 ≤ now then
    (· / 2)^[(now - 1415188800) / (4 * 365 * secondsPerDay)] maxDelegatePayPerBlock
  else maxDelegatePayPerBlock

def getDelegateRegistrationFee (now payRate : Nat) : Except ChainError Int := do
  let total := 14 * blocksPerDay * getMaxDelegatePayIssuedPerBlock now
  let fee := total / numDelegates * payRate / 100
  require (0 < fee) (.assertion "registration_fee > 0")
  pure fee

def getAssetRegistrationFee (symbolLength : Nat) : Int :=
  if symbolLength ≤ 5 then 1000 * (500 * blockchainPrecision) else 500 * blockchainPrecision

def uint128 (x : Int) : Nat := (x % 2 ^ 128).toNat
def mul128 (x y : Nat) : Nat := x * y % 2 ^ 128

theorem uint128_cast {n : Nat} (h : n < 2 ^ 128) : uint128 n = n := by
  unfold uint128
  omega

theorem mul128_eq {x y : Nat} (h : x * y < 2 ^ 128) : mul128 x y = x * y := Nat.mod_eq_of_lt h

/-- The yield of less than a year: four fifths grow linearly and one fifth with the
square of the time. -/
def scaleYield (yield elapsed : Nat) : Nat :=
  let simple := mul128 yield 8 / 10
  let delta := uint128 (yield - simple)
  let compound := mul128 (mul128 delta elapsed / secondsPerYear) elapsed / secondsPerYear
  (mul128 simple elapsed / secondsPerYear + compound) % 2 ^ 128

def calculateYield (r : BalanceRecord) (now : Nat) (amount yieldPool shareSupply : Int) :
    Except ChainError Asset :=
  let elapsed : Int := now - r.depositDate
  if amount ≤ 0 ∨ shareSupply ≤ 0 ∨ yieldPool ≤ 0 ∨ elapsed ≤ minYieldPeriodSec then
    pure { amount := 0, assetId := r.condition.assetId }
  else do
    let currentSupply := uint128 (int64 (shareSupply - yieldPool))
    require (currentSupply ≠ 0) (.assertion "")
    let year := mul128 (mul128 (uint128 amount) 1000000) (uint128 yieldPool) / currentSupply
    let yield := (if elapsed < secondsPerYear then scaleYield year elapsed.toNat else year) / 1000000
    require (yield < 2 ^ 64) (.assertion "hi == 0")
    pure { amount := if 0 < yield ∧ yield < yieldPool then yield else 0,
           assetId := r.condition.assetId }

variable [Fc]

/-- The quotient of two integers in `fc::real128`. -/
def realRatio (n d : Int) : Nat := Fc.realDiv (Fc.real128 n) (Fc.real128 d)

def percentOfYear (ageSeconds : Nat) : Nat := realRatio ageSeconds (365 * 24 * 60 * 60)

def realInterestOwed (principle aprN : Int) (ageSeconds : Nat) : Nat :=
  let iapr := realRatio aprN maxShares
  Fc.realMul (Fc.realMul (Fc.real128 principle) iapr) (percentOfYear ageSeconds)

def realInterestPaid (totalPaid aprN : Int) (ageSeconds : Nat) : Nat :=
  let iapr := realRatio aprN maxShares
  let deltaPrinciple := Fc.realDiv (Fc.real128 totalPaid)
    (Fc.realAdd (Fc.real128 1) (Fc.realMul iapr (percentOfYear ageSeconds)))
  Fc.realSub (Fc.real128 totalPaid) deltaPrinciple

/-- The interest on a debt of `principle` at the yearly rate `apr`. -/
def getInterestOwed (principle : Asset) (apr : Price) (ageSeconds : Nat) :
    Except ChainError Asset := do
  let aprN ← multiply { amount := maxShares, assetId := apr.baseAssetId } apr
  let interest ← orThrow
    (Fc.realToUint64 (realInterestOwed principle.amount aprN.amount ageSeconds)) (.assertion "")
  pure { amount := int64 interest, assetId := principle.assetId }

/-- The part of a payment that pays interest. -/
def getInterestPaid (totalAmountPaid : Asset) (apr : Price) (ageSeconds : Nat) :
    Except ChainError Asset := do
  let aprN ← multiply { amount := maxShares, assetId := apr.baseAssetId } apr
  let interest ← orThrow
    (Fc.realToUint64 (realInterestPaid totalAmountPaid.amount aprN.amount ageSeconds)) (.assertion "")
  pure { amount := int64 interest, assetId := totalAmountPaid.assetId }

structure Payment where
  principlePaid : Asset
  interestPaid : Asset
  payoffBalance : Int

/-- A payment of less than the whole debt pays interest in proportion. -/
def payDebt (paid principle totalDebt : Asset) (apr : Price) (ageSeconds : Nat) (owed : Int) :
    Except ChainError Payment :=
  if Asset.le totalDebt paid then do
    let interestPaid ← Asset.sub paid principle
    pure { principlePaid := principle, interestPaid, payoffBalance := 0 }
  else do
    let interestPaid ← getInterestPaid paid apr ageSeconds
    let principlePaid ← Asset.sub paid interestPaid
    pure { principlePaid, interestPaid, payoffBalance := int64 (owed - principlePaid.amount) }

end Bts.Blockchain.Rules
