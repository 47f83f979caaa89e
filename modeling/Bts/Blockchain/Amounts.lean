import Bts.Base.Result
import Bts.Base.Word
import Bts.Blockchain.Errors

namespace Bts.Blockchain.Amounts

open Base Result Word Errors

abbrev AssetPair := Int × Int

def maxShares : Int := 1000000000000000
def pricePrecision : Int := 1000000000000000000

structure Asset where
  amount : Int := 0
  assetId : Int := 0
  deriving DecidableEq

structure Price where
  ratio : Nat := 0
  baseAssetId : Int := 0
  quoteAssetId : Int := 0
  deriving DecidableEq

namespace Asset

/-- `asset::operator +=`, which throws where the sum leaves `int64_t`. -/
def add (a o : Asset) : Except ChainError Asset := do
  require (a.assetId = o.assetId) (.assertion "")
  require (¬ ((0 < o.amount ∧ 9223372036854775807 - o.amount < a.amount) ∨
    (o.amount < 0 ∧ a.amount < -9223372036854775808 - o.amount))) .additionOverflow
  pure { a with amount := int64 (a.amount + o.amount) }

def sub (a o : Asset) : Except ChainError Asset := do
  require (a.assetId = o.assetId) (.assertion "")
  require (¬ ((0 < o.amount ∧ a.amount < -9223372036854775808 + o.amount) ∨
    (o.amount < 0 ∧ 9223372036854775807 + o.amount < a.amount))) .subtractionOverflow
  pure { a with amount := int64 (a.amount - o.amount) }

def neg (a : Asset) : Asset := { a with amount := int64 (-a.amount) }

/-- The comparisons of two assets. `==`, `<` and `>` read the amounts only,
`<=` and `>=` also ask for the same asset. -/
def eq (l r : Asset) : Prop := l.amount = r.amount
  deriving Decidable

def lt (l r : Asset) : Prop := l.amount < r.amount
  deriving Decidable

def le (l r : Asset) : Prop := l.assetId = r.assetId ∧ l.amount ≤ r.amount
  deriving Decidable

def min (l r : Asset) : Asset := if lt r l then r else l

theorem add_eq_ok {a o r : Asset} (h : add a o = .ok r) :
    a.assetId = o.assetId ∧ r = { a with amount := int64 (a.amount + o.amount) } := by
  simp only [add, eq_ok_iff] at h
  obtain ⟨_, hid, _, _, hr⟩ := h
  exact ⟨hid, hr.symm⟩

theorem sub_eq_ok {a o r : Asset} (h : sub a o = .ok r) :
    a.assetId = o.assetId ∧ r = { a with amount := int64 (a.amount - o.amount) } := by
  simp only [sub, eq_ok_iff] at h
  obtain ⟨_, hid, _, _, hr⟩ := h
  exact ⟨hid, hr.symm⟩

theorem sub_amount {a o r : Asset} (ha : Fits a.amount) (h : Asset.sub a o = .ok r) :
    r.amount = a.amount - o.amount := by
  unfold Fits at ha
  simp only [Asset.sub, eq_ok_iff] at h
  obtain ⟨_, _, _, hrange, rfl⟩ := h
  exact int64_self

end Asset

namespace Price

def assetPair (p : Price) : AssetPair := (p.quoteAssetId, p.baseAssetId)

/-- `operator ==` of prices compares the ratios and nothing else. -/
def eq (l r : Price) : Prop := l.ratio = r.ratio
  deriving Decidable

def lt (l r : Price) : Prop :=
  l.quoteAssetId < r.quoteAssetId ∨ (l.quoteAssetId = r.quoteAssetId ∧
    (l.baseAssetId < r.baseAssetId ∨ (l.baseAssetId = r.baseAssetId ∧ l.ratio < r.ratio)))
  deriving Decidable

def min (l r : Price) : Price := if lt r l then r else l
def max (l r : Price) : Price := if lt l r then r else l

def add (l r : Price) : Except ChainError Price := do
  require (l.quoteAssetId = r.quoteAssetId) (.assertion "")
  require (l.baseAssetId = r.baseAssetId) (.assertion "")
  pure { l with ratio := (l.ratio + r.ratio) % 2 ^ 128 }

/-- The constructor `price( 0, quote, base )`, which is the one from `double`. -/
def zero (quote base : Int) : Except ChainError Price := do
  require (base < quote) (.assertion "quote > base")
  pure { ratio := 0, baseAssetId := base, quoteAssetId := quote }

end Price

/-- `fc::bigint::to_int64`. -/
def bigintToInt64 (x : Int) : Except ChainError Int := do
  require (x.natAbs < 2 ^ 63) (.assertion "BN_num_bits(n) <= 63")
  pure x

/-- `operator / ( asset, asset )`: the price has the larger asset id as its quote,
whatever the order of the arguments. -/
def divide (a b : Asset) : Except ChainError Price := do
  require (a.assetId ≠ b.assetId) .assetDivideBySelf
  let l := if a.assetId < b.assetId then b else a
  let r := if a.assetId < b.assetId then a else b
  require (r.amount ≠ 0) .assetDivideByZero
  let result := (l.amount * pricePrecision).tdiv r.amount
  pure { ratio := result.natAbs % 2 ^ 128, baseAssetId := r.assetId, quoteAssetId := l.assetId }

/-- `operator * ( asset, price )`: the amount of the other asset of the pair. -/
def multiply (a : Asset) (p : Price) : Except ChainError Asset :=
  if a.assetId = p.baseAssetId then do
    let amnt := (a.amount * p.ratio).tdiv pricePrecision
    require (amnt.natAbs < 2 ^ 128) .additionOverflow
    let amount ← bigintToInt64 amnt
    pure { amount, assetId := p.quoteAssetId }
  else if a.assetId = p.quoteAssetId then do
    let result := (a.amount * pricePrecision).tdiv p.ratio
    require (result.natAbs < 2 ^ 128) .additionOverflow
    let amount ← bigintToInt64 result
    pure { amount, assetId := p.baseAssetId }
  else throw .assetTypeMismatch

variable {p : Price} {a r : Asset}

theorem divide_ordered {a b : Asset} (h : divide a b = .ok p) : p.baseAssetId < p.quoteAssetId := by
  simp only [divide, eq_ok_iff] at h
  obtain ⟨_, hne, _, _, rfl⟩ := h
  by_cases hlt : a.assetId < b.assetId
  · simp [hlt]
  · simp only [hlt, ↓reduceIte]
    omega

theorem divide_pair {a b : Asset} (h : divide a b = .ok p) :
    p.quoteAssetId = max a.assetId b.assetId ∧ p.baseAssetId = min a.assetId b.assetId := by
  simp only [divide, eq_ok_iff] at h
  obtain ⟨_, hne, _, _, rfl⟩ := h
  by_cases hlt : a.assetId < b.assetId
  · simp only [hlt, ↓reduceIte]
    omega
  · simp only [hlt, ↓reduceIte]
    omega

theorem multiply_ok (h : multiply a p = .ok r) : Fits r.amount ∧
    ((a.assetId = p.baseAssetId ∧ r.assetId = p.quoteAssetId ∧
        r.amount = (a.amount * p.ratio).tdiv pricePrecision) ∨
      (a.assetId ≠ p.baseAssetId ∧ a.assetId = p.quoteAssetId ∧ r.assetId = p.baseAssetId ∧
        r.amount = (a.amount * pricePrecision).tdiv p.ratio)) := by
  unfold multiply at h
  split at h
  next hbase =>
    simp only [bigintToInt64, eq_ok_iff] at h
    obtain ⟨_, _, _, ⟨_, hbits, rfl⟩, rfl⟩ := h
    exact ⟨by unfold Fits; dsimp only; omega, Or.inl ⟨hbase, rfl, rfl⟩⟩
  next hbase =>
    split at h
    next hquote =>
      simp only [bigintToInt64, eq_ok_iff] at h
      obtain ⟨_, _, _, ⟨_, hbits, rfl⟩, rfl⟩ := h
      exact ⟨by unfold Fits; dsimp only; omega, Or.inr ⟨hbase, hquote, rfl, rfl⟩⟩
    next => cases h

theorem multiply_asset (h : multiply a p = .ok r) :
    (a.assetId = p.baseAssetId ∧ r.assetId = p.quoteAssetId) ∨
      (a.assetId = p.quoteAssetId ∧ r.assetId = p.baseAssetId) := by
  obtain ⟨-, ⟨hb, hr, -⟩ | ⟨-, hq, hr, -⟩⟩ := multiply_ok h
  · exact Or.inl ⟨hb, hr⟩
  · exact Or.inr ⟨hq, hr⟩

theorem multiply_fits (h : multiply a p = .ok r) : Fits r.amount := (multiply_ok h).1

theorem multiply_zero (ha : a.amount = 0) (h : multiply a p = .ok r) : r.amount = 0 := by
  obtain ⟨-, ⟨-, -, hr⟩ | ⟨-, -, -, hr⟩⟩ := multiply_ok h <;> rw [hr, ha, Int.zero_mul, Int.zero_tdiv]

theorem multiply_nonneg (ha : 0 ≤ a.amount) (h : multiply a p = .ok r) : 0 ≤ r.amount := by
  obtain ⟨-, ⟨-, -, hr⟩ | ⟨-, -, -, hr⟩⟩ := multiply_ok h
  · rw [hr]
    exact Int.tdiv_nonneg (Int.mul_nonneg ha (Int.natCast_nonneg _)) (by decide)
  · rw [hr]
    exact Int.tdiv_nonneg (Int.mul_nonneg ha (by decide)) (Int.natCast_nonneg _)

theorem divide_ne_zero {a b : Asset} (hids : b.assetId < a.assetId) (h : divide a b = .ok p) :
    b.amount ≠ 0 := by
  simp only [divide, eq_ok_iff] at h
  obtain ⟨_, _, _, hzero, _⟩ := h
  rw [if_neg (by omega)] at hzero
  exact hzero

theorem Price.min_pair {limit feed p : Price} (hpair : feed.assetPair = p.assetPair)
    (hlimit : ¬ Price.lt limit p) : (Price.min limit feed).assetPair = p.assetPair := by
  unfold Price.min
  split
  · exact hpair
  next hfeed =>
    simp only [Price.assetPair, Prod.mk.injEq] at hpair ⊢
    unfold Price.lt at hfeed hlimit
    omega

end Bts.Blockchain.Amounts
