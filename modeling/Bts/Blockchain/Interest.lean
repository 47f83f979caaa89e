import Mathlib.Tactic.Ring
import Bts.Blockchain.Rules

namespace Bts.Blockchain.Interest

open Base Result Word Amounts Transactions Rules

/-- The numbers of `fc::real128` are cut off after eighteen decimals, where they fit 128 bits. -/
structure TruncatesReals [Fc] : Prop where
  whole : ∀ n : Nat, n < 2 ^ 64 → Fc.real128 n = Fixed.ofNat realPrecision n
  whole_le : ∀ n : Nat, Fc.real128 n ≤ Fixed.ofNat realPrecision n
  add : ∀ x y, x + y < 2 ^ 128 → Fc.realAdd x y = x + y
  sub : ∀ x y, y ≤ x → Fc.realSub x y = x - y
  mul : ∀ x y, Fixed.mul realPrecision x y < 2 ^ 128 →
    Fc.realMul x y = Fixed.mul realPrecision x y
  mul_le : ∀ x y, Fc.realMul x y ≤ Fixed.mul realPrecision x y
  div : ∀ x y, 0 < y → Fixed.div realPrecision x y < 2 ^ 128 →
    Fc.realDiv x y = Fixed.div realPrecision x y
  toUint64 : ∀ x, Fc.realToUint64 x = toUint64 (Fixed.floor realPrecision x)

theorem truncatesReals_plain : @TruncatesReals Fc.plain :=
  @TruncatesReals.mk Fc.plain (fun _ _ => rfl) (fun _ => le_rfl) (fun _ _ _ => rfl)
    (fun _ _ _ => rfl) (fun _ _ _ => rfl) (fun _ _ => le_rfl) (fun _ _ _ _ => rfl) fun _ => rfl

/-- A time in years, in units of `fc::real128`. -/
def yearsOf (age : Nat) : Nat := age * realPrecision / (365 * 24 * 60 * 60)

/-- The yearly rate of a price, of which three decimals are lost. -/
def yearlyRate (apr : Price) : Nat := apr.ratio / 1000 * 1000

/-- What a share owes after some time, in units of `fc::real128`. -/
def accruedRate (apr : Price) (age : Nat) : Nat :=
  yearlyRate apr * yearsOf age / realPrecision

def owedAmount (principle : Nat) (apr : Price) (age : Nat) : Nat :=
  principle * yearlyRate apr * yearsOf age / realPrecision / realPrecision

/-- The part of a payment that pays off the debt itself, in units of `fc::real128`. -/
def deltaPrinciple (paid : Nat) (apr : Price) (age : Nat) : Nat :=
  paid * realPrecision * realPrecision / (realPrecision + accruedRate apr age)

def paidAmount (paid : Nat) (apr : Price) (age : Nat) : Nat :=
  (paid * realPrecision - deltaPrinciple paid apr age) / realPrecision

theorem realPrecision_pos : 0 < realPrecision := by decide

theorem multiply_rate {apr : Price} (h : apr.ratio / 1000 < 2 ^ 63) :
    multiply { amount := maxShares, assetId := apr.baseAssetId } apr =
      .ok { amount := (apr.ratio / 1000 : Nat), assetId := apr.quoteAssetId } := by
  have hdiv : (maxShares * (apr.ratio : Int)).tdiv pricePrecision = (apr.ratio / 1000 : Nat) := by
    rw [Int.tdiv_eq_ediv_of_nonneg (by unfold maxShares; omega)]
    unfold maxShares pricePrecision
    omega
  unfold multiply
  rw [if_pos rfl, hdiv]
  simp only [bigintToInt64, eq_ok_iff]
  exact ⟨(), by omega, _, ⟨(), by omega, rfl⟩, rfl⟩

theorem owedAmount_le (principle : Nat) (apr : Price) (age : Nat) :
    owedAmount principle apr age * realPrecision ≤
      principle * accruedRate apr age + principle := by
  have hrate : yearlyRate apr * yearsOf age <
      (accruedRate apr age + 1) * realPrecision :=
    (Nat.div_lt_iff_lt_mul realPrecision_pos).mp (Nat.lt_succ_self _)
  have howed : owedAmount principle apr age * realPrecision ≤
      principle * yearlyRate apr * yearsOf age / realPrecision := Nat.div_mul_le_self _ _
  refine howed.trans (Nat.div_le_of_le_mul ?_)
  calc principle * yearlyRate apr * yearsOf age
      = principle * (yearlyRate apr * yearsOf age) := Nat.mul_assoc _ _ _
    _ ≤ principle * ((accruedRate apr age + 1) * realPrecision) := Nat.mul_le_mul_left _ hrate.le
    _ = realPrecision * (principle * accruedRate apr age + principle) := by ring

theorem deltaPrinciple_le_iff {paid n : Nat} (apr : Price) (age : Nat) :
    deltaPrinciple paid apr age ≤ n * realPrecision ↔
      paid * realPrecision * realPrecision <
        (n * realPrecision + 1) * (realPrecision + accruedRate apr age) := by
  have hpos : 0 < realPrecision + accruedRate apr age := Nat.add_pos_left realPrecision_pos _
  rw [← Nat.div_lt_iff_lt_mul hpos]
  exact Nat.lt_succ_iff.symm

theorem deltaPrinciple_le {principle paid : Nat} {apr : Price} {age : Nat}
    (hmax : principle ≤ 10 ^ 15) (h : paid < principle + owedAmount principle apr age) :
    deltaPrinciple paid apr age ≤ principle * realPrecision := by
  have howed := owedAmount_le principle apr age
  rw [deltaPrinciple_le_iff]
  have hpaid : (paid + 1) * realPrecision ≤
      principle * realPrecision + (principle * accruedRate apr age + principle) := by
    have := Nat.mul_le_mul_right realPrecision (show paid + 1 ≤ _ from h)
    rw [Nat.add_mul principle] at this
    omega
  have hscaled := Nat.mul_le_mul_right realPrecision hpaid
  have hsmall : principle * realPrecision < realPrecision * realPrecision :=
    Nat.mul_lt_mul_of_pos_right (hmax.trans_lt (by decide)) realPrecision_pos
  have hleft : (paid + 1) * realPrecision * realPrecision =
      paid * realPrecision * realPrecision + realPrecision * realPrecision := by ring
  have hright : (principle * realPrecision + (principle * accruedRate apr age + principle)) *
      realPrecision = principle * realPrecision * (realPrecision + accruedRate apr age) +
        principle * realPrecision := by ring
  rw [Nat.add_mul _ 1, Nat.one_mul]
  omega

theorem deltaPrinciple_le_paid (paid : Nat) (apr : Price) (age : Nat) :
    deltaPrinciple paid apr age ≤ paid * realPrecision := by
  refine Nat.div_le_of_le_mul ?_
  rw [Nat.mul_comm]
  exact Nat.mul_le_mul_right _ (Nat.le_add_right _ _)

theorem paidAmount_le (paid : Nat) (apr : Price) (age : Nat) : paidAmount paid apr age ≤ paid := by
  refine Nat.div_le_of_le_mul ?_
  rw [Nat.mul_comm realPrecision]
  exact Nat.sub_le _ _

section Model

variable [Fc] {apr : Price} {age : Nat}

theorem realRatio_eq (hreal : TruncatesReals) {n d : Nat} (hn : n < 2 ^ 64) (hpos : 0 < d)
    (hd : d < 2 ^ 64) : realRatio n d = n * realPrecision / d := by
  have hdivisor : 0 < Fixed.ofNat realPrecision d := Nat.mul_pos hpos realPrecision_pos
  unfold realRatio
  rw [hreal.whole n hn, hreal.whole d hd, hreal.div _ _ hdivisor ?_]
  · exact Fixed.ofNat_div realPrecision_pos n d
  · rw [Fixed.ofNat_div realPrecision_pos]
    refine (Nat.div_le_self _ _).trans_lt ?_
    unfold realPrecision
    omega

theorem iapr_eq (hreal : TruncatesReals) (h : apr.ratio / 1000 < 2 ^ 63) :
    realRatio (apr.ratio / 1000 : Nat) maxShares = yearlyRate apr := by
  refine (realRatio_eq (d := 1000000000000000) hreal (by omega) (by decide) (by decide)).trans ?_
  unfold yearlyRate realPrecision
  omega

theorem percentOfYear_eq (hreal : TruncatesReals) (h : age < 2 ^ 64) :
    percentOfYear age = yearsOf age :=
  realRatio_eq (d := 365 * 24 * 60 * 60) hreal h (by decide) (by decide)

theorem realInterestOwed_le (hreal : TruncatesReals) (h : apr.ratio / 1000 < 2 ^ 63)
    (hage : age < 2 ^ 64) (principle : Nat) :
    Fixed.floor realPrecision (realInterestOwed principle (apr.ratio / 1000 : Nat) age) ≤
      owedAmount principle apr age := by
  unfold realInterestOwed
  rw [iapr_eq hreal h, percentOfYear_eq hreal hage]
  refine Nat.div_le_div_right ((hreal.mul_le _ _).trans ?_)
  refine Nat.div_le_div_right (Nat.mul_le_mul_right _ ((hreal.mul_le _ _).trans ?_))
  rw [← Fixed.ofNat_mul realPrecision_pos principle]
  exact Nat.div_le_div_right (Nat.mul_le_mul_right _ (hreal.whole_le principle))

theorem getInterestOwed_eq (hreal : TruncatesReals) (h : apr.ratio / 1000 < 2 ^ 63)
    (hage : yearsOf age ≤ realPrecision) {principle : Nat} (hmax : principle < 2 ^ 64)
    (hrate : principle * yearlyRate apr < 2 ^ 128) (a : Int)
    (hfits : owedAmount principle apr age < 2 ^ 63) :
    getInterestOwed ⟨principle, a⟩ apr age = .ok ⟨owedAmount principle apr age, a⟩ := by
  have hage' : age < 2 ^ 64 := by
    unfold yearsOf realPrecision at hage
    omega
  have hsecond : Fixed.mul realPrecision (principle * yearlyRate apr) (yearsOf age) < 2 ^ 128 := by
    refine (Nat.div_le_of_le_mul ?_).trans_lt hrate
    rw [Nat.mul_comm realPrecision]
    exact Nat.mul_le_mul_left _ hage
  have howed : Fc.realToUint64 (realInterestOwed principle (apr.ratio / 1000 : Nat) age) =
      some (owedAmount principle apr age) := by
    unfold realInterestOwed
    dsimp only
    rw [iapr_eq hreal h, percentOfYear_eq hreal hage', hreal.whole principle hmax,
      hreal.mul (Fixed.ofNat realPrecision principle)] <;>
      rw [Fixed.ofNat_mul realPrecision_pos]
    · rw [hreal.mul _ _ hsecond, hreal.toUint64]
      exact if_pos (show owedAmount principle apr age < 2 ^ 64 by omega)
    · exact hrate
  unfold getInterestOwed
  simp only [multiply_rate h, eq_ok_iff]
  refine ⟨_, rfl, _, howed, ?_⟩
  rw [int64_of_fits (by unfold Fits; omega)]

theorem getInterestPaid_eq (hreal : TruncatesReals) (h : apr.ratio / 1000 < 2 ^ 63)
    (hage : yearsOf age ≤ realPrecision) (paid : Nat) (a : Int) (hfits : paid < 2 ^ 63) :
    getInterestPaid ⟨paid, a⟩ apr age = .ok ⟨paidAmount paid apr age, a⟩ := by
  have hage' : age < 2 ^ 64 := by
    unfold yearsOf realPrecision at hage
    omega
  have haccrued : accruedRate apr age ≤ yearlyRate apr := by
    refine Nat.div_le_of_le_mul ?_
    rw [Nat.mul_comm realPrecision]
    exact Nat.mul_le_mul_left _ hage
  have hyearly : yearlyRate apr < 2 ^ 127 := by
    unfold yearlyRate
    omega
  have hle := paidAmount_le paid apr age
  have hdelta : Fixed.div realPrecision (Fixed.ofNat realPrecision paid)
      (realPrecision + accruedRate apr age) ≤ Fixed.ofNat realPrecision paid :=
    deltaPrinciple_le_paid paid apr age
  have hscaled : Fixed.ofNat realPrecision paid < 2 ^ 128 := by
    unfold Fixed.ofNat realPrecision
    omega
  have hsum : Fc.realAdd (Fc.real128 1) (Fc.realMul (yearlyRate apr) (yearsOf age)) =
      realPrecision + accruedRate apr age := by
    rw [hreal.mul _ _ (show accruedRate apr age < _ by omega)]
    refine (congrArg (Fc.realAdd · _) (hreal.whole 1 (by decide))).trans (hreal.add _ _ ?_)
    change 1 * realPrecision + accruedRate apr age < 2 ^ 128
    unfold realPrecision
    omega
  have hpaid : Fc.realToUint64 (realInterestPaid paid (apr.ratio / 1000 : Nat) age) =
      some (paidAmount paid apr age) := by
    unfold realInterestPaid
    dsimp only
    rw [iapr_eq hreal h, percentOfYear_eq hreal hage', hsum, hreal.whole paid (by omega),
      hreal.div _ _ (Nat.add_pos_left realPrecision_pos _) (hdelta.trans_lt hscaled),
      hreal.sub _ _ hdelta, hreal.toUint64]
    exact if_pos (show paidAmount paid apr age < 2 ^ 64 by omega)
  unfold getInterestPaid
  simp only [multiply_rate h, eq_ok_iff]
  refine ⟨_, rfl, _, hpaid, ?_⟩
  rw [int64_of_fits (by unfold Fits; omega)]

/-- For a payment of less than the whole debt the interest is a part of the payment and the
rest is no more than the debt itself. The rest is less than the debt exactly if the payment
falls short of the debt less one share, with the interest on that. -/
theorem partial_payment_iff (hreal : TruncatesReals) {principle : Int} {a : Int}
    (hpos : 1 ≤ principle) (hmax : principle ≤ maxShares) (hratio : apr.ratio < 10 * pricePrecision)
    (hage : age ≤ 2 * maxShortPeriodSec) :
    ∃ owed : Int, getInterestOwed ⟨principle, a⟩ apr age = .ok ⟨owed, a⟩ ∧
      ∀ paid : Int, 0 < paid → paid < principle + owed →
        ∃ interest : Int, getInterestPaid ⟨paid, a⟩ apr age = .ok ⟨interest, a⟩ ∧
          0 ≤ interest ∧ interest ≤ paid ∧ paid - interest ≤ principle ∧
          (paid - interest < principle ↔ paid * realPrecision * realPrecision <
            ((principle - 1) * realPrecision + 1) * (realPrecision + accruedRate apr age)) := by
  lift principle to Nat using by omega
  unfold maxShares at hmax
  unfold pricePrecision at hratio
  have hrate : yearlyRate apr ≤ 10 ^ 19 := by
    unfold yearlyRate
    omega
  have hyear : yearsOf age ≤ realPrecision := by
    unfold maxShortPeriodSec at hage
    unfold yearsOf realPrecision
    omega
  have hfits : owedAmount principle apr age ≤ 10 ^ 16 := by
    refine Nat.div_le_of_le_mul (Nat.div_le_of_le_mul ?_)
    calc principle * yearlyRate apr * yearsOf age
        ≤ 10 ^ 15 * 10 ^ 19 * realPrecision :=
          Nat.mul_le_mul (Nat.mul_le_mul (by omega) hrate) hyear
      _ = realPrecision * (realPrecision * 10 ^ 16) := by decide
  have hproduct : principle * yearlyRate apr < 2 ^ 128 :=
    (Nat.mul_le_mul (show principle ≤ 10 ^ 15 by omega) hrate).trans_lt (by decide)
  refine ⟨owedAmount principle apr age, getInterestOwed_eq hreal (by omega) hyear (by omega) hproduct
    a (by omega), fun paid hpaid hlt => ?_⟩
  lift paid to Nat using hpaid.le
  have hrest (n : Nat) : paid - paidAmount paid apr age ≤ n ↔
      deltaPrinciple paid apr age ≤ n * realPrecision :=
    Fixed.sub_floor_le_iff realPrecision_pos (deltaPrinciple_le_paid paid apr age)
  have hall := (hrest principle).mpr (deltaPrinciple_le (by omega) (by omega))
  have hless := (hrest (principle - 1)).trans (deltaPrinciple_le_iff apr age)
  have hinterest := paidAmount_le paid apr age
  refine ⟨paidAmount paid apr age, getInterestPaid_eq hreal (by omega) hyear paid a (by omega), by omega,
    by omega, by omega, ?_⟩
  have hcast : ((principle : Int) - 1) = ((principle - 1 : Nat) : Int) := by omega
  have hstrict : (paid : Int) - paidAmount paid apr age < principle ↔
      paid - paidAmount paid apr age ≤ principle - 1 := by omega
  rw [hstrict, hless, hcast]
  generalize realPrecision = unit
  generalize accruedRate apr age = rate
  exact_mod_cast Iff.rfl

end Model

/-- A debt of 20 shares at a hundred percent a year, one short period old. -/
theorem partial_payment_iff_twenty :
    letI := Fc.plain
    ∃ interest : Int, getInterestOwed ⟨20, 22⟩ ⟨10 ^ 18, 0, 22⟩ maxShortPeriodSec = .ok ⟨1, 22⟩ ∧
      getInterestPaid ⟨20, 22⟩ ⟨10 ^ 18, 0, 22⟩ maxShortPeriodSec = .ok ⟨interest, 22⟩ ∧
      20 - interest < 20 := by
  let := Fc.plain
  obtain ⟨owed, howed, hpaid⟩ := @partial_payment_iff Fc.plain ⟨10 ^ 18, 0, 22⟩
    maxShortPeriodSec truncatesReals_plain 20 22 (by decide) (by decide) (by decide) (by decide)
  have hone : getInterestOwed ⟨20, 22⟩ ⟨10 ^ 18, 0, 22⟩ maxShortPeriodSec = .ok ⟨1, 22⟩ := by
    decide +kernel
  obtain rfl : owed = 1 := by
    rw [hone] at howed
    cases howed
    rfl
  obtain ⟨interest, hinterest, -, -, -, hiff⟩ := hpaid 20 (by decide) (by decide)
  exact ⟨interest, hone, hinterest, hiff.mpr (by decide +kernel)⟩

/-- Of a debt of 14 shares, 13 of them borrowed, a payment of 13 shares pays no interest and
leaves nothing of the debt. -/
theorem partial_payment_closes :
    letI := Fc.plain
    getInterestOwed ⟨13, 22⟩ ⟨10 ^ 18, 0, 22⟩ maxShortPeriodSec = .ok ⟨1, 22⟩ ∧
      getInterestPaid ⟨13, 22⟩ ⟨10 ^ 18, 0, 22⟩ maxShortPeriodSec = .ok ⟨0, 22⟩ ∧
      (payDebt ⟨13, 22⟩ ⟨13, 22⟩ ⟨14, 22⟩ ⟨10 ^ 18, 0, 22⟩ maxShortPeriodSec 13).toOption.map
        Payment.payoffBalance = some 0 := by
  decide +kernel

end Bts.Blockchain.Interest
