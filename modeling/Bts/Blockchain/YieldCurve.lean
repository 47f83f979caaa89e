import Mathlib.Algebra.BigOperators.Ring.Finset
import Bts.Blockchain.Rules

namespace Bts.Blockchain.YieldCurve

open Base Result Word Amounts Records Rules

/-- The part of a year's yield that is paid after some seconds, in exact numbers. -/
def yieldCurve (year elapsed : Nat) : Nat :=
  year * 8 / 10 * elapsed / secondsPerYear +
    (year - year * 8 / 10) * elapsed / secondsPerYear * elapsed / secondsPerYear

theorem part_le {x e : Nat} (he : e ≤ secondsPerYear) : x * e / secondsPerYear ≤ x := by
  have hmul : x * e ≤ secondsPerYear * x := by
    rw [Nat.mul_comm secondsPerYear]
    exact Nat.mul_le_mul_left x he
  exact Nat.div_le_of_le_mul hmul

theorem part_lt {x e : Nat} (hx : 0 < x) (he : e < secondsPerYear) :
    x * e / secondsPerYear < x := by
  have hmul : x * e < secondsPerYear * x := by
    rw [Nat.mul_comm secondsPerYear]
    exact Nat.mul_lt_mul_of_pos_left he hx
  exact Nat.div_lt_of_lt_mul hmul

theorem yieldCurve_mono {year e e' : Nat} (h : e ≤ e') : yieldCurve year e ≤ yieldCurve year e' := by
  have hlinear (x : Nat) : x * e / secondsPerYear ≤ x * e' / secondsPerYear :=
    Nat.div_le_div_right (Nat.mul_le_mul_left x h)
  exact Nat.add_le_add (hlinear _) (Nat.div_le_div_right (Nat.mul_le_mul (hlinear _) h))

theorem yieldCurve_le {year e : Nat} (he : e ≤ secondsPerYear) : yieldCurve year e ≤ year := by
  have hsimple : year * 8 / 10 * e / secondsPerYear ≤ year * 8 / 10 := part_le he
  have hlinear : (year - year * 8 / 10) * e / secondsPerYear ≤ year - year * 8 / 10 := part_le he
  have hsquare := part_le (x := (year - year * 8 / 10) * e / secondsPerYear) he
  unfold yieldCurve
  omega

theorem yieldCurve_lt {year e : Nat} (hyear : 0 < year) (he : e < secondsPerYear) :
    yieldCurve year e < year := by
  have hsimple : year * 8 / 10 * e / secondsPerYear ≤ year * 8 / 10 := part_le he.le
  have hlinear : (year - year * 8 / 10) * e / secondsPerYear < year - year * 8 / 10 :=
    part_lt (by omega) he
  have hsquare := part_le (x := (year - year * 8 / 10) * e / secondsPerYear) he.le
  unfold yieldCurve
  omega

theorem scaleYield_eq {year e : Nat} (hyear : year ≤ 10 ^ 21) (he : e ≤ secondsPerYear) :
    scaleYield year e = yieldCurve year e := by
  have hfits {x : Nat} (hx : x ≤ 10 ^ 22) : x * e < 2 ^ 128 :=
    calc x * e ≤ 10 ^ 22 * secondsPerYear := Nat.mul_le_mul hx he
      _ < 2 ^ 128 := by decide
  have hsimple : mul128 year 8 / 10 = year * 8 / 10 := by rw [mul128_eq (by omega)]
  have hdelta : uint128 ((year : Int) - (year * 8 / 10 : Nat)) = year - year * 8 / 10 := by
    unfold uint128
    omega
  have hlinear := part_le (x := year - year * 8 / 10) he
  have hle : yieldCurve year e < 2 ^ 128 := by
    have := @yieldCurve_le year e he
    omega
  unfold scaleYield
  dsimp only
  rw [hsimple, hdelta, mul128_eq (hfits (x := year * 8 / 10) (by omega)),
    mul128_eq (hfits (x := year - year * 8 / 10) (by omega)), mul128_eq (hfits (by omega))]
  exact Nat.mod_eq_of_lt hle

def grossYield (elapsed : Int) (year : Nat) : Nat :=
  if elapsed < secondsPerYear then yieldCurve year elapsed.toNat else year

theorem grossYield_le (elapsed : Int) (year : Nat) : grossYield elapsed year ≤ year := by
  unfold grossYield
  split
  · exact yieldCurve_le (by omega)
  · exact Nat.le_refl year

theorem grossYield_mono {e e' : Int} {year : Nat} (h : e ≤ e') :
    grossYield e year ≤ grossYield e' year := by
  by_cases he' : e' < secondsPerYear
  · have he : e < secondsPerYear := by omega
    unfold grossYield
    rw [if_pos he, if_pos he']
    exact yieldCurve_mono (by omega)
  · have hend : grossYield e' year = year := if_neg he'
    rw [hend]
    exact grossYield_le e year

/-- The yield of a year in millionths of a share. -/
def yearYield (amount pool current : Nat) : Nat := amount * 1000000 * pool / current

/-- The yield of an amount after some seconds, in exact numbers: nothing before the first
day is over, and nothing where the yield takes the whole pool. -/
def paidYield (elapsed : Int) (amount pool current : Nat) : Nat :=
  if elapsed ≤ minYieldPeriodSec then 0
  else
    let yield := grossYield elapsed (yearYield amount pool current) / 1000000
    if yield < pool then yield else 0

variable {amount pool current : Nat}

theorem calculateYield_eq (r : BalanceRecord) (now : Nat) (hamount : 0 < amount) (hpool : 0 < pool)
    (hle : amount ≤ current) (hmax : pool + current ≤ 10 ^ 15) :
    calculateYield r now amount pool (pool + current) =
      .ok ⟨paidYield (now - r.depositDate) amount pool current, r.condition.assetId⟩ := by
  have hcurrent : uint128 (int64 ((pool + current : Int) - pool)) = current := by
    rw [int64_of_fits (by unfold Fits; omega)]
    unfold uint128
    omega
  have hproduct : amount * 1000000 * pool < 2 ^ 128 :=
    calc amount * 1000000 * pool ≤ 10 ^ 15 * 1000000 * 10 ^ 15 := by gcongr <;> omega
      _ < 2 ^ 128 := by decide
  have hyear : yearYield amount pool current ≤ 10 ^ 21 := by
    refine Nat.div_le_of_le_mul ?_
    calc amount * 1000000 * pool ≤ current * 1000000 * 10 ^ 15 := by gcongr; omega
      _ = current * 10 ^ 21 := by omega
  by_cases hday : (now : Int) - r.depositDate ≤ minYieldPeriodSec
  · simp [calculateYield, paidYield, hday]
  have hnone : ¬ ((amount : Int) ≤ 0 ∨ (pool + current : Int) ≤ 0 ∨ (pool : Int) ≤ 0 ∨
      (now : Int) - r.depositDate ≤ minYieldPeriodSec) := by omega
  have hproduct' : mul128 (mul128 (uint128 amount) 1000000) (uint128 pool) / current =
      yearYield amount pool current := by
    rw [uint128_cast (by omega), uint128_cast (by omega), mul128_eq (x := amount) (by omega),
      mul128_eq hproduct]
    rfl
  have hscale : (if (now : Int) - r.depositDate < secondsPerYear then
      scaleYield (yearYield amount pool current) ((now : Int) - r.depositDate).toNat
      else yearYield amount pool current) =
      grossYield ((now : Int) - r.depositDate) (yearYield amount pool current) := by
    unfold grossYield
    split
    · exact scaleYield_eq hyear (by omega)
    · rfl
  have hle := grossYield_le ((now : Int) - r.depositDate) (yearYield amount pool current)
  unfold calculateYield paidYield
  dsimp only
  rw [if_neg hnone, if_neg hday, hcurrent, hproduct', hscale]
  generalize grossYield ((now : Int) - r.depositDate) (yearYield amount pool current) = paid at hle ⊢
  have hcut : (if 0 < paid / 1000000 ∧ (paid / 1000000 : Nat) < (pool : Int) then
      ((paid / 1000000 : Nat) : Int) else 0) =
      ((if paid / 1000000 < pool then paid / 1000000 else 0 : Nat) : Int) := by
    split_ifs <;> omega
  simp only [eq_ok_iff]
  exact ⟨(), by omega, (), by omega, by rw [hcut]⟩

theorem paidYield_day {e : Int} (h : e ≤ minYieldPeriodSec) (amount pool current : Nat) :
    paidYield e amount pool current = 0 :=
  if_pos h

theorem paidYield_year {e e' : Int} (he : secondsPerYear ≤ e) (he' : secondsPerYear ≤ e')
    (amount pool current : Nat) :
    paidYield e amount pool current = paidYield e' amount pool current := by
  have hgross {x : Int} (hx : secondsPerYear ≤ x) (year : Nat) : grossYield x year = year :=
    if_neg (by omega)
  have hday {x : Int} (hx : secondsPerYear ≤ x) : ¬ x ≤ minYieldPeriodSec := by
    unfold secondsPerYear at hx
    unfold minYieldPeriodSec
    omega
  unfold paidYield
  rw [if_neg (hday he), if_neg (hday he'), hgross he, hgross he']

theorem yearYield_share (amount pool current : Nat) :
    yearYield amount pool current / 1000000 * current ≤ amount * pool := by
  have hdiv : yearYield amount pool current * current ≤ amount * 1000000 * pool :=
    Nat.div_mul_le_self _ _
  have hmillion : yearYield amount pool current / 1000000 * 1000000 ≤
      yearYield amount pool current := Nat.div_mul_le_self _ _
  refine Nat.le_of_mul_le_mul_right (c := 1000000) ?_ (by decide)
  calc yearYield amount pool current / 1000000 * current * 1000000
      = yearYield amount pool current / 1000000 * 1000000 * current := Nat.mul_right_comm _ _ _
    _ ≤ yearYield amount pool current * current := Nat.mul_le_mul_right _ hmillion
    _ ≤ amount * 1000000 * pool := hdiv
    _ = amount * pool * 1000000 := Nat.mul_right_comm _ _ _

theorem paidYield_share (e : Int) (amount pool current : Nat) :
    paidYield e amount pool current * current ≤ amount * pool := by
  have hgross : grossYield e (yearYield amount pool current) / 1000000 ≤
      yearYield amount pool current / 1000000 := Nat.div_le_div_right (grossYield_le e _)
  have hpaid : paidYield e amount pool current ≤ yearYield amount pool current / 1000000 := by
    unfold paidYield
    dsimp only
    split_ifs <;> omega
  exact (Nat.mul_le_mul_right current hpaid).trans (yearYield_share amount pool current)

/-- The yield takes the whole pool only where one holder has everything outside of it and
has held it for a year. -/
theorem grossYield_below {e : Int} (hpool : 0 < pool) (hle : amount ≤ current)
    (h : amount < current ∨ e < secondsPerYear) :
    grossYield e (yearYield amount pool current) / 1000000 < pool := by
  have hgross := grossYield_le e (yearYield amount pool current)
  rcases h with hlt | hyear
  · have hshare := yearYield_share amount pool current
    have hpool' : amount * pool < pool * current := by
      rw [Nat.mul_comm pool]
      exact Nat.mul_lt_mul_of_pos_right hlt hpool
    have hbelow : yearYield amount pool current / 1000000 < pool :=
      Nat.lt_of_mul_lt_mul_right (a := current) (by omega)
    exact (Nat.div_le_div_right hgross).trans_lt hbelow
  · have hpro : yearYield amount pool current ≤ 1000000 * pool := by
      refine Nat.div_le_of_le_mul ?_
      calc amount * 1000000 * pool ≤ current * 1000000 * pool := by gcongr
        _ = current * (1000000 * pool) := Nat.mul_assoc _ _ _
    rcases Nat.eq_zero_or_pos (yearYield amount pool current) with hzero | hpos
    · omega
    · have hlt : grossYield e (yearYield amount pool current) < yearYield amount pool current := by
        unfold grossYield
        rw [if_pos hyear]
        have hsec : 0 < secondsPerYear := by decide
        exact yieldCurve_lt hpos (by omega)
      exact Nat.div_lt_of_lt_mul (by omega)

theorem paidYield_mono {e e' : Int} (hpool : 0 < pool) (hle : amount ≤ current) (he : e ≤ e')
    (h : amount < current ∨ e' < secondsPerYear) :
    paidYield e amount pool current ≤ paidYield e' amount pool current := by
  by_cases hday : e ≤ minYieldPeriodSec
  · rw [paidYield_day hday]
    exact Nat.zero_le _
  have hday' : ¬ e' ≤ minYieldPeriodSec := by omega
  have hbelow := grossYield_below hpool hle h
  have hgross : grossYield e (yearYield amount pool current) / 1000000 ≤
      grossYield e' (yearYield amount pool current) / 1000000 :=
    Nat.div_le_div_right (grossYield_mono he)
  unfold paidYield
  rw [if_neg hday, if_neg hday', if_pos hbelow, if_pos (hgross.trans_lt hbelow)]
  exact hgross

theorem paidYield_whole {e : Int} {pool current : Nat} (hcurrent : 0 < current)
    (he : secondsPerYear ≤ e) : paidYield e current pool current = 0 := by
  have hyear : yearYield current pool current = 1000000 * pool := by
    unfold yearYield
    rw [Nat.mul_assoc]
    exact Nat.mul_div_cancel_left _ hcurrent
  have hgross : grossYield e (1000000 * pool) = 1000000 * pool := if_neg (by omega)
  unfold paidYield
  dsimp only
  rw [hyear, hgross, Nat.mul_div_cancel_left _ (by decide : 0 < 1000000)]
  split_ifs <;> omega

/-- The yields that are paid from one pool, to holders of no more than what is outside of
it, do not exceed the pool. -/
theorem paidYield_sum {pool current : Nat} (hcurrent : 0 < current) (holders : List (Int × Nat))
    (h : (holders.map Prod.snd).sum ≤ current) :
    (holders.map fun x => paidYield x.1 x.2 pool current).sum ≤ pool := by
  have hshares : (holders.map fun x => paidYield x.1 x.2 pool current).sum * current ≤
      (holders.map Prod.snd).sum * pool := by
    clear h
    induction holders with
    | nil => simp
    | cons x rest ih =>
      have hshare := paidYield_share x.1 x.2 pool current
      simp only [List.map_cons, List.sum_cons, Nat.add_mul]
      omega
  refine Nat.le_of_mul_le_mul_right ?_ hcurrent
  calc _ ≤ (holders.map Prod.snd).sum * pool := hshares
    _ ≤ current * pool := Nat.mul_le_mul_right pool h
    _ = pool * current := Nat.mul_comm _ _

/-- The yield of an amount on a pool of fees: nothing in the first day, growing up to a year
and constant from there on, a share of the pool in proportion, and never more than the pool for
all holders together. The holder of everything outside the pool gets nothing from a year on. -/
theorem calculateYield_curve {yieldPool shareSupply : Int} (hpool : 0 < yieldPool)
    (hlt : yieldPool < shareSupply) (hmax : shareSupply ≤ maxShares) :
    ∃ yield : Int → Int → Int,
      (∀ (r : BalanceRecord) (now : Nat) (amount : Int), 0 < amount →
        amount ≤ shareSupply - yieldPool → calculateYield r now amount yieldPool shareSupply =
          .ok ⟨yield (now - r.depositDate) amount, r.condition.assetId⟩) ∧
      (∀ amount, 0 < amount → amount ≤ shareSupply - yieldPool →
        (∀ e : Int, e ≤ minYieldPeriodSec → yield e amount = 0) ∧
        (∀ e e' : Int, e ≤ e' → amount < shareSupply - yieldPool ∨ e' < secondsPerYear →
          yield e amount ≤ yield e' amount) ∧
        (∀ e e' : Int, secondsPerYear ≤ e → secondsPerYear ≤ e' →
          yield e amount = yield e' amount) ∧
        ∀ e : Int, 0 ≤ yield e amount ∧
           yield e amount * (shareSupply - yieldPool) ≤ amount * yieldPool) ∧
      (∀ e : Int, secondsPerYear ≤ e → yield e (shareSupply - yieldPool) = 0) ∧
      ∀ holders : List (Int × Int), (∀ x ∈ holders, 0 < x.2) →
        (holders.map Prod.snd).sum ≤ shareSupply - yieldPool →
          (holders.map fun x => yield x.1 x.2).sum ≤ yieldPool := by
  obtain ⟨pool, rfl⟩ := Int.eq_ofNat_of_zero_le hpool.le
  obtain ⟨current, hcurrent⟩ := Int.eq_ofNat_of_zero_le (show 0 ≤ shareSupply - pool by omega)
  obtain rfl : shareSupply = pool + current := by omega
  unfold maxShares at hmax
  rw [hcurrent]
  refine ⟨fun e amount => paidYield e amount.toNat pool current, ?_, ?_, ?_, ?_⟩
  · intro r now amount hamount hle
    lift amount to Nat using hamount.le
    exact calculateYield_eq r now (by omega) (by omega) (by omega) (by omega)
  · intro amount hamount hle
    lift amount to Nat using hamount.le
    dsimp only [Int.toNat_natCast]
    refine ⟨fun e he => ?_, fun e e' he h => ?_, fun e e' he he' => ?_, fun e => ⟨by omega, ?_⟩⟩
    · rw [paidYield_day he]
      rfl
    · exact Int.ofNat_le.mpr (paidYield_mono (by omega) (by omega) he (by omega))
    · rw [paidYield_year he he']
    · exact_mod_cast paidYield_share e amount pool current
  · intro e he
    dsimp only [Int.toNat_natCast]
    rw [paidYield_whole (by omega) he]
    rfl
  · intro holders hpos hsum
    have hamounts : (((holders.map fun x => x.2.toNat).sum : Nat) : Int) =
        (holders.map Prod.snd).sum := by
      rw [Nat.cast_list_sum, List.map_map]
      refine congrArg List.sum (List.map_congr_left fun x hx => ?_)
      exact Int.toNat_of_nonneg (hpos x hx).le
    have hpaid := @paidYield_sum pool current (by omega) (holders.map fun x => (x.1, x.2.toNat))
      (by rw [List.map_map]; dsimp [Function.comp_def]; omega)
    rw [List.map_map] at hpaid
    have hcast := Int.ofNat_le.mpr hpaid
    rw [Nat.cast_list_sum, List.map_map] at hcast
    exact hcast

theorem calculateYield_curve_thousand :
    ∃ yield : Int → Int → Int,
      (∀ (r : BalanceRecord) (now : Nat), calculateYield r now 500 1000 2000 =
        .ok ⟨yield (now - r.depositDate) 500, r.condition.assetId⟩) ∧
      yield 86400 500 = 0 ∧ yield 100000 500 ≤ yield 31536000 500 ∧ yield 31536000 1000 = 0 := by
  obtain ⟨yield, heq, hcurve, hwhole, -⟩ := @calculateYield_curve 1000 2000 (by decide) (by decide)
    (by decide)
  obtain ⟨hday, hmono, -, -⟩ := hcurve 500 (by decide) (by decide)
  exact ⟨yield, fun r now => heq r now 500 (by decide) (by decide), hday _ (by decide),
    hmono _ _ (by decide) (Or.inl (by decide)), hwhole _ (by decide)⟩

/-- Who holds all shares outside the pool gets most of it in the last second of the year, and
nothing a second later. -/
theorem calculateYield_drops :
    let r : BalanceRecord := { condition := { assetId := 22 }, balance := 1000, depositDate := 5 }
    calculateYield r (5 + 31535999) 1000 1000 2000 = .ok ⟨999, 22⟩ ∧
      calculateYield r (5 + 31536000) 1000 1000 2000 = .ok ⟨0, 22⟩ :=
  ⟨rfl, rfl⟩

end Bts.Blockchain.YieldCurve
