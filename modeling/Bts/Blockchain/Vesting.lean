import Bts.Blockchain.DepositDates

namespace Bts.Blockchain.Vesting

open Base Result Word Maps Amounts Records Transactions Evaluation Operations DepositDates
  Genesis

def vestingEnd (start duration : Nat) : Nat := (start + duration) % 2 ^ 32

def claimable (start duration : Nat) (original : Int) (t : Nat) : Int :=
  (int64 (original * ((t : Int) - start))).tdiv duration

def maxClaimable (start duration : Nat) (original : Int) (t : Nat) : Int :=
  if vestingEnd start duration ≤ t then original
  else if start < t then claimable start duration original t else 0

variable {r : BalanceRecord} {owner start duration t : Nat} {original : Int}

/-- A vesting balance can be read at every time. What is spendable grows with time, up to the
whole balance at the end. -/
def Readable (r : BalanceRecord) (start duration : Nat) : Prop :=
  ∃ spendable : Nat → Int,
    (∀ t < 2 ^ 32, r.getSpendableBalance t = .ok ⟨spendable t, r.condition.assetId⟩) ∧
    (∀ t < 2 ^ 32, 0 ≤ spendable t ∧ spendable t ≤ r.balance) ∧
    (∀ t t', t ≤ t' → t' < 2 ^ 32 → spendable t ≤ spendable t') ∧
    ∀ t < 2 ^ 32, start + duration ≤ t → spendable t = r.balance

/-- The record holds just what it vests, and the products of the schedule stay in `int64_t`.
Where the schedule ends at the first second nothing is left to wait for. -/
def Vests (start duration : Nat) (original balance : Int) : Prop :=
  (vestingEnd start duration = 0 ∧ 0 ≤ balance ∧ balance ≤ original) ∨
    (balance = original ∧ 0 ≤ original ∧ (2 ^ 32 ≤ start + duration ∨ duration ≤ 1 ∨
      (0 < original ∧ original * (duration - 1) < 2 ^ 63)))

theorem claimable_exact {e : Nat} (he : 0 ≤ original * e) (hfits : original * e < 2 ^ 63) :
    claimable start duration original (start + e) = original * e / duration := by
  have helapsed : ((start + e : Nat) : Int) - start = e := by omega
  unfold claimable
  rw [helapsed, int64_of_fits (by unfold Fits; omega), Int.tdiv_eq_ediv_of_nonneg he]

theorem claimable_wraps {e : Nat} (hduration : 0 < duration) (hshort : duration < 2 ^ 32)
    (hfrom : 2 ^ 63 ≤ original * e) (hto : original * e < 2 ^ 63 + 10 ^ 15) :
    claimable start duration original (start + e) < 0 := by
  have helapsed : ((start + e : Nat) : Int) - start = e := by omega
  have hwrap : int64 (original * e) = -(2 ^ 64 - original * e) := by
    unfold int64
    omega
  have hpos : (1 : Int) ≤ (2 ^ 64 - original * e) / duration :=
    Int.le_ediv_of_mul_le (by omega) (by omega)
  unfold claimable
  rw [helapsed, hwrap, Int.neg_tdiv, Int.tdiv_eq_ediv_of_nonneg (by omega)]
  omega

theorem vestingEnd_eq (h : start + duration < 2 ^ 32) : vestingEnd start duration = start + duration :=
  Nat.mod_eq_of_lt h

theorem schedule_exact (hcase : 2 ^ 32 ≤ start + duration ∨ duration ≤ 1 ∨
      (0 < original ∧ original * (duration - 1) < 2 ^ 63)) (hstart : start < 2 ^ 32)
    (hduration : duration < 2 ^ 32) (hfrom : start < t) (hto : t < vestingEnd start duration) :
    claimable start duration original t = original * ((t : Int) - start) / duration ∧
      0 ≤ claimable start duration original t ∧ claimable start duration original t < original := by
  obtain ⟨e, rfl⟩ : ∃ e, t = start + e := ⟨t - start, by omega⟩
  have hend : vestingEnd start duration = (start + duration) % 2 ^ 32 := rfl
  have helapsed : ((start + e : Nat) : Int) - start = e := by omega
  obtain ⟨hpos, hfits⟩ : 0 < original ∧ original * (duration - 1) < 2 ^ 63 := by
    rcases hcase with hwraps | hshort | hlasts
    · omega
    · omega
    · exact hlasts
  have hnonneg : 0 ≤ original * (e : Int) := Int.mul_nonneg hpos.le (by omega)
  have hle : original * (e : Int) ≤ original * (duration - 1) :=
    Int.mul_le_mul_of_nonneg_left (by omega) hpos.le
  rw [claimable_exact hnonneg (by omega), helapsed]
  refine ⟨rfl, Int.ediv_nonneg hnonneg (by omega), Int.ediv_lt_of_lt_mul (by omega) ?_⟩
  exact Int.mul_lt_mul_of_pos_left (by omega) hpos

section Schedule

variable (hnonneg : 0 ≤ original) (hcase : 2 ^ 32 ≤ start + duration ∨ duration ≤ 1 ∨
    (0 < original ∧ original * (duration - 1) < 2 ^ 63)) (hstart : start < 2 ^ 32)
  (hduration : duration < 2 ^ 32)

include hnonneg hcase hstart hduration

theorem maxClaimable_within (t : Nat) : 0 ≤ maxClaimable start duration original t ∧
    maxClaimable start duration original t ≤ original := by
  unfold maxClaimable
  split_ifs with hend hfrom
  · exact ⟨hnonneg, le_rfl⟩
  · obtain ⟨-, hlow, hhigh⟩ := schedule_exact hcase hstart hduration hfrom (by omega)
    exact ⟨hlow, hhigh.le⟩
  · exact ⟨le_rfl, hnonneg⟩

theorem maxClaimable_mono {t t' : Nat} (htt' : t ≤ t') :
    maxClaimable start duration original t ≤ maxClaimable start duration original t' := by
  have hwithin := maxClaimable_within hnonneg hcase hstart hduration
  by_cases hend : vestingEnd start duration ≤ t'
  · have hall : maxClaimable start duration original t' = original := if_pos hend
    rw [hall]
    exact (hwithin t).2
  by_cases hfrom : start < t
  · have heq {x : Nat} (hx : start < x) (hlt : ¬ vestingEnd start duration ≤ x) :
        maxClaimable start duration original x = original * ((x : Int) - start) / duration := by
      unfold maxClaimable
      rw [if_neg hlt, if_pos hx]
      exact (schedule_exact hcase hstart hduration hx (by omega)).1
    have hle : vestingEnd start duration ≤ start + duration := Nat.mod_le _ _
    rw [heq hfrom (by omega), heq (by omega) hend]
    exact Int.ediv_le_ediv (by omega) (Int.mul_le_mul_of_nonneg_left (by omega) hnonneg)
  · have hzero : maxClaimable start duration original t = 0 := by
      unfold maxClaimable
      rw [if_neg (by omega), if_neg hfrom]
    rw [hzero]
    exact (hwithin t').1

end Schedule

section

variable (h : r.condition.data = .vesting owner start duration original)
include h

theorem spendable_ok_iff {x : Asset} :
    r.getSpendableBalance t = .ok x ↔
      (vestingEnd start duration ≤ t ∨ t ≤ start ∨ (0 ≤ claimable start duration original t ∧
        claimable start duration original t < original)) ∧
      (0 ≤ int64 (original - r.balance) ∧ int64 (original - r.balance) ≤ original) ∧
      (0 ≤ int64 (maxClaimable start duration original t - int64 (original - r.balance)) ∧
        int64 (maxClaimable start duration original t - int64 (original - r.balance)) ≤ original) ∧
      x = ⟨int64 (maxClaimable start duration original t - int64 (original - r.balance)),
        r.condition.assetId⟩ := by
  unfold BalanceRecord.getSpendableBalance
  rw [h]
  simp only [eq_ok_iff]
  constructor
  · rintro ⟨_, hclaim, _, hclaimed, _, hspend, rfl⟩
    exact ⟨hclaim, hclaimed, hspend, rfl⟩
  · rintro ⟨hclaim, hclaimed, hspend, rfl⟩
    exact ⟨(), hclaim, (), hclaimed, (), hspend, rfl⟩

theorem Readable.funded (hr : Readable r start duration) (hend : vestingEnd start duration ≠ 0)
    (horiginal : Fits original) (hbalance : Fits r.balance) :
    r.balance = original ∧ 0 ≤ original := by
  obtain ⟨spendable, hread, -⟩ := hr
  obtain ⟨-, hclaimed, hspend, -⟩ := (spendable_ok_iff h).mp (hread 0 (by decide))
  have hmax : maxClaimable start duration original 0 = 0 := by
    unfold maxClaimable
    rw [if_neg (by omega), if_neg (by omega)]
  unfold int64 at hclaimed hspend
  unfold Fits at horiginal hbalance
  omega

theorem Readable.products (hr : Readable r start duration) (hend : start + duration < 2 ^ 32)
    (hlasts : 1 < duration) (hnonneg : 0 ≤ original) (hmax : original ≤ maxShares) :
    0 < original ∧ original * (duration - 1) < 2 ^ 63 := by
  have hclaim (e : Nat) (he : 0 < e) (hlt : e < duration) :
      0 ≤ claimable start duration original (start + e) ∧
        claimable start duration original (start + e) < original := by
    obtain ⟨spendable, hread, -⟩ := hr
    obtain ⟨hclaim, -⟩ := (spendable_ok_iff h).mp (hread (start + e) (by omega))
    rw [vestingEnd_eq hend] at hclaim
    omega
  have hpos : 0 < original := by
    have := hclaim 1 (by omega) hlasts
    omega
  refine ⟨hpos, ?_⟩
  by_contra hlarge
  lift original to Nat using hnonneg
  unfold maxShares at hmax
  -- The first second at which the product is too large.
  have hfrom : 2 ^ 63 ≤ original * ((2 ^ 63 + original - 1) / original) := by
    have := Nat.lt_mul_div_succ (2 ^ 63 + original - 1) (b := original) (by omega)
    rw [Nat.mul_add] at this
    omega
  have hto : original * ((2 ^ 63 + original - 1) / original) ≤ 2 ^ 63 + original - 1 :=
    Nat.mul_div_le _ _
  generalize (2 ^ 63 + original - 1) / original = e at hfrom hto
  have hlt : e < duration := by
    by_contra hge
    have hmul : original * duration ≤ original * e := Nat.mul_le_mul_left _ (by omega)
    rw [Int.mul_sub, Int.mul_one] at hlarge
    zify at hmul hto
    omega
  have hneg : claimable start duration original (start + e) < 0 :=
    claimable_wraps (by omega) (by omega) (by exact_mod_cast hfrom) (by omega)
  have he : 0 < e := by
    rcases Nat.eq_zero_or_pos e with rfl | he
    · omega
    · exact he
  have := hclaim e he hlt
  omega

theorem Readable.vests (hr : Readable r start duration) (hduration : duration < 2 ^ 32)
    (horiginal : Fits original) (hmax : original ≤ maxShares) (hbalance : Fits r.balance) :
    Vests start duration original r.balance := by
  by_cases hend : vestingEnd start duration = 0
  · obtain ⟨spendable, hread, -⟩ := hr
    obtain ⟨-, -, hspend, -⟩ := (spendable_ok_iff h).mp (hread 0 (by decide))
    have hall : maxClaimable start duration original 0 = original := if_pos hend.le
    have hsame : int64 (original - int64 (original - r.balance)) = r.balance := by
      unfold Fits at hbalance
      unfold int64
      omega
    rw [hall, hsame] at hspend
    exact Or.inl ⟨hend, hspend⟩
  · obtain ⟨hfull, hnonneg⟩ := hr.funded h hend horiginal hbalance
    refine Or.inr ⟨hfull, hnonneg, ?_⟩
    by_cases hwraps : 2 ^ 32 ≤ start + duration
    · exact Or.inl hwraps
    by_cases hlasts : duration ≤ 1
    · exact Or.inr (Or.inl hlasts)
    · exact Or.inr (Or.inr (hr.products h (by omega) (by omega) hnonneg hmax))

theorem Vests.readable (hv : Vests start duration original r.balance) (hstart : start < 2 ^ 32)
    (hduration : duration < 2 ^ 32) (horiginal : Fits original) : Readable r start duration := by
  unfold Fits at horiginal
  rcases hv with ⟨hend, hnonneg, hle⟩ | ⟨hfull, hnonneg, hcase⟩
  · refine ⟨fun _ => r.balance, fun t _ => ?_, fun _ _ => ⟨hnonneg, le_rfl⟩, fun _ _ _ _ => le_rfl,
      fun _ _ _ => rfl⟩
    have hall : maxClaimable start duration original t = original := if_pos (by omega)
    have hclaimed : int64 (original - r.balance) = original - r.balance :=
      int64_of_fits (by unfold Fits; omega)
    have hspend : int64 (original - (original - r.balance)) = r.balance := by
      rw [int64_of_fits (by unfold Fits; omega)]
      omega
    rw [spendable_ok_iff h, hall, hclaimed, hspend]
    exact ⟨Or.inl (by omega), ⟨by omega, by omega⟩, ⟨hnonneg, hle⟩, rfl⟩
  · have hwithin := maxClaimable_within hnonneg hcase hstart hduration
    refine ⟨maxClaimable start duration original, fun t _ => ?_, fun t _ => ?_,
      fun t t' htt' _ => maxClaimable_mono hnonneg hcase hstart hduration htt', fun t ht hend => ?_⟩
    · have hclaimed : int64 (original - r.balance) = 0 := by
        rw [hfull, Int.sub_self]
        rfl
      have hspend : int64 (maxClaimable start duration original t - 0) =
          maxClaimable start duration original t := by
        have := hwithin t
        rw [Int.sub_zero]
        exact int64_self
      rw [spendable_ok_iff h, hclaimed, hspend]
      refine ⟨?_, ⟨le_rfl, hnonneg⟩, hwithin t, rfl⟩
      by_cases hfrom : start < t
      · by_cases hend : vestingEnd start duration ≤ t
        · exact Or.inl hend
        · exact Or.inr (Or.inr (schedule_exact hcase hstart hduration hfrom (by omega)).2)
      · exact Or.inr (Or.inl (by omega))
    · rw [hfull]
      exact hwithin t
    · rw [hfull]
      exact if_pos ((Nat.mod_le _ _).trans hend)

end

/-- A vesting balance can be read at every time, growing up to the whole balance, exactly if the
record holds just what it vests and no product of its schedule is too large. -/
theorem vesting_readable_iff (h : r.condition.data = .vesting owner start duration original)
    (hstart : start < 2 ^ 32) (hduration : duration < 2 ^ 32)
    (horiginal : Fits original) (hmax : original ≤ maxShares) (hbalance : Fits r.balance) :
    Readable r start duration ↔ Vests start duration original r.balance :=
  ⟨fun hr => hr.vests h hduration horiginal hmax hbalance,
    fun hv => hv.readable h hstart hduration horiginal⟩

/-- What a genesis balance of five shares vests. -/
theorem vesting_readable_iff_sharedrop :
    Readable (sharedropBalance (9, 5000)) sharedropTimestamp sharedropVestingDuration :=
  (vesting_readable_iff (r := sharedropBalance (9, 5000)) rfl (by decide) (by decide) (by decide)
    (by decide) (by decide)).mpr (Or.inr (by decide))

def droppedState : @EvaluationState Fc.plain :=
  letI := Fc.plain
  { chainId := 0
    prev := .database
      { savingsChain Database.forkBlockNumV0428 (sharedropTimestamp + sharedropVestingDuration) with
        balanceDb := Table.empty.store (sharedropBalance (9, 5000)) } }

/-- Anyone adds a share to the genesis balance, and it cannot be read any more, although all of
it is vested. A large genesis balance cannot be read in the midst of its schedule. -/
theorem vesting_unreadable :
    letI := Fc.plain
    let op : DepositOperation := ⟨1, (sharedropBalance (9, 5000)).condition⟩
    let now := sharedropTimestamp + sharedropVestingDuration
    ((droppedState.currentState.getBalanceRecord 0).map fun r => (r.getSpendableBalance now).isOk) =
      some true ∧
    (∃ t, DepositOperation.evaluate op droppedState = .ok t ∧
      (t.currentState.getBalanceRecord 0).map BalanceRecord.balance = some 6 ∧
      (t.currentState.getBalanceRecord 0).map (fun r => (r.getSpendableBalance now).isOk) =
        some false) ∧
    ((sharedropBalance (9, 10 ^ 15)).getSpendableBalance (sharedropTimestamp + 10 ^ 7)).isOk =
      false := by
  decide +kernel

end Bts.Blockchain.Vesting
