import Mathlib.Tactic.Linarith
import Bts.Blockchain.Ownership

namespace Bts.Blockchain.DepositDates

open Base Result Word Maps Errors Records Transactions Database Rules Evaluation Operations Effects
  SlateVotes Ownership

theorem date_mul_lt {date b : Nat} (hdate : date < 2 ^ 32) (hb : b < 2 ^ 63) : date * b < 2 ^ 95 :=
  calc date * b < 2 ^ 32 * 2 ^ 63 := Nat.mul_lt_mul'' hdate hb
    _ = 2 ^ 95 := by decide

theorem averageDate_ok {r : BalanceRecord} {now date : Nat} {amount : Int}
    (hbalance : 0 < r.balance) (hamount : 0 < amount)
    (hsum : r.balance + amount ≤ 9223372036854775807) (hold : r.depositDate < 2 ^ 32)
    (hnow : now < 2 ^ 32) (h : averageDate r now amount = .ok date) :
    (date : Int) * (r.balance + amount) ≤ r.depositDate * r.balance + now * amount ∧
      r.depositDate * r.balance + now * amount < (date + 1) * (r.balance + amount) ∧
      date < 2 ^ 32 := by
  obtain ⟨b, hb⟩ := Int.eq_ofNat_of_zero_le hbalance.le
  lift amount to Nat using hamount.le
  have htotal : uint128 (int64 ((b : Int) + amount)) = b + amount := by
    rw [int64_of_fits (by unfold Fits; omega)]
    exact uint128_cast (n := b + amount) (by omega)
  have hold' : r.depositDate * b < 2 ^ 95 := date_mul_lt hold (by omega)
  have hnow' : now * amount < 2 ^ 95 := date_mul_lt hnow (by omega)
  simp only [averageDate, eq_ok_iff, hb, htotal] at h
  obtain ⟨_, -, _, hlt, hdate⟩ := h
  rw [uint128_cast (by omega), uint128_cast (by omega), mul128_eq (by omega), mul128_eq (by omega),
    Nat.mod_eq_of_lt (by omega)] at hlt hdate
  have hle := Nat.div_mul_le_self (r.depositDate * b + now * amount) (b + amount)
  have hgt : r.depositDate * b + now * amount <
      ((r.depositDate * b + now * amount) / (b + amount) + 1) * (b + amount) :=
    (Nat.div_lt_iff_lt_mul (by omega)).mp (Nat.lt_succ_self _)
  rw [hdate] at hlt hle hgt
  rw [hb]
  exact ⟨by exact_mod_cast hle, by exact_mod_cast hgt, hlt⟩

/-- Deposits, each with its time and amount. -/
abbrev Deposited := List (Nat × Int)

def Deposited.total (l : Deposited) : Int := (l.map Prod.snd).sum

/-- The coin age of single deposits at a time. -/
def Deposited.coinAge (l : Deposited) (now : Int) : Int := (l.map fun x => x.2 * (now - x.1)).sum

theorem Deposited.total_concat (l : Deposited) (x : Nat × Int) :
    Deposited.total (l ++ [x]) = l.total + x.2 := by
  simp [Deposited.total]

theorem Deposited.coinAge_concat (l : Deposited) (x : Nat × Int) (now : Int) :
    Deposited.coinAge (l ++ [x]) now = l.coinAge now + x.2 * (now - x.1) := by
  simp [Deposited.coinAge]

variable {l : Deposited}

/-- The date of a record against the deposits on it. -/
structure Dated (l : Deposited) (r : BalanceRecord) : Prop where
  balance : r.balance = l.total
  positive : 0 < l.total
  date_lt : r.depositDate < 2 ^ 32
  earliest : ∀ x ∈ l.head?, x.1 ≤ r.depositDate
  latest : ∀ x ∈ l.getLast?, r.depositDate ≤ x.1
  coinAge_le : ∀ now, l.coinAge now ≤ r.balance * (now - r.depositDate)
  lt_coinAge : ∀ now, r.balance * (now - r.depositDate) < l.coinAge now + r.balance * l.length

theorem Dated.first {r : BalanceRecord} {now : Nat} {amount : Int} (hamount : 0 < amount)
    (hnow : now < 2 ^ 32) (hbalance : r.balance = amount) (hdate : r.depositDate = now) :
    Dated [(now, amount)] r := by
  have htotal : Deposited.total [(now, amount)] = amount := by simp [Deposited.total]
  have hage (at' : Int) : Deposited.coinAge [(now, amount)] at' = amount * (at' - now) := by
    simp [Deposited.coinAge]
  refine ⟨hbalance.trans htotal.symm, by omega, by omega, by simp [hdate], by simp [hdate], ?_, ?_⟩
  · intro at'
    rw [hage, hbalance, hdate]
  · intro at'
    rw [hage, hbalance, hdate]
    simpa using hamount

theorem Dated.next {r r' : BalanceRecord} {now : Nat} {amount : Int} (h : Dated l r)
    (hamount : 0 < amount) (hnow : now < 2 ^ 32) (hlast : ∀ x ∈ l.getLast?, x.1 ≤ now)
    (hsum : l.total + amount ≤ 9223372036854775807) (hbalance : r'.balance = int64 (r.balance + amount))
    (hdate : depositDate r now amount = .ok r'.depositDate) :
    Dated (l ++ [(now, amount)]) r' := by
  have hpos : 0 < r.balance := h.balance ▸ h.positive
  have hr' : r'.balance = r.balance + amount := by
    rw [hbalance, int64_of_fits]
    have := h.balance
    unfold Fits
    omega
  have hne : ¬ r.balance = 0 := by omega
  unfold depositDate at hdate
  rw [if_neg hne] at hdate
  obtain ⟨hle, hgt, hlt⟩ := averageDate_ok hpos hamount (h.balance ▸ hsum) h.date_lt hnow hdate
  have hnil : l ≠ [] := by
    rintro rfl
    exact absurd h.positive (by decide)
  have hlatest : (r.depositDate : Int) ≤ now := by
    have hx := List.getLast?_eq_some_getLast hnil
    exact_mod_cast (h.latest _ hx).trans (hlast _ hx)
  have hearlier : (r.depositDate : Int) * (r.balance + amount) ≤
      r.depositDate * r.balance + now * amount := by
    rw [Int.mul_add]
    exact Int.add_le_add_left (Int.mul_le_mul_of_nonneg_right hlatest hamount.le) _
  have hlater : r.depositDate * r.balance + now * amount ≤ (now : Int) * (r.balance + amount) := by
    rw [Int.mul_add]
    exact Int.add_le_add_right (Int.mul_le_mul_of_nonneg_right hlatest hpos.le) _
  have hfrom : r.depositDate ≤ r'.depositDate := by
    have := Int.lt_of_mul_lt_mul_right (hearlier.trans_lt hgt) (by omega)
    omega
  have hto : r'.depositDate ≤ now := by
    have := Int.le_of_mul_le_mul_right (hle.trans hlater) (by omega)
    omega
  refine ⟨?_, ?_, hlt, ?_, ?_, ?_, ?_⟩
  · rw [hr', h.balance, Deposited.total_concat]
  · rw [Deposited.total_concat]
    exact Int.add_pos h.positive hamount
  · intro x hx
    rw [List.head?_append_of_ne_nil _ hnil] at hx
    exact (h.earliest x hx).trans hfrom
  · simpa using hto
  · intro at'
    have hage := h.coinAge_le at'
    rw [Deposited.coinAge_concat, hr']
    linarith
  · intro at'
    have hage := h.lt_coinAge at'
    have hcount : 0 ≤ amount * (l.length : Int) := Int.mul_nonneg hamount.le (by omega)
    rw [Deposited.coinAge_concat, hr', List.length_append, List.length_singleton]
    push_cast
    linarith

section Model

variable [Fc] {s t : EvaluationState} {id : Nat}

theorem deposit_record {op : DepositOperation} (h : DepositOperation.evaluate op s = .ok t) :
    ∃ r, t.currentState.getBalanceRecord (Fc.conditionAddress op.condition) = some r ∧
      r.condition = (depositRecord op s).condition ∧
      r.balance = int64 ((depositRecord op s).balance + op.amount) ∧
      depositDate (depositRecord op s) s.currentState.now op.amount = .ok r.depositDate := by
  have hctx := (deposit_effect h).1
  simp only [DepositOperation.evaluate, eq_ok_iff] at h
  obtain ⟨_, _, _, _, date, hdate, s₁, h₁, s₂, h₂, a, _, _, _, _, _, rfl⟩ := h
  refine ⟨{ depositRecord op s with
    balance := int64 ((depositRecord op s).balance + op.amount)
    depositDate := date
    lastUpdate := s.currentState.now }, ?_, rfl, rfl, hdate⟩
  rw [currentState_eq hctx, getBalanceRecord_store rfl]
  exact if_pos (depositRecord_id op s).symm

/-- The first version of a deposit. It leaves the date of the record as it was. -/
def DepositOperation.evaluateV1 (op : DepositOperation) (s : EvaluationState) :
    Except ChainError EvaluationState := do
  require (0 < op.amount) .negativeDeposit
  require (op.condition.data matches .signature _ _) .invalidWithdrawCondition
  let id := Fc.conditionAddress op.condition
  let r := (s.currentState.getBalanceRecord id).getD { condition := op.condition }
  let r := { r with
    lastUpdate := s.currentState.now
    balance := int64 (r.balance + op.amount) }
  let s ← s.subBalance id { amount := op.amount, assetId := r.condition.assetId }
  let s ← s.adjustVote (if r.condition.assetId = 0 then r.condition.slateId else 0) op.amount
  pure { s with layer := s.layer.storeBalanceRecord r }

/-- A deposit by the version of the head block; `DepositOperation.evaluate` is the second one. -/
def DepositOperation.evaluateAtHead (op : DepositOperation) (s : EvaluationState) :
    Except ChainError EvaluationState :=
  if s.currentState.getHeadBlockNum < forkBlockNumV0413 then DepositOperation.evaluateV1 op s
  else DepositOperation.evaluate op s

/-- Deposits on one record, from the time it was empty on, while the head block is at least
`head`. Between two deposits anything may happen that leaves the record as it is. -/
inductive DepositRun (head id : Nat) : Deposited → EvaluationState → Prop
  | first {s t : EvaluationState} {op : DepositOperation}
      (hhead : head ≤ s.currentState.getHeadBlockNum)
      (hid : Fc.conditionAddress op.condition = id) (hempty : (depositRecord op s).balance = 0)
      (h : DepositOperation.evaluateAtHead op s = .ok t) :
      DepositRun head id [(s.currentState.now, op.amount)] t
  | next {l : Deposited} {s u t : EvaluationState} {op : DepositOperation}
      (hrun : DepositRun head id l s)
      (hsame : u.currentState.getBalanceRecord id = s.currentState.getBalanceRecord id)
      (hhead : head ≤ u.currentState.getHeadBlockNum)
      (hid : Fc.conditionAddress op.condition = id)
      (h : DepositOperation.evaluateAtHead op u = .ok t) :
      DepositRun head id (l ++ [(u.currentState.now, op.amount)]) t

theorem evaluateAtHead_forked {op : DepositOperation}
    (hhead : forkBlockNumV0413 ≤ s.currentState.getHeadBlockNum) :
    DepositOperation.evaluateAtHead op s = DepositOperation.evaluate op s :=
  if_neg (by omega)

/-- After deposits of the second version on one record at later and later times, the date of the
record lies between those of the first and the last deposit. The coin age of the record is at
least that of the deposits, and less than a second of the balance more for every deposit. -/
theorem depositRun_dated (h : DepositRun forkBlockNumV0413 id l t)
    (hmono : l.Pairwise fun x y => x.1 ≤ y.1)
    (htime : ∀ x ∈ l, x.1 < 2 ^ 32) (hsum : l.total ≤ 9223372036854775807) :
    ∃ r, t.currentState.getBalanceRecord id = some r ∧ Dated l r := by
  induction h with
  | @first s t op hhead hid hempty h =>
    rw [evaluateAtHead_forked hhead] at h
    obtain ⟨r, hr, -, hbalance, hdate⟩ := deposit_record h
    have hamount := deposit_positive h
    unfold depositDate at hdate
    rw [if_pos hempty, pure_eq_ok] at hdate
    refine ⟨r, hid ▸ hr, Dated.first hamount (htime _ (List.mem_singleton_self _)) ?_ hdate.symm⟩
    rw [hbalance, hempty, Int.zero_add, int64_of_fits]
    simp only [Deposited.total, List.map_cons, List.map_nil, List.sum_cons, List.sum_nil] at hsum
    unfold Fits
    omega
  | @next l s u t op hrun hsame hhead hid h ih =>
    rw [evaluateAtHead_forked hhead] at h
    obtain ⟨r', hr', -, hbalance, hdate⟩ := deposit_record h
    have hamount := deposit_positive h
    rw [Deposited.total_concat] at hsum
    obtain ⟨hmono', -, hlast⟩ := List.pairwise_append.mp hmono
    obtain ⟨r, hr, hdated⟩ := ih hmono'
      (fun x hx => htime x (List.mem_append_left _ hx)) (by omega)
    have hrecord : depositRecord op u = r := by
      unfold depositRecord
      rw [hid, hsame, hr]
      rfl
    rw [hrecord] at hbalance hdate
    have hnow : u.currentState.now < 2 ^ 32 :=
      htime (u.currentState.now, op.amount) (List.mem_append_right _ (List.mem_singleton_self _))
    refine ⟨r', hid ▸ hr', hdated.next hamount hnow ?_ hsum hbalance hdate⟩
    intro x hx
    exact hlast x (List.mem_of_getLast? hx) _ (List.mem_singleton_self _)

end Model

def savingsChain (head now : Nat) : @ChainDatabase Fc.plain :=
  letI := Fc.plain
  { headBlockHeader := { blockNum := head, timestamp := now }
    assetDb := Table.empty.store { id := 0, symbol := "BTS", issuerAccountId := 0 } }

def saving (amount : Int) : DepositOperation :=
  { amount, condition := { data := .signature 9 none } }

/-- A first deposit of 10 at the time 1000. -/
def firstSaving (head : Nat) : @EvaluationState Fc.plain :=
  letI := Fc.plain
  let s : EvaluationState := { chainId := 0, prev := .database (savingsChain head 1000) }
  (DepositOperation.evaluateAtHead (saving 10) s).toOption.getD s

theorem firstSaving_run {head : Nat} (hpos : 0 < head)
    (hok : letI := Fc.plain
      let s : EvaluationState := { chainId := 0, prev := .database (savingsChain head 1000) }
      (DepositOperation.evaluateAtHead (saving 10) s).isOk) :
    @DepositRun Fc.plain head 9000 [(1000, 10)] (firstSaving head) := by
  let := Fc.plain
  let s : EvaluationState := { chainId := 0, prev := .database (savingsChain head 1000) }
  obtain ⟨t, ht⟩ := exists_ok_of_isOk hok
  have hfirst : firstSaving head = t := congrArg (fun x => x.toOption.getD s) ht
  have hhead : head ≤ s.currentState.getHeadBlockNum := Nat.le_refl head
  have hid : Fc.conditionAddress (saving 10).condition = 9000 := rfl
  have hnow : s.currentState.now = 1000 := if_neg (Nat.not_le.mpr hpos)
  have hrun : DepositRun head 9000 [(s.currentState.now, 10)] (firstSaving head) :=
    .first hhead hid rfl (hfirst ▸ ht)
  rwa [hnow] at hrun

theorem depositRun_dated_savings :
    letI := Fc.plain
    ∃ t, DepositRun forkBlockNumV0413 9000 [(1000, 10), (1002, 25)] t ∧
      ∃ r, t.currentState.getBalanceRecord 9000 = some r ∧ Dated [(1000, 10), (1002, 25)] r := by
  let := Fc.plain
  let first := firstSaving forkBlockNumV0413
  let u : EvaluationState := { first with prev := .database (savingsChain forkBlockNumV0413 1002) }
  have hok : (DepositOperation.evaluateAtHead (saving 25) u).isOk := by decide +kernel
  obtain ⟨t, ht⟩ := exists_ok_of_isOk hok
  have hsame : u.currentState.getBalanceRecord 9000 = first.currentState.getBalanceRecord 9000 := by
    change (first.layer.balances.lookup 9000).or none = (first.layer.balances.lookup 9000).or none
    rfl
  have hone : DepositRun forkBlockNumV0413 9000 [(1000, 10)] first :=
    firstSaving_run (by decide) (by decide +kernel)
  have hid : Fc.conditionAddress (saving 25).condition = 9000 := rfl
  have hrun : DepositRun forkBlockNumV0413 9000 [(1000, 10), (1002, 25)] t :=
    .next hone hsame le_rfl hid ht
  exact ⟨t, hrun, depositRun_dated hrun (by decide) (by decide) (by decide)⟩

/-- Below the fork the record of a first deposit at the time 1000 is dated 0, and its coin age
is a thousand seconds of the balance too high at any time. -/
theorem deposit_undated :
    letI := Fc.plain
    ∃ t, DepositRun 451499 9000 [(1000, 10)] t ∧
      ∃ r, t.currentState.getBalanceRecord 9000 = some r ∧ r.balance = 10 ∧ r.depositDate < 1000 ∧
        ∀ now, Deposited.coinAge [(1000, 10)] now + r.balance * 1 <
          r.balance * (now - r.depositDate) := by
  let := Fc.plain
  refine ⟨firstSaving 451499, firstSaving_run (by decide) (by decide +kernel),
    { condition := (saving 10).condition, balance := 10, lastUpdate := 1000 }, by rfl, rfl,
    by decide, ?_⟩
  intro now
  simp only [Deposited.coinAge, List.map_cons, List.map_nil, List.sum_cons, List.sum_nil]
  omega

end Bts.Blockchain.DepositDates
