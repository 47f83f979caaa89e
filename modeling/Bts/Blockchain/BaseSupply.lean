import Bts.Blockchain.AssetHistory
import Bts.Blockchain.Genesis
import Bts.Blockchain.TransactionBooks
import Bts.Blockchain.UserSupply

namespace Bts.Blockchain.BaseSupply

open Base Result Word Maps Amounts Records MarketRecords Transactions Database Layers Rules
  Evaluation Operations MarketOperations Evaluate Effects Supply UserSupply TransactionBooks

def amountOf : Operation → Int
  | .withdraw op => op.amount
  | .deposit op => op.amount
  | .withdrawPay op => op.amount
  | .issueAsset op => op.amount.amount
  | .bid op => op.amount
  | .ask op => op.amount
  | .short op => op.amount
  | .cover op => op.amount
  | .addCollateral op => op.amount
  | .burn op => op.amount.amount
  | _ => 0

theorem amountsFit_of_fits {op : Operation} (h : Fits (amountOf op)) : AmountsFit op := by
  cases op <;> first | exact h | trivial

theorem covered_zero {id : Int} {ops : List Operation} (h : ¬ Covers id ops) : covered id ops = 0 := by
  apply List.sum_eq_zero
  intro x hx
  obtain ⟨op, hop, rfl⟩ := List.mem_map.mp hx
  cases op with
  | cover op => exact if_neg fun hid => h ⟨op, hop, hid⟩
  | _ => rfl

section Model

variable [Fc] {s t u : EvaluationState}

/-- An operation puts in at least what it burns of the base asset. -/
inductive Spends (op : Operation) (s t : EvaluationState) : Prop
  | nothing (same : t.deposits = s.deposits) (burns : burnedBy 0 op = 0)
  | amount (x : Asset) (added : addAsset s.deposits x.assetId x = .ok t.deposits)
    (fits : Fits x.amount) (base : x.assetId = 0 → 0 ≤ x.amount)
    (burns : burnedBy 0 op = 0 ∨ (x.assetId = 0 ∧ burnedBy 0 op = x.amount))

theorem subBalance_deposits {id : Nat} {x : Asset} (h : s.subBalance id x = .ok t) :
    addAsset s.deposits x.assetId x = .ok t.deposits := by
  simp only [EvaluationState.subBalance, eq_ok_iff] at h
  obtain ⟨_, _, deposits, hadd, rfl⟩ := h
  exact hadd

theorem addBalance_deposits {x : Asset} (h : s.addBalance x = .ok t) : t.deposits = s.deposits := by
  simp only [EvaluationState.addBalance, eq_ok_iff] at h
  obtain ⟨_, _, rfl⟩ := h
  rfl

theorem addRequiredFees_deposits {fee : Int} (h : s.addRequiredFees fee = .ok t) :
    t.deposits = s.deposits := by
  simp only [EvaluationState.addRequiredFees, eq_ok_iff] at h
  obtain ⟨_, _, rfl⟩ := h
  rfl

theorem storeAccountRecord_deposits {r : AccountRecord} (h : s.storeAccountRecord r = .ok t) :
    t.deposits = s.deposits := by
  simp only [EvaluationState.storeAccountRecord, eq_ok_iff] at h
  obtain ⟨_, _, rfl⟩ := h
  rfl

theorem registerDelegate_deposits {r r' : AccountRecord} {payRate key : Nat}
    (h : registerDelegate s r payRate key = .ok (t, r')) : t.deposits = s.deposits := by
  unfold registerDelegate at h
  split at h
  · simp only [makeDelegate, eq_ok_iff, Prod.mk.injEq] at h
    obtain ⟨_, _, _, _, s₁, h₁, rfl, _⟩ := h
    exact addRequiredFees_deposits h₁
  · cases h
    rfl

theorem updateDelegate_deposits {r r' : AccountRecord} {payRate : Nat}
    (h : updateDelegate s r payRate = .ok (t, r')) : t.deposits = s.deposits := by
  simp only [updateDelegate, bind_eq_ok] at h
  obtain ⟨_, _, h⟩ := h
  split at h
  · exact registerDelegate_deposits h
  · simp only [eq_ok_iff, Prod.mk.injEq] at h
    obtain ⟨_, _, rfl, _⟩ := h
    rfl

theorem changeOrder_deposits {amount : Int} {delta : Asset} {current : Option OrderRecord}
    {r : OrderRecord} (h : changeOrder s amount delta current = .ok (t, r)) :
    t.deposits = s.deposits ∨ (0 ≤ amount ∧ addAsset s.deposits delta.assetId delta = .ok t.deposits) := by
  unfold changeOrder at h
  split at h
  · simp only [eq_ok_iff, Prod.mk.injEq] at h
    obtain ⟨_, _, _, _, s₁, h₁, rfl, _⟩ := h
    exact Or.inl (addBalance_deposits h₁)
  next hpos =>
    simp only [eq_ok_iff, Prod.mk.injEq] at h
    obtain ⟨s₁, h₁, rfl, _⟩ := h
    exact Or.inr ⟨Int.not_lt.mp hpos, subBalance_deposits h₁⟩

theorem changeOrder_spends {op : Operation} {amount : Int} {delta : Asset}
    {current : Option OrderRecord} {r : OrderRecord}
    (h : changeOrder s amount delta current = .ok (u, r)) (ht : t.deposits = u.deposits)
    (hdelta : delta.amount = amount) (hfits : Fits amount) (hop : burnedBy 0 op = 0) :
    Spends op s t := by
  have hcases := changeOrder_deposits h
  rw [← ht] at hcases
  rcases hcases with hsame | ⟨hpos, hadd⟩
  · exact .nothing hsame hop
  · exact .amount delta hadd (hdelta ▸ hfits) (fun _ => hdelta ▸ hpos) (Or.inl hop)

theorem withdraw_spends {op : WithdrawOperation} (h : WithdrawOperation.evaluate op s = .ok t) :
    t.deposits = s.deposits := by
  simp only [WithdrawOperation.evaluate, eq_ok_iff] at h
  obtain ⟨_, _, r, _, _, _, _, _, a, _, _, _, s₁, hvote, ⟨s₂, r'⟩, hyield, s₃, hadd, rfl⟩ := h
  have hvoted := (adjustVote_sameBooks hvote).2.2
  have hpaid := (payYield_sameBooks hyield).1.2.2
  exact (addBalance_deposits hadd).trans (hpaid.trans hvoted)

theorem deposit_spends {op : DepositOperation} (h : DepositOperation.evaluate op s = .ok t) :
    0 < op.amount ∧ ∃ assetId, addAsset s.deposits assetId { amount := op.amount, assetId } =
      .ok t.deposits := by
  simp only [DepositOperation.evaluate, eq_ok_iff] at h
  obtain ⟨_, hpos, _, _, date, _, s₁, hsub, s₂, hvote, a, _, _, _, _, _, rfl⟩ := h
  have hadd := subBalance_deposits hsub
  rw [← (adjustVote_sameBooks hvote).2.2] at hadd
  exact ⟨hpos, _, hadd⟩

theorem burn_spends {op : BurnOperation} (h : BurnOperation.evaluate op s = .ok t) :
    (op.amount.assetId = 0 → 0 ≤ op.amount.amount) ∧
      addAsset s.deposits op.amount.assetId op.amount = .ok t.deposits := by
  simp only [BurnOperation.evaluate, eq_ok_iff] at h
  obtain ⟨_, _, _, hfee, a, _, _, _, s₁, hsub, _, _, rfl⟩ := h
  have hadd := subBalance_deposits hsub
  exact ⟨fun hbase => (show 0 ≤ minBurnFee by decide).trans (hfee hbase), hadd⟩

theorem cover_spends {op : CoverOperation} (h : CoverOperation.evaluate op s = .ok t) :
    0 ≤ op.amount ∧
      addAsset s.deposits op.getAmount.assetId op.getAmount = .ok t.deposits := by
  simp only [CoverOperation.evaluate, eq_ok_iff] at h
  obtain ⟨_, _, _, _, _, hpos, _, _, s₁, hsub, cover, _, a, _, payment, _, _, _, h⟩ := h
  refine ⟨hpos, ?_⟩
  have hadd := subBalance_deposits hsub
  unfold settleCover at h
  split at h
  · simp only [eq_ok_iff] at h
    obtain ⟨_, _, rfl⟩ := h
    exact hadd
  · rw [addBalance_deposits h]
    exact hadd

theorem addCollateral_spends {op : AddCollateralOperation}
    (h : AddCollateralOperation.evaluate op s = .ok t) :
    0 ≤ op.amount ∧
      addAsset s.deposits op.getAmount.assetId op.getAmount = .ok t.deposits := by
  simp only [AddCollateralOperation.evaluate, eq_ok_iff] at h
  obtain ⟨_, _, _, _, _, hpos, s₁, hsub, cover, _, price, _, rfl⟩ := h
  have hadd := subBalance_deposits hsub
  exact ⟨hpos, hadd⟩

theorem evaluateOperation_spends {op : Operation} (h : evaluateOperation s op = .ok t)
    (hfits : Fits (amountOf op)) : Spends op s t := by
  cases op with
  | withdraw op => exact .nothing (withdraw_spends h) rfl
  | deposit op =>
    obtain ⟨hpos, assetId, hadd⟩ := deposit_spends h
    exact .amount { amount := op.amount, assetId } hadd hfits (fun _ => Int.le_of_lt hpos)
      (Or.inl rfl)
  | registerAccount op =>
    simp only [evaluateOperation, RegisterAccountOperation.evaluate, bind_eq_ok] at h
    obtain ⟨_, _, _, _, _, _, _, _, _, _, id, _, r₁, _, ⟨s₂, r₂⟩, h₂, h⟩ := h
    have hregistered := registerDelegate_deposits h₂
    exact .nothing ((storeAccountRecord_deposits h).trans hregistered) rfl
  | updateAccount op =>
    simp only [evaluateOperation, UpdateAccountOperation.evaluate, bind_eq_ok] at h
    obtain ⟨r, _, _, _, r₁, _, ⟨s₂, r₂⟩, h₂, h⟩ := h
    exact .nothing ((storeAccountRecord_deposits h).trans (updateDelegate_deposits h₂)) rfl
  | withdrawPay op =>
    simp only [evaluateOperation, WithdrawPayOperation.evaluate, bind_eq_ok] at h
    obtain ⟨_, _, r, _, d, _, _, _, _, _, s₁, h₁, h⟩ := h
    have hadded := addBalance_deposits h₁
    exact .nothing ((storeAccountRecord_deposits h).trans hadded) rfl
  | updateBlockSigningKey op =>
    simp only [evaluateOperation, UpdateBlockSigningKey.evaluate, bind_eq_ok] at h
    obtain ⟨_, _, r, _, _, _, _, _, _, _, key, _, _, _, r₁, _, h⟩ := h
    exact .nothing (storeAccountRecord_deposits h) rfl
  | createAsset op =>
    simp only [evaluateOperation, CreateAssetOperation.evaluate, eq_ok_iff] at h
    obtain ⟨_, _, _, _, _, _, _, _, _, _, last, _, _, _, _, _, _, _, _, _, s₁, h₁, rfl⟩ := h
    have hcharged := addRequiredFees_deposits h₁
    exact .nothing hcharged rfl
  | issueAsset op =>
    simp only [evaluateOperation, IssueAssetOperation.evaluate, eq_ok_iff] at h
    obtain ⟨a, _, _, _, _, _, _, _, _, _, s₁, h₁, rfl⟩ := h
    have hadded := addBalance_deposits h₁
    exact .nothing hadded rfl
  | bid op =>
    simp only [evaluateOperation, BidOperation.evaluate, eq_ok_iff] at h
    obtain ⟨_, _, _, _, _, _, ⟨s₁, r⟩, h₁, rfl⟩ := h
    exact changeOrder_spends h₁ rfl rfl hfits rfl
  | ask op =>
    simp only [evaluateOperation, AskOperation.evaluate, eq_ok_iff] at h
    obtain ⟨_, _, _, _, _, _, ⟨s₁, r⟩, h₁, _, _, rfl⟩ := h
    exact changeOrder_spends h₁ rfl rfl hfits rfl
  | short op =>
    simp only [evaluateOperation, ShortOperation.evaluate, eq_ok_iff] at h
    obtain ⟨_, _, _, _, _, _, _, _, a, _, _, _, _, _, _, _, ⟨s₁, r⟩, h₁, _, _, rfl⟩ := h
    exact changeOrder_spends h₁ rfl rfl hfits rfl
  | cover op =>
    obtain ⟨hpos, hadd⟩ := cover_spends h
    exact .amount _ hadd hfits (fun _ => hpos) (Or.inl rfl)
  | addCollateral op =>
    obtain ⟨hpos, hadd⟩ := addCollateral_spends h
    exact .amount _ hadd hfits (fun _ => hpos) (Or.inl rfl)
  | defineDelegateSlate op =>
    simp only [evaluateOperation, DefineDelegateSlateOperation.evaluate, bind_eq_ok] at h
    obtain ⟨_, _, h⟩ := h
    split at h
    · cases h
      exact .nothing rfl rfl
    · simp only [eq_ok_iff] at h
      obtain ⟨_, _, rfl⟩ := h
      exact .nothing rfl rfl
  | updateFeed op =>
    simp only [evaluateOperation, UpdateFeedOperation.evaluate, eq_ok_iff] at h
    obtain ⟨r, _, _, _, _, _, key, _, _, _, rfl⟩ := h
    exact .nothing rfl rfl
  | burn op =>
    obtain ⟨hpos, hadd⟩ := burn_spends h
    refine .amount _ hadd hfits hpos ?_
    by_cases hbase : op.amount.assetId = 0
    · exact Or.inr ⟨hbase, if_pos hbase⟩
    · exact Or.inl (if_neg hbase)
  | disabled op data => exact absurd h throw_eq_ok
  | unregistered type data => exact absurd h throw_eq_ok

/-- The sums of what a transaction puts in stay in `int64_t`, and for the base asset they
are at least what it burns. -/
structure SpentAtLeast (s : EvaluationState) (burnt : Int) : Prop where
  fits : ∀ a, Fits (deposited s a)
  burnt_le : burnt ≤ deposited s 0
  burnt_nonneg : 0 ≤ burnt

theorem SpentAtLeast.step {op : Operation} {burnt : Int} (h : SpentAtLeast s burnt)
    (hstep : Spends op s t) : SpentAtLeast t (burnt + burnedBy 0 op) := by
  cases hstep with
  | nothing same burns =>
    rw [burns, Int.add_zero]
    have hsame (a : Int) : deposited t a = deposited s a := by
      unfold deposited
      rw [same]
    refine ⟨fun a => hsame a ▸ h.fits a, hsame 0 ▸ h.burnt_le, h.burnt_nonneg⟩
  | amount x added fits base burns =>
    have hsum := addAsset_amountAt h.fits fits added
    have hle := h.burnt_le
    have hnonneg := h.burnt_nonneg
    have hbase := (hsum 0).1
    refine ⟨fun a => (hsum a).2, ?_, ?_⟩
    · unfold deposited single at *
      rw [hbase]
      split
      next hid =>
        rcases burns with hzero | ⟨-, hburns⟩ <;> omega
      next hid =>
        rcases burns with hzero | ⟨hzero, -⟩
        · omega
        · exact absurd hzero.symm hid
    · rcases burns with hzero | ⟨hid, hburns⟩
      · omega
      · omega

theorem operations_spent {ops : List Operation} {burnt : Int} (h : ops.foldlM evaluateNext s = .ok t)
    (hfits : ∀ op ∈ ops, Fits (amountOf op)) (hs : SpentAtLeast s burnt) :
    SpentAtLeast t (burnt + burned 0 ops) := by
  induction ops, s, h using foldlM_induct generalizing burnt with
  | nil =>
    have hzero : burnt + burned 0 [] = burnt := Int.add_zero _
    rw [hzero]
    exact hs
  | cons op ops s u hu ht ih =>
    rw [List.forall_mem_cons] at hfits
    simp only [evaluateNext, eq_ok_iff] at hu
    obtain ⟨v, hv, rfl⟩ := hu
    have hstep := hs.step (evaluateOperation_spends hv hfits.1)
    have hrest := ih hfits.2 ⟨hstep.fits, hstep.burnt_le, hstep.burnt_nonneg⟩
    have hsum : burned 0 (op :: ops) = burnedBy 0 op + burned 0 ops := rfl
    rw [hsum, ← Int.add_assoc]
    exact hrest

theorem base_burns {ops : List Operation} (h : ops.foldlM evaluateNext s = .ok t) :
    ∀ op ∈ ops, 0 ≤ burnedBy 0 op := by
  intro op hop
  obtain ⟨u, v, hstep⟩ := foldlM_mem_ok h hop
  simp only [evaluateNext, eq_ok_iff] at hstep
  obtain ⟨w, hw, -⟩ := hstep
  cases op with
  | burn op =>
    show 0 ≤ if op.amount.assetId = 0 then op.amount.amount else 0
    split
    next hbase => exact (burn_spends hw).1 hbase
    next => exact le_rfl
  | _ => exact le_rfl

theorem evaluate_burned {trx : SignedTransaction} {skip : Bool} (h : evaluate s trx skip = .ok t)
    (hfresh : s.toTransactionBalances = {}) (hfits : ∀ op ∈ trx.operations, Fits (amountOf op)) :
    (∀ op ∈ trx.operations, 0 ≤ burnedBy 0 op) ∧ Fits (burned 0 trx.operations) := by
  obtain ⟨_, keys, u, _, hops, -⟩ := evaluate_ok h
  have hempty : ∀ a, deposited (begin s trx skip keys) a = 0 := deposited_empty hfresh
  have hstart : SpentAtLeast (begin s trx skip keys) 0 := by
    refine ⟨fun a => ?_, ?_, le_rfl⟩
    · rw [hempty]
      decide
    · rw [hempty]
  obtain ⟨hfit, hle, hnonneg⟩ := operations_spent hops hfits hstart
  refine ⟨base_burns hops, ?_⟩
  have hspent := hfit 0
  unfold Fits at *
  omega

/-- The supply of the base asset after a transaction: it is not larger where no more is
issued than burned, and without payments on debts in the base asset exactly there. -/
theorem base_supply_spec {a : AssetRecord} {trx : SignedTransaction} {skip : Bool}
    (h : evaluate s trx skip = .ok t) (hfresh : s.toTransactionBalances = {})
    (hfits : ∀ op ∈ trx.operations, Fits (amountOf op))
    (ha : s.currentState.getAssetRecord 0 = some a) (hs : Fits a.currentShareSupply) :
    ∃ b, t.currentState.getAssetRecord 0 = some b ∧
      (issued 0 trx.operations ≤ burned 0 trx.operations →
        -9223372036854775808 ≤ a.currentShareSupply - burned 0 trx.operations -
          covered 0 trx.operations → b.currentShareSupply ≤ a.currentShareSupply) ∧
      (¬ Covers 0 trx.operations → (b.currentShareSupply ≤ a.currentShareSupply ↔
        issued 0 trx.operations ≤ burned 0 trx.operations ∧ -9223372036854775808 ≤
          a.currentShareSupply + issued 0 trx.operations - burned 0 trx.operations)) := by
  obtain ⟨hburns, hburned⟩ := evaluate_burned h hfresh hfits
  obtain ⟨b, keys, hb, -, hchange⟩ := evaluate_supply h
    (fun op hop => amountsFit_of_fits (hfits op hop)) hburns ha hs
  refine ⟨b, hb, fun hle hroom => ?_, fun hcovers => ?_⟩
  · have hexact := (supplyChange_exact hchange hroom).1
    omega
  · obtain ⟨paid, wraps, hpaid, hcovered, hsupply, -⟩ := hchange.supply
    have hb' := hchange.fits
    have hissued := hchange.issued_nonneg
    have hnonneg := burned_nonneg hburns
    rw [covered_zero hcovers] at hcovered
    unfold Fits at *
    omega

end Model

def baseHead : @ChainDatabase Fc.plain :=
  letI := Fc.plain
  { headBlockHeader := { blockNum := forkBlockNumV0426, timestamp := 50 }
    assetDb := Table.empty.store (Genesis.baseAsset 50 900000)
    balanceDb := Table.empty.store
      { condition := { assetId := 0, data := .signature 9 none }, balance := 900000 } }

/-- Anyone issues base shares to themselves; no signature is needed. -/
def mintTrx : SignedTransaction where
  expiration := 100
  operations := [.issueAsset { amount := ⟨500, 0⟩ },
    .deposit { amount := 500, condition := { assetId := 0, data := .signature 7 none } }]

def burnBaseTrx : SignedTransaction where
  expiration := 100
  operations := [.withdraw { balanceId := 9000, amount := 600000 }, .burn { amount := ⟨600000, 0⟩ }]
  signatures := [9]

theorem base_supply_spec_burn :
    letI := Fc.plain
    ∃ t b, evaluate { prev := .database baseHead, chainId := 0 } burnBaseTrx false = .ok t ∧
      t.currentState.getAssetRecord 0 = some b ∧ b.currentShareSupply ≤ 900000 := by
  let := Fc.plain
  obtain ⟨t, ht⟩ : ∃ t, evaluate { prev := .database baseHead, chainId := 0 } burnBaseTrx false =
      .ok t := ⟨_, rfl⟩
  have hcovers : ¬ Covers 0 burnBaseTrx.operations := by
    rintro ⟨op, hop, -⟩
    simp [burnBaseTrx] at hop
  obtain ⟨b, hb, -, hiff⟩ := base_supply_spec ht rfl (by decide)
    (a := Genesis.baseAsset 50 900000) rfl (by decide)
  exact ⟨t, b, ht, hb, (hiff hcovers).mpr (by decide)⟩

/-- A transaction without any signature raises the supply of the base asset, and pays out
what it has made. -/
theorem base_issue_unsigned :
    letI := Fc.plain
    ∃ t a b, evaluate { prev := .database baseHead, chainId := 0 } mintTrx false = .ok t ∧
      mintTrx.signatures = [] ∧ (ChainInterface.database baseHead).getAssetRecord 0 = some a ∧
      t.currentState.getAssetRecord 0 = some b ∧
      a.currentShareSupply < b.currentShareSupply := by
  exact ⟨_, _, _, rfl, rfl, rfl, rfl, by decide⟩

end Bts.Blockchain.BaseSupply
