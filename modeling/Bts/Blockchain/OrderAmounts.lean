import Bts.Blockchain.RecordWrites
import Bts.Blockchain.TransactionBooks

namespace Bts.Blockchain.OrderAmounts

open Base Result Word Maps Amounts Records MarketRecords Transactions Database Evaluation Effects
  MarketOperations RecordWrites TransactionBooks

section Model

variable [Fc] {s t : EvaluationState}

theorem addBalance_left {x : Asset} (h : s.addBalance x = .ok t) :
    left t x.assetId = int64 (left s x.assetId + x.amount) := by
  simp only [EvaluationState.addBalance, eq_ok_iff] at h
  obtain ⟨_, _, rfl⟩ := h
  simp [left]

theorem subBalance_left {id : Nat} {x : Asset} (h : s.subBalance id x = .ok t) :
    left t x.assetId = int64 (left s x.assetId - x.amount) := by
  simp only [EvaluationState.subBalance, eq_ok_iff] at h
  obtain ⟨_, _, _, _, rfl⟩ := h
  simp [left]

theorem changeOrder_left {delta : Asset} {current : Option OrderRecord} {r : OrderRecord}
    (h : changeOrder s delta.amount delta current = .ok (t, r)) :
    left t delta.assetId = int64 (left s delta.assetId - delta.amount) := by
  unfold changeOrder at h
  split at h
  · simp only [eq_ok_iff, Prod.mk.injEq] at h
    obtain ⟨order, -, _, -, u, hadd, rfl, -⟩ := h
    have hleft := addBalance_left hadd
    dsimp only [Asset.neg] at hleft
    rw [hleft]
    unfold int64
    omega
  · simp only [eq_ok_iff, Prod.mk.injEq] at h
    obtain ⟨u, hsub, rfl, -⟩ := h
    exact subBalance_left hsub

/-- An order that is changed has the exact sum as its balance, and the transaction has the
exact difference. -/
def ExactChange (old stored : Int) (s t : EvaluationState) (delta : Asset) : Prop :=
  stored = old + delta.amount ∧ 0 ≤ stored ∧
    left t delta.assetId = left s delta.assetId - delta.amount

/-- The sum and the difference are values of `int64_t`, and the sum is not negative. -/
def InRange (old : Int) (s : EvaluationState) (delta : Asset) : Prop :=
  0 ≤ old + delta.amount ∧ Fits (old + delta.amount) ∧ Fits (left s delta.assetId - delta.amount)

theorem exactChange_iff {old stored : Int} {delta : Asset}
    (hstored : stored = int64 (old + delta.amount))
    (hleft : left t delta.assetId = int64 (left s delta.assetId - delta.amount)) :
    ExactChange old stored s t delta ↔ InRange old s delta := by
  unfold ExactChange InRange
  rw [hleft, int64_eq_iff, hstored, int64_eq_iff]
  constructor
  · rintro ⟨hfits, hnonneg, hdelta⟩
    rw [int64_of_fits hfits] at hnonneg
    exact ⟨hnonneg, hfits, hdelta⟩
  · rintro ⟨hnonneg, hfits, hdelta⟩
    rw [int64_of_fits hfits]
    exact ⟨hfits, hnonneg, hdelta⟩

theorem bid_left {op : BidOperation} (h : BidOperation.evaluate op s = .ok t) :
    left t op.getAmount.assetId = int64 (left s op.getAmount.assetId - op.amount) := by
  simp only [BidOperation.evaluate, eq_ok_iff] at h
  obtain ⟨_, _, _, _, _, _, ⟨s₁, r⟩, h₁, rfl⟩ := h
  have hleft : left s₁ op.getAmount.assetId = int64 (left s op.getAmount.assetId - op.amount) :=
    changeOrder_left h₁
  exact hleft

theorem ask_left {op : AskOperation} (h : AskOperation.evaluate op s = .ok t) :
    left t op.getAmount.assetId = int64 (left s op.getAmount.assetId - op.amount) := by
  simp only [AskOperation.evaluate, eq_ok_iff] at h
  obtain ⟨_, _, _, _, _, _, ⟨s₁, r⟩, h₁, _, _, rfl⟩ := h
  have hleft : left s₁ op.getAmount.assetId = int64 (left s op.getAmount.assetId - op.amount) :=
    changeOrder_left h₁
  exact hleft

theorem short_left {op : ShortOperation} (h : ShortOperation.evaluate op s = .ok t) :
    left t op.getAmount.assetId = int64 (left s op.getAmount.assetId - op.amount) := by
  simp only [ShortOperation.evaluate, eq_ok_iff] at h
  obtain ⟨_, _, _, _, _, _, _, _, a, _, _, _, _, _, _, _, ⟨s₁, r⟩, h₁, _, _, rfl⟩ := h
  have hleft : left s₁ op.getAmount.assetId = int64 (left s op.getAmount.assetId - op.amount) :=
    changeOrder_left h₁
  exact hleft

variable {K : Type} [DecidableEq K] {index : K} {r q : OrderRecord} {delta : Asset}

theorem stored_exact_iff (shelf : Holdings.Shelf K OrderRecord) (hctx : SameContext s t)
    (hr : shelf.get s.currentState index = some r)
    (hstored : shelf.own t.layer = (shelf.own s.layer).insert index q)
    (hbalance : q.balance = int64 (((shelf.get s.currentState index).getD {}).balance + delta.amount))
    (hleft : left t delta.assetId = int64 (left s delta.assetId - delta.amount)) :
    ∃ r', shelf.get t.currentState index = some r' ∧
      (ExactChange r.balance r'.balance s t delta ↔ InRange r.balance s delta) := by
  refine ⟨q, ?_, exactChange_iff ?_ hleft⟩
  · rw [currentState_eq hctx, shelf.get_store s.prev hstored]
    exact Function.update_self ..
  · rw [hbalance, hr]
    rfl

/-- A bid, an ask or a short that is accepted on an order changes it by its amount exactly if
the sum and the difference stay in range. -/
theorem order_change_exact_iff :
    (∀ op r, BidOperation.evaluate op s = .ok t →
      s.currentState.getBidRecord op.bidIndex = some r →
        ∃ r', t.currentState.getBidRecord op.bidIndex = some r' ∧
          (ExactChange r.balance r'.balance s t op.getAmount ↔ InRange r.balance s op.getAmount)) ∧
    (∀ op r, AskOperation.evaluate op s = .ok t →
      s.currentState.getAskRecord op.askIndex = some r →
        ∃ r', t.currentState.getAskRecord op.askIndex = some r' ∧
          (ExactChange r.balance r'.balance s t op.getAmount ↔ InRange r.balance s op.getAmount)) ∧
    ∀ op r, ShortOperation.evaluate op s = .ok t →
      s.currentState.getShortRecord op.shortIndex = some r →
        ∃ r', t.currentState.getShortRecord op.shortIndex = some r' ∧
          (ExactChange r.balance r'.balance s t op.getAmount ↔
            InRange r.balance s op.getAmount) := by
  refine ⟨fun op r h hr => ?_, fun op r h hr => ?_, fun op r h hr => ?_⟩
  · obtain ⟨-, q, hstored, hbalance⟩ := bid_ok h
    exact stored_exact_iff Holdings.bids (bid_effect h).1 hr hstored hbalance (bid_left h)
  · obtain ⟨-, q, hstored, hbalance⟩ := ask_ok h
    exact stored_exact_iff Holdings.asks (ask_effect h).1 hr hstored hbalance (ask_left h)
  · obtain ⟨-, q, hstored, -, hbalance, -⟩ := short_ok h
    exact stored_exact_iff Holdings.shorts (short_effect h).1 hr hstored hbalance
      (short_left h)

end Model

def orderIndex : MarketIndexKey := { orderPrice := ⟨5, 0, 1⟩, owner := 8 }

def orderState : @EvaluationState Fc.plain :=
  letI := Fc.plain
  { chainId := 0
    signedKeys := {8}
    prev := .database
      { headBlockHeader := { blockNum := forkBlockNumV0428, timestamp := 1000 }
        assetDb := (Table.empty.store { id := 0, symbol := "BTS", issuerAccountId := 0 }).store
          { id := 1, symbol := "USD", issuerAccountId := AssetRecord.marketIssuerId }
        bidDb := (∅ : Map _ _).insert orderIndex { balance := 100 }
        askDb := (∅ : Map _ _).insert orderIndex { balance := 100 } } }

theorem order_change_exact_iff_withdrawn :
    letI := Fc.plain
    ∃ t, BidOperation.evaluate ⟨-60, orderIndex⟩ orderState = .ok t ∧
      ∃ r', t.currentState.getBidRecord orderIndex = some r' ∧
        ExactChange 100 r'.balance orderState t ⟨-60, 1⟩ := by
  let := Fc.plain
  have hok : (BidOperation.evaluate ⟨-60, orderIndex⟩ orderState).isOk := by decide +kernel
  obtain ⟨t, ht⟩ := exists_ok_of_isOk hok
  obtain ⟨r', hr', hiff⟩ := order_change_exact_iff.1 ⟨-60, orderIndex⟩ { balance := 100 } ht rfl
  exact ⟨t, ht, r', hr', hiff.mpr ⟨by decide, by decide, by decide⟩⟩

/-- A withdrawal of the smallest amount passes the check of a bid, which is left with a negative
balance. The ask does not take it. -/
theorem bid_smallest_amount :
    letI := Fc.plain
    ∃ t, BidOperation.evaluate ⟨-9223372036854775808, orderIndex⟩ orderState = .ok t ∧
      (t.currentState.getBidRecord orderIndex).map OrderRecord.balance =
        some (100 - 9223372036854775808) ∧
      left orderState 1 = 0 ∧ left t 1 = -9223372036854775808 ∧
      ¬ (AskOperation.evaluate ⟨-9223372036854775808, orderIndex⟩ orderState).isOk := by
  decide +kernel

end Bts.Blockchain.OrderAmounts
