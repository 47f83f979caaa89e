import Bts.Blockchain.RecordWrites

namespace Bts.Blockchain.ShortLimits

open Base Result Maps Amounts Records MarketRecords Transactions Database Evaluation Evaluate
  Effects RecordWrites

/-- The limit price that an operation leaves to the short order at an index. -/
def limitAfter (index : MarketIndexKey) (limit : Option Price) : Operation → Option Price
  | .short op => if op.shortIndex = index then op.limitPrice else limit
  | _ => limit

section Model

variable [Fc] {s t : EvaluationState} {index : MarketIndexKey} {r : OrderRecord}

theorem limit_step {op : Operation} (h : evaluateNext s op = .ok t)
    (hr : s.currentState.getShortRecord index = some r) :
    ∃ r', t.currentState.getShortRecord index = some r' ∧
      r'.limitPrice = limitAfter index r.limitPrice op := by
  obtain ⟨hctx, heffect⟩ := evaluateNext_effect h
  obtain ⟨-, -, hshorts⟩ := effect_orders heffect
  rw [currentState_eq hctx]
  simp only [evaluateNext, eq_ok_iff] at h
  obtain ⟨u, hu, rfl⟩ := h
  cases op with
  | short op =>
    obtain ⟨-, q, hlayer, -, -, hlimit⟩ := short_ok hu
    have hget := congrFun (Holdings.shorts.get_store s.prev hlayer) index
    rw [Function.update_apply] at hget
    by_cases hindex : index = op.shortIndex
    · rw [if_pos hindex] at hget
      exact ⟨q, hget, hlimit.trans (if_pos hindex.symm).symm⟩
    · rw [if_neg hindex] at hget
      exact ⟨r, hget.trans hr, (if_neg fun he => hindex he.symm).symm⟩
  | _ =>
    exact ⟨r, (congrFun (Holdings.shorts.get_congr s.prev (hshorts (by simp))) index).trans hr, rfl⟩

theorem limit_run {ops : List Operation} (h : ops.foldlM evaluateNext s = .ok t)
    (hr : s.currentState.getShortRecord index = some r) :
    ∃ r', t.currentState.getShortRecord index = some r' ∧
      r'.limitPrice = ops.foldl (limitAfter index) r.limitPrice := by
  induction ops, s, h using foldlM_induct generalizing r with
  | nil => exact ⟨r, hr, rfl⟩
  | cons op ops s u hu h ih =>
    obtain ⟨q, hq, hlimit⟩ := limit_step hu hr
    rw [List.foldl_cons, ← hlimit]
    exact ih hq

/-- A limit price that a transaction changes is changed with the signature of the owner exactly
if the owner has signed or the last operation on the order sets the price it has. -/
theorem limit_change_signed_iff {trx : SignedTransaction} {skip : Bool}
    (h : evaluate s trx skip = .ok t) (hr : s.currentState.getShortRecord index = some r) :
    ∃ r', t.currentState.getShortRecord index = some r' ∧
      ((r'.limitPrice ≠ r.limitPrice → t.checkSignature index.owner) ↔
        (t.checkSignature index.owner ∨
          trx.operations.foldl (limitAfter index) r.limitPrice = r.limitPrice)) := by
  obtain ⟨-, keys, u, -, hops, hsettled⟩ := evaluate_ok h
  obtain ⟨r', hr', hlimit⟩ := limit_run hops hr
  obtain ⟨-, -, -, hshorts⟩ := settled_holdings hsettled
  refine ⟨r', ?_, ?_⟩
  · rw [currentState_eq hsettled.1]
    exact (congrFun (Holdings.shorts.get_congr u.prev hshorts) index).trans hr'
  · rw [hlimit]
    constructor
    · intro hsigned
      by_cases hsame : trx.operations.foldl (limitAfter index) r.limitPrice = r.limitPrice
      · exact Or.inr hsame
      · exact Or.inl (hsigned hsame)
    · rintro (hsigned | hsame) hne
      · exact hsigned
      · exact absurd hsame hne

end Model

def shorterState : @EvaluationState Fc.plain :=
  letI := Fc.plain
  { chainId := 0
    prev := .database
      { headBlockHeader := { blockNum := forkBlockNumV0426, timestamp := 1000 }
        assetDb := (Table.empty.store { id := 0, symbol := "BTS", issuerAccountId := 0 }).store
          { id := 1, symbol := "USD", issuerAccountId := AssetRecord.marketIssuerId, maximumShareSupply := 1000 }
        shortDb := (∅ : Map _ _).insert { orderPrice := ⟨1, 0, 1⟩, owner := 8 }
          { balance := 10, limitPrice := some ⟨5, 0, 1⟩ }
        balanceDb := Table.empty.store
          { condition := { assetId := 0, data := .signature 9 none }, balance := 100 } } }

def topUp (limitPrice : Option Price) : SignedTransaction where
  expiration := 2000
  operations := [.withdraw ⟨9000, 1, []⟩,
    .short { amount := 1, shortIndex := { orderPrice := ⟨1, 0, 1⟩, owner := 8 }, limitPrice }]
  signatures := [9]

theorem limit_change_signed_iff_topUp :
    letI := Fc.plain
    ∃ t, evaluate shorterState (topUp (some ⟨5, 0, 1⟩)) false = .ok t ∧
      ∃ r, t.currentState.getShortRecord { orderPrice := ⟨1, 0, 1⟩, owner := 8 } = some r ∧
        (r.limitPrice ≠ some ⟨5, 0, 1⟩ → t.checkSignature 8) := by
  let := Fc.plain
  have hok : (evaluate shorterState (topUp (some ⟨5, 0, 1⟩)) false).isOk := by decide +kernel
  obtain ⟨t, ht⟩ := exists_ok_of_isOk hok
  obtain ⟨r, hr, hiff⟩ := limit_change_signed_iff ht
    (show shorterState.currentState.getShortRecord { orderPrice := ⟨1, 0, 1⟩, owner := 8 } =
      some { balance := 10, limitPrice := some ⟨5, 0, 1⟩ } from rfl)
  exact ⟨t, ht, r, hr, hiff.mpr (Or.inr rfl)⟩

/-- A third party takes the limit off the order of the key 8. -/
theorem limit_changed_by_third_party :
    letI := Fc.plain
    ∃ t, evaluate shorterState (topUp none) false = .ok t ∧
      (shorterState.currentState.getShortRecord { orderPrice := ⟨1, 0, 1⟩, owner := 8 }).map
        OrderRecord.limitPrice = some (some ⟨5, 0, 1⟩) ∧
      (t.currentState.getShortRecord { orderPrice := ⟨1, 0, 1⟩, owner := 8 }).map
        OrderRecord.limitPrice = some none ∧
      ¬ t.checkSignature 8 := by
  decide +kernel

end Bts.Blockchain.ShortLimits
