import Bts.Blockchain.PositionEffects

namespace Bts.Blockchain.CoverMarket

open Base Result Maps Amounts Records MarketRecords Transactions Database Evaluation
  MarketOperations Evaluate Effects PositionEffects

/-- The order in which prices of different markets are compared, whatever their ratios. -/
def pairLe (l r : AssetPair) : Prop := l.1 < r.1 ∨ (l.1 = r.1 ∧ l.2 ≤ r.2)
  deriving Decidable

/-- The index is quoted in its larger asset, and the price set for the position is not one
of a market that is compared above its own. -/
def KeepsMarket (op : CoverOperation) : Prop :=
  op.coverIndex.orderPrice.baseAssetId < op.coverIndex.orderPrice.quoteAssetId ∧
    ∀ p ∈ op.newCoverPrice, pairLe p.assetPair op.coverIndex.orderPrice.assetPair

theorem assetPair_eq_iff (p q : Price) :
    p.assetPair = q.assetPair ↔
      p.quoteAssetId = q.quoteAssetId ∧ p.baseAssetId = q.baseAssetId := Prod.mk.injEq .. |>.to_iff

theorem callPrice_pair {index : MarketIndexKey} {payoff collateral : Int} {p : Price}
    (h : callPrice index payoff collateral = .ok p) :
    p.quoteAssetId = max index.orderPrice.quoteAssetId index.orderPrice.baseAssetId ∧
      p.baseAssetId = min index.orderPrice.quoteAssetId index.orderPrice.baseAssetId ∧
      p.baseAssetId < p.quoteAssetId :=
  ⟨(divide_pair h).1, (divide_pair h).2, divide_ordered h⟩

theorem newCoverIndex_pair {op : CoverOperation} {cover : CollateralRecord} {key : MarketIndexKey}
    (h : newCoverIndex op cover = .ok key) :
    key.orderPrice.assetPair = op.coverIndex.orderPrice.assetPair ↔ KeepsMarket op := by
  simp only [newCoverIndex, eq_ok_iff] at h
  obtain ⟨called, hcalled, rfl⟩ := h
  obtain ⟨hquote, hbase, hordered⟩ := callPrice_pair hcalled
  unfold KeepsMarket
  cases op.newCoverPrice with
  | none =>
    simp only [assetPair_eq_iff, Option.not_mem_none, false_imp_iff, implies_true, and_true]
    omega
  | some p =>
    simp only [Option.mem_def, Option.some.injEq, forall_eq', pairLe, Price.assetPair]
    split
    · rename_i hlt
      unfold Price.lt at hlt
      rw [Prod.mk.injEq]
      omega
    · rename_i hlt
      unfold Price.lt at hlt
      rw [Prod.mk.injEq]
      omega

section Model

variable [Fc] {s t : EvaluationState}

/-- What a cover leaves open is stored in the market of its index exactly when the
operation keeps the market. -/
theorem cover_keeps_market_iff {op : CoverOperation} (h : evaluateNext s (.cover op) = .ok t) :
    ∃ change, positionChange s.currentState (.cover op) = .ok (some change) ∧
      ∀ key rest, change.left = some (key, rest) →
        t.currentState.getCollateralRecord key = some rest ∧
        (key.orderPrice.assetPair = op.coverIndex.orderPrice.assetPair ↔ KeepsMarket op) := by
  have hstep := evaluateNext_positionStep h
  generalize t.currentState.getCollateralRecord = after at hstep
  cases hstep with
  | same unchanged =>
    simp only [positionChange, bind_eq_ok, map_eq_ok] at unchanged
    obtain ⟨_, _, _, _, _, _, hnone⟩ := unchanged
    cases hnone
  | moved change changed position =>
    refine ⟨change, changed, fun key rest hleft => ⟨?_, ?_⟩⟩
    · rw [movePosition, hleft, Option.elim_some, Function.update_self]
    · simp only [positionChange, bind_eq_ok, map_eq_ok] at changed
      obtain ⟨old, _, payment, _, _, hcover, hchange⟩ := changed
      cases hchange
      unfold coverChange at hcover
      split at hcover
      · simp only [eq_ok_iff] at hcover
        obtain ⟨index, hindex, rfl⟩ := hcover
        cases hleft
        exact newCoverIndex_pair hindex
      · cases hcover
        cases hleft

end Model

/-- A debt of 100 in the market of the assets 1 and 0, beside an asset 2. -/
def dollarKey : MarketIndexKey := ⟨⟨1000000000000000000, 0, 1⟩, 9⟩
def euroKey : MarketIndexKey := ⟨⟨1, 0, 2⟩, 9⟩

def dollarDebt : CollateralRecord where
  collateralBalance := 150
  payoffBalance := 100
  interestRate := ⟨0, 0, 1⟩

def dollarHead : @ChainDatabase Fc.plain :=
  letI := Fc.plain
  { headBlockHeader := { blockNum := forkBlockNumV0426, timestamp := 50 }
    assetDb := ((Table.empty.store { id := 0, symbol := "BTS", issuerAccountId := 0 }).store
      { id := 1, symbol := "USD", issuerAccountId := AssetRecord.marketIssuerId }).store
      { id := 2, symbol := "EUR", issuerAccountId := AssetRecord.marketIssuerId }
    collateralDb := (∅ : Map _ _).insert dollarKey dollarDebt }

def repriceTrx (p : Price) : SignedTransaction where
  expiration := 100
  operations := [.cover { amount := 0, coverIndex := dollarKey, newCoverPrice := some p }]
  signatures := [9]

theorem cover_keeps_market_iff_dollarHead :
    letI := Fc.plain
    let s := begin { prev := .database dollarHead, chainId := 0 } (repriceTrx ⟨2, 0, 1⟩) false {9}
    ∃ t, evaluateNext s (.cover ⟨0, dollarKey, some ⟨2, 0, 1⟩⟩) = .ok t ∧
      ∃ change, positionChange s.currentState (.cover ⟨0, dollarKey, some ⟨2, 0, 1⟩⟩) =
          .ok (some change) ∧
        ∀ key rest, change.left = some (key, rest) →
          key.orderPrice.assetPair = dollarKey.orderPrice.assetPair := by
  let := Fc.plain
  intro s
  have hruns : (evaluateNext s (.cover ⟨0, dollarKey, some ⟨2, 0, 1⟩⟩)).isOk := by decide +kernel
  obtain ⟨t, ht⟩ := exists_ok_of_isOk hruns
  obtain ⟨change, hchange, hkeeps⟩ := cover_keeps_market_iff ht
  refine ⟨t, ht, change, hchange, fun key rest hleft => (hkeeps key rest hleft).2.mpr ?_⟩
  refine ⟨by decide, ?_⟩
  rintro p ⟨⟩
  decide

/-- The owner of a debt in asset 1 sets a price of another market: the same record is now
a debt in asset 2. -/
theorem cover_moves_debt_to_other_asset :
    letI := Fc.plain
    ∃ t, evaluate { prev := .database dollarHead, chainId := 0 } (repriceTrx ⟨1, 0, 2⟩) false =
        .ok t ∧
      t.currentState.getCollateralRecord euroKey = some dollarDebt ∧
      (t.currentState.getCollateralRecord dollarKey).all CollateralRecord.isNull ∧
      euroKey.orderPrice.assetPair ≠ dollarKey.orderPrice.assetPair := by
  exact ⟨_, rfl, rfl, rfl, by decide⟩

end Bts.Blockchain.CoverMarket
