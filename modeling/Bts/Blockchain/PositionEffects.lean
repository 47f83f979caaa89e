import Mathlib.Algebra.BigOperators.Group.Finset.Piecewise
import Bts.Blockchain.AssetEffects

namespace Bts.Blockchain.PositionEffects

open Base Result Word Maps Errors MarketRecords Transactions Pending Layers Rules Evaluation
  MarketOperations Evaluate Effects AssetEffects

/-- The positions after one is taken out and what is left of it is stored again. -/
def movePosition (positions : MarketIndexKey → Option CollateralRecord) (index : MarketIndexKey)
    (left : Option (MarketIndexKey × CollateralRecord)) :
    MarketIndexKey → Option CollateralRecord :=
  let rest := Function.update positions index (some {})
  left.elim rest fun e => Function.update rest e.1 (some e.2)

variable [Fc]

/-- How an operation changes the position it names: the key and the record of what is
left, the collateral it pays in and the debt it pays. -/
structure PositionChange where
  index : MarketIndexKey
  old : CollateralRecord
  left : Option (MarketIndexKey × CollateralRecord)
  collateralPaid : Int
  principlePaid : Int

/-- A paid position is not stored again and releases its collateral. -/
def coverChange (op : CoverOperation) (old : CollateralRecord) (payment : Payment) :
    Except ChainError PositionChange :=
  let rest := { old with payoffBalance := payment.payoffBalance }
  if 0 < payment.payoffBalance then do
    let index ← newCoverIndex op rest
    pure ⟨op.coverIndex, old, some (index, rest), 0, payment.principlePaid.amount⟩
  else pure ⟨op.coverIndex, old, none, -old.collateralBalance, payment.principlePaid.amount⟩

def positionChange (c : ChainInterface) : Operation → Except ChainError (Option PositionChange)
  | .cover op => do
    let old ← orThrow (c.getCollateralRecord op.coverIndex) .unknownMarketOrder
    let payment ← coverPayment op old c.now
    some <$> coverChange op old payment
  | .addCollateral op => do
    let old ← orThrow (c.getCollateralRecord op.coverIndex) .unknownMarketOrder
    let rest := { old with collateralBalance := int64 (old.collateralBalance + op.amount) }
    let price ← callPrice op.coverIndex rest.payoffBalance rest.collateralBalance
    let key := { orderPrice := price, owner := op.coverIndex.owner }
    pure (some ⟨op.coverIndex, old, some (key, rest), op.amount, 0⟩)
  | _ => pure none

theorem getCollateralRecord_pending (layer : PendingState) (prev : ChainInterface)
    (key : MarketIndexKey) : (ChainInterface.pending layer prev).getCollateralRecord key =
      (layer.collateral.lookup key).or (prev.getCollateralRecord key) := rfl

theorem getCollateralRecord_store (layer : PendingState) (prev : ChainInterface)
    (key : MarketIndexKey) (r : CollateralRecord) :
    (ChainInterface.pending (layer.storeCollateralRecord key r) prev).getCollateralRecord =
      Function.update (ChainInterface.pending layer prev).getCollateralRecord key (some r) := by
  funext k
  rw [getCollateralRecord_pending, Function.update_apply, getCollateralRecord_pending]
  unfold PendingState.storeCollateralRecord
  rw [lookup_insert]
  by_cases hk : k = key
  · simp [hk]
  · simp [hk]

theorem getCollateralRecord_congr {layer layer' : PendingState} (prev : ChainInterface)
    (h : layer'.collateral = layer.collateral) :
    (ChainInterface.pending layer' prev).getCollateralRecord =
      (ChainInterface.pending layer prev).getCollateralRecord := by
  funext key
  rw [getCollateralRecord_pending, getCollateralRecord_pending, h]

variable {s t : EvaluationState} {layer : PendingState} {op : Operation}

/-- An operation changes no position, or moves the one it names. -/
inductive PositionStep (s : EvaluationState) (op : Operation) :
    (MarketIndexKey → Option CollateralRecord) → Prop
  | same (unchanged : positionChange s.currentState op = .ok none) :
    PositionStep s op s.currentState.getCollateralRecord
  | moved (change : PositionChange)
    (changed : positionChange s.currentState op = .ok (some change))
    (position : s.currentState.getCollateralRecord change.index = some change.old) :
    PositionStep s op
      (movePosition s.currentState.getCollateralRecord change.index change.left)

theorem positionStep_frame (hop : positionChange s.currentState op = .ok none)
    (h : layer.collateral = s.layer.collateral) :
    PositionStep s op (ChainInterface.pending layer s.prev).getCollateralRecord := by
  rw [getCollateralRecord_congr s.prev h]
  exact .same hop

theorem effect_positionStep (h : Effect s op layer) :
    PositionStep s op (ChainInterface.pending layer s.prev).getCollateralRecord := by
  cases h with
  | withdraw | withdrawYield | deposit | createAsset | issueAsset | bid | ask | short | knownSlate
  | newSlate | updateFeed | burn =>
    exact positionStep_frame rfl rfl
  | registerAccount op last r layer stored =>
    obtain ⟨_, _, _, rfl⟩ := storeAccountRecord_ok stored
    exact positionStep_frame rfl rfl
  | updateAccount op r layer stored | withdrawPay op r layer stored
  | updateBlockSigningKey op r layer stored =>
    obtain ⟨_, _, _, rfl⟩ := storeAccountRecord_ok stored
    exact positionStep_frame rfl rfl
  | coverPaid op a old payment known position paid nothingLeft =>
    rw [getCollateralRecord_store]
    refine .moved ⟨op.coverIndex, old, none, -old.collateralBalance, payment.principlePaid.amount⟩
      ?_ position
    simp [positionChange, position, paid, coverChange, nothingLeft]
  | coverLeft op a old payment index known position paid left moved =>
    rw [getCollateralRecord_store, getCollateralRecord_store]
    refine .moved ⟨op.coverIndex, old, some (index, _), 0, payment.principlePaid.amount⟩ ?_ position
    simp [positionChange, position, paid, coverChange, left, moved]
  | addCollateral op old price position positive called =>
    rw [getCollateralRecord_store, getCollateralRecord_store]
    refine .moved ⟨op.coverIndex, old, some (⟨price, op.coverIndex.owner⟩, _), op.amount, 0⟩ ?_
      position
    simp [positionChange, position, called]

theorem evaluateNext_positionStep (h : evaluateNext s op = .ok t) :
    PositionStep s op t.currentState.getCollateralRecord := by
  obtain ⟨hctx, heffect⟩ := evaluateNext_effect h
  rw [currentState_eq hctx]
  exact effect_positionStep heffect

end Bts.Blockchain.PositionEffects
