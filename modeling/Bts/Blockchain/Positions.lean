import Bts.Base.Totals
import Bts.Blockchain.Supply
import Bts.Blockchain.PositionEffects

namespace Bts.Blockchain.Positions

open Base Result Word Maps Totals Records MarketRecords Transactions Pending Database Layers Rules
  Evaluation MarketOperations Evaluate Effects AssetEffects Supply PositionEffects

/-- The balances of a position as the chain stores them: values of `int64_t` that are not
negative. -/
def Sound (r : CollateralRecord) : Prop :=
  0 ≤ r.collateralBalance ∧ r.collateralBalance ≤ 9223372036854775807 ∧
    0 ≤ r.payoffBalance ∧ r.payoffBalance ≤ 9223372036854775807

/-- What the position that stands under the new key loses. -/
def lost (w : CollateralRecord → Int) (positions : MarketIndexKey → Option CollateralRecord)
    (change : PositionChange) : Int :=
  change.left.elim 0 fun e => if e.1 = change.index then 0 else (positions e.1).elim 0 w

theorem total_movePosition {change : PositionChange} {w : CollateralRecord → Int}
    {positions : MarketIndexKey → Option CollateralRecord} {keys : Finset MarketIndexKey}
    (hw : w {} = 0) (hindex : change.index ∈ keys) (hleft : ∀ e ∈ change.left, e.1 ∈ keys)
    (hold : positions change.index = some change.old) :
    total w keys (movePosition positions change.index change.left) =
      total w keys positions - w change.old + change.left.elim 0 (fun e => w e.2) -
        lost w positions change := by
  obtain ⟨index, old, left, paid, principle⟩ := change
  cases left with
  | none =>
    have hnone := total_update (w := w) (p := positions) hindex (some {})
    rw [hold, Option.elim_some, Option.elim_some, hw] at hnone
    show total w keys (Function.update positions index (some {})) =
      total w keys positions - w old + 0 - 0
    rw [hnone, Int.sub_zero]
  | some e => exact total_move hindex (hleft e rfl) hold hw

def writtenKeys (change : PositionChange) : Finset MarketIndexKey :=
  insert change.index (change.left.elim ∅ fun e => {e.1})

theorem index_mem_writtenKeys (change : PositionChange) : change.index ∈ writtenKeys change :=
  Finset.mem_insert_self _ _

theorem left_mem_writtenKeys (change : PositionChange) :
    ∀ e ∈ change.left, e.1 ∈ writtenKeys change := by
  intro e he
  rw [Option.mem_def] at he
  simp [writtenKeys, he]

section Move

variable {positions : MarketIndexKey → Option CollateralRecord} {index key : MarketIndexKey}
  {left : Option (MarketIndexKey × CollateralRecord)} {r : CollateralRecord}

theorem movePosition_none : movePosition positions index none key =
    if key = index then some {} else positions key :=
  Function.update_apply positions index _ key

theorem movePosition_some (e : MarketIndexKey × CollateralRecord) :
    movePosition positions index (some e) key =
      if key = e.1 then some e.2 else if key = index then some {} else positions key := by
  show Function.update (Function.update positions index (some {})) e.1 (some e.2) key = _
  rw [Function.update_apply, Function.update_apply]

theorem movePosition_of_ne (hindex : key ≠ index) (hleft : ∀ e ∈ left, key ≠ e.1) :
    movePosition positions index left key = positions key := by
  cases left with
  | none => rw [movePosition_none, if_neg hindex]
  | some e => rw [movePosition_some, if_neg (hleft e rfl), if_neg hindex]

theorem movePosition_cases (h : movePosition positions index left key = some r) :
    positions key = some r ∨ r = {} ∨ left = some (key, r) := by
  cases left with
  | none =>
    rw [movePosition_none] at h
    split at h
    · exact Or.inr (Or.inl (Option.some.inj h).symm)
    · exact Or.inl h
  | some e =>
    rw [movePosition_some] at h
    split at h
    · rename_i hkey
      cases h
      exact Or.inr (Or.inr (by rw [hkey]))
    · split at h
      · exact Or.inr (Or.inl (Option.some.inj h).symm)
      · exact Or.inl h

theorem movePosition_isSome (change : PositionChange)
    (h : (positions key).isSome ∨ key ∈ writtenKeys change) :
    (movePosition positions change.index change.left key).isSome := by
  unfold writtenKeys at h
  cases hleft : change.left with
  | none =>
    rw [movePosition_none]
    split
    · rfl
    · rename_i hkey
      simpa [hleft, hkey] using h
  | some e =>
    rw [movePosition_some]
    split
    · rfl
    · split
      · rfl
      · rename_i hkey hindex
        simpa [hleft, hkey, hindex] using h

end Move

section Model

variable [Fc]

def SoundPositions (c : ChainInterface) : Prop :=
  ∀ key r, c.getCollateralRecord key = some r → Sound r

/-- The position is stored under a key at which another one stands. -/
def Overwrites (c : ChainInterface) (op : Operation) : Prop :=
  ∃ change key r other, positionChange c op = .ok (some change) ∧ change.left = some (key, r) ∧
    key ≠ change.index ∧ c.getCollateralRecord key = some other ∧ ¬ other.isNull

/-- The collateral paid in takes the balance out of `int64_t`. -/
def Overflows (c : ChainInterface) (op : Operation) : Prop :=
  ∃ change, positionChange c op = .ok (some change) ∧
    ¬ Fits (change.old.collateralBalance + change.collateralPaid)

/-- No position but the named one is lost or altered, and the totals over any keys that
include those an operation writes change by what it pays in or releases. -/
structure KeepsPositions (s t : EvaluationState) (change : PositionChange) : Prop where
  others : ∀ key r, key ≠ change.index → s.currentState.getCollateralRecord key = some r →
    ¬ r.isNull → t.currentState.getCollateralRecord key = some r
  totals : ∀ keys : Finset MarketIndexKey, change.index ∈ keys →
    (∀ e ∈ change.left, e.1 ∈ keys) →
    total CollateralRecord.collateralBalance keys t.currentState.getCollateralRecord =
      total CollateralRecord.collateralBalance keys s.currentState.getCollateralRecord +
        change.collateralPaid ∧
    total CollateralRecord.payoffBalance keys t.currentState.getCollateralRecord =
      total CollateralRecord.payoffBalance keys s.currentState.getCollateralRecord -
        change.principlePaid

variable {s t : EvaluationState} {op : Operation} {change : PositionChange}

theorem coverPayment_left {op : CoverOperation} {old : CollateralRecord} {now : Nat}
    {payment : Payment} (hop : Fits op.amount) (hold : Sound old)
    (h : coverPayment op old now = .ok payment) :
    payment.payoffBalance = old.payoffBalance - payment.principlePaid.amount ∧
      0 ≤ payment.payoffBalance := by
  obtain ⟨hpos, hle⟩ := coverPayment_principle hop h
  simp only [coverPayment, eq_ok_iff] at h
  obtain ⟨_, _, _, _, p, hp, _, _, _, _, _, hleft, rfl⟩ := h
  refine ⟨?_, hleft⟩
  unfold payDebt at hp
  split at hp
  · simp only [eq_ok_iff] at hp
    obtain ⟨interest, _, rfl⟩ := hp
    exact (Int.sub_self _).symm
  · simp only [eq_ok_iff] at hp
    obtain ⟨interest, _, principle, _, rfl⟩ := hp
    apply int64_of_fits
    unfold Fits at hop ⊢
    unfold Sound at hold
    have hpos' : 0 ≤ principle.amount := hpos
    have hle' : principle.amount ≤ op.amount := hle
    omega

/-- What is left of a position: the debt less what is paid, and the collateral with what
is paid in, taken in `int64_t`. -/
structure Balanced (change : PositionChange) : Prop where
  collateral : change.left.elim 0 (fun e => e.2.collateralBalance) =
    int64 (change.old.collateralBalance + change.collateralPaid)
  payoff : change.left.elim 0 (fun e => e.2.payoffBalance) =
    change.old.payoffBalance - change.principlePaid
  payoff_nonneg : ∀ e ∈ change.left, 0 ≤ e.2.payoffBalance
  principle_nonneg : 0 ≤ change.principlePaid
  paid_nonneg : change.left.isSome → 0 ≤ change.collateralPaid

variable {c : ChainInterface}

theorem positionChange_balanced (hop : AmountsFit op)
    (hadd : ∀ o, op = .addCollateral o → 0 < o.amount) (h : positionChange c op = .ok (some change))
    (hold : Sound change.old) :
    Balanced change := by
  cases op with
  | cover op =>
    simp only [positionChange, bind_eq_ok, map_eq_ok, Option.some.injEq, exists_eq_right] at h
    obtain ⟨old, _, payment, hpayment, h⟩ := h
    unfold coverChange at h
    split at h
    · simp only [eq_ok_iff] at h
      obtain ⟨index, _, rfl⟩ := h
      have hold : Sound old := hold
      obtain ⟨hdebt, hpos⟩ := coverPayment_left hop hold hpayment
      refine ⟨?_, hdebt, ?_, (coverPayment_principle hop hpayment).1, fun _ => le_refl 0⟩
      · show old.collateralBalance = int64 (old.collateralBalance + 0)
        rw [Int.add_zero, int64_of_fits]
        unfold Sound at hold
        exact ⟨by omega, hold.2.1⟩
      · intro e he
        cases he
        exact hpos
    · rw [pure_eq_ok] at h
      subst h
      have hold : Sound old := hold
      obtain ⟨hdebt, hpos⟩ := coverPayment_left hop hold hpayment
      refine ⟨?_, ?_, ?_, (coverPayment_principle hop hpayment).1, ?_⟩
      · rw [Int.add_right_neg]
        rfl
      · show 0 = old.payoffBalance - payment.principlePaid.amount
        omega
      · intro e he
        cases he
      · intro hsome
        cases hsome
  | addCollateral op =>
    simp only [positionChange, eq_ok_iff, Option.some.injEq] at h
    obtain ⟨old, _, price, _, rfl⟩ := h
    refine ⟨rfl, (Int.sub_zero _).symm, ?_, le_refl 0, fun _ => (hadd op rfl).le⟩
    intro e he
    cases he
    exact hold.2.2.1
  | _ => cases h

theorem lost_nonneg (hs : SoundPositions c) (change : PositionChange) :
    0 ≤ lost CollateralRecord.collateralBalance c.getCollateralRecord change ∧
      lost CollateralRecord.collateralBalance c.getCollateralRecord change ≤
        9223372036854775807 := by
  have hzero : (0 : Int) ≤ 0 ∧ (0 : Int) ≤ 9223372036854775807 := by decide
  unfold lost
  cases change.left with
  | none => exact hzero
  | some e =>
    dsimp only [Option.elim_some]
    split
    · exact hzero
    · cases hr : c.getCollateralRecord e.1 with
      | none => exact hzero
      | some r =>
        obtain ⟨hnonneg, hle, _⟩ := hs e.1 r hr
        exact ⟨hnonneg, hle⟩

theorem overwrites_iff (h : positionChange c op = .ok (some change)) :
    Overwrites c op ↔ ¬ (lost CollateralRecord.collateralBalance c.getCollateralRecord change = 0 ∧
      lost CollateralRecord.payoffBalance c.getCollateralRecord change = 0) := by
  constructor
  · rintro ⟨change', key, r, other, hchange, hleft, hne, hother, hnull⟩ ⟨hcollateral, hpayoff⟩
    rw [h] at hchange
    cases hchange
    simp only [lost, hleft, Option.elim_some, hne, ↓reduceIte, hother] at hcollateral hpayoff
    exact hnull ⟨hpayoff.symm, hcollateral.symm⟩
  · intro hlost
    unfold lost at hlost
    cases hleft : change.left with
    | none => simp [hleft] at hlost
    | some e =>
      rw [hleft] at hlost
      dsimp only [Option.elim_some] at hlost
      by_cases hne : e.1 = change.index
      · simp [hne] at hlost
      · rw [if_neg hne, if_neg hne] at hlost
        cases hother : c.getCollateralRecord e.1 with
        | none => simp [hother] at hlost
        | some other =>
          rw [hother] at hlost
          refine ⟨change, e.1, e.2, other, h, hleft, hne, hother, ?_⟩
          exact fun hnull => hlost ⟨hnull.2.symm, hnull.1.symm⟩

theorem overflows_iff (h : positionChange c op = .ok (some change)) :
    Overflows c op ↔ ¬ Fits (change.old.collateralBalance + change.collateralPaid) := by
  constructor
  · rintro ⟨change', hchange, hfits⟩
    rw [h] at hchange
    cases hchange
    exact hfits
  · exact fun hfits => ⟨change, h, hfits⟩

theorem addCollateral_positive {o : AddCollateralOperation}
    (h : evaluateNext s (.addCollateral o) = .ok t) : 0 < o.amount := by
  have heffect := (evaluateNext_effect h).2
  generalize t.layer = layer at heffect
  cases heffect with
  | addCollateral op old price position positive called => exact positive

theorem moved_of_change (h : evaluateNext s op = .ok t)
    (hchange : positionChange s.currentState op = .ok (some change)) :
    s.currentState.getCollateralRecord change.index = some change.old ∧
      t.currentState.getCollateralRecord =
        movePosition s.currentState.getCollateralRecord change.index change.left := by
  have hstep := evaluateNext_positionStep h
  generalize t.currentState.getCollateralRecord = after at hstep
  cases hstep with
  | same unchanged =>
    rw [unchanged] at hchange
    cases hchange
  | moved change' changed position =>
    rw [changed] at hchange
    cases hchange
    exact ⟨position, rfl⟩

/-- An operation on a position loses nothing exactly when it overwrites no other position
and the collateral stays in `int64_t`. -/
theorem keepsPositions_iff (h : evaluateNext s op = .ok t) (hop : AmountsFit op)
    (hs : SoundPositions s.currentState)
    (hchange : positionChange s.currentState op = .ok (some change)) :
    KeepsPositions s t change ↔
      ¬ Overwrites s.currentState op ∧ ¬ Overflows s.currentState op := by
  obtain ⟨hold, hafter⟩ := moved_of_change h hchange
  have hbalanced := positionChange_balanced hop (fun o ho => addCollateral_positive (ho ▸ h))
    hchange (hs _ _ hold)
  obtain ⟨hnonneg, hle⟩ := lost_nonneg hs change
  have hcollateral := hbalanced.collateral
  have hpayoff := hbalanced.payoff
  have htotals (keys : Finset MarketIndexKey) (hindex : change.index ∈ keys)
      (hleft : ∀ e ∈ change.left, e.1 ∈ keys) :=
    And.intro
      (total_movePosition (w := CollateralRecord.collateralBalance) rfl hindex hleft hold)
      (total_movePosition (w := CollateralRecord.payoffBalance) rfl hindex hleft hold)
  rw [← hafter] at htotals
  constructor
  · intro hkeeps
    have hkeys := hkeeps.totals (writtenKeys change) (index_mem_writtenKeys change)
      (left_mem_writtenKeys change)
    have hsums := htotals (writtenKeys change) (index_mem_writtenKeys change)
      (left_mem_writtenKeys change)
    rw [overwrites_iff hchange, overflows_iff hchange, not_not, not_not]
    unfold Fits
    unfold int64 at hcollateral
    omega
  · rintro ⟨hoverwrites, hoverflows⟩
    refine ⟨?_, ?_⟩
    · intro key r hkey hr hnull
      rw [hafter, movePosition_of_ne hkey, hr]
      intro e he heq
      exact hoverwrites ⟨change, e.1, e.2, r, hchange, he, heq ▸ hkey, heq ▸ hr, hnull⟩
    · rw [overwrites_iff hchange, not_not] at hoverwrites
      rw [overflows_iff hchange, not_not] at hoverflows
      intro keys hindex hleft
      obtain ⟨hsumC, hsumP⟩ := htotals keys hindex hleft
      rw [int64_of_fits hoverflows] at hcollateral
      omega

theorem evaluateNext_sound (h : evaluateNext s op = .ok t) (hop : AmountsFit op)
    (hs : SoundPositions s.currentState) (hkept : ¬ Overflows s.currentState op) :
    SoundPositions t.currentState := by
  intro key r hr
  have hstep := evaluateNext_positionStep h
  generalize t.currentState.getCollateralRecord = after at hstep hr
  cases hstep with
  | same unchanged => exact hs key r hr
  | moved change changed position =>
    have hbalanced := positionChange_balanced hop (fun o ho => addCollateral_positive (ho ▸ h))
      changed (hs _ _ position)
    rcases movePosition_cases hr with hold | rfl | hleft
    · exact hs key r hold
    · unfold Sound
      decide
    · have hcollateral := hbalanced.collateral
      have hpayoff := hbalanced.payoff
      have hnonneg : 0 ≤ r.payoffBalance := hbalanced.payoff_nonneg _ hleft
      have hprinciple := hbalanced.principle_nonneg
      have hpaid := hbalanced.paid_nonneg (by rw [hleft]; rfl)
      have hold := hs _ _ position
      rw [overflows_iff changed, not_not] at hkept
      rw [int64_of_fits hkept, hleft] at hcollateral
      rw [hleft] at hpayoff
      unfold Fits at hkept
      unfold Sound at hold ⊢
      dsimp only [Option.elim_some] at hcollateral hpayoff
      omega

/-- What an operation pays into a position of `owner` in a chain state, and of its debt. -/
def collateralPaidBy (owner : Nat) (c : ChainInterface) (op : Operation) : Int :=
  match positionChange c op with
  | .ok (some change) => if change.index.owner = owner then change.collateralPaid else 0
  | _ => 0

def principlePaidBy (owner : Nat) (c : ChainInterface) (op : Operation) : Int :=
  match positionChange c op with
  | .ok (some change) => if change.index.owner = owner then change.principlePaid else 0
  | _ => 0

/-- The sum of what the operations pay, each in the state in which it is evaluated. -/
def sumAlong (paid : ChainInterface → Operation → Int) : EvaluationState → List Operation → Int
  | _, [] => 0
  | s, op :: ops => paid s.currentState op +
    match evaluateNext s op with
    | .ok t => sumAlong paid t ops
    | .error _ => 0

/-- Each operation loses no position in the state in which it is evaluated. -/
def KeptAlong : EvaluationState → List Operation → Prop
  | _, [] => True
  | s, op :: ops => (¬ Overwrites s.currentState op ∧ ¬ Overflows s.currentState op) ∧
    ∀ t, evaluateNext s op = .ok t → KeptAlong t ops

def PositionsOf (owner : Nat) (c : ChainInterface) (keys : Finset MarketIndexKey) : Prop :=
  (∀ key ∈ keys, key.owner = owner) ∧
    ∀ key, key.owner = owner → (c.getCollateralRecord key).isSome → key ∈ keys

/-- The totals over all positions of `owner` change by the given amounts. -/
def TotalsChange (owner : Nat) (c c' : ChainInterface) (collateral principle : Int) : Prop :=
  ∀ keys, PositionsOf owner c' keys →
    total CollateralRecord.collateralBalance keys c'.getCollateralRecord =
      total CollateralRecord.collateralBalance keys c.getCollateralRecord + collateral ∧
    total CollateralRecord.payoffBalance keys c'.getCollateralRecord =
      total CollateralRecord.payoffBalance keys c.getCollateralRecord - principle

theorem evaluateNext_isSome (h : evaluateNext s op = .ok t) {key : MarketIndexKey}
    (hkey : (s.currentState.getCollateralRecord key).isSome) :
    (t.currentState.getCollateralRecord key).isSome := by
  have hstep := evaluateNext_positionStep h
  generalize t.currentState.getCollateralRecord = after at hstep
  cases hstep with
  | same unchanged => exact hkey
  | moved change changed position => exact movePosition_isSome change (Or.inl hkey)

theorem operations_isSome {ops : List Operation} (h : ops.foldlM evaluateNext s = .ok t)
    {key : MarketIndexKey} (hkey : (s.currentState.getCollateralRecord key).isSome) :
    (t.currentState.getCollateralRecord key).isSome :=
  foldlM_keeps (P := fun u => (u.currentState.getCollateralRecord key).isSome)
    (fun _ _ _ _ hu hv => evaluateNext_isSome hv hu) hkey h

theorem writtenKeys_owner (h : positionChange c op = .ok (some change)) {key : MarketIndexKey}
    (hkey : key ∈ writtenKeys change) : key.owner = change.index.owner := by
  have hleft : ∀ e ∈ change.left, e.1.owner = change.index.owner := by
    cases op with
    | cover op =>
      simp only [positionChange, bind_eq_ok, map_eq_ok, Option.some.injEq, exists_eq_right] at h
      obtain ⟨old, _, payment, _, h⟩ := h
      unfold coverChange at h
      split at h
      · simp only [newCoverIndex, eq_ok_iff] at h
        obtain ⟨index, ⟨price, _, rfl⟩, rfl⟩ := h
        intro e he
        cases he
        rfl
      · rw [pure_eq_ok] at h
        subst h
        intro e he
        cases he
    | addCollateral op =>
      simp only [positionChange, eq_ok_iff, Option.some.injEq] at h
      obtain ⟨old, _, price, _, rfl⟩ := h
      intro e he
      cases he
      rfl
    | _ => cases h
  rcases Finset.mem_insert.mp hkey with rfl | hkey
  · rfl
  · cases hsome : change.left with
    | none => simp [hsome] at hkey
    | some e =>
      rw [hsome, Option.elim_some, Finset.mem_singleton] at hkey
      rw [hkey]
      exact hleft e hsome

theorem evaluateNext_totals (owner : Nat) (h : evaluateNext s op = .ok t) (hop : AmountsFit op)
    (hs : SoundPositions s.currentState)
    (hkept : ¬ Overwrites s.currentState op ∧ ¬ Overflows s.currentState op) :
    TotalsChange owner s.currentState t.currentState (collateralPaidBy owner s.currentState op)
      (principlePaidBy owner s.currentState op) := by
  rintro keys ⟨howner, hkeys⟩
  unfold collateralPaidBy principlePaidBy
  have hstep := evaluateNext_positionStep h
  generalize hafter : t.currentState.getCollateralRecord = after at hstep
  cases hstep with
  | same unchanged =>
    rw [unchanged]
    exact ⟨(Int.add_zero _).symm, (Int.sub_zero _).symm⟩
  | moved change changed position =>
    rw [changed]
    dsimp only
    by_cases hmine : change.index.owner = owner
    · rw [if_pos hmine, if_pos hmine, ← hafter]
      have hkeeps := (keepsPositions_iff h hop hs changed).mpr hkept
      have hmem : ∀ key ∈ writtenKeys change, key ∈ keys := by
        intro key hkey
        apply hkeys key ((writtenKeys_owner changed hkey).trans hmine)
        rw [hafter]
        exact movePosition_isSome change (Or.inr hkey)
      exact hkeeps.totals keys (hmem _ (index_mem_writtenKeys change))
        fun e he => hmem _ (left_mem_writtenKeys change e he)
    · rw [if_neg hmine, if_neg hmine, Int.add_zero, Int.sub_zero]
      have hother : ∀ key ∈ keys, movePosition s.currentState.getCollateralRecord change.index
          change.left key = s.currentState.getCollateralRecord key := by
        intro key hkey
        have hne : ∀ key' ∈ writtenKeys change, key ≠ key' := by
          rintro key' hkey' rfl
          exact hmine ((writtenKeys_owner changed hkey').symm.trans (howner key hkey))
        exact movePosition_of_ne (hne _ (index_mem_writtenKeys change))
          fun e he => hne _ (left_mem_writtenKeys change e he)
      exact ⟨total_congr hother, total_congr hother⟩

theorem operations_totals (owner : Nat) {ops : List Operation}
    (h : ops.foldlM evaluateNext s = .ok t) (hfit : ∀ op ∈ ops, AmountsFit op)
    (hs : SoundPositions s.currentState) (hkept : KeptAlong s ops) :
    TotalsChange owner s.currentState t.currentState
      (sumAlong (collateralPaidBy owner) s ops) (sumAlong (principlePaidBy owner) s ops) := by
  induction ops, s, h using foldlM_induct with
  | nil => exact fun keys _ => ⟨(Int.add_zero _).symm, (Int.sub_zero _).symm⟩
  | cons op ops s u hu ht ih =>
    rw [List.forall_mem_cons] at hfit
    have hone := evaluateNext_totals owner hu hfit.1 hs hkept.1
    have hsound := evaluateNext_sound hu hfit.1 hs hkept.1.2
    have hrest := ih hfit.2 hsound (hkept.2 u hu)
    intro keys hkeys
    obtain ⟨hcollateral, hpayoff⟩ := hone keys
      ⟨hkeys.1, fun key howner hkey => hkeys.2 key howner (operations_isSome ht hkey)⟩
    obtain ⟨hcollateral', hpayoff'⟩ := hrest keys hkeys
    rw [sumAlong, sumAlong, hu]
    dsimp only
    omega

theorem settles_collateral {prev : ChainInterface} {layer layer' : PendingState}
    (h : Relation.ReflTransGen (Settles prev) layer layer') :
    layer'.collateral = layer.collateral := by
  induction h with
  | refl => rfl
  | tail _ hstep ih =>
    cases hstep with
    | votes layer' r stored =>
      obtain ⟨_, _, _, rfl⟩ := storeAccountRecord_ok stored
      exact ih
    | fee a fees known => exact ih

/-- When cover and add_collateral operations keep the positions of an owner. -/
theorem positions_kept_iff :
    (∀ (s t : EvaluationState) (op : Operation) (change : PositionChange),
      evaluateNext s op = .ok t → AmountsFit op → SoundPositions s.currentState →
      positionChange s.currentState op = .ok (some change) →
      (KeepsPositions s t change ↔
        ¬ Overwrites s.currentState op ∧ ¬ Overflows s.currentState op)) ∧
    ∀ (s t : EvaluationState) (trx : SignedTransaction) (skip : Bool) (keys : Finset Nat)
      (owner : Nat), evaluate s trx skip = .ok t →
      signedKeysOf skip (trx.digest s.chainId) trx.signatures = .ok keys →
      (∀ op ∈ trx.operations, AmountsFit op) → SoundPositions s.currentState →
      KeptAlong (begin s trx skip keys) trx.operations →
      TotalsChange owner s.currentState t.currentState
        (sumAlong (collateralPaidBy owner) (begin s trx skip keys) trx.operations)
        (sumAlong (principlePaidBy owner) (begin s trx skip keys) trx.operations) := by
  constructor
  · exact fun s t op change h hop hs hchange => keepsPositions_iff h hop hs hchange
  · intro s t trx skip keys owner h hkeys hfit hs hkept
    obtain ⟨_, keys', u, hkeys', hops, hsettled⟩ := evaluate_ok h
    cases hkeys.symm.trans hkeys'
    have htotals := operations_totals owner hops hfit hs hkept
    have hsame : t.currentState.getCollateralRecord = u.currentState.getCollateralRecord := by
      rw [currentState_eq hsettled.1]
      exact getCollateralRecord_congr u.prev (settles_collateral hsettled.2)
    intro positions hpositions
    unfold PositionsOf at hpositions
    rw [hsame] at hpositions ⊢
    exact htotals positions hpositions

end Model

/-- Two positions of one owner, and what brings the first one to the key of the second. -/
def firstKey : MarketIndexKey := ⟨⟨1000000000000000000, 0, 1⟩, 5⟩
def secondKey : MarketIndexKey := ⟨⟨500000000000000000, 0, 1⟩, 5⟩

def firstPosition : CollateralRecord where
  collateralBalance := 150
  payoffBalance := 100
  interestRate := ⟨0, 0, 1⟩

def secondPosition : CollateralRecord where
  collateralBalance := 120
  payoffBalance := 40
  interestRate := ⟨0, 0, 1⟩

def twoPositions : @ChainDatabase Fc.plain :=
  letI := Fc.plain
  { headBlockHeader := { blockNum := forkBlockNumV0426, timestamp := 50 }
    assetDb := (Table.empty.store { id := 0, symbol := "BTS", issuerAccountId := 0 }).store
      { id := 1, symbol := "USD", issuerAccountId := AssetRecord.marketIssuerId }
    balanceDb := Table.empty.store { condition := { data := .signature 9 none }, balance := 150 }
    collateralDb := ((∅ : Map _ _).insert secondKey secondPosition).insert firstKey firstPosition }

def strangerTrx : SignedTransaction where
  expiration := 100
  operations := [.withdraw { balanceId := 9000, amount := 150 },
    .addCollateral { amount := 150, coverIndex := firstKey }]
  signatures := [9]

def freeKeyChange : PositionChange where
  index := firstKey
  old := firstPosition
  left := some (⟨⟨751879699248120300, 0, 1⟩, 5⟩, { firstPosition with collateralBalance := 200 })
  collateralPaid := 50
  principlePaid := 0

def freeKeyTrx : SignedTransaction where
  expiration := 100
  operations := [.withdraw { balanceId := 9000, amount := 50 },
    .addCollateral { amount := 50, coverIndex := firstKey }]
  signatures := [9]

theorem twoPositions_sound :
    letI := Fc.plain
    SoundPositions (.pending {} (.database twoPositions)) := by
  let := Fc.plain
  intro key r hr
  have hread : (ChainInterface.pending {} (.database twoPositions)).getCollateralRecord key =
      if key = firstKey then some firstPosition
      else if key = secondKey then some secondPosition else none := by
    show AList.lookup key _ = _
    rw [twoPositions, lookup_insert, lookup_insert]
    rfl
  rw [hread] at hr
  unfold Sound
  split at hr
  · cases hr
    decide
  · split at hr
    · cases hr
      decide
    · cases hr

theorem positions_kept_iff_twoPositions :
    letI := Fc.plain
    (∃ s t, evaluateNext s (.addCollateral ⟨50, firstKey⟩) = .ok t ∧
      KeepsPositions s t freeKeyChange) ∧
    ∃ t, evaluate { prev := .database twoPositions, chainId := 0 } freeKeyTrx false = .ok t ∧
      TotalsChange 5 (.pending {} (.database twoPositions)) t.currentState 50 0 := by
  let := Fc.plain
  let s : EvaluationState :=
    begin { prev := .database twoPositions, chainId := 0 } freeKeyTrx false (∅ ∪ keyAddresses 9)
  have hchange (u : EvaluationState)
      (hu : u.currentState.getCollateralRecord = s.currentState.getCollateralRecord) :
      positionChange u.currentState (.addCollateral ⟨50, firstKey⟩) = .ok (some freeKeyChange) := by
    simp only [positionChange, hu]
    rfl
  have hfree : ¬ Overwrites s.currentState (.addCollateral ⟨50, firstKey⟩) ∧
      ¬ Overflows s.currentState (.addCollateral ⟨50, firstKey⟩) := by
    rw [overwrites_iff (hchange s rfl), overflows_iff (hchange s rfl)]
    decide
  have hkept : KeptAlong s freeKeyTrx.operations := by
    refine ⟨⟨?_, ?_⟩, fun u hu => ⟨?_, fun _ _ => trivial⟩⟩
    · rintro ⟨change, _, _, _, hnone, _⟩
      cases hnone
    · rintro ⟨change, hnone, _⟩
      cases hnone
    · have hsame : u.currentState.getCollateralRecord = s.currentState.getCollateralRecord := by
        have hstep := evaluateNext_positionStep hu
        generalize u.currentState.getCollateralRecord = after at hstep
        cases hstep with
        | same unchanged => rfl
        | moved change changed position => cases changed
      rw [overwrites_iff (hchange u hsame), overflows_iff (hchange u hsame), hsame]
      decide
  have hcollateral : sumAlong (collateralPaidBy 5) s freeKeyTrx.operations = 50 := by
    decide +kernel
  have hprinciple : sumAlong (principlePaidBy 5) s freeKeyTrx.operations = 0 := by
    decide +kernel
  obtain ⟨u, hu⟩ : ∃ u, evaluateNext s (.addCollateral ⟨50, firstKey⟩) = .ok u := ⟨_, rfl⟩
  obtain ⟨t, ht⟩ : ∃ t, evaluate { prev := .database twoPositions, chainId := 0 } freeKeyTrx false =
      .ok t := ⟨_, rfl⟩
  have hkeys : signedKeysOf false (freeKeyTrx.digest 0) freeKeyTrx.signatures =
      .ok (∅ ∪ keyAddresses 9) := rfl
  have htotals := positions_kept_iff.2 { prev := .database twoPositions, chainId := 0 } t freeKeyTrx
    false (∅ ∪ keyAddresses 9) 5 ht hkeys (by decide) twoPositions_sound hkept
  rw [hcollateral, hprinciple] at htotals
  refine ⟨⟨s, u, hu, ?_⟩, t, ht, htotals⟩
  exact (positions_kept_iff.1 s u _ freeKeyChange hu (by decide) twoPositions_sound
    (hchange s rfl)).mpr hfree

/-- Anyone can add collateral to a position until it is stored over another one of its
owner, of which the collateral and the debt are gone. -/
theorem add_collateral_overwrites_position :
    letI := Fc.plain
    ∃ t, evaluate { prev := .database twoPositions, chainId := 0 } strangerTrx false = .ok t ∧
      (ChainInterface.database twoPositions).getCollateralRecord secondKey = some secondPosition ∧
      t.currentState.getCollateralRecord secondKey =
        some { firstPosition with collateralBalance := 300 } ∧
      total CollateralRecord.collateralBalance {firstKey, secondKey}
          t.currentState.getCollateralRecord ≠
        total CollateralRecord.collateralBalance {firstKey, secondKey}
          (ChainInterface.database twoPositions).getCollateralRecord + 150 ∧
      total CollateralRecord.payoffBalance {firstKey, secondKey}
          t.currentState.getCollateralRecord ≠
        total CollateralRecord.payoffBalance {firstKey, secondKey}
          (ChainInterface.database twoPositions).getCollateralRecord := by
  exact ⟨_, rfl, rfl, rfl, by decide, by decide⟩

end Bts.Blockchain.Positions
