import Bts.Blockchain.AccountGuards
import Bts.Blockchain.BaseSupply

namespace Bts.Blockchain.Ownership

open Base Result Word Maps Records MarketRecords Transactions Pending Database Layers Rules
  Evaluation Operations Evaluate Effects RecordWrites Signatures SlateVotes AccountGuards

theorem short_grows {old amount new : Int} (hold : Fits old) (hamount : Fits amount)
    (hpos : 0 ≤ amount) (hnew : new = int64 (old + amount)) (hnonneg : 0 ≤ new) : old ≤ new := by
  unfold Fits at hold hamount
  unfold int64 at hnew
  omega

def signatureOwner (condition : WithdrawCondition) : Option Nat :=
  match condition.data with
  | .signature owner _ => some owner
  | _ => none

theorem signatureOwner_eq_some {condition : WithdrawCondition} {owner : Nat} :
    signatureOwner condition = some owner ↔ ∃ memo, condition.data = .signature owner memo := by
  unfold signatureOwner
  cases condition.data with
  | signature o memo => simp
  | _ => simp

section Model

variable [Fc] {s t : EvaluationState} {l l' : PendingState} {prev c : ChainInterface}

/-- The issuer of a retractable asset has signed. -/
def Retracts (s : EvaluationState) (c : ChainInterface) (assetId : Int) : Prop :=
  ∃ siginfo ∈ retractor c assetId, s.verifyAuthority siginfo
  deriving Decidable

theorem checkSignature_congr (h : SameContext s t) {a : Nat} :
    t.checkSignature a ↔ s.checkSignature a := by
  unfold EvaluationState.checkSignature
  rw [h.skipSignatureCheck, h.signedKeys]

theorem verifyAuthority_congr (h : SameContext s t) {siginfo : MultisigMetaInfo} :
    t.verifyAuthority siginfo ↔ s.verifyAuthority siginfo :=
  ⟨verifyAuthority_mono fun _ => (checkSignature_congr h).mp,
    verifyAuthority_mono fun _ => (checkSignature_congr h).mpr⟩

variable {r : BalanceRecord} {owner : Nat} {op : Operation} {ops : List Operation}

theorem getBalanceRecord_store (h : l'.balances = l.balances.store r) (id : Nat) :
    (ChainInterface.pending l' prev).getBalanceRecord id =
      if id = Fc.conditionAddress r.condition then some r
      else (ChainInterface.pending l prev).getBalanceRecord id :=
  ChainInterface.find_store (·.balances) (·.balanceDb) h id

theorem getBalanceRecord_congr (h : l'.balances = l.balances) (id : Nat) :
    (ChainInterface.pending l' prev).getBalanceRecord id =
      (ChainInterface.pending l prev).getBalanceRecord id := by
  change (l'.balances.lookup id).or _ = (l.balances.lookup id).or _
  rw [h]

/-- What an operation deposits on a balance. -/
def depositedBy (id : Nat) : Operation → Int
  | .deposit op => if Fc.conditionAddress op.condition = id then op.amount else 0
  | _ => 0

def depositedTo (id : Nat) (ops : List Operation) : Int := (ops.map (depositedBy id)).sum

theorem checkWithdraw_signed {a : AssetRecord} (h : checkWithdraw s a r = .ok ())
    (howner : signatureOwner r.condition = some owner)
    (hretract : ¬ (a.isRetractable ∧ s.verifyAuthority a.authority)) : s.checkSignature owner := by
  obtain ⟨memo, hdata⟩ := signatureOwner_eq_some.mp howner
  unfold checkWithdraw at h
  rw [if_neg hretract] at h
  simp only [eq_ok_iff, checkWithdrawCondition, hdata] at h
  obtain ⟨_, -, _, -, hsigned⟩ := h
  exact hsigned

theorem depositRecord_id (op : DepositOperation) (s : EvaluationState) :
    Fc.conditionAddress (depositRecord op s).condition = Fc.conditionAddress op.condition := by
  unfold depositRecord
  cases hr : s.currentState.getBalanceRecord (Fc.conditionAddress op.condition) with
  | none => rfl
  | some r => exact Holdings.getBalanceRecord_id hr

theorem deposited {op : DepositOperation} {p : BalanceRecord} (h : Deposits s op t p) (id : Nat) :
    (ChainInterface.pending t.layer prev).getBalanceRecord id =
      if id = Fc.conditionAddress op.condition then some p
      else (ChainInterface.pending s.layer prev).getBalanceRecord id := by
  rw [getBalanceRecord_store h.stored, h.condition, depositRecord_id]

theorem balance_step {id owner : Nat} (h : evaluateNext s op = .ok t)
    (hr : s.currentState.getBalanceRecord id = some r) (hfits : Fits r.balance)
    (howner : signatureOwner r.condition = some owner) (hunsigned : ¬ s.checkSignature owner)
    (hretract : ¬ Retracts s s.currentState r.condition.assetId) :
    ∃ r', t.currentState.getBalanceRecord id = some r' ∧ r'.condition = r.condition ∧
      r'.balance = int64 (r.balance + depositedBy id op) := by
  obtain ⟨hctx, heffect⟩ := evaluateNext_effect h
  rw [currentState_eq hctx]
  have hkept (hnone : depositedBy id op = 0) : r.balance = int64 (r.balance + depositedBy id op) := by
    rw [hnone, Int.add_zero, int64_of_fits hfits]
  simp only [evaluateNext, eq_ok_iff] at h
  obtain ⟨u, hu, rfl⟩ := h
  cases op with
  | withdraw op =>
    obtain ⟨p, p', a, yield, hw⟩ := withdraw_ok hu
    refine ⟨r, ?_, rfl, hkept rfl⟩
    rw [getBalanceRecord_store hw.stored, if_neg, ← hr]
    · rfl
    -- A withdrawal from the balance itself needs the signature of its owner.
    · intro heq
      rw [hw.condition, Holdings.getBalanceRecord_id hw.known] at heq
      subst heq
      cases hr.symm.trans hw.known
      refine hunsigned (checkWithdraw_signed hw.allowed howner ?_)
      rintro ⟨hflag, hauth⟩
      exact hretract ⟨a.authority, retractor_eq_some.mpr ⟨a, hw.asset, hflag, rfl⟩, hauth⟩
  | deposit op =>
    obtain ⟨p', hd⟩ := deposit_ok hu
    rw [deposited hd]
    by_cases hsame : id = Fc.conditionAddress op.condition
    · have hrecord : depositRecord op s = r := by
        unfold depositRecord
        rw [← hsame, hr]
        rfl
      have hcondition := hd.condition
      have hbalance := hd.balance
      rw [hrecord] at hcondition hbalance
      rw [if_pos hsame]
      have hamount : depositedBy id (.deposit op) = op.amount := if_pos hsame.symm
      rw [hamount]
      exact ⟨p', rfl, hcondition, hbalance⟩
    · rw [if_neg hsame]
      exact ⟨r, hr, rfl, hkept (if_neg fun heq => hsame heq.symm)⟩
  | _ =>
    refine ⟨r, ?_, rfl, hkept rfl⟩
    rw [getBalanceRecord_congr (effect_balances heffect (by simp) (by simp)), ← hr]
    rfl

/-- The condition with which an operation would open a balance. -/
def depositCondition (id : Nat) : Operation → Option WithdrawCondition
  | .deposit op => if Fc.conditionAddress op.condition = id then some op.condition else none
  | _ => none

/-- The condition of a balance after some operations: the one it has, or that of the first
deposit on it. -/
def conditionAt (c : ChainInterface) (ops : List Operation) (id : Nat) : Option WithdrawCondition :=
  ((c.getBalanceRecord id).map BalanceRecord.condition).or (ops.findSome? (depositCondition id))

def balanceAt (c : ChainInterface) (id : Nat) : Int :=
  (c.getBalanceRecord id).elim 0 BalanceRecord.balance

theorem condition_step (h : evaluateNext s op = .ok t) (id : Nat) :
    (t.currentState.getBalanceRecord id).map BalanceRecord.condition =
      ((s.currentState.getBalanceRecord id).map BalanceRecord.condition).or (depositCondition id op) := by
  obtain ⟨hctx, heffect⟩ := evaluateNext_effect h
  rw [currentState_eq hctx]
  simp only [evaluateNext, eq_ok_iff] at h
  obtain ⟨u, hu, rfl⟩ := h
  cases op with
  | withdraw op =>
    obtain ⟨p, p', a, yield, hw⟩ := withdraw_ok hu
    rw [getBalanceRecord_store hw.stored, hw.condition, Holdings.getBalanceRecord_id hw.known]
    split
    next heq =>
      rw [heq, hw.known]
      exact congrArg some hw.condition
    next => exact (Option.or_none).symm
  | deposit op =>
    obtain ⟨p', hd⟩ := deposit_ok hu
    rw [deposited hd]
    split
    next heq =>
      have hcondition := hd.condition
      unfold depositRecord at hcondition
      rw [heq]
      cases hr : s.currentState.getBalanceRecord (Fc.conditionAddress op.condition) with
      | none =>
        rw [hr] at hcondition
        exact (congrArg some hcondition).trans (if_pos rfl).symm
      | some r =>
        rw [hr] at hcondition
        exact congrArg some hcondition
    next hne =>
      have hnone : depositCondition id (.deposit op) = none := if_neg fun heq => hne heq.symm
      rw [hnone, Option.or_none]
      rfl
  | _ =>
    rw [getBalanceRecord_congr (effect_balances heffect (by simp) (by simp))]
    exact (Option.or_none).symm

theorem conditionAt_step (h : evaluateNext s op = .ok t) (ops : List Operation) (id : Nat) :
    conditionAt t.currentState ops id = conditionAt s.currentState (op :: ops) id := by
  unfold conditionAt
  rw [condition_step h, Option.or_assoc, List.findSome?_cons]
  cases depositCondition id op with
  | none => rfl
  | some condition => rfl

theorem condition_run (h : ops.foldlM evaluateNext s = .ok t) (id : Nat) :
    (t.currentState.getBalanceRecord id).map BalanceRecord.condition =
      conditionAt s.currentState ops id := by
  induction ops, s, h using foldlM_induct with
  | nil => exact (Option.or_none).symm
  | cons op ops s u hu h ih =>
    rw [ih, conditionAt_step hu]

theorem balance_opened {id : Nat} (h : evaluateNext s op = .ok t)
    (hr : s.currentState.getBalanceRecord id = none) :
    balanceAt t.currentState id = int64 (depositedBy id op) := by
  have hcondition := condition_step h id
  rw [hr] at hcondition
  have hclosed (hnone : depositCondition id op = none) : balanceAt t.currentState id = 0 := by
    rw [hnone] at hcondition
    unfold balanceAt
    rw [Option.map_eq_none_iff.mp hcondition]
    rfl
  have hctx := (evaluateNext_effect h).1
  simp only [evaluateNext, eq_ok_iff] at h
  obtain ⟨u, hu, rfl⟩ := h
  cases op with
  | deposit op =>
    by_cases hid : Fc.conditionAddress op.condition = id
    · subst hid
      obtain ⟨p', hd⟩ := deposit_ok hu
      have hbalance := hd.balance
      unfold depositRecord at hbalance
      rw [hr] at hbalance
      unfold balanceAt
      rw [currentState_eq hctx, deposited hd, if_pos rfl]
      refine hbalance.trans ?_
      change int64 (0 + op.amount) = int64 (if _ then op.amount else 0)
      rw [if_pos rfl, Int.zero_add]
    · rw [hclosed (if_neg hid)]
      change 0 = int64 (if _ then op.amount else 0)
      rw [if_neg hid]
      rfl
  | _ => exact hclosed rfl

theorem balanceAt_step {id owner : Nat} {condition : WithdrawCondition}
    (h : evaluateNext s op = .ok t)
    (hcondition : conditionAt s.currentState (op :: ops) id = some condition)
    (hfits : Fits (balanceAt s.currentState id)) (howner : signatureOwner condition = some owner)
    (hunsigned : ¬ s.checkSignature owner)
    (hretract : ¬ Retracts s s.currentState condition.assetId) :
    balanceAt t.currentState id = int64 (balanceAt s.currentState id + depositedBy id op) := by
  unfold conditionAt at hcondition
  cases hr : s.currentState.getBalanceRecord id with
  | some r =>
    rw [hr] at hcondition
    cases hcondition
    unfold balanceAt at hfits ⊢
    rw [hr] at hfits ⊢
    obtain ⟨r', hr', -, hbalance⟩ := balance_step h hr hfits howner hunsigned hretract
    rw [hr']
    exact hbalance
  | none =>
    rw [balance_opened h hr]
    unfold balanceAt
    rw [hr]
    change _ = int64 (0 + _)
    rw [Int.zero_add]

/-- What a transaction leaves on a balance whose owner has not signed: what was there and the
deposits on it. -/
theorem balanceAt_run {id owner : Nat} {condition : WithdrawCondition}
    (h : ops.foldlM evaluateNext s = .ok t)
    (hcondition : conditionAt s.currentState ops id = some condition)
    (hfits : Fits (balanceAt s.currentState id)) (howner : signatureOwner condition = some owner)
    (hunsigned : ¬ s.checkSignature owner)
    (hretract : ¬ Retracts s s.currentState condition.assetId) :
    balanceAt t.currentState id = int64 (balanceAt s.currentState id + depositedTo id ops) := by
  induction ops, s, h using foldlM_induct with
  | nil =>
    change _ = int64 (_ + 0)
    rw [Int.add_zero, int64_of_fits hfits]
  | cons op ops s u hu h ih =>
    have hctx := (evaluateNext_effect hu).1
    have hstep := balanceAt_step hu hcondition hfits howner hunsigned hretract
    have hretract' : ¬ Retracts u u.currentState condition.assetId := by
      rintro ⟨siginfo, hsiginfo, hauth⟩
      rw [evaluateNext_retractor hu] at hsiginfo
      exact hretract ⟨siginfo, hsiginfo, (verifyAuthority_congr hctx).mp hauth⟩
    rw [← conditionAt_step hu] at hcondition
    rw [ih hcondition (hstep ▸ int64_fits _) (fun hs => hunsigned ((checkSignature_congr hctx).mp hs))
      hretract', hstep, int64_add_int64]
    unfold depositedTo
    rw [List.map_cons, List.sum_cons, Int.add_assoc]

def inOrder (r : Option OrderRecord) : Int := r.elim 0 OrderRecord.balance

structure OrdersKept (c c' : ChainInterface) (owner : Nat) : Prop where
  bids : ∀ i, i.owner = owner → inOrder (c.getBidRecord i) ≤ inOrder (c'.getBidRecord i)
  asks : ∀ i, i.owner = owner → inOrder (c.getAskRecord i) ≤ inOrder (c'.getAskRecord i)
  shorts : ∀ i, i.owner = owner → inOrder (c.getShortRecord i) ≤ inOrder (c'.getShortRecord i)

theorem OrdersKept.refl (c : ChainInterface) (owner : Nat) : OrdersKept c c owner :=
  ⟨fun _ _ => le_rfl, fun _ _ => le_rfl, fun _ _ => le_rfl⟩

theorem OrdersKept.trans {c c' c'' : ChainInterface} (h : OrdersKept c c' owner)
    (h' : OrdersKept c' c'' owner) : OrdersKept c c'' owner :=
  ⟨fun i hi => (h.bids i hi).trans (h'.bids i hi), fun i hi => (h.asks i hi).trans (h'.asks i hi),
    fun i hi => (h.shorts i hi).trans (h'.shorts i hi)⟩

/-- Orders of one kind are kept where the one that is written holds no less than before or is
not the owner's. -/
theorem orders_kept (shelf : Holdings.Shelf MarketIndexKey OrderRecord)
    (h : shelf.own l' = shelf.own l ∨ ∃ k r, shelf.own l' = (shelf.own l).insert k r ∧
      (k.owner = owner → inOrder (shelf.get (.pending l prev) k) ≤ r.balance)) (i : MarketIndexKey)
    (hi : i.owner = owner) :
    inOrder (shelf.get (.pending l prev) i) ≤ inOrder (shelf.get (.pending l' prev) i) := by
  rcases h with hsame | ⟨k, r, hstored, hle⟩
  · rw [shelf.get_congr prev hsame]
  · rw [shelf.get_store prev hstored, Function.update_apply]
    split
    next heq =>
      subst heq
      exact hle hi
    next => exact le_rfl

/-- The shares of a short order are counted in `int64_t`. -/
def ShortsFit (c : ChainInterface) : Prop := ∀ i r, c.getShortRecord i = some r → Fits r.balance

theorem orders_step (h : evaluateNext s op = .ok t) (hamount : Fits (BaseSupply.amountOf op))
    (hfits : ShortsFit s.currentState) (hunsigned : ¬ s.checkSignature owner) :
    OrdersKept s.currentState t.currentState owner ∧ ShortsFit t.currentState := by
  obtain ⟨hctx, heffect⟩ := evaluateNext_effect h
  obtain ⟨hbids, hasks, hshorts⟩ := effect_orders heffect
  rw [currentState_eq hctx]
  have hsameShorts (hlayer : t.layer.shorts = s.layer.shorts) :
      ShortsFit (.pending t.layer s.prev) :=
    Holdings.Shelf.All.keep (s := Holdings.shorts) hfits hlayer
  simp only [evaluateNext, eq_ok_iff] at h
  obtain ⟨u, hu, rfl⟩ := h
  cases op with
  | bid op =>
    obtain ⟨hsigned, r, hlayer, -⟩ := bid_ok hu
    refine ⟨⟨?_, orders_kept Holdings.asks (Or.inl (hasks (by simp))),
      orders_kept Holdings.shorts (Or.inl (hshorts (by simp)))⟩, hsameShorts (hshorts (by simp))⟩
    exact orders_kept Holdings.bids (Or.inr ⟨_, r, hlayer, fun hk => absurd (hk ▸ hsigned) hunsigned⟩)
  | ask op =>
    obtain ⟨hsigned, r, hlayer, -⟩ := ask_ok hu
    refine ⟨⟨orders_kept Holdings.bids (Or.inl (hbids (by simp))), ?_,
      orders_kept Holdings.shorts (Or.inl (hshorts (by simp)))⟩, hsameShorts (hshorts (by simp))⟩
    exact orders_kept Holdings.asks (Or.inr ⟨_, r, hlayer, fun hk => absurd (hk ▸ hsigned) hunsigned⟩)
  | short op =>
    obtain ⟨hsigned, r, hlayer, hnonneg, hbalance, -⟩ := short_ok hu
    refine ⟨⟨orders_kept Holdings.bids (Or.inl (hbids (by simp))),
      orders_kept Holdings.asks (Or.inl (hasks (by simp))), ?_⟩,
      Holdings.Shelf.All.store (s := Holdings.shorts) hfits hlayer (hbalance ▸ int64_fits _)⟩
    refine orders_kept Holdings.shorts (Or.inr ⟨_, r, hlayer, fun hk => ?_⟩)
    have hpos : 0 ≤ op.amount := by
      by_contra hneg
      exact hunsigned (hk ▸ hsigned (by omega))
    change inOrder (s.currentState.getShortRecord op.shortIndex) ≤ r.balance
    cases hold : s.currentState.getShortRecord op.shortIndex with
    | none => exact hnonneg
    | some q =>
      rw [hold] at hbalance
      exact short_grows (hfits _ q hold) hamount hpos hbalance hnonneg
  | _ =>
    exact ⟨⟨orders_kept Holdings.bids (Or.inl (hbids (by simp))),
      orders_kept Holdings.asks (Or.inl (hasks (by simp))),
      orders_kept Holdings.shorts (Or.inl (hshorts (by simp)))⟩, hsameShorts (hshorts (by simp))⟩

theorem orders_run (h : ops.foldlM evaluateNext s = .ok t)
    (hamounts : ∀ op ∈ ops, Fits (BaseSupply.amountOf op)) (hfits : ShortsFit s.currentState)
    (hunsigned : ¬ s.checkSignature owner) : OrdersKept s.currentState t.currentState owner := by
  induction ops, s, h using foldlM_induct with
  | nil => exact .refl _ owner
  | cons op ops s u hu h ih =>
    rw [List.forall_mem_cons] at hamounts
    have hctx := (evaluateNext_effect hu).1
    obtain ⟨hkept, hfits'⟩ := orders_step hu hamounts.1 hfits hunsigned
    exact hkept.trans (ih hamounts.2 hfits' fun hs => hunsigned ((checkSignature_congr hctx).mp hs))

/-- An address controls the accounts whose active or owner key it belongs to. -/
def Controls (a : Nat) (r : AccountRecord) : Prop :=
  Fc.address r.activeKey = a ∨ Fc.address r.ownerKey = a

/-- What the owner `a` has of an asset in balances with its signature as condition, and in its
orders. -/
def ownedBalance (a : Nat) (assetId : Int) (_ : Nat) (r : BalanceRecord) : Int :=
  if signatureOwner r.condition = some a ∧ r.condition.assetId = assetId then r.balance else 0

def ownedBid (a : Nat) (assetId : Int) (key : MarketIndexKey) (r : OrderRecord) : Int :=
  if key.owner = a ∧ key.orderPrice.quoteAssetId = assetId then r.balance else 0

def ownedAsk (a : Nat) (assetId : Int) (key : MarketIndexKey) (r : OrderRecord) : Int :=
  if key.owner = a ∧ key.orderPrice.baseAssetId = assetId then r.balance else 0

def owned (a : Nat) (assetId : Int) (c : ChainInterface) : Int :=
  Holdings.balances.held (ownedBalance a assetId) c + Holdings.bids.held (ownedBid a assetId) c +
    Holdings.asks.held (ownedAsk a assetId) c + Holdings.shorts.held (ownedAsk a assetId) c

/-- An address loses nothing from one state to the next: no balance that is its own by its
signature, the retraction of an asset by its issuer apart, no order, and no pay of an account
that it controls, where neither the account nor a parent of it has signed. -/
structure LosesNothing (s : EvaluationState) (c c' : ChainInterface) (a : Nat) : Prop where
  balances : ∀ id r, c'.getBalanceRecord id = some r → signatureOwner r.condition = some a →
    ¬ Retracts s c r.condition.assetId → balanceAt c id ≤ r.balance
  kept : ∀ id r, c.getBalanceRecord id = some r →
    ∃ r', c'.getBalanceRecord id = some r' ∧ r'.condition = r.condition
  orders : OrdersKept c c' a
  pay : ∀ id r, c.getAccountRecord id = some r → Controls a r → Unsigned s c r.name →
    ∃ r', c'.getAccountRecord id = some r' ∧ payOf r ≤ payOf r'

theorem OrdersKept.held {c c' : ChainInterface} {a : Nat} (h : OrdersKept c c' a) (assetId : Int) :
    Holdings.bids.held (ownedBid a assetId) c ≤ Holdings.bids.held (ownedBid a assetId) c' ∧
      Holdings.asks.held (ownedAsk a assetId) c ≤ Holdings.asks.held (ownedAsk a assetId) c' ∧
      Holdings.shorts.held (ownedAsk a assetId) c ≤ Holdings.shorts.held (ownedAsk a assetId) c' := by
  have hcell {p q : Option OrderRecord} {P : Prop} [Decidable P] (hle : P → inOrder p ≤ inOrder q) :
      p.elim 0 (fun r => if P then r.balance else 0) ≤ q.elim 0 fun r => if P then r.balance else 0 := by
    by_cases hP : P
    · simp only [hP, ↓reduceIte]
      exact hle hP
    · simp only [hP, ↓reduceIte]
      cases p <;> cases q <;> exact le_rfl
  refine ⟨Holdings.Shelf.held_mono fun k => ?_, Holdings.Shelf.held_mono fun k => ?_,
    Holdings.Shelf.held_mono fun k => ?_⟩
  · exact hcell fun hk => h.bids k hk.1
  · exact hcell fun hk => h.asks k hk.1
  · exact hcell fun hk => h.shorts k hk.1

theorem LosesNothing.owned {c c' : ChainInterface} {a : Nat} (h : LosesNothing s c c' a)
    {assetId : Int} (hretract : ¬ Retracts s c assetId) : owned a assetId c ≤ owned a assetId c' := by
  obtain ⟨hbids, hasks, hshorts⟩ := h.orders.held assetId
  have hbalances : Holdings.balances.held (ownedBalance a assetId) c ≤
      Holdings.balances.held (ownedBalance a assetId) c' := by
    refine Holdings.Shelf.held_mono fun id => ?_
    change (c.getBalanceRecord id).elim 0 _ ≤ (c'.getBalanceRecord id).elim 0 _
    cases hr' : c'.getBalanceRecord id with
    | none =>
      cases hr : c.getBalanceRecord id with
      | none => exact le_rfl
      | some r =>
        obtain ⟨_, hkept, -⟩ := h.kept id r hr
        cases hr'.symm.trans hkept
    | some r' =>
      have hsame : ∀ r, c.getBalanceRecord id = some r → r'.condition = r.condition := by
        intro r hr
        obtain ⟨_, hkept, hcondition⟩ := h.kept id r hr
        cases hr'.symm.trans hkept
        exact hcondition
      change _ ≤ ownedBalance a assetId id r'
      by_cases hown : signatureOwner r'.condition = some a ∧ r'.condition.assetId = assetId
      · have hle := h.balances id r' hr' hown.1 (hown.2.symm ▸ hretract)
        rw [ownedBalance, if_pos hown]
        refine le_trans ?_ hle
        unfold balanceAt
        cases hr : c.getBalanceRecord id with
        | none => exact le_rfl
        | some r =>
          rw [hsame r hr] at hown
          exact le_of_eq (if_pos hown)
      · rw [ownedBalance, if_neg hown]
        cases hr : c.getBalanceRecord id with
        | none => exact le_rfl
        | some r =>
          rw [hsame r hr] at hown
          exact le_of_eq (if_neg hown)
  unfold Ownership.owned
  omega

/-- What holds of the records of a chain: the accounts are registered with the parents of
their names, and amounts are `int64_t`. -/
structure Orderly (s : EvaluationState) : Prop where
  registry : Registry s.layer s.prev
  rooted : ∀ id r, s.currentState.getAccountRecord id = some r → ∀ n ∈ lineage r.name,
    getParentAccountName n = none → (s.currentState.getAccountRecordByName n).isSome
  balances : ∀ id r, s.currentState.getBalanceRecord id = some r → Fits r.balance
  shorts : ShortsFit s.currentState

theorem Orderly.balanceAt_fits (h : Orderly s) (id : Nat) : Fits (balanceAt s.currentState id) := by
  unfold balanceAt
  cases hr : s.currentState.getBalanceRecord id with
  | none =>
    decide
  | some r => exact h.balances id r hr

/-- An address that has not signed a transaction loses nothing by it exactly if the deposits
on its balances do not wrap them around below what they were. -/
theorem loses_nothing_iff {trx : SignedTransaction} {skip : Bool} {a : Nat}
    (h : Evaluate.evaluate s trx skip = .ok t) (hs : Orderly s)
    (hamounts : ∀ op ∈ trx.operations, Fits (BaseSupply.amountOf op))
    (hunsigned : ¬ t.checkSignature a) :
    (LosesNothing t s.currentState t.currentState a ↔ ∀ id condition,
      conditionAt s.currentState trx.operations id = some condition →
      signatureOwner condition = some a → ¬ Retracts t s.currentState condition.assetId →
      balanceAt s.currentState id ≤
        int64 (balanceAt s.currentState id + depositedTo id trx.operations)) ∧
    (LosesNothing t s.currentState t.currentState a → ∀ assetId,
      ¬ Retracts t s.currentState assetId →
      owned a assetId s.currentState ≤ owned a assetId t.currentState) := by
  refine ⟨?_, fun hloses assetId hretract => hloses.owned hretract⟩
  obtain ⟨-, keys, u, hkeys, hops, hsettled⟩ := evaluate_ok h
  have hctx : SameContext (begin s trx skip keys) t := (operations_context hops).trans hsettled.1
  obtain ⟨hbalances, hbids, hasks, hshorts⟩ := settled_holdings hsettled
  have hget (id : Nat) : t.currentState.getBalanceRecord id = u.currentState.getBalanceRecord id := by
    rw [currentState_eq hsettled.1]
    exact getBalanceRecord_congr hbalances id
  have hunsigned' : ¬ (begin s trx skip keys).checkSignature a :=
    fun hsigned => hunsigned ((checkSignature_congr hctx).mpr hsigned)
  have hretracts {assetId : Int} (hretract : ¬ Retracts t s.currentState assetId) :
      ¬ Retracts (begin s trx skip keys) s.currentState assetId := by
    rintro ⟨siginfo, hsiginfo, hauth⟩
    exact hretract ⟨siginfo, hsiginfo, (verifyAuthority_congr hctx).mpr hauth⟩
  have hcondition (id : Nat) : (t.currentState.getBalanceRecord id).map BalanceRecord.condition =
      conditionAt s.currentState trx.operations id := by
    rw [hget]
    exact condition_run hops id
  have hbalance {id : Nat} {condition : WithdrawCondition}
      (hat : conditionAt s.currentState trx.operations id = some condition)
      (howner : signatureOwner condition = some a)
      (hretract : ¬ Retracts t s.currentState condition.assetId) :
      balanceAt t.currentState id =
        int64 (balanceAt s.currentState id + depositedTo id trx.operations) := by
    have hrun := balanceAt_run hops hat (hs.balanceAt_fits id) howner hunsigned' (hretracts hretract)
    unfold balanceAt at hrun ⊢
    rw [hget]
    exact hrun
  constructor
  · intro hloses id condition hat howner hretract
    rw [← hbalance hat howner hretract]
    rw [← hcondition, Option.map_eq_some_iff] at hat
    obtain ⟨r, hr, rfl⟩ := hat
    have hle := hloses.balances id r hr howner hretract
    unfold balanceAt at hle ⊢
    rw [hr]
    exact hle
  · intro hwraps
    refine ⟨fun id r hr howner hretract => ?_, fun id r hr => ?_, ?_, fun id r hr hcontrols hlineage => ?_⟩
    · have hat := (hcondition id).symm
      rw [hr] at hat
      have hle := hwraps id r.condition hat howner hretract
      rw [← hbalance hat howner hretract] at hle
      unfold balanceAt at hle ⊢
      rw [hr] at hle
      exact hle
    · have hat := hcondition id
      unfold conditionAt at hat
      rw [hr] at hat
      exact Option.map_eq_some_iff.mp hat
    · have hrun := orders_run hops hamounts hs.shorts hunsigned'
      refine hrun.trans ?_
      rw [currentState_eq hsettled.1]
      exact ⟨orders_kept Holdings.bids (Or.inl hbids), orders_kept Holdings.asks (Or.inl hasks),
        orders_kept Holdings.shorts (Or.inl hshorts)⟩
    · have hguarded : Guarded (begin s trx skip keys) id r.name (payOf r) := by
        refine ⟨hs.registry, fun n hn q hq => ?_, hs.rooted id r hr, r, hr, rfl, rfl⟩
        rw [← hasSigned_congr hctx]
        exact hlineage n hn q hq
      obtain ⟨r', hr', -, hpay⟩ := (hguarded.evaluate hkeys h).account
      exact ⟨r', hr', hpay.ge⟩

end Model

def bidderState : @EvaluationState Fc.plain :=
  letI := Fc.plain
  { chainId := 0
    prev := .database
      { headBlockHeader := { blockNum := forkBlockNumV0426, timestamp := 1000 }
        assetDb := (Table.empty.store { id := 0, symbol := "BTS", issuerAccountId := 0 }).store
          { id := 1, symbol := "GOLD", issuerAccountId := 5, currentShareSupply := 11
            maximumShareSupply := 1000, authority := { required := 1, owners := {5} } }
        bidDb := (∅ : Map _ _).insert { orderPrice := ⟨1, 0, 1⟩, owner := 9 } { balance := 10 }
        balanceDb := Table.empty.store
          { condition := { assetId := 1, data := .signature 8 none }, balance := 1 } } }

def giftTrx (withdrawn given : Int) : SignedTransaction where
  expiration := 2000
  operations := [.bid { amount := -withdrawn, bidIndex := { orderPrice := ⟨1, 0, 1⟩, owner := 9 } },
    .deposit { amount := given, condition := { assetId := 1, data := .signature 8 none } }]
  signatures := [9]

theorem bidderState_balance (id : Nat) :
    letI := Fc.plain
    bidderState.currentState.getBalanceRecord id =
      if id = 8001 then some { condition := { assetId := 1, data := .signature 8 none }, balance := 1 }
      else none := by
  change (Table.store _ _).lookup id = _
  rw [Table.lookup_store]
  rfl

theorem bidderState_orderly : letI := Fc.plain; Orderly bidderState := by
  let := Fc.plain
  have haccount (id : Int) : bidderState.currentState.getAccountRecord id = none := rfl
  refine ⟨⟨fun id p hp => ?_, fun n id hid => ?_, fun _ _ id _ => haccount id⟩, fun id r hr => ?_,
    fun id r hr => ?_, fun i r hr => ?_⟩
  · have hnone := (haccount id).symm.trans hp
    cases hnone
  · cases hid
  · cases hr
  · rw [bidderState_balance] at hr
    split at hr
    · cases hr
      decide
    · cases hr
  · cases hr

theorem giftTrx_deposits (id : Nat) :
    letI := Fc.plain
    balanceAt bidderState.currentState id ≤
      int64 (balanceAt bidderState.currentState id + depositedTo id (giftTrx 4 4).operations) := by
  let := Fc.plain
  have hdeposited : depositedTo id (giftTrx 4 4).operations = if 8001 = id then 4 else 0 := by
    change 0 + (ite _ _ _ + 0) = _
    rw [Int.zero_add, Int.add_zero]
    rfl
  unfold balanceAt
  rw [bidderState_balance, hdeposited]
  by_cases hid : id = 8001
  · subst hid
    decide
  · rw [if_neg hid, if_neg fun h => hid h.symm]
    decide

theorem giftTrx_runs :
    letI := Fc.plain
    ∃ t, evaluate bidderState (giftTrx 4 4) false = .ok t ∧ ¬ t.checkSignature 8 ∧
      ¬ Retracts t bidderState.currentState 1 := by
  decide +kernel

theorem loses_nothing_iff_giftTrx :
    letI := Fc.plain
    ∃ t, evaluate bidderState (giftTrx 4 4) false = .ok t ∧
      LosesNothing t bidderState.currentState t.currentState 8 ∧
      owned 8 1 bidderState.currentState ≤ owned 8 1 t.currentState := by
  let := Fc.plain
  obtain ⟨t, ht, hunsigned, hretract⟩ := giftTrx_runs
  have hiff := loses_nothing_iff ht bidderState_orderly (by decide) hunsigned
  have hloses := hiff.1.mpr fun id _ _ _ _ => giftTrx_deposits id
  exact ⟨t, ht, hloses, hiff.2 hloses 1 hretract⟩

/-- The amount of least value has itself as its absolute value, so it is withdrawn from a bid of
ten shares; the deposit that it pays for wraps the balance of another owner around. -/
theorem deposit_wraps_balance :
    letI := Fc.plain
    ∃ t, evaluate bidderState (giftTrx 9223372036854775808 9223372036854775807) false = .ok t ∧
      ¬ t.checkSignature 8 ∧ ¬ Retracts t bidderState.currentState 1 ∧
      owned 8 1 t.currentState < owned 8 1 bidderState.currentState := by
  decide +kernel

end Bts.Blockchain.Ownership
