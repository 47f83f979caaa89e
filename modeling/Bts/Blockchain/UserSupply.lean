import Mathlib.Algebra.Order.BigOperators.Group.List
import Bts.Blockchain.Changes
import Bts.Blockchain.Supply

namespace Bts.Blockchain.UserSupply

open Base Result Word Maps Records Transactions Pending Database Layers Changes Evaluation Evaluate
  Effects AssetEffects Supply

theorem burned_nonneg {id : Int} {ops : List Operation} (h : ∀ op ∈ ops, 0 ≤ burnedBy id op) :
    0 ≤ burned id ops := by
  apply List.sum_nonneg
  intro x hx
  obtain ⟨op, hop, rfl⟩ := List.mem_map.mp hx
  exact h op hop

section Model

variable [Fc] {s t : EvaluationState} {a b : AssetRecord} {id : Int}

theorem operations_created {ops : List Operation}
    (h : ops.foldlM evaluateNext s = .ok t) (hfit : ∀ op ∈ ops, AmountsFit op)
    (hburn : ∀ op ∈ ops, 0 ≤ burnedBy id op) (ha : s.currentState.getAssetRecord id = none) :
    t.currentState.getAssetRecord id = none ∨ ∃ a b u i j k,
      t.currentState.getAssetRecord id = some b ∧ a.currentShareSupply = 0 ∧
      0 < a.maximumShareSupply ∧ SupplyChange u a b i j k ∧ j ≤ burned id ops ∧
      k ≤ covered id ops := by
  induction ops, s, h using foldlM_induct with
  | nil => exact Or.inl ha
  | cons op ops s u hu ht ih =>
    rw [List.forall_mem_cons] at hfit hburn
    have hstep := evaluateNext_assetStep hu id
    rw [ha] at hstep
    generalize hr : u.currentState.getAssetRecord id = r at hstep
    have hsums : burned id (op :: ops) = burnedBy id op + burned id ops ∧
        covered id (op :: ops) = coveredBy id op + covered id ops := ⟨rfl, rfl⟩
    rw [hsums.1, hsums.2]
    cases hstep with
    | same op r other =>
      obtain ⟨_, hj, hk⟩ := by_other other
      rw [hj, hk, Int.zero_add, Int.zero_add]
      exact ih hfit.2 hburn.2 hr
    | create op a symbol supply maximum =>
      have hs : Fits a.currentShareSupply := by
        rw [supply]
        decide
      obtain ⟨_, b, hb, hchange⟩ := operations_supply ht hfit.2 hburn.2 hr hs
      refine Or.inr ⟨a, b, u, _, _, _, hb, supply, maximum, hchange, ?_, ?_⟩
      · exact le_of_eq (Int.zero_add _).symm
      · exact le_of_eq (Int.zero_add _).symm

def supplyOf (c : ChainInterface) (id : Int) : Int :=
  ((c.getAssetRecord id).map AssetRecord.currentShareSupply).getD 0

/-- What a transaction has to meet: it burns no negative amount, and what it burns and
covers of an asset does not take the supply out of `int64_t`. -/
structure KeepsSupplies (c : ChainInterface) (ops : List Operation) : Prop where
  burns : ∀ id, ∀ op ∈ ops, 0 ≤ burnedBy id op
  room : ∀ id, (∀ a, c.getAssetRecord id = some a → a.isUserIssued) →
    -9223372036854775808 ≤ supplyOf c id - burned id ops - covered id ops

/-- The supply of every user issued asset is at most its maximum. -/
def SuppliesBounded (c : ChainInterface) : Prop :=
  ∀ id a, c.getAssetRecord id = some a →
    Fits a.currentShareSupply ∧ (a.isUserIssued → a.currentShareSupply ≤ a.maximumShareSupply)

theorem supplyChange_exact {i j k : Int} (h : SupplyChange s a b i j k)
    (hroom : -9223372036854775808 ≤ a.currentShareSupply - j - k) :
    b.currentShareSupply ≤ a.currentShareSupply + i - j ∧
      (a.currentShareSupply ≤ a.maximumShareSupply →
        b.currentShareSupply ≤ b.maximumShareSupply) := by
  obtain ⟨paid, wraps, hpos, hle, hsum, hmax⟩ := h.supply
  have hb := h.fits
  have hi := h.issued_nonneg
  unfold Fits at hb
  have hzero : wraps = 0 := by omega
  refine ⟨by omega, fun ha => hmax ha hzero⟩

section Transaction

variable {trx : SignedTransaction} {skip : Bool}

theorem unauthorized_supply (h : evaluate s trx skip = .ok t)
    (hfit : ∀ op ∈ trx.operations, AmountsFit op)
    (hkeeps : KeepsSupplies s.currentState trx.operations)
    (ha : s.currentState.getAssetRecord id = some a) (hs : Fits a.currentShareSupply)
    (huser : a.isUserIssued) (hauth : ¬ Authorized s trx skip a.authority) :
    ∃ b, t.currentState.getAssetRecord id = some b ∧
      b.currentShareSupply ≤ a.currentShareSupply := by
  obtain ⟨b, keys, hb, hkeys, hchange⟩ := evaluate_supply h hfit (hkeeps.burns id) ha hs
  have hissued : issued id trx.operations = 0 :=
    hchange.signed.resolve_right fun hsigned => hauth ⟨keys, hkeys, hsigned⟩
  have hroom := hkeeps.room id fun a' ha' => by
    cases ha.symm.trans ha'
    exact huser
  have hsupply : supplyOf s.currentState id = a.currentShareSupply := by
    unfold supplyOf
    rw [ha]
    rfl
  rw [hsupply] at hroom
  have hle := (supplyChange_exact hchange hroom).1
  have hburned := burned_nonneg (hkeeps.burns id)
  exact ⟨b, hb, by omega⟩

theorem evaluate_suppliesBounded (h : evaluate s trx skip = .ok t)
    (hfit : ∀ op ∈ trx.operations, AmountsFit op)
    (hkeeps : KeepsSupplies s.currentState trx.operations)
    (hs : SuppliesBounded s.currentState) : SuppliesBounded t.currentState := by
  intro id b hb
  cases ha : s.currentState.getAssetRecord id with
  | some a =>
    obtain ⟨hfits, hmax⟩ := hs id a ha
    obtain ⟨b', keys, hb', _, hchange⟩ := evaluate_supply h hfit (hkeeps.burns id) ha hfits
    cases hb.symm.trans hb'
    refine ⟨hchange.fits, fun huser => ?_⟩
    have huser' : a.isUserIssued := by
      unfold AssetRecord.isUserIssued at huser ⊢
      rw [hchange.issuer] at huser
      exact huser
    have hroom := hkeeps.room id fun a' ha' => by
      cases ha.symm.trans ha'
      exact huser'
    rw [supplyOf, ha] at hroom
    exact (supplyChange_exact hchange hroom).2 (hmax huser')
  | none =>
    obtain ⟨_, keys, u, _, hops, hsettled⟩ := evaluate_ok h
    have hroom := hkeeps.room id fun a' ha' => by
      rw [ha] at ha'
      cases ha'
    rw [supplyOf, ha] at hroom
    rcases operations_created hops hfit (hkeeps.burns id) ha with hnone | hsome
    · have hsettles := settles_fees hsettled.2 id
      rw [currentState_eq hsettled.1] at hb
      have hnone' : (ChainInterface.pending u.layer u.prev).getAssetRecord id = none := hnone
      rw [hnone', hb] at hsettles
      simp at hsettles
    · obtain ⟨a, b₁, v, i, j, k, hb₁, hzero, hpos, hchange, hj, hk⟩ := hsome
      obtain ⟨c, hc, hchange'⟩ := settled_supply hsettled hb₁ hchange
      cases hb.symm.trans hc
      refine ⟨hchange'.fits, fun _ => ?_⟩
      have hroom' : -9223372036854775808 ≤ a.currentShareSupply - j - k := by
        simp only [Option.map_none, Option.getD_none] at hroom
        omega
      exact (supplyChange_exact hchange' hroom').2 (by omega)

def Covers (id : Int) (ops : List Operation) : Prop :=
  ∃ op, .cover op ∈ ops ∧ op.coverIndex.orderPrice.quoteAssetId = id

theorem operations_burned {ops : List Operation} (h : ops.foldlM evaluateNext s = .ok t)
    (hauth : ¬ s.verifyAuthority a.authority) (hcover : ¬ Covers id ops)
    (ha : s.currentState.getAssetRecord id = some a) (hs : Fits a.currentShareSupply) :
    ∃ b, t.currentState.getAssetRecord id = some b ∧
      b.currentShareSupply = int64 (a.currentShareSupply - burned id ops) := by
  induction ops, s, h using foldlM_induct generalizing a with
  | nil =>
    refine ⟨a, ha, ?_⟩
    have hzero : a.currentShareSupply - burned id [] = a.currentShareSupply := Int.sub_zero _
    rw [hzero, int64_of_fits hs]
  | cons op ops s u hu ht ih =>
    have hctx := (evaluateNext_effect hu).1
    have hrest : ¬ Covers id ops := fun ⟨o, ho, hid⟩ =>
      hcover ⟨o, List.mem_cons_of_mem op ho, hid⟩
    have hsum : burned id (op :: ops) = burnedBy id op + burned id ops := rfl
    -- One operation burns what it names, whatever else of the record it changes.
    have hone : ∃ b, u.currentState.getAssetRecord id = some b ∧ b.authority = a.authority ∧
        b.currentShareSupply = int64 (a.currentShareSupply - burnedBy id op) := by
      have hstep := evaluateNext_assetStep hu id
      rw [ha] at hstep
      generalize u.currentState.getAssetRecord id = r at hstep
      cases hstep with
      | same op a other =>
        rw [(by_other other).2.1, Int.sub_zero, int64_of_fits hs]
        exact ⟨a, rfl, rfl, rfl⟩
      | fees op a fees =>
        rw [show burnedBy id (.withdraw op) = 0 from rfl, Int.sub_zero, int64_of_fits hs]
        exact ⟨_, rfl, rfl, rfl⟩
      | issue op a now amount signed issuable => exact absurd signed hauth
      | cover op a old payment debt paid =>
        exact absurd ⟨op, List.mem_cons_self, debt⟩ hcover
      | burn op a amount baseFee notMarketIssued =>
        rw [show burnedBy id (.burn op) = op.amount.amount from if_pos amount]
        exact ⟨_, rfl, rfl, rfl⟩
    obtain ⟨b, hb, hauthority, hsupply⟩ := hone
    have hauth' : ¬ u.verifyAuthority b.authority := by
      rw [hauthority, verifyAuthority_congr hctx]
      exact hauth
    obtain ⟨c, hc, hc'⟩ := ih hauth' hrest hb (hsupply ▸ int64_fits _)
    refine ⟨c, hc, hc'.trans ?_⟩
    rw [hsupply, int64_sub_int64, hsum, Int.sub_sub]

/-- Without the authority of an asset and without covers of it, a transaction raises the
supply exactly when the amounts it burns add up to less than nothing. -/
theorem unauthorized_supply_iff (h : evaluate s trx skip = .ok t)
    (ha : s.currentState.getAssetRecord id = some a) (hs : Fits a.currentShareSupply)
    (hauth : ¬ Authorized s trx skip a.authority) (hcover : ¬ Covers id trx.operations)
    (hroom : Fits (a.currentShareSupply - burned id trx.operations)) :
    ∃ b, t.currentState.getAssetRecord id = some b ∧
      (b.currentShareSupply ≤ a.currentShareSupply ↔ 0 ≤ burned id trx.operations) := by
  obtain ⟨_, keys, u, hkeys, hops, hsettled⟩ := evaluate_ok h
  have hauth' : ¬ (begin s trx skip keys).verifyAuthority a.authority :=
    fun hsigned => hauth ⟨keys, hkeys, hsigned⟩
  obtain ⟨b, hb, hsupply⟩ := operations_burned hops hauth' hcover ha hs
  rw [int64_of_fits hroom] at hsupply
  rw [currentState_eq hsettled.1]
  have hb' : (ChainInterface.pending u.layer u.prev).getAssetRecord id = some b := hb
  rcases settles_fees hsettled.2 id with hsame | ⟨b', fees, hold, hfees⟩
  · exact ⟨b, hsame.trans hb', by omega⟩
  · cases hold.symm.trans hb'
    exact ⟨_, hfees, by dsimp only; omega⟩

end Transaction

/-- The layers on a chain state that accepted transactions reach. Each transaction meets
the condition in the state it is evaluated in, and its record is stored as in a block. -/
inductive Reached (start : ChainInterface) (chainId : Nat) : PendingState → Prop
  | fresh : Reached start chainId {}
  | next {layer layer' : PendingState} {t : EvaluationState} {trx : SignedTransaction}
    {skip : Bool} {r : TransactionRecord} (reached : Reached start chainId layer)
    (accepted : evaluate { prev := start, chainId, layer } trx skip = .ok t)
    (fit : ∀ op ∈ trx.operations, AmountsFit op)
    (keeps : KeepsSupplies (.pending layer start) trx.operations)
    (stored : storeTransaction start t.layer trx.id r = .ok layer') :
    Reached start chainId layer'

theorem storeTransaction_assets {prev : ChainInterface} {layer layer' : PendingState} {trxId : Nat}
    {r : TransactionRecord} (h : storeTransaction prev layer trxId r = .ok layer') :
    layer'.assets = layer.assets := by
  simp only [storeTransaction, eq_ok_iff] at h
  obtain ⟨_, _, _, _, rfl⟩ := h
  rfl

theorem reached_suppliesBounded {start : ChainInterface} {chainId : Nat} {layer : PendingState}
    (hstart : SuppliesBounded start) (h : Reached start chainId layer) :
    SuppliesBounded (.pending layer start) := by
  induction h with
  | fresh => exact hstart
  | next reached accepted fit keeps stored ih =>
    have hbounded := evaluate_suppliesBounded accepted fit keeps ih
    unfold EvaluationState.currentState at hbounded
    rw [evaluate_prev accepted] at hbounded
    intro id a ha
    rw [getAssetRecord_pending, storeTransaction_assets stored] at ha
    exact hbounded id a ha

/-- The supply of a user issued asset: what a transaction without its authority does to
it, and that the transactions which meet the condition keep it at most its maximum. -/
theorem user_supply_spec :
    (∀ (s t : EvaluationState) (trx : SignedTransaction) (skip : Bool) (id : Int)
      (a : AssetRecord), evaluate s trx skip = .ok t →
      s.currentState.getAssetRecord id = some a → a.isUserIssued → Fits a.currentShareSupply →
      ¬ Authorized s trx skip a.authority →
      ((∀ op ∈ trx.operations, AmountsFit op) → KeepsSupplies s.currentState trx.operations →
        ∃ b, t.currentState.getAssetRecord id = some b ∧
          b.currentShareSupply ≤ a.currentShareSupply) ∧
      (¬ Covers id trx.operations →
        Fits (a.currentShareSupply - burned id trx.operations) →
        ∃ b, t.currentState.getAssetRecord id = some b ∧
          (b.currentShareSupply ≤ a.currentShareSupply ↔ 0 ≤ burned id trx.operations))) ∧
    ∀ (start : ChainInterface) (chainId : Nat) (layer : PendingState),
      SuppliesBounded start → Reached start chainId layer →
      SuppliesBounded (.pending layer start) := by
  refine ⟨?_, fun start chainId layer => reached_suppliesBounded⟩
  intro s t trx skip id a h ha huser hs hauth
  constructor
  · exact fun hfit hkeeps => unauthorized_supply h hfit hkeeps ha hs huser hauth
  · exact fun hcover hroom => unauthorized_supply_iff h ha hs hauth hcover hroom

end Model

def fullAsset : AssetRecord where
  id := 1
  symbol := "FULL"
  issuerAccountId := 1
  precision := 1
  currentShareSupply := 1000
  maximumShareSupply := 1000
  authority := { required := 1, owners := {7} }

def fullHead : @ChainDatabase Fc.plain :=
  letI := Fc.plain
  { headBlockHeader := { blockNum := forkBlockNumV0426, timestamp := 50 }
    propertyDb := (∅ : Map _ _).insert .chainId (.hash 0)
    assetDb := Table.empty.store fullAsset
    balanceDb := Table.empty.store
      { condition := { assetId := 1, data := .signature 9 none }, balance := 500 } }

def burnTrx : SignedTransaction where
  expiration := 100
  operations := [.withdraw { balanceId := 9001, amount := 500 }, .burn { amount := ⟨500, 1⟩ }]
  signatures := [9]

def negativeBurnTrx : SignedTransaction where
  expiration := 100
  operations := [.burn { amount := ⟨-500, 1⟩ },
    .deposit { amount := 500, condition := { assetId := 1, data := .signature 9 none } }]

theorem fullHead_asset (id : Int) :
    letI := Fc.plain
    (ChainInterface.pending {} (.database fullHead)).getAssetRecord id =
      if id = 1 then some fullAsset else none := by
  exact Table.lookup_store Table.empty fullAsset id

theorem burnTrx_keepsSupplies :
    letI := Fc.plain
    KeepsSupplies (.pending {} (.database fullHead)) burnTrx.operations := by
  let := Fc.plain
  have hburned (id : Int) : burned id burnTrx.operations = if 1 = id then 500 else 0 := by
    unfold burned burnTrx
    simp [burnedBy]
  constructor
  · intro id op hop
    rcases List.mem_cons.mp hop with rfl | hop
    · exact le_refl 0
    · rw [List.mem_singleton.mp hop]
      show (0 : Int) ≤ if 1 = id then 500 else 0
      split <;> decide
  · intro id _
    have hcovered : covered id burnTrx.operations = 0 := rfl
    rw [supplyOf, fullHead_asset, hburned, hcovered]
    by_cases hid : id = 1
    · subst hid
      decide
    · rw [if_neg hid, if_neg (Ne.symm hid)]
      decide

theorem user_supply_spec_fullHead :
    letI := Fc.plain
    ∃ t layer, evaluate { prev := .database fullHead, chainId := 0 } burnTrx false = .ok t ∧
      (∃ b, t.currentState.getAssetRecord 1 = some b ∧
        b.currentShareSupply ≤ fullAsset.currentShareSupply) ∧
      storeTransaction (.database fullHead) t.layer burnTrx.id { trx := burnTrx } = .ok layer ∧
      SuppliesBounded (.pending layer (.database fullHead)) := by
  let := Fc.plain
  have hbounded : SuppliesBounded (.database fullHead) := by
    intro id a ha
    rw [show (ChainInterface.database fullHead).getAssetRecord id = _ from fullHead_asset id] at ha
    split at ha
    · cases ha
      decide
    · cases ha
  have hauth : ¬ Authorized { prev := .database fullHead, chainId := 0 } burnTrx false
      fullAsset.authority := by
    rintro ⟨keys, hkeys, hsigned⟩
    cases hkeys
    revert hsigned
    decide
  have hok : (do
      let t ← evaluate { prev := .database fullHead, chainId := 0 } burnTrx false
      storeTransaction (.database fullHead) t.layer burnTrx.id { trx := burnTrx }).isOk := by
    decide +kernel
  obtain ⟨layer, hrun⟩ := exists_ok_of_isOk hok
  obtain ⟨t, ht, hstored⟩ := bind_eq_ok.mp hrun
  have hspec := user_supply_spec.1 _ t burnTrx false 1 fullAsset ht rfl (by decide) (by decide) hauth
  exact ⟨t, layer, ht, hspec.1 (by decide) burnTrx_keepsSupplies, hstored,
    user_supply_spec.2 _ 0 _ hbounded (.next .fresh ht (by decide) burnTrx_keepsSupplies hstored)⟩

/-- A transaction without any signature burns a negative amount: it raises the supply
above the maximum and pays out what it has made. -/
theorem negative_burn_raises_supply :
    letI := Fc.plain
    ∃ t a b, evaluate { prev := .database fullHead, chainId := 0 } negativeBurnTrx false = .ok t ∧
      (ChainInterface.database fullHead).getAssetRecord 1 = some a ∧ a.isUserIssued ∧
      ¬ Authorized { prev := .database fullHead, chainId := 0 } negativeBurnTrx false
        a.authority ∧
      t.currentState.getAssetRecord 1 = some b ∧
      a.currentShareSupply < b.currentShareSupply ∧
      b.maximumShareSupply < b.currentShareSupply := by
  refine ⟨_, fullAsset, _, rfl, rfl, by decide, ?_, rfl, by decide, by decide⟩
  rintro ⟨keys, hkeys, hsigned⟩
  cases hkeys
  revert hsigned
  decide

end Bts.Blockchain.UserSupply
