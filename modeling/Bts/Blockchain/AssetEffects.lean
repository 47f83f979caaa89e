import Bts.Blockchain.Effects

namespace Bts.Blockchain.AssetEffects

open Base Result Word Records MarketRecords Transactions Pending Layers Rules Evaluation
  MarketOperations Effects

variable [Fc]

/-- The asset whose supply an operation changes. -/
def suppliedAsset : Operation → Option Int
  | .issueAsset op => some op.amount.assetId
  | .burn op => some op.amount.assetId
  | .cover op => some op.coverIndex.orderPrice.quoteAssetId
  | _ => none

/-- What an accepted operation does to the record of the asset `id`. -/
inductive AssetStep (s : EvaluationState) (id : Int) :
    Operation → Option AssetRecord → Option AssetRecord → Prop
  | same (op : Operation) (a : Option AssetRecord) (other : suppliedAsset op ≠ some id) :
    AssetStep s id op a a
  | fees (op : WithdrawOperation) (a : AssetRecord) (fees : Int) :
    AssetStep s id (.withdraw op) (some a) (some { a with collectedFees := fees })
  | create (op : CreateAssetOperation) (a : AssetRecord)
    (symbol : a.symbol = op.symbol) (supply : a.currentShareSupply = 0)
    (maximum : 0 < a.maximumShareSupply) :
    AssetStep s id (.createAsset op) none (some a)
  | issue (op : IssueAssetOperation) (a : AssetRecord) (now : Nat) (amount : op.amount.assetId = id)
    (signed : s.verifyAuthority a.authority) (issuable : a.canIssue op.amount) :
    AssetStep s id (.issueAsset op) (some a) (some { a with
      currentShareSupply := int64 (a.currentShareSupply + op.amount.amount), lastUpdate := now })
  | cover (op : CoverOperation) (a : AssetRecord) (old : CollateralRecord) (payment : Payment)
    (debt : op.coverIndex.orderPrice.quoteAssetId = id)
    (paid : coverPayment op old s.currentState.now = .ok payment) :
    AssetStep s id (.cover op) (some a) (some { a with
      currentShareSupply := int64 (a.currentShareSupply - payment.principlePaid.amount)
      collectedFees := int64 (a.collectedFees + payment.interestPaid.amount) })
  | burn (op : BurnOperation) (a : AssetRecord) (amount : op.amount.assetId = id)
    (baseFee : op.amount.assetId = 0 → minBurnFee ≤ op.amount.amount)
    (notMarketIssued : ¬ a.isMarketIssued) :
    AssetStep s id (.burn op) (some a) (some { a with
      currentShareSupply := int64 (a.currentShareSupply - op.amount.amount) })

theorem storeAccountRecord_ok {layer layer' : PendingState} {r : AccountRecord}
    (h : layer.storeAccountRecord r = .ok layer') :
    ∃ accounts accountIdIndex keyToAccount,
      layer' = { layer with accounts, accountIdIndex, keyToAccount } := by
  simp only [PendingState.storeAccountRecord, eq_ok_iff] at h
  obtain ⟨_, _, rfl⟩ := h
  exact ⟨_, _, _, rfl⟩

theorem getAssetRecord_pending (layer : PendingState) (prev : ChainInterface) (id : Int) :
    (ChainInterface.pending layer prev).getAssetRecord id =
      (layer.assets.lookup id).or (prev.getAssetRecord id) := rfl

theorem getAssetRecord_store (layer : PendingState) (prev : ChainInterface) (a : AssetRecord)
    (id : Int) : (ChainInterface.pending (layer.storeAssetRecord a) prev).getAssetRecord id =
      if id = a.id then some a else (ChainInterface.pending layer prev).getAssetRecord id :=
  ChainInterface.find_store (·.assets) (·.assetDb) rfl id

variable {s : EvaluationState} {layer : PendingState}

theorem assetStep_store {op : Operation} {a : AssetRecord} {old : Option AssetRecord} {k : Int}
    (id : Int) (hlayer : layer.assets = (s.layer.storeAssetRecord a).assets) (hid : a.id = k)
    (hold : s.currentState.getAssetRecord k = old)
    (hother : suppliedAsset op = none ∨ suppliedAsset op = some k)
    (hstep : AssetStep s k op old (some a)) :
    AssetStep s id op (s.currentState.getAssetRecord id)
      ((ChainInterface.pending layer s.prev).getAssetRecord id) := by
  have hread : (ChainInterface.pending layer s.prev).getAssetRecord id =
      if id = k then some a else s.currentState.getAssetRecord id := by
    rw [getAssetRecord_pending, hlayer, ← hid]
    exact getAssetRecord_store s.layer s.prev a id
  rw [hread]
  by_cases heq : id = k
  · subst heq
    rw [if_pos rfl, hold]
    exact hstep
  · rw [if_neg heq]
    refine .same op _ ?_
    rcases hother with hnone | hsome
    · rw [hnone]
      exact nofun
    · rw [hsome]
      exact fun h => heq (Option.some.inj h).symm

theorem assetStep_frame {op : Operation} (id : Int) (hlayer : layer.assets = s.layer.assets)
    (hop : suppliedAsset op = none) : AssetStep s id op (s.currentState.getAssetRecord id)
      ((ChainInterface.pending layer s.prev).getAssetRecord id) := by
  rw [getAssetRecord_pending, hlayer]
  exact .same op _ (by simp [hop])

theorem effect_assetStep {op : Operation} (h : Effect s op layer) (id : Int) :
    AssetStep s id op (s.currentState.getAssetRecord id)
      ((ChainInterface.pending layer s.prev).getAssetRecord id) := by
  cases h with
  | withdraw | deposit | bid | ask | short | addCollateral | knownSlate | newSlate | updateFeed =>
    exact assetStep_frame id rfl rfl
  | registerAccount op last r layer stored =>
    obtain ⟨_, _, _, rfl⟩ := storeAccountRecord_ok stored
    exact assetStep_frame id rfl rfl
  | updateAccount op r layer stored | withdrawPay op r layer stored
  | updateBlockSigningKey op r layer stored =>
    obtain ⟨_, _, _, rfl⟩ := storeAccountRecord_ok stored
    exact assetStep_frame id rfl rfl
  | withdrawYield op r a fees known =>
    have hid := getAssetRecord_id known
    exact assetStep_store id rfl hid known (Or.inl rfl) (.fees op a fees)
  | createAsset op last a symbolFree lastId idFree hid symbol issuer supply maximum =>
    exact assetStep_store id rfl hid idFree (Or.inl rfl) (.create op a symbol supply maximum)
  | issueAsset op a now known signed issuable =>
    have hid := getAssetRecord_id known
    exact assetStep_store id rfl hid known (Or.inr rfl) (.issue op a now rfl signed issuable)
  | coverPaid op a old payment known position paid =>
    have hid := getAssetRecord_id known
    exact assetStep_store id rfl hid known (Or.inr rfl) (.cover op a old payment rfl paid)
  | coverLeft op a old payment index known position paid =>
    have hid := getAssetRecord_id known
    exact assetStep_store id rfl hid known (Or.inr rfl) (.cover op a old payment rfl paid)
  | burn op a key value known baseFee notMarketIssued =>
    have hid := getAssetRecord_id known
    exact assetStep_store id rfl hid known (Or.inr rfl) (.burn op a rfl baseFee notMarketIssued)

theorem settles_fees {prev : ChainInterface} {layer layer' : PendingState}
    (h : Relation.ReflTransGen (Settles prev) layer layer') (id : Int) :
    (ChainInterface.pending layer' prev).getAssetRecord id =
        (ChainInterface.pending layer prev).getAssetRecord id ∨
      ∃ a fees, (ChainInterface.pending layer prev).getAssetRecord id = some a ∧
        (ChainInterface.pending layer' prev).getAssetRecord id =
          some { a with collectedFees := fees } := by
  induction h with
  | refl => exact Or.inl rfl
  | tail _ hstep ih =>
    cases hstep with
    | votes layer'' r stored =>
      obtain ⟨_, _, _, rfl⟩ := storeAccountRecord_ok stored
      exact ih
    | fee a fees known =>
      rw [getAssetRecord_store]
      by_cases hid : id = a.id
      · subst hid
        rw [if_pos rfl]
        rw [known] at ih
        rcases ih with hsame | ⟨b, fees', hb, ha⟩
        · exact Or.inr ⟨a, fees, hsame.symm, rfl⟩
        · cases ha
          exact Or.inr ⟨b, fees, hb, rfl⟩
      · rw [if_neg hid]
        exact ih

end Bts.Blockchain.AssetEffects
