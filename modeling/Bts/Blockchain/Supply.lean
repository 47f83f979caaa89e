import Bts.Blockchain.AssetEffects

namespace Bts.Blockchain.Supply

open Base Result Word Amounts Records MarketRecords Transactions Rules Evaluation MarketOperations
  Evaluate Effects AssetEffects

/-- What an operation issues of an asset, destroys of it, and pays at most on debts in it. -/
def issuedBy (id : Int) : Operation → Int
  | .issueAsset op => if op.amount.assetId = id then op.amount.amount else 0
  | _ => 0

def burnedBy (id : Int) : Operation → Int
  | .burn op => if op.amount.assetId = id then op.amount.amount else 0
  | _ => 0

def coveredBy (id : Int) : Operation → Int
  | .cover op => if op.coverIndex.orderPrice.quoteAssetId = id then op.amount else 0
  | _ => 0

def issued (id : Int) (ops : List Operation) : Int := (ops.map (issuedBy id)).sum
def burned (id : Int) (ops : List Operation) : Int := (ops.map (burnedBy id)).sum
def covered (id : Int) (ops : List Operation) : Int := (ops.map (coveredBy id)).sum

/-- The amounts that change a supply are values of `int64_t`. -/
def AmountsFit : Operation → Prop
  | .issueAsset op => Fits op.amount.amount
  | .burn op => Fits op.amount.amount
  | .cover op => Fits op.amount
  | _ => True

instance : DecidablePred AmountsFit := by
  intro op
  unfold AmountsFit
  split <;> infer_instance

theorem by_other {id : Int} {op : Operation} (h : suppliedAsset op ≠ some id) :
    issuedBy id op = 0 ∧ burnedBy id op = 0 ∧ coveredBy id op = 0 := by
  unfold suppliedAsset at h
  unfold issuedBy burnedBy coveredBy
  cases op <;> simp_all

variable [Fc]

theorem coverPayment_principle {op : CoverOperation} {cover : CollateralRecord} {now : Nat}
    {payment : Payment} (hfits : Fits op.amount) (h : coverPayment op cover now = .ok payment) :
    0 ≤ payment.principlePaid.amount ∧ payment.principlePaid.amount ≤ op.amount := by
  simp only [coverPayment, eq_ok_iff] at h
  obtain ⟨_, _, _, _, p, hp, _, hprinciple, _, hinterest, _, _, rfl⟩ := h
  refine ⟨hprinciple, ?_⟩
  unfold payDebt at hp
  split at hp
  · simp only [eq_ok_iff] at hp
    obtain ⟨interest, hsub, rfl⟩ := hp
    have hamount : interest.amount = op.amount - cover.payoffBalance := Asset.sub_amount hfits hsub
    have hge : 0 ≤ interest.amount := hinterest
    show cover.payoffBalance ≤ op.amount
    omega
  · simp only [eq_ok_iff] at hp
    obtain ⟨interest, _, principle, hsub, rfl⟩ := hp
    have hamount : principle.amount = op.amount - interest.amount := Asset.sub_amount hfits hsub
    have hge : 0 ≤ interest.amount := hinterest
    show principle.amount ≤ op.amount
    omega

/-- How the operations of a transaction take the record `a` of an asset to `a'`. The
supply leaves `int64_t` only downwards and then comes back as a large number. -/
structure SupplyChange (s : EvaluationState) (a a' : AssetRecord) (issued burned covered : Int) :
    Prop where
  id : a'.id = a.id
  issuer : a'.issuerAccountId = a.issuerAccountId
  authority : a'.authority = a.authority
  maximum : a'.maximumShareSupply = a.maximumShareSupply
  fits : Fits a'.currentShareSupply
  issued_nonneg : 0 ≤ issued
  signed : issued = 0 ∨ s.verifyAuthority a.authority
  supply : ∃ (paid : Int) (wraps : Nat), 0 ≤ paid ∧ paid ≤ covered ∧
    a'.currentShareSupply =
      a.currentShareSupply + issued - burned - paid + 18446744073709551616 * wraps ∧
    (a.currentShareSupply ≤ a.maximumShareSupply → wraps = 0 →
      a'.currentShareSupply ≤ a'.maximumShareSupply)

section

variable {s t : EvaluationState} {a b c : AssetRecord} {i j k i' j' k' : Int}

theorem verifyAuthority_congr (h : SameContext s t) (authority : MultisigMetaInfo) :
    t.verifyAuthority authority ↔ s.verifyAuthority authority := by
  have hfilter : (authority.owners.filter fun a => t.checkSignature a) =
      authority.owners.filter fun a => s.checkSignature a := by
    refine Finset.filter_congr fun a _ => ?_
    unfold EvaluationState.checkSignature
    rw [h.skipSignatureCheck, h.signedKeys]
  unfold EvaluationState.verifyAuthority
  rw [hfilter]

theorem SupplyChange.refl (h : Fits a.currentShareSupply) : SupplyChange s a a 0 0 0 where
  id := rfl
  issuer := rfl
  authority := rfl
  maximum := rfl
  fits := h
  issued_nonneg := le_refl 0
  signed := Or.inl rfl
  supply := ⟨0, 0, by omega, by omega, by omega, fun hmax _ => hmax⟩

theorem SupplyChange.trans (h : SupplyChange s a b i j k) (h' : SupplyChange t b c i' j' k')
    (hctx : SameContext s t) : SupplyChange s a c (i + i') (j + j') (k + k') where
  id := h'.id.trans h.id
  issuer := h'.issuer.trans h.issuer
  authority := h'.authority.trans h.authority
  maximum := h'.maximum.trans h.maximum
  fits := h'.fits
  issued_nonneg := Int.add_nonneg h.issued_nonneg h'.issued_nonneg
  signed := by
    rcases h.signed with hi | hsigned
    · rcases h'.signed with hi' | hsigned'
      · exact Or.inl (by omega)
      · rw [h.authority, verifyAuthority_congr hctx] at hsigned'
        exact Or.inr hsigned'
    · exact Or.inr hsigned
  supply := by
    obtain ⟨p, w, hp, hpk, hsum, hmax⟩ := h.supply
    obtain ⟨p', w', hp', hpk', hsum', hmax'⟩ := h'.supply
    refine ⟨p + p', w + w', by omega, by omega, by push_cast; omega, fun hle hw => ?_⟩
    exact hmax' (hmax hle (by omega)) (by omega)

theorem SupplyChange.lower {amount : Int} (hid : b.id = a.id)
    (hissuer : b.issuerAccountId = a.issuerAccountId) (hauthority : b.authority = a.authority)
    (hmaximum : b.maximumShareSupply = a.maximumShareSupply)
    (hsupply : b.currentShareSupply = int64 (a.currentShareSupply - amount))
    (ha : Fits a.currentShareSupply) (hamount : 0 ≤ amount) (hjk : j ≤ amount)
    (hk : amount ≤ j + k) : SupplyChange s a b 0 j k where
  id := hid
  issuer := hissuer
  authority := hauthority
  maximum := hmaximum
  fits := hsupply ▸ int64_fits _
  issued_nonneg := le_refl 0
  signed := Or.inl rfl
  supply := by
    obtain ⟨w, hw⟩ := int64_sub_wraps ha hamount
    refine ⟨amount - j, w, by omega, by omega, by omega, fun hle hzero => ?_⟩
    subst hzero
    rw [hmaximum, hsupply, hw]
    omega

theorem SupplyChange.issue {op : IssueAssetOperation} {now : Nat} (ha : Fits a.currentShareSupply)
    (hop : Fits op.amount.amount) (hsigned : s.verifyAuthority a.authority)
    (hissue : a.canIssue op.amount) :
    SupplyChange s a { a with
      currentShareSupply := int64 (a.currentShareSupply + op.amount.amount)
      lastUpdate := now } op.amount.amount 0 0 := by
  obtain ⟨_, hpos, hlt, hle⟩ := hissue
  have hsum : int64 (a.currentShareSupply + op.amount.amount) =
      a.currentShareSupply + op.amount.amount := by
    unfold Fits at ha hop
    unfold int64 at hlt ⊢
    omega
  refine ⟨rfl, rfl, rfl, rfl, int64_fits _, by omega, Or.inr hsigned, 0, 0, ?_⟩
  refine ⟨le_refl 0, le_refl 0, hsum.trans ?_, fun _ _ => hle⟩
  simp

theorem assetStep_supply {id : Int} {op : Operation} {r : Option AssetRecord}
    (h : AssetStep s id op (some a) r) (hop : AmountsFit op) (hburn : 0 ≤ burnedBy id op)
    (ha : Fits a.currentShareSupply) :
    ∃ b, r = some b ∧ SupplyChange s a b (issuedBy id op) (burnedBy id op) (coveredBy id op) := by
  cases h with
  | same op a other =>
    obtain ⟨hi, hj, hk⟩ := by_other other
    rw [hi, hj, hk]
    exact ⟨a, rfl, .refl ha⟩
  | fees op a fees =>
    have hsame := SupplyChange.refl (s := s) ha
    exact ⟨_, rfl, rfl, rfl, rfl, rfl, ha, le_refl 0, Or.inl rfl, hsame.supply⟩
  | issue op a now amount signed issuable =>
    rw [show issuedBy id (.issueAsset op) = op.amount.amount from if_pos amount]
    exact ⟨_, rfl, .issue ha hop signed issuable⟩
  | cover op a old payment debt paid =>
    obtain ⟨hpos, hle⟩ := coverPayment_principle hop paid
    rw [show coveredBy id (.cover op) = op.amount from if_pos debt]
    refine ⟨_, rfl, .lower rfl rfl rfl rfl rfl ha hpos hpos ?_⟩
    exact hle.trans (le_of_eq (Int.zero_add _).symm)
  | burn op a amount baseFee notMarketIssued =>
    rw [show burnedBy id (.burn op) = op.amount.amount from if_pos amount] at hburn ⊢
    refine ⟨_, rfl, .lower rfl rfl rfl rfl rfl ha hburn (le_refl _) ?_⟩
    exact le_of_eq (Int.add_zero _).symm

theorem evaluateNext_assetStep {op : Operation} (h : evaluateNext s op = .ok t) (id : Int) :
    AssetStep s id op (s.currentState.getAssetRecord id) (t.currentState.getAssetRecord id) := by
  obtain ⟨hctx, heffect⟩ := evaluateNext_effect h
  rw [currentState_eq hctx]
  exact effect_assetStep heffect id

theorem operations_supply {id : Int} {ops : List Operation}
    (h : ops.foldlM evaluateNext s = .ok t) (hfit : ∀ op ∈ ops, AmountsFit op)
    (hburn : ∀ op ∈ ops, 0 ≤ burnedBy id op) (ha : s.currentState.getAssetRecord id = some a)
    (hs : Fits a.currentShareSupply) :
    SameContext s t ∧ ∃ b, t.currentState.getAssetRecord id = some b ∧
      SupplyChange s a b (issued id ops) (burned id ops) (covered id ops) := by
  induction ops, s, h using foldlM_induct generalizing a with
  | nil => exact ⟨.refl t, a, ha, .refl hs⟩
  | cons op ops s u hu ht ih =>
    rw [List.forall_mem_cons] at hfit hburn
    have hctx := (evaluateNext_effect hu).1
    have hstep := evaluateNext_assetStep hu id
    rw [ha] at hstep
    obtain ⟨b, hb, hchange⟩ := assetStep_supply hstep hfit.1 hburn.1 hs
    obtain ⟨hctx', c, hc, hrest⟩ := ih hfit.2 hburn.2 hb hchange.fits
    refine ⟨hctx.trans hctx', c, hc, ?_⟩
    have hsum := hchange.trans hrest hctx
    unfold issued burned covered
    exact hsum

theorem settled_supply {u : EvaluationState} {id : Int} (h : Settled u t)
    (hb : u.currentState.getAssetRecord id = some b) (hchange : SupplyChange s a b i j k) :
    ∃ c, t.currentState.getAssetRecord id = some c ∧ SupplyChange s a c i j k := by
  rw [currentState_eq h.1]
  rcases settles_fees h.2 id with hsame | ⟨b', fees, hb', hfees⟩
  · exact ⟨b, hsame.trans hb, hchange⟩
  · have heq : some b' = some b := hb'.symm.trans hb
    cases heq
    refine ⟨_, hfees, ?_⟩
    exact ⟨hchange.id, hchange.issuer, hchange.authority, hchange.maximum, hchange.fits,
      hchange.issued_nonneg, hchange.signed, hchange.supply⟩

def Authorized (s : EvaluationState) (trx : SignedTransaction) (skip : Bool)
    (authority : MultisigMetaInfo) : Prop :=
  ∃ keys, signedKeysOf skip (trx.digest s.chainId) trx.signatures = .ok keys ∧
    (begin s trx skip keys).verifyAuthority authority

theorem evaluate_supply {id : Int} {trx : SignedTransaction} {skip : Bool}
    (h : evaluate s trx skip = .ok t) (hfit : ∀ op ∈ trx.operations, AmountsFit op)
    (hburn : ∀ op ∈ trx.operations, 0 ≤ burnedBy id op)
    (ha : s.currentState.getAssetRecord id = some a) (hs : Fits a.currentShareSupply) :
    ∃ b keys, t.currentState.getAssetRecord id = some b ∧
      signedKeysOf skip (trx.digest s.chainId) trx.signatures = .ok keys ∧
      SupplyChange (begin s trx skip keys) a b (issued id trx.operations)
        (burned id trx.operations) (covered id trx.operations) := by
  obtain ⟨_, keys, u, hkeys, hops, hsettled⟩ := evaluate_ok h
  obtain ⟨_, b, hb, hchange⟩ := operations_supply (a := a) hops hfit hburn ha hs
  obtain ⟨c, hc, hchange'⟩ := settled_supply hsettled hb hchange
  exact ⟨c, keys, hc, hkeys, hchange'⟩

end

end Bts.Blockchain.Supply
