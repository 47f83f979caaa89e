import Bts.Blockchain.AccountGuards

namespace Bts.Blockchain.ParentSignatures

open Base Result Maps Records Transactions Database Rules Evaluation Operations Evaluate Signatures
  AccountGuards

theorem parentNames_ne_nil {cs : List Char} (h : '.' ∈ cs) : parentNames cs ≠ [] := by
  induction cs with
  | nil => cases h
  | cons c rest ih =>
    unfold parentNames
    split
    next hdot => exact List.cons_ne_nil _ _
    next hdot => exact ih ((List.mem_cons.mp h).resolve_left fun he => hdot he.symm)

theorem getParentAccountName_isSome {name : String} (h : '.' ∈ name.toList) :
    (getParentAccountName name).isSome := by
  obtain ⟨parent, rest, hnames⟩ := List.exists_cons_of_ne_nil (parentNames_ne_nil h)
  unfold getParentAccountName
  rw [hnames]
  rfl

def parentSymbol (symbol : String) : String := String.ofList (symbol.toList.takeWhile (· ≠ '.'))

section Model

variable [Fc] {s t : EvaluationState}

theorem checkParentSymbol_dotted {symbol : String} (hdot : '.' ∈ symbol.toList) :
    checkParentSymbol s symbol = .ok () ↔
      ∃ a, s.currentState.getAssetRecordBySymbol (parentSymbol symbol) = some a ∧
        s.verifyAuthority a.authority := by
  unfold checkParentSymbol
  rw [if_pos hdot]
  simp only [eq_ok_iff]
  rfl

theorem owner_signed {siginfo : MultisigMetaInfo} (h : s.verifyAuthority siginfo)
    (hrequired : 0 < siginfo.required) : ∃ owner ∈ siginfo.owners, s.checkSignature owner := by
  obtain ⟨owner, howner⟩ := Finset.card_pos.mp (hrequired.trans_le h)
  rw [Finset.mem_filter] at howner
  exact ⟨owner, howner.1, howner.2⟩

theorem createAsset_unsigned {op : CreateAssetOperation} {a : AssetRecord}
    (h : CreateAssetOperation.evaluate op s = .ok t) (hdot : '.' ∈ op.symbol.toList)
    (ha : s.currentState.getAssetRecordBySymbol (parentSymbol op.symbol) = some a)
    (hrequired : a.authority.required = 0) :
    ∃ u, CreateAssetOperation.evaluate op { s with signedKeys := ∅ } = .ok u := by
  have hsame : resign ⟨s.trx, ∅, s.layer.burns⟩ s = { s with signedKeys := ∅ } := rfl
  have hparent : checkParentSymbol (resign ⟨s.trx, ∅, s.layer.burns⟩ s) op.symbol = .ok () := by
    rw [checkParentSymbol_dotted hdot]
    refine ⟨a, ha, ?_⟩
    unfold EvaluationState.verifyAuthority
    rw [hrequired]
    exact Nat.zero_le _
  rw [← hsame]
  exact ⟨_, createAsset_resign hparent h⟩

/-- An asset with a dot in its symbol is created only with a signature of the parent's authority
exactly if that authority requires one; an account with a dot in its name is registered only with
a signature of an account behind a dot. -/
theorem parent_signs_iff (hskip : s.skipSignatureCheck = false) :
    (∀ op t, CreateAssetOperation.evaluate op s = .ok t → '.' ∈ op.symbol.toList →
      ∃ a, s.currentState.getAssetRecordBySymbol (parentSymbol op.symbol) = some a ∧
        ((∀ keys u, CreateAssetOperation.evaluate op { s with signedKeys := keys } = .ok u →
          ∃ owner ∈ a.authority.owners, owner ∈ keys) ↔ 0 < a.authority.required)) ∧
    (∀ op t, RegisterAccountOperation.evaluate op s = .ok t → '.' ∈ op.name.toList →
      ∃ parent ∈ parentNames op.name.toList, ∃ r,
        s.currentState.getAccountRecordByName (String.ofList parent) = some r ∧ ¬ r.isRetracted ∧
        (Fc.address r.activeKey ∈ s.signedKeys ∨ Fc.address r.ownerKey ∈ s.signedKeys)) := by
  have hsigned {keys : Finset Nat} {a : Nat}
      (h : { s with signedKeys := keys }.checkSignature a) : a ∈ keys :=
    h.resolve_left (by rw [hskip]; decide)
  refine ⟨fun op t h hdot => ?_, fun op t h hdot => ?_⟩
  · obtain ⟨a, ha, -⟩ := (checkParentSymbol_dotted hdot).mp (createAsset_parent h)
    refine ⟨a, ha, fun honly => ?_, fun hrequired keys u hu => ?_⟩
    · refine Nat.pos_of_ne_zero fun hzero => ?_
      obtain ⟨u, hu⟩ := createAsset_unsigned h hdot ha hzero
      obtain ⟨owner, -, howner⟩ := honly ∅ u hu
      exact absurd howner (Finset.notMem_empty owner)
    · obtain ⟨a', ha', hauth⟩ := (checkParentSymbol_dotted hdot).mp (createAsset_parent hu)
      obtain rfl : a = a' := Option.some.inj (ha.symm.trans ha')
      obtain ⟨owner, howner, hchecked⟩ := owner_signed hauth hrequired
      exact ⟨owner, howner, hsigned hchecked⟩
  · simp only [RegisterAccountOperation.evaluate, eq_ok_iff] at h
    obtain ⟨_, -, _, -, _, -, _, -, _, hparent, -⟩ := h
    obtain ⟨parent, hmem, r, hr, hretracted, hkeys⟩ :=
      anyParentHasSigned_iff.mp (hparent (getParentAccountName_isSome hdot))
    exact ⟨parent, hmem, r, hr, hretracted, hkeys.imp hsigned hsigned⟩

end Model

/-- A chain with the base asset and an asset of the key 5, where the keys have signed. The key 9
has shares of the base asset and the account of the key 5 is registered. -/
def parentState (keys : Finset Nat) : @EvaluationState Fc.plain :=
  letI := Fc.plain
  { chainId := 0
    signedKeys := keys
    prev := .database
      { headBlockHeader := { blockNum := forkBlockNumV0426, timestamp := 1000 }
        assetDb := (Table.empty.store { id := 0, symbol := "BTS", issuerAccountId := 0 }).store
          { id := 1, symbol := "GOLD", issuerAccountId := 5, authority := { required := 1, owners := {5} } }
        symbolIndexDb := ((∅ : Map _ _).insert "BTS" 0).insert "GOLD" 1
        accountDb := Table.empty.store
          { id := 1, name := "gold", ownerKey := 5, activeKeyHistory := (∅ : Map Nat Nat).insert 1 5 }
        accountIndexDb := (∅ : Map _ _).insert "gold" 1
        propertyDb := ((∅ : Map _ _).insert .lastAssetId (.int 1)).insert .lastAccountId (.int 1)
        balanceDb := Table.empty.store
          { condition := { assetId := 0, data := .signature 9 none }, balance := 100000000 } } }

def createChild (symbol : String) : CreateAssetOperation where
  symbol
  name := "child"
  issuerAccountId := AssetRecord.marketIssuerId
  maximumShareSupply := 1000
  precision := 10

def registerChild : RegisterAccountOperation where
  name := "child.gold"
  ownerKey := 6
  activeKey := 6

theorem children_accepted :
    letI := Fc.plain
    (CreateAssetOperation.evaluate (createChild "GOLD.ABC") (parentState {5})).isOk ∧
      (RegisterAccountOperation.evaluate registerChild (parentState {5})).isOk := by
  decide +kernel

theorem parent_signs_iff_gold :
    letI := Fc.plain
    (∃ a, (parentState {5}).currentState.getAssetRecordBySymbol "GOLD" = some a ∧
      0 < a.authority.required ∧
      ∀ keys u, CreateAssetOperation.evaluate (createChild "GOLD.ABC")
        { parentState {5} with signedKeys := keys } = .ok u → ∃ owner ∈ a.authority.owners, owner ∈ keys) ∧
    ∃ parent ∈ parentNames "child.gold".toList, ∃ r,
      (parentState {5}).currentState.getAccountRecordByName (String.ofList parent) = some r ∧
        ¬ r.isRetracted ∧ (Fc.address r.activeKey ∈ (parentState {5}).signedKeys ∨
          Fc.address r.ownerKey ∈ (parentState {5}).signedKeys) := by
  let := Fc.plain
  obtain ⟨t, ht⟩ := exists_ok_of_isOk children_accepted.1
  obtain ⟨u, hu⟩ := exists_ok_of_isOk children_accepted.2
  obtain ⟨hassets, haccounts⟩ := @parent_signs_iff _ (parentState {5}) rfl
  obtain ⟨a, ha, hiff⟩ := hassets _ t ht (by decide)
  have hrequired : 0 < a.authority.required := by
    cases ha
    decide
  exact ⟨⟨a, ha, hrequired, hiff.mpr hrequired⟩, haccounts _ u hu (by decide)⟩

/-- Anyone can create a child of the base asset, whose authority nobody belongs to. -/
theorem base_child_unsigned :
    letI := Fc.plain
    ∃ t, evaluate (parentState ∅) { expiration := 2000, signatures := [9], operations :=
        [.withdraw ⟨9000, 60000000, []⟩, .createAsset (createChild "BTS.ABCD")] } false = .ok t ∧
      (t.currentState.getAssetRecord 2).map AssetRecord.symbol = some "BTS.ABCD" ∧
      ((parentState ∅).currentState.getAssetRecordBySymbol "BTS").isSome ∧
      ∀ a ∈ (parentState ∅).currentState.getAssetRecordBySymbol "BTS",
        ∀ owner ∈ a.authority.owners, ¬ t.checkSignature owner := by
  decide +kernel

end Bts.Blockchain.ParentSignatures
