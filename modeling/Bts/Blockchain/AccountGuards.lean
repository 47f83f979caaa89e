import Bts.Blockchain.RecordWrites
import Bts.Blockchain.Signatures

namespace Bts.Blockchain.AccountGuards

open Base Result Word Maps Records Transactions Pending Layers Rules Evaluation Evaluate Effects
  ProductionInfo RecordWrites

theorem parentNames_trans {cs l m : List Char} (hl : l ∈ parentNames cs) (hm : m ∈ parentNames l) :
    m ∈ parentNames cs := by
  induction cs with
  | nil => cases hl
  | cons c rest ih =>
    unfold parentNames at hl ⊢
    split at hl
    next hdot =>
      rw [if_pos hdot]
      rcases List.mem_cons.mp hl with rfl | hl
      · exact List.mem_cons_of_mem _ hm
      · exact List.mem_cons_of_mem _ (ih hl)
    next hdot =>
      rw [if_neg hdot]
      exact ih hl

/-- A name and the names of its parents. -/
def lineage (name : String) : List String :=
  name :: (parentNames name.toList).map String.ofList

theorem lineage_parent {name n : String} {parent : List Char} (hn : n ∈ lineage name)
    (hparent : parent ∈ parentNames n.toList) : String.ofList parent ∈ lineage name := by
  rcases List.mem_cons.mp hn with rfl | hn
  · exact List.mem_cons_of_mem _ (List.mem_map_of_mem hparent)
  · obtain ⟨cs, hcs, rfl⟩ := List.mem_map.mp hn
    rw [String.toList_ofList] at hparent
    exact List.mem_cons_of_mem _ (List.mem_map_of_mem (parentNames_trans hcs hparent))

variable [Fc] {s t : EvaluationState} {l l' : PendingState} {prev c : ChainInterface}

structure Registry (l : PendingState) (prev : ChainInterface) : Prop where
  found : ∀ id p, (ChainInterface.pending l prev).getAccountRecord id = some p →
    (ChainInterface.pending l prev).getAccountRecordByName p.name = some p
  indexed : ∀ n id, l.accountIdIndex.lookup n = some id → ∃ p, l.accounts.lookup id = some p ∧ p.name = n
  numbered : ∀ last, (ChainInterface.pending l prev).lastAccountId = .ok last → ∀ id, last < id →
    (ChainInterface.pending l prev).getAccountRecord id = none

/-- Neither the account of a name nor one of its parents has signed. -/
def Unsigned (s : EvaluationState) (c : ChainInterface) (name : String) : Prop :=
  ∀ n ∈ lineage name, ∀ r, c.getAccountRecordByName n = some r → ¬ s.hasSigned r

variable {r : AccountRecord} {name : String} {x pay : Int}

theorem getAccountRecordByName_store (hl : Registry l prev) (h : l.storeAccountRecord r = .ok l')
    (hname : ∀ p, (ChainInterface.pending l prev).getAccountRecord r.id = some p → p.name = r.name)
    (n : String) : (ChainInterface.pending l' prev).getAccountRecordByName n =
      if n = r.name then some r else (ChainInterface.pending l prev).getAccountRecordByName n := by
  have hget := getAccountRecord_store h prev
  obtain ⟨keys, hl'⟩ := storeAccountRecord_fields h
  have hindex : l'.accountIdIndex.lookup n =
      if n = r.name then some r.id else l.accountIdIndex.lookup n := by
    rw [hl']
    exact lookup_insert ..
  unfold ChainInterface.getAccountRecordByName
  by_cases hn : n = r.name
  · rw [hindex, if_pos hn, if_pos hn]
    exact (hget r.id).trans (if_pos rfl)
  · rw [hindex, if_neg hn, if_neg hn]
    cases hid : l.accountIdIndex.lookup n with
    | none => rfl
    | some id =>
      obtain ⟨p, hp, hpn⟩ := hl.indexed n id hid
      have hfound : (ChainInterface.pending l prev).getAccountRecord id = some p := by
        change (l.accounts.lookup id).or _ = some p
        rw [hp]
        rfl
      refine (hget id).trans (if_neg ?_)
      rintro rfl
      exact hn (hpn.symm.trans (hname p hfound))

theorem anyParentHasSigned_iff : s.anyParentHasSigned name = true ↔
    ∃ parent ∈ parentNames name.toList, ∃ r,
      s.currentState.getAccountRecordByName (String.ofList parent) = some r ∧ s.hasSigned r := by
  unfold EvaluationState.anyParentHasSigned
  rw [List.any_eq_true]
  refine exists_congr fun parent => and_congr_right fun _ => ?_
  rw [Option.any_eq_true]
  refine exists_congr fun r => and_congr_right fun _ => ?_
  exact decide_eq_true_iff

theorem Unsigned.parents {name n : String} (h : Unsigned s s.currentState name) (hn : n ∈ lineage name) :
    ¬ s.anyParentHasSigned n = true := by
  rw [anyParentHasSigned_iff]
  rintro ⟨parent, hparent, r, hr, hsigned⟩
  exact h _ (lineage_parent hn hparent) r hr hsigned

theorem Unsigned.not_signed {p : AccountRecord} (h : Unsigned s s.currentState name)
    (hp : s.currentState.getAccountRecordByName p.name = some p) (hname : p.name ∈ lineage name) :
    ¬ s.accountOrAnyParentHasSigned p := by
  rintro (hsigned | hsigned)
  · exact h p.name hname p hp hsigned
  · exact h.parents hname hsigned

/-- The account `x` of a lineage that has not signed still has its name and its pay. -/
structure Guarded (s : EvaluationState) (x : Int) (name : String) (pay : Int) : Prop where
  registry : Registry s.layer s.prev
  unsigned : Unsigned s s.currentState name
  rooted : ∀ n ∈ lineage name, getParentAccountName n = none →
    (s.currentState.getAccountRecordByName n).isSome
  account : ∃ r, s.currentState.getAccountRecord x = some r ∧ r.name = name ∧ payOf r = pay

theorem hasSigned_congr (h : SameContext s t) : t.hasSigned r ↔ s.hasSigned r := by
  unfold EvaluationState.hasSigned EvaluationState.checkSignature
  rw [h.skipSignatureCheck, h.signedKeys]

theorem hasSigned_of_keys {p r : AccountRecord} (howner : r.ownerKey = p.ownerKey)
    (hactive : r.activeKeyHistory = p.activeKeyHistory) : s.hasSigned r ↔ s.hasSigned p := by
  unfold EvaluationState.hasSigned AccountRecord.isRetracted AccountRecord.activeKey
  rw [howner, hactive]

theorem getAccountRecord_congr (h : l'.accounts = l.accounts) (id : Int) :
    (ChainInterface.pending l' prev).getAccountRecord id =
      (ChainInterface.pending l prev).getAccountRecord id := by
  change (l'.accounts.lookup id).or _ = (l.accounts.lookup id).or _
  rw [h]

theorem getAccountRecordByName_congr (h : l'.accounts = l.accounts)
    (hnames : l'.accountIdIndex = l.accountIdIndex) (n : String) :
    (ChainInterface.pending l' prev).getAccountRecordByName n =
      (ChainInterface.pending l prev).getAccountRecordByName n := by
  unfold ChainInterface.getAccountRecordByName
  rw [hnames]
  cases l.accountIdIndex.lookup n with
  | none => rfl
  | some id => exact getAccountRecord_congr h id

theorem lastAccountId_congr
    (h : l'.properties.lookup .lastAccountId = l.properties.lookup .lastAccountId) :
    (ChainInterface.pending l' prev).lastAccountId = (ChainInterface.pending l prev).lastAccountId := by
  unfold ChainInterface.lastAccountId ChainInterface.getIntProperty ChainInterface.getProperty
    ChainInterface.find
  rw [h]

theorem Guarded.keep (h : Guarded s x name pay) (hctx : SameContext s t)
    (haccounts : t.layer.accounts = s.layer.accounts)
    (hnames : t.layer.accountIdIndex = s.layer.accountIdIndex)
    (hlast : t.layer.properties.lookup .lastAccountId = s.layer.properties.lookup .lastAccountId) :
    Guarded t x name pay := by
  have hget (id : Int) : t.currentState.getAccountRecord id = s.currentState.getAccountRecord id := by
    rw [currentState_eq hctx]
    exact getAccountRecord_congr haccounts id
  have hbyName (n : String) :
      t.currentState.getAccountRecordByName n = s.currentState.getAccountRecordByName n := by
    rw [currentState_eq hctx]
    exact getAccountRecordByName_congr haccounts hnames n
  refine ⟨⟨fun id p hp => ?_, ?_, fun last hl id hid => ?_⟩, fun n hn r hr => ?_, fun n hn hroot => ?_, ?_⟩
  · exact (hbyName p.name).trans (h.registry.found id p ((hget id).symm.trans hp))
  · rw [hnames, haccounts]
    exact h.registry.indexed
  · refine (hget id).trans (h.registry.numbered last ?_ id hid)
    rw [hctx.prev] at hl
    exact (lastAccountId_congr hlast).symm.trans hl
  · rw [hasSigned_congr hctx]
    exact h.unsigned n hn r ((hbyName n).symm.trans hr)
  · rw [hbyName]
    exact h.rooted n hn hroot
  · rw [hget]
    exact h.account

theorem Registry.store (h : Registry l prev)
    (hown : ∀ q, (ChainInterface.pending l prev).getAccountRecord r.id = some q → q.name = r.name)
    (hfree : ∀ q, (ChainInterface.pending l prev).getAccountRecordByName r.name = some q → q.id = r.id)
    (hlast : ∀ last, (ChainInterface.pending l prev).lastAccountId = .ok last → r.id ≤ last)
    (hstore : l.storeAccountRecord r = .ok l') : Registry l' prev := by
  have hget := getAccountRecord_store hstore prev
  have hbyName := getAccountRecordByName_store h hstore hown
  obtain ⟨keys, rfl⟩ := storeAccountRecord_fields hstore
  refine ⟨fun id q hq => ?_, fun n id hn => ?_, fun last hl id hlt => ?_⟩
  · rw [hget] at hq
    rw [hbyName]
    split at hq
    next =>
      cases hq
      exact if_pos rfl
    next hne =>
      have hq' := h.found id q hq
      refine (if_neg fun heq => hne ?_).trans hq'
      rw [heq] at hq'
      exact (getAccountRecord_id hq).symm.trans (hfree q hq')
  · rw [lookup_insert] at hn
    split at hn
    next heq =>
      cases hn
      exact ⟨r, (Table.lookup_store _ _ _).trans (if_pos rfl), heq.symm⟩
    next hne =>
      obtain ⟨q, hq, hqn⟩ := h.indexed n id hn
      refine ⟨q, (Table.lookup_store _ _ _).trans ?_, hqn⟩
      rw [if_neg, hq]
      rintro rfl
      refine hne (hqn.symm.trans (hown q ?_))
      change (l.accounts.lookup r.id).or _ = some q
      rw [hq]
      rfl
  · have hle := hlast last hl
    rw [hget, if_neg (by omega)]
    exact h.numbered last hl id hlt

/-- An account of a guarded lineage is written anew only with the same keys, and another one
without touching it. -/
theorem Guarded.rewrite {p r : AccountRecord} (h : Guarded s x name pay) (hctx : SameContext s t)
    (hp : s.currentState.getAccountRecord p.id = some p)
    (hstore : s.layer.storeAccountRecord r = .ok t.layer) (hid : r.id = p.id)
    (hname : r.name = p.name) (hsame : p.name ∈ lineage name → payOf r = payOf p ∧
      r.ownerKey = p.ownerKey ∧ r.activeKeyHistory = p.activeKeyHistory) :
    Guarded t x name pay := by
  have hfound := h.registry.found p.id p hp
  have hown : ∀ q, s.currentState.getAccountRecord r.id = some q → q.name = r.name := by
    intro q hq
    rw [hid, hp] at hq
    cases hq
    exact hname.symm
  have hget (id : Int) : t.currentState.getAccountRecord id =
      if id = r.id then some r else s.currentState.getAccountRecord id := by
    rw [currentState_eq hctx]
    exact getAccountRecord_store hstore s.prev id
  have hbyName (n : String) : t.currentState.getAccountRecordByName n =
      if n = r.name then some r else s.currentState.getAccountRecordByName n := by
    rw [currentState_eq hctx]
    exact getAccountRecordByName_store h.registry hstore hown n
  refine ⟨?_, fun n hn q hq => ?_, fun n hn hroot => ?_, ?_⟩
  · rw [hctx.prev]
    refine h.registry.store hown (fun q hq => ?_) (fun last hl => ?_) hstore
    · rw [hname] at hq
      cases hfound.symm.trans hq
      exact hid.symm
    · by_contra hlt
      exact absurd (hp.symm.trans (h.registry.numbered last hl p.id (by omega))) (by simp)
  · rw [hasSigned_congr hctx]
    rw [hbyName] at hq
    split at hq
    next heq =>
      cases hq
      have hpn : p.name ∈ lineage name := hname ▸ heq ▸ hn
      obtain ⟨-, howner, hactive⟩ := hsame hpn
      rw [hasSigned_of_keys howner hactive]
      exact h.unsigned p.name hpn p hfound
    next => exact h.unsigned n hn q hq
  · rw [hbyName]
    split
    · rfl
    · exact h.rooted n hn hroot
  · obtain ⟨q, hq, hqn, hqpay⟩ := h.account
    rw [hget]
    split
    next heq =>
      rw [heq, hid, hp] at hq
      cases hq
      refine ⟨r, rfl, hname.trans hqn, ?_⟩
      rw [← hqpay]
      exact (hsame (hqn ▸ List.mem_cons_self)).1
    next => exact ⟨q, hq, hqn, hqpay⟩

theorem Registry.setLast {last : Int} (h : Registry l prev)
    (hlast : (ChainInterface.pending l prev).lastAccountId = .ok last) :
    Registry (l.setProperty .lastAccountId (.int (last + 1))) prev := by
  refine ⟨fun id p hp => ?_, h.indexed, fun n hn id hlt => ?_⟩
  · exact h.found id p hp
  · cases hn
    exact h.numbered last hlast id (by omega)

/-- A new account is no part of a guarded lineage: its name is not taken, and where it has a
parent one of its parents has signed. -/
theorem Guarded.register {x pay last : Int} (h : Guarded s x name pay) (hctx : SameContext s t)
    (hfree : s.currentState.getAccountRecordByName r.name = none)
    (hparent : (getParentAccountName r.name).isSome → s.anyParentHasSigned r.name = true)
    (hlast : s.currentState.lastAccountId = .ok last) (hid : r.id = last + 1)
    (hstore : (s.layer.setProperty .lastAccountId (.int (last + 1))).storeAccountRecord r =
      .ok t.layer) : Guarded t x name pay := by
  have hregistry : Registry _ s.prev := h.registry.setLast hlast
  have hnone : s.currentState.getAccountRecord r.id = none :=
    h.registry.numbered last hlast r.id (by omega)
  have hown : ∀ q, (ChainInterface.pending (s.layer.setProperty .lastAccountId (.int (last + 1)))
      s.prev).getAccountRecord r.id = some q → q.name = r.name :=
    fun q hq => absurd (hnone.symm.trans hq) (by simp)
  have hnot : r.name ∉ lineage name := by
    intro hmem
    cases hroot : getParentAccountName r.name with
    | none =>
      have hsome := h.rooted r.name hmem hroot
      rw [hfree] at hsome
      cases hsome
    | some parent => exact h.unsigned.parents hmem (hparent (by rw [hroot]; rfl))
  have hget (id : Int) : t.currentState.getAccountRecord id =
      if id = r.id then some r else s.currentState.getAccountRecord id := by
    rw [currentState_eq hctx]
    exact getAccountRecord_store hstore s.prev id
  have hbyName (n : String) : t.currentState.getAccountRecordByName n =
      if n = r.name then some r else s.currentState.getAccountRecordByName n := by
    rw [currentState_eq hctx, getAccountRecordByName_store hregistry hstore hown n]
    split
    · rfl
    · exact getAccountRecordByName_congr rfl rfl n
  refine ⟨?_, fun n hn q hq => ?_, fun n hn hroot => ?_, ?_⟩
  · rw [hctx.prev]
    refine hregistry.store hown (fun q hq => ?_) (fun m hm => ?_) hstore
    · exact absurd (hfree.symm.trans hq) (by simp)
    · cases hm
      exact hid.le
  · have hne : n ≠ r.name := fun heq => hnot (heq ▸ hn)
    rw [hbyName, if_neg hne] at hq
    rw [hasSigned_congr hctx]
    exact h.unsigned n hn q hq
  · rw [hbyName]
    split
    · rfl
    · exact h.rooted n hn hroot
  · obtain ⟨q, hq, hqn, hqpay⟩ := h.account
    refine ⟨q, ?_, hqn, hqpay⟩
    rw [hget, if_neg, hq]
    rintro rfl
    exact absurd (hnone.symm.trans hq) (by simp)

theorem Guarded.step {op : Operation} (h : Guarded s x name pay) (hstep : evaluateNext s op = .ok t) :
    Guarded t x name pay := by
  have hctx := (evaluateNext_effect hstep).1
  have hwrite := evaluateNext_accounts hstep
  generalize hlayer : t.layer = layer at hwrite
  cases hwrite with
  | none op layer haccounts hnames hlast =>
    subst hlayer
    exact h.keep hctx haccounts hnames hlast
  | register op last r layer hfree hparent hlast hid hname hpay hvotes hstore =>
    subst hlayer
    rw [← hname] at hfree hparent
    exact h.register hctx hfree hparent hlast hid hstore
  | rewrite op p r layer hrewrites hstore =>
    subst hlayer
    refine h.rewrite hctx hrewrites.known hstore hrewrites.standing.id hrewrites.standing.name
      (fun hmem => ⟨hrewrites.standing.pay, ?_⟩)
    exact hrewrites.signed.resolve_left
      (h.unsigned.not_signed (h.registry.found p.id p hrewrites.known) hmem)
  | withdrawPay op p d layer hpos hp hd hfunds hsigned hstore =>
    subst hlayer
    have hid := getAccountRecord_id hp
    rw [← hid] at hp
    refine h.rewrite hctx hp hstore rfl rfl (fun hmem => ?_)
    exact absurd hsigned (h.unsigned.not_signed (h.registry.found p.id p hp) hmem)

theorem postEvaluate_layer (h : s.postEvaluate = .ok t) :
    SameContext s t ∧ ∃ assets, t.layer = { s.layer with assets } := by
  simp only [EvaluationState.postEvaluate, bind_eq_ok] at h
  obtain ⟨s₁, h₁, s₂, h₂, h₃⟩ := h
  let Fees (u : EvaluationState) : Prop :=
    SameContext s u ∧ ∃ assets, u.layer = { s.layer with assets }
  have hsame {u : EvaluationState} {b : TransactionBalances} (hu : Fees u) :
      Fees (EvaluationState.withBalances u b) :=
    ⟨hu.1.trans ⟨rfl, rfl, rfl, rfl, rfl⟩, hu.2⟩
  have hcharged : Fees s₁ := by
    refine foldlM_keeps (fun e _ u v hu hv => ?_) ⟨.refl s, _, rfl⟩ h₁
    simp only [EvaluationState.chargeTransactionFee, bind_eq_ok] at hv
    obtain ⟨r, -, hv⟩ := hv
    split at hv
    · obtain ⟨b, rfl⟩ := EvaluationState.subBalance_ok hv
      exact hsame hu
    · rw [pure_eq_ok] at hv
      exact hv ▸ hu
  have hpaid : Fees s₂ := by
    refine foldlM_keeps (fun e _ u v hu hv => ?_) (hsame hcharged) h₂
    simp only [EvaluationState.addAltFee, bind_eq_ok] at hv
    obtain ⟨_, -, hv⟩ := hv
    split at hv
    · rw [pure_eq_ok] at hv
      exact hv ▸ hu
    · simp only [bind_eq_ok] at hv
      obtain ⟨r, -, hv⟩ := hv
      split at hv
      · simp only [eq_ok_iff] at hv
        obtain ⟨_, -, rfl⟩ := hv
        exact hsame hu
      · rw [pure_eq_ok] at hv
        exact hv ▸ hu
  refine foldlM_keeps (P := Fees) (fun e _ u v hu hv => ?_) hpaid h₃
  simp only [EvaluationState.collectFee, bind_eq_ok] at hv
  obtain ⟨_, -, hv⟩ := hv
  split at hv
  · simp only [eq_ok_iff] at hv
    obtain ⟨r, -, rfl⟩ := hv
    obtain ⟨hctx, assets, hlayer⟩ := hu
    have hstored := congrArg
      (·.storeAssetRecord { r with collectedFees := int64 (r.collectedFees + e.2) }) hlayer
    exact ⟨hctx.trans ⟨rfl, rfl, rfl, rfl, rfl⟩, _, hstored⟩
  · rw [pure_eq_ok] at hv
    exact hv ▸ hu

theorem updateDelegateVote_ok {vote : Int × Int} (h : s.updateDelegateVote vote = .ok t) :
    SameContext s t ∧ ∃ p d votes, s.currentState.getAccountRecord p.id = some p ∧
      p.delegateInfo = some d ∧
      s.layer.storeAccountRecord (withStats p { d with votesFor := votes }) = .ok t.layer := by
  simp only [EvaluationState.updateDelegateVote, AccountRecord.adjustVotesFor, AccountRecord.delegate, eq_ok_iff] at h
  obtain ⟨p, hp, voted, ⟨d, hd, rfl⟩, h⟩ := h
  obtain ⟨layer, hstore, rfl⟩ := EvaluationState.storeAccountRecord_ok h
  have hid := getAccountRecord_id hp
  rw [← hid] at hp
  exact ⟨⟨rfl, rfl, rfl, rfl, rfl⟩, p, d, _, hp, hd, hstore⟩

theorem Guarded.updateDelegateVote {vote : Int × Int} (h : Guarded s x name pay)
    (ht : s.updateDelegateVote vote = .ok t) : Guarded t x name pay := by
  obtain ⟨hctx, p, d, votes, hp, hd, hstore⟩ := updateDelegateVote_ok ht
  refine h.rewrite hctx hp hstore rfl rfl fun _ => ⟨?_, rfl, rfl⟩
  unfold payOf
  rw [hd]
  rfl

theorem Guarded.evaluate {trx : SignedTransaction} {skip : Bool} {keys : Finset Nat}
    (hkeys : signedKeysOf skip (trx.digest s.chainId) trx.signatures = .ok keys)
    (h : Guarded (begin s trx skip keys) x name pay) (ht : Evaluate.evaluate s trx skip = .ok t) :
    Guarded t x name pay := by
  simp only [Evaluate.evaluate, bind_eq_ok] at ht
  obtain ⟨_, -, keys', hkeys', u, hops, v, hpost, _, -, hvotes⟩ := ht
  cases hkeys.symm.trans hkeys'
  have hu : Guarded u x name pay :=
    foldlM_keeps (P := (Guarded · x name pay)) (fun _ _ _ _ hk hstep => hk.step hstep) h hops
  obtain ⟨hctx, assets, hlayer⟩ := postEvaluate_layer hpost
  have hv : Guarded v x name pay := by
    refine hu.keep hctx ?_ ?_ ?_ <;> rw [hlayer]
  exact foldlM_keeps (P := (Guarded · x name pay))
    (fun _ _ _ _ hk hstep => hk.updateDelegateVote hstep) hv hvotes

end Bts.Blockchain.AccountGuards
