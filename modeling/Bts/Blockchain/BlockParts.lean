import Bts.Blockchain.ExtendAtomic

namespace Bts.Blockchain.BlockParts

open Base Result Exec Maps Records Transactions Pending Database Changes ApplySpec Evaluation
  Effects MarketExecute ExtendChain HeaderChecks ExtendAtomic

variable [Fc] {db db' : ChainDatabase} {block : FullBlock}

/-- The markets are executed on the layer before the transactions, from the fork on. -/
def Filled (db : ChainDatabase) (block : FullBlock) (paid middle applied : PendingState) : Prop :=
  if block.blockNum < forkBlockNumV049 then
    applyTransactions db block paid = .ok middle ∧
      executeMarkets db middle block.timestamp = .ok applied
  else executeMarkets db paid block.timestamp = .ok middle ∧
    applyTransactions db block middle = .ok applied

/-- The layers of an accepted block, from the statistics of the delegates to the one that
is applied to the database. -/
structure BlockLayers (block : FullBlock) (db : ChainDatabase) (signee : Nat)
    (produced paid middle applied layer : PendingState) : Prop where
  signs : blockSignee db block = .ok signee
  verifies : verifyHeader db block signee = .ok ()
  produces : updateDelegateProductionInfo db block signee {} = .ok produced
  pays : ∃ record, payDelegate db produced signee block.id = .ok (paid, record)
  fills : Filled db block paid middle applied
  finishes : ∃ properties, layer = { applied with properties } ∧
    ∀ k, k ≠ .activeDelegateListId → k ≠ .lastRandomSeedId →
      properties.lookup k = applied.properties.lookup k

/-- What the end of `extend_chain` changes besides the records of the layer. -/
def Closed (block : FullBlock) (u db' : ChainDatabase) : Prop :=
  ∃ forks numbers, db' = purgeUnique { u with
    forkDb := forks
    headBlockHeader := block.toSignedBlockHeader
    headBlockId := block.id
    blockNumToIdDb := numbers }

theorem fillLayer_ok {paid layer : PendingState} (h : fillLayer db block paid = .ok layer) :
    ∃ middle applied, Filled db block paid middle applied ∧
      ∃ properties, layer = { applied with properties } ∧
        ∀ k, k ≠ .activeDelegateListId → k ≠ .lastRandomSeedId →
          properties.lookup k = applied.properties.lookup k := by
  simp only [fillLayer, updateRandomSeed, eq_ok_iff] at h
  obtain ⟨applied, hfilled, active, hactive, seed, -, rfl⟩ := h
  have hmiddle : ∃ middle, Filled db block paid middle applied := by
    unfold executeAndApply at hfilled
    unfold Filled
    split_ifs at hfilled ⊢ <;> exact bind_eq_ok.mp hfilled
  obtain ⟨middle, hmiddle⟩ := hmiddle
  refine ⟨middle, applied, hmiddle, ?_⟩
  unfold updateActiveDelegateList at hactive
  split at hactive
  · rw [pure_eq_ok] at hactive
    subst hactive
    refine ⟨_, rfl, fun k _ hk => ?_⟩
    rw [lookup_insert, if_neg hk]
  · simp only [eq_ok_iff] at hactive
    obtain ⟨_, -, rfl⟩ := hactive
    refine ⟨_, rfl, fun k hlist hk => ?_⟩
    rw [lookup_insert, if_neg hk]
    exact (lookup_insert _ _ _ k).trans (if_neg hlist)

theorem extendChain_applies (h : extendChain block db = .ok () db') :
    ∃ signee produced paid middle applied layer d u,
      BlockLayers block db signee produced paid middle applied layer ∧ Bookkeeping db d ∧
      applyChanges layer d = .ok () u ∧ Closed block u db' := by
  obtain ⟨v, hv, rfl⟩ := extendChain_ok h
  rw [extendBlock, bind_run_ok] at hv
  obtain ⟨layer, d, hprepare, hcommit⟩ := hv
  have hkeeps := (prepareBlock_ok hprepare).1
  simp only [prepareBlock, payBlock, bind_run_ok, read_run_ok, lift_run_ok, update_run_ok,
    pure_run_ok, bind_eq_ok] at hprepare
  obtain ⟨_, _, ⟨rfl, rfl⟩, signee, _, ⟨hsignee, rfl⟩, _, _, -, _, _, ⟨hverified, -⟩, ⟨paid, record⟩,
    _, ⟨⟨produced, hproduced, hpaid⟩, -⟩, _, _, -, filled, _, ⟨hfill, -⟩, _, _, -, rfl, -⟩ := hprepare
  obtain ⟨middle, applied, hmiddle, hfinished⟩ := fillLayer_ok hfill
  simp only [commitBlock, markIncluded, bind_run_ok, read_run_ok, lift_run_ok, update_run_ok] at hcommit
  obtain ⟨_, u, happly, _, _, ⟨_, _, ⟨rfl, rfl⟩, f, _, ⟨-, rfl⟩, rfl⟩, _, _, rfl, rfl⟩ := hcommit
  refine ⟨signee, produced, paid, middle, applied, filled, d, u, ?_, hkeeps, happly, _, _, rfl⟩
  exact ⟨hsignee, hverified, hproduced, ⟨record, hpaid⟩, hmiddle, hfinished⟩

theorem extendChain_parts (h : extendChain block db = .ok () db') :
    ∃ signee produced paid middle applied layer d u,
      BlockLayers block db signee produced paid middle applied layer ∧ Bookkeeping db d ∧
      Applied layer d u ∧ Closed block u db' := by
  obtain ⟨signee, produced, paid, middle, applied, layer, d, u, hlayers, hkeeps, happly, hclosed⟩ :=
    extendChain_applies h
  exact ⟨signee, produced, paid, middle, applied, layer, d, u, hlayers, hkeeps,
    applyChanges_applied happly, hclosed⟩

/-- What the operations of a block, the ends of its transactions and the records of them keep
in the layer. -/
theorem applyTransactions_keeps {I : PendingState → Prop} {l l' : PendingState}
    (hop : ∀ trx ∈ block.userTransactions, ∀ op ∈ trx.operations, ∀ (u : EvaluationState) v,
      u.prev = .database db → Effect u op v → I u.layer → I v)
    (hend : ∀ u v, Settles (.database db) u v → I u → I v)
    (hstore : ∀ u transactions uniqueTransactions, I u →
      I { u with transactions, uniqueTransactions })
    (h : applyTransactions db block l = .ok l') (hl : I l) : I l' := by
  refine foldlM_keeps ?_ hl h
  rintro ⟨trx, n⟩ hmem u v hu hv
  simp only [applyTransaction, bind_eq_ok] at hv
  obtain ⟨t, heval, hstored⟩ := hv
  have htrx : trx ∈ block.userTransactions := (List.mem_zipIdx' hmem).2 ▸ List.getElem_mem _
  have ht : I t.layer := evaluate_keeps (hop trx htrx) hend heval hu
  simp only [storeTransaction, eq_ok_iff] at hstored
  obtain ⟨_, _, _, _, rfl⟩ := hstored
  exact hstore t.layer _ _ ht

/-- A part of a layer that accounts, assets, slots and properties are not in. -/
structure Spared {τ : Type} (g : PendingState → τ) : Prop where
  account : ∀ {l l' : PendingState} {r : AccountRecord}, l.storeAccountRecord r = .ok l' → g l' = g l
  asset : ∀ (l : PendingState) (r : AssetRecord), g (l.storeAssetRecord r) = g l
  slot : ∀ (l : PendingState) (r : SlotRecord), g (l.storeSlotRecord r) = g l
  property : ∀ (l : PendingState) (k : ChainProperty) (v : PropertyValue), g (l.setProperty k v) = g l

section Spared

variable {τ : Type} {g : PendingState → τ} {l l' : PendingState} {signee : Nat}

theorem Spared.recordSlot (hg : Spared g) (r : SlotRecord) : g (recordSlot db l r) = g l := by
  unfold ExtendChain.recordSlot
  split
  · exact hg.slot l r
  · rfl

theorem Spared.countProduced (hg : Spared g) (h : countProduced db block signee l = .ok l') :
    g l' = g l := by
  simp only [ExtendChain.countProduced, eq_ok_iff] at h
  obtain ⟨_, _, _, _, r, _, d, _, _, _, stored, hstore, rfl⟩ := h
  exact (hg.recordSlot _).trans (hg.account hstore)

theorem Spared.countMissed (hg : Spared g) {active : List Int} {timestamp : Nat}
    (h : countMissed db active l timestamp = .ok l') : g l' = g l := by
  simp only [ExtendChain.countMissed, eq_ok_iff] at h
  obtain ⟨_, _, r, _, d, _, stored, hstore, rfl⟩ := h
  exact (hg.recordSlot _).trans (hg.account hstore)

theorem BlockLayers.spared {produced paid middle applied layer : PendingState}
    (h : BlockLayers block db signee produced paid middle applied layer) (hg : Spared g) :
    g paid = g {} := by
  have hproduces := h.produces
  obtain ⟨record, hpays⟩ := h.pays
  simp only [updateDelegateProductionInfo, eq_ok_iff] at hproduces
  obtain ⟨first, hfirst, _, _, active, _, counted, hcounted, rfl⟩ := hproduces
  simp only [payDelegate, eq_ok_iff, Prod.mk.injEq] at hpays
  obtain ⟨base, _, _, _, r, _, d, _, _, _, p, _, stored, hstored, _, _, rfl, _⟩ := hpays
  have hmissed : g counted = g first :=
    foldlM_keeps (P := fun u => g u = g first) (fun _ _ _ _ hu hv => (hg.countMissed hv).trans hu)
      rfl hcounted
  calc g (stored.storeAssetRecord _) = g stored := hg.asset _ _
    _ = g _ := hg.account hstored
    _ = g counted := hg.property _ _ _
    _ = g first := hmissed
    _ = g {} := hg.countProduced hfirst

end Spared

end Bts.Blockchain.BlockParts
