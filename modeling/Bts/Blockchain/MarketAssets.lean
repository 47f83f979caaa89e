import Bts.Blockchain.AssetEffects
import Bts.Blockchain.MarketBooks

namespace Bts.Blockchain.MarketAssets

open Records MarketRecords Transactions Pending Layers MarketEngine
  MarketExecute MarketWrites MarketBooks

theorem traded_id {a b : AssetRecord} (h : Traded a b) : b.id = a.id := by
  obtain ⟨_, _, rfl⟩ := h
  rfl

theorem collected_id {a b : AssetRecord} (h : Collected a b) : b.id = a.id := by
  obtain ⟨_, rfl⟩ := h
  rfl

variable [Fc]

/-- What the matching does to assets: it changes the two records at hand, and stores none. -/
structure AssetsKept (e e' : EngineState) : Prop where
  quote : Traded e.quoteAsset e'.quoteAsset
  base : Collected e.baseAsset e'.baseAsset
  stored : e'.layer.assets = e.layer.assets

variable {m : Market} {e e' d : EngineState}

theorem AssetsKept.trans (h : AssetsKept e d) (h' : AssetsKept d e') : AssetsKept e e' :=
  ⟨h.quote.trans h'.quote, h.base.trans h'.base, h'.stored.trans h.stored⟩

theorem AssetsKept.of_held (h : held e' = held e) : AssetsKept e e' := by
  simp only [held, Prod.mk.injEq] at h
  obtain ⟨hlayer, hquote, hbase⟩ := h
  refine ⟨?_, ?_, congrArg PendingState.assets hlayer⟩
  · rw [hquote]
    exact .refl _
  · rw [hbase]
    exact .refl _

theorem AssetsKept.of_effect (h : TradeEffect e e') : AssetsKept e e' :=
  ⟨h.quote, h.base, h.writes.frame fun _ _ hwrite => by cases hwrite <;> rfl⟩

theorem matchMarket_assets (h : matchMarket m e = .ok e') : AssetsKept e e' := by
  refine matchMarket_keeps (I := AssetsKept e) ?_ ?_ h ⟨.refl _, .refl _, rfl⟩
  · intro d d' hsought hd
    exact hd.trans (.of_held hsought.held)
  · intro d u next bid ask _ _ hd hmatch
    exact hd.trans (.of_effect (matchPair_effect hmatch))

/-- What an executed market does to the assets of the chain. -/
structure MarketTraded (c c' : ChainInterface) (quoteId baseId : Int) : Prop where
  quote : ∃ a b, c.getAssetRecord quoteId = some a ∧ c'.getAssetRecord quoteId = some b ∧ Traded a b
  base : ∃ a b, c.getAssetRecord baseId = some a ∧ c'.getAssetRecord baseId = some b ∧ Collected a b
  others : ∀ id, id ≠ quoteId → id ≠ baseId → c'.getAssetRecord id = c.getAssetRecord id

variable {layer layer' : PendingState} {prev : ChainInterface} {quoteId baseId : Int}
  {timestamp : Nat} {trxs : List MarketTransaction}

theorem runAndApply_traded (hopen : openMarket (.pending layer prev) quoteId baseId = .ok (m, e))
    (hrun : runAndApply m e layer prev timestamp = .ok (layer', trxs)) :
    MarketTraded (.pending layer prev) (.pending layer' prev) quoteId baseId := by
  obtain ⟨d, hmatch, hleft⟩ := runAndApply_left hopen hrun
  have hopened := openMarket_ok hopen
  obtain ⟨hquote, hbase, hstored⟩ := matchMarket_assets hmatch
  have hquoteId : d.quoteAsset.id = quoteId :=
    (traded_id hquote).trans (Effects.getAssetRecord_id hopened.quoteAsset)
  have hbaseId : d.baseAsset.id = baseId :=
    (collected_id hbase).trans (Effects.getAssetRecord_id hopened.baseAsset)
  have hordered := hopened.ordered
  have hread := hleft.assets
  rw [hquoteId, hbaseId] at hread
  refine ⟨⟨_, _, hopened.quoteAsset, ?_, hquote⟩, ⟨_, _, hopened.baseAsset, ?_, hbase⟩,
    fun id hq hb => ?_⟩
  · rw [hread, if_neg (by omega), if_pos rfl]
  · rw [hread, if_pos rfl]
  · rw [hread, if_neg hb, if_neg hq]
    unfold Market.pendingState
    rw [AssetEffects.getAssetRecord_pending, hstored, hopened.layer, hopened.below]
    rfl

theorem execute_traded (h : execute layer prev quoteId baseId timestamp = .ok (layer', trxs)) :
    MarketTraded (.pending layer prev) (.pending layer' prev) quoteId baseId ∨
      (ChainInterface.pending layer' prev).getAssetRecord =
        (ChainInterface.pending layer prev).getAssetRecord := by
  rcases execute_cases h with ⟨status, rfl⟩ | ⟨m, e, hopen, hrun⟩
  · exact Or.inr rfl
  · exact Or.inl (runAndApply_traded hopen hrun)

end Bts.Blockchain.MarketAssets
