import Bts.Blockchain.MarketPasses

namespace Bts.Blockchain.PlainBooks

open Base.Result MarketRecords Transactions Layers MarketEngine MarketMatch MarketLoop MarketRuns
  MarketBooks MarketEffects MarketTrades MarketSync MarketPasses

variable [Fc]

/-- A book of bids and asks: there are neither shorts nor positions of the market. The quote
asset may have positions in other markets. -/
structure PlainBook (prior : ChainInterface) (quoteId baseId : Int) : Prop where
  shorts : ∀ x ∈ prior.root.shortDb.entries, ¬ OfMarket quoteId baseId x.1
  positions : ∀ x ∈ prior.root.collateralDb.entries, ¬ OfMarket quoteId baseId x.1

/-- The engine visits no short and no position of its market. An expired position of another
one may be at hand, but its record is not. -/
structure Plain (m : Market) (e : EngineState) : Prop where
  shorts : ∀ x ∈ e.shortItr, ¬ m.isPair x.1.orderPrice
  called : ∀ x ∈ e.collateralItr, ¬ m.isPair x.1.orderPrice
  record : e.currentCollatRecord = {}
  bid : ∀ bid ∈ e.currentBid, isBid bid.type

variable {m : Market} {e e' : EngineState} {bid ask : MarketOrder}

theorem opened_plain {prior : ChainInterface} {quoteId baseId : Int}
    (h : Opened prior quoteId baseId m e) (hbook : PlainBook prior quoteId baseId) : Plain m e := by
  obtain ⟨rfl, rfl, rfl⟩ : m.quoteId = quoteId ∧ m.baseId = baseId ∧ m.prior = prior :=
    ⟨h.quote, h.base, h.below⟩
  refine ⟨fun x hx => ?_, fun x hx => ?_, h.record, fun b hb => ?_⟩
  · exact hbook.shorts ⟨x.1, x.2⟩ (AList.mem_lookup_iff.mp (h.shorts.stored x hx trivial))
  · exact hbook.positions ⟨x.1, x.2⟩ (AList.mem_lookup_iff.mp (h.positions.stored x hx trivial))
  · rw [h.currentBid] at hb
    cases hb

section

variable (h : Plain m e)
include h

theorem Plain.frame (hcursors : SameCursors e e')
    (hrecord : e'.currentCollatRecord = e.currentCollatRecord)
    (hbid : ∀ bid ∈ e'.currentBid, isBid bid.type) : Plain m e' := by
  refine ⟨?_, ?_, hrecord.trans h.record, hbid⟩
  · rw [hcursors.shorts]
    exact h.shorts
  · rw [hcursors.collateral]
    exact h.called

theorem Plain.bidTaken
    (ht : BidTaken m { e with ordersFilled := e.ordersFilled + 1, currentBid := none } e') :
    Plain m e' := by
  cases ht with
  | none =>
    refine { h with bid := ?_ }
    intro b hb
    cases hb
  | bid =>
    refine { h with bid := ?_ }
    rintro _ ⟨⟩
    exact Or.inl rfl
  | relativeBid =>
    refine { h with bid := ?_ }
    rintro _ ⟨⟩
    exact Or.inr rfl
  | @short key order rest itr pair =>
    have hitr : e.shortItr = (key, order) :: rest := itr
    exact absurd pair (h.shorts (key, order) (by rw [hitr]; exact List.mem_cons_self))

theorem Plain.atHand : atHand m e = {} := by
  unfold MarketLoop.atHand
  split
  · cases hitr : e.collateralItr with
    | nil => exact h.record
    | cons x rest =>
      have hpair := h.called x (by rw [hitr]; exact List.mem_cons_self)
      exact (if_neg hpair).trans h.record
  · exact h.record

theorem Plain.askTaken
    (ht : AskTaken m { e with ordersFilled := e.ordersFilled + 1, currentAsk := none } e') :
    Plain m e' := by
  have hrecord := h.atHand
  cases ht with
  | @called key r rest bid itr pair above =>
    have hitr : e.collateralItr = (key, r) :: rest := itr
    exact absurd pair (h.called (key, r) (by rw [hitr]; exact List.mem_cons_self))
  | expired called =>
    exact { h with called := fun x hx => h.called x (called.subset hx), record := hrecord }
  | ask called =>
    exact { h with called := fun x hx => h.called x (called.subset hx), record := hrecord }
  | none called =>
    exact { h with called := fun x hx => h.called x (called.subset hx), record := hrecord }

/-- A cover of another market is put aside, or the bid is. A payment would find the record of
no position, and fail. -/
theorem Plain.cover_dropped (hm : Setting m) (hs : Synced m e) (hbid : e.currentBid = some bid)
    (hcover : ask.type = .coverOrder) (hmatch : matchPair m e bid ask = .ok (some e')) :
    judge m e bid ask = .ok .skipBid ∧ e' = { e with currentBid := none } ∨
      judge m e bid ask = .ok .skipAsk ∧ e' = { e with currentAsk := none } := by
  have hisBid := h.bid bid hbid
  rcases MarketWrites.matchPair_ok hmatch with ⟨t, -, hrecord⟩ | hskip
  · obtain ⟨d', mtrx, _, _, _, _, htrade, -⟩ := recordTrade_ok hrecord
    rcases trade_cases htrade with ⟨-, hshort, -⟩ | ⟨-, -, htrade⟩ | ⟨hother, -⟩ | ⟨hother, -⟩ |
      ⟨hother, -⟩
    · rcases hisBid with hisBid | hisBid <;> cases hisBid.symm.trans hshort
    · obtain ⟨forSale, exchanged, paid, d, -, -, hbidPays, hcoverPays⟩ := tradeCoverBid_ok htrade
      obtain ⟨-, -, rfl⟩ := payCurrentBid_ok hm.current hs.quoteFees hbidPays
      simp only [Market.payCurrentCover, eq_ok_iff] at hcoverPays
      obtain ⟨-, -, -, -, -, hrate, -⟩ := hcoverPays
      change e.currentCollatRecord.interestRate.baseAssetId <
        e.currentCollatRecord.interestRate.quoteAssetId at hrate
      rw [h.record] at hrate
      exact absurd hrate (lt_irrefl _)
    · rcases hother with hother | hother <;> cases hcover.symm.trans hother
    · rcases hother with hother | hother <;> cases hcover.symm.trans hother
    · exact absurd ⟨hcover, Or.inr hisBid⟩ hother
  · exact hskip

end

end Bts.Blockchain.PlainBooks
