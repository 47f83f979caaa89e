import Bts.Blockchain.MarketPasses

namespace Bts.Blockchain.MarketCovers

open Base Result Word Errors Amounts MarketRecords Transactions Layers MarketEngine MarketLoop
  MarketBooks MarketEffects MarketTrades MarketSync MarketPasses Holdings

variable [Fc]

/-- The keys of the covers that the iterators have still to visit. A called position is
taken from the one iterator, and another one from the index of the expirations once it has
expired. -/
def ToVisit (m : Market) (e : EngineState) (key : MarketIndexKey) : Prop :=
  (m.isAboveFeed key ∧ key ∈ e.collateralItr.map Prod.fst) ∨
    (¬ m.isAboveFeed key ∧ ∃ x ∈ e.collateralExpirationItr,
      x.key = key ∧ x.quoteId = m.quoteId ∧ x.expiration ≤ m.now)
  deriving Decidable

variable {R : CollateralRecord → CollateralRecord → Prop}
  {S : MarketOrder → CollateralRecord → CollateralRecord → Prop}

/-- The positions that the engine visits and the ones that are stored under their keys are
related by `R`, and the cover at hand and its record to the stored one by `S`. -/
structure Covers (R : CollateralRecord → CollateralRecord → Prop)
    (S : MarketOrder → CollateralRecord → CollateralRecord → Prop) (m : Market) (e : EngineState) :
    Prop where
  called : ∀ x ∈ e.collateralItr, m.isPair x.1.orderPrice → m.isAboveFeed x.1 →
    ∃ r, positions.get (m.pendingState e) x.1 = some r ∧ R x.2 r
  expired : ∀ x ∈ e.collateralExpirationItr, x.quoteId = m.quoteId → x.expiration ≤ m.now →
    ¬ m.isAboveFeed x.key → ∀ old, m.prior.root.collateralDb.lookup x.key = some old →
      ∃ r, positions.get (m.pendingState e) x.key = some r ∧ R old r
  calledOnce : (e.collateralItr.map Prod.fst).Nodup
  expiredOnce : (e.collateralExpirationItr.map ExpirationIndex.key).Nodup
  current : ∀ ask ∈ e.currentAsk, ask.type = .coverOrder → ¬ ToVisit m e ask.marketIndex ∧
    ∃ r, positions.get (m.pendingState e) ask.marketIndex = some r ∧ S ask e.currentCollatRecord r

def settled (r : CollateralRecord) (collateral owed : Int) : CollateralRecord :=
  { r with collateralBalance := collateral, payoffBalance := owed }

def settledOrder (ask : MarketOrder) (collateral owed : Int) : MarketOrder :=
  { withBalance ask owed with collateral := some collateral }

/-- How a relation of the visited positions becomes one of the cover at hand. -/
structure Reading (R : CollateralRecord → CollateralRecord → Prop)
    (S : MarketOrder → CollateralRecord → CollateralRecord → Prop) : Prop where
  called : ∀ key r r', R r r' → S (Market.coverOrder key r) r r'
  settled : ∀ ask r collateral owed, 0 ≤ collateral → 0 ≤ owed →
    S (settledOrder ask collateral owed) (settled r collateral owed) (settled r collateral owed)

variable {m : Market} {e e' d : EngineState} {bid ask : MarketOrder}
  {mtrx mtrx' : MarketTransaction} {key : MarketIndexKey} {t : MarketTransaction}

theorem ToVisit.of_sublist (h : ToVisit m e' key)
    (hcalled : e'.collateralItr.Sublist e.collateralItr)
    (hexpired : e'.collateralExpirationItr.Sublist e.collateralExpirationItr) :
    ToVisit m e key := by
  rcases h with ⟨habove, hmem⟩ | ⟨hbelow, x, hx, hentry⟩
  · exact Or.inl ⟨habove, (hcalled.map _).subset hmem⟩
  · exact Or.inr ⟨hbelow, x, hexpired.subset hx, hentry⟩

theorem Covers.frame (h : Covers R S m e) (hcollateral : d.layer.collateral = e.layer.collateral)
    (hcalled : d.collateralItr.Sublist e.collateralItr)
    (hexpired : d.collateralExpirationItr.Sublist e.collateralExpirationItr)
    (hcurrent : ∀ ask ∈ d.currentAsk, ask.type = .coverOrder → ¬ ToVisit m d ask.marketIndex ∧
      ∃ r, positions.get (m.pendingState e) ask.marketIndex = some r ∧
        S ask d.currentCollatRecord r) : Covers R S m d := by
  have hview := Shelf.get_congr Holdings.positions m.prior hcollateral
  refine ⟨fun x hx => ?_, fun x hx => ?_, h.calledOnce.sublist (hcalled.map _),
    h.expiredOnce.sublist (hexpired.map _), fun ask hask htype => ?_⟩
  · rw [Market.pendingState, hview]
    exact h.called x (hcalled.subset hx)
  · rw [Market.pendingState, hview]
    exact h.expired x (hexpired.subset hx)
  · rw [Market.pendingState, hview]
    exact hcurrent ask hask htype

theorem Covers.same (h : Covers R S m e) (hcollateral : d.layer.collateral = e.layer.collateral)
    (hcalled : d.collateralItr = e.collateralItr)
    (hexpired : d.collateralExpirationItr = e.collateralExpirationItr)
    (hask : d.currentAsk = e.currentAsk)
    (hrecord : d.currentCollatRecord = e.currentCollatRecord) : Covers R S m d := by
  refine h.frame hcollateral (by rw [hcalled]) (by rw [hexpired]) fun ask hmem htype => ?_
  rw [hask] at hmem
  rw [hrecord]
  obtain ⟨hvisit, hstored⟩ := h.current ask hmem htype
  exact ⟨fun hto => hvisit (hto.of_sublist (by rw [hcalled]) (by rw [hexpired])), hstored⟩

theorem opened_covers {prior : ChainInterface} {quoteId baseId : Int}
    (h : Opened prior quoteId baseId m e) (hbook : CoverBook prior quoteId baseId)
    (hR : ∀ k r, OfMarket quoteId baseId k → positions.get prior k = some r → R r r) :
    Covers R S m e := by
  obtain ⟨rfl, rfl, rfl⟩ : m.quoteId = quoteId ∧ m.baseId = baseId ∧ m.prior = prior :=
    ⟨h.quote, h.base, h.below⟩
  have hview := h.get Holdings.positions rfl
  obtain ⟨l, hsub, hperm⟩ := h.expirations
  refine ⟨fun x hx hpair habove => ?_, fun x hx hquote _ hbelow old hold => ?_, h.positions.nodup,
    ?_, fun a ha => ?_⟩
  · have hstored : positions.get m.prior x.1 = some x.2 :=
      (hbook.positions x.1 hpair).trans (h.positions.stored x hx trivial)
    rw [hview]
    exact ⟨x.2, hstored, hR _ _ hpair hstored⟩
  · have hpair := hbook.expirations x (hsub.subset (hperm.mem_iff.mp hx)) hquote
    have hstored := (hbook.positions x.key hpair).trans hold
    rw [hview]
    exact ⟨old, hstored, hR _ _ hpair hstored⟩
  · exact (hperm.map ExpirationIndex.key).nodup_iff.mpr (hbook.once.sublist (hsub.map _))
  · rw [h.currentAsk] at ha
    cases ha

section

variable (h : Covers R S m e)
include h

theorem Covers.bidTaken
    (ht : BidTaken m { e with ordersFilled := e.ordersFilled + 1, currentBid := none } e') :
    Covers R S m e' := by
  cases ht <;> exact h.same rfl rfl rfl rfl rfl

theorem Covers.askTaken (hread : Reading R S)
    (hexpired : ¬ isCalled m e → ∀ key old r,
      firstExpired m e.collateralExpirationItr = some key →
      m.prior.root.collateralDb.lookup key = some old → R old r →
      S (Market.coverOrder key old) (atHand m e) r)
    (ht : AskTaken m { e with ordersFilled := e.ordersFilled + 1, currentAsk := none } e') :
    Covers R S m e' := by
  cases ht with
  | @called key r rest bid itr pair above =>
    have hitr : e.collateralItr = (key, r) :: rest := itr
    have honce := h.calledOnce
    rw [hitr, List.map_cons, List.nodup_cons] at honce
    have hsub : rest.Sublist e.collateralItr := by
      rw [hitr]
      exact List.sublist_cons_self _ _
    have hmem : (key, r) ∈ e.collateralItr := by
      rw [hitr]
      exact List.mem_cons_self
    refine h.frame rfl hsub (List.Sublist.refl _) ?_
    rintro _ ⟨⟩ -
    obtain ⟨r', hr', hR⟩ := h.called (key, r) hmem pair above
    refine ⟨?_, r', hr', hread.called key r r' hR⟩
    rintro (⟨-, hrest⟩ | ⟨hbelow, -⟩)
    · exact honce.1 hrest
    · exact hbelow above
  | @expired itr skipped rest x r called uncalled first expirations quote expired stored below =>
    have hexp : e.collateralExpirationItr = skipped ++ x :: rest := expirations
    have hsub : (x :: rest).Sublist e.collateralExpirationItr := by
      rw [hexp]
      exact List.sublist_append_right _ _
    have honce := h.expiredOnce.sublist (hsub.map _)
    rw [List.map_cons, List.nodup_cons] at honce
    refine h.frame rfl called ((List.sublist_cons_self _ _).trans hsub) ?_
    rintro _ ⟨⟩ -
    obtain ⟨r', hr', hR⟩ := h.expired x (hsub.subset List.mem_cons_self) quote expired below r stored
    refine ⟨?_, r', hr', hexpired uncalled x.key r r' first stored hR⟩
    rintro (⟨habove, -⟩ | ⟨-, y, hy, hkey, -⟩)
    · exact below habove
    · exact honce.1 (List.mem_map.mpr ⟨y, hy, hkey⟩)
  | ask called passed asks pair =>
    refine h.frame rfl called passed ?_
    rintro _ ⟨⟩ htype
    cases htype
  | none called passed left =>
    refine h.frame rfl called passed ?_
    intro a ha
    cases ha

theorem Covers.storePosition {new : CollateralRecord}
    (hlayer : d.layer.collateral = e.layer.collateral.insert key new)
    (hcalled : d.collateralItr = e.collateralItr)
    (hexpired : d.collateralExpirationItr = e.collateralExpirationItr)
    (hvisit : ToVisit m e key → ∀ old r, positions.get (m.pendingState e) key = some r → R old r →
      R old new)
    (hcurrent : ∀ ask ∈ d.currentAsk, ask.type = .coverOrder → ¬ ToVisit m e ask.marketIndex ∧
      ∃ r, Function.update (positions.get (m.pendingState e)) key (some new) ask.marketIndex =
        some r ∧ S ask d.currentCollatRecord r) : Covers R S m d := by
  have hview := Shelf.get_store Holdings.positions m.prior hlayer
  have hkeep : ∀ k old, ToVisit m e k →
      (∃ r, positions.get (m.pendingState e) k = some r ∧ R old r) →
      ∃ r, Function.update (positions.get (m.pendingState e)) key (some new) k = some r ∧ R old r := by
    rintro k old hk ⟨r, hr, hR⟩
    rw [Function.update_apply]
    split
    next heq =>
      subst heq
      exact ⟨new, rfl, hvisit hk old r hr hR⟩
    next => exact ⟨r, hr, hR⟩
  refine ⟨fun x hx hpair habove => ?_, fun x hx hquote hnow hbelow old hold => ?_, ?_, ?_,
    fun ask hask htype => ?_⟩
  · rw [hcalled] at hx
    rw [Market.pendingState, hview]
    exact hkeep _ _ (Or.inl ⟨habove, List.mem_map_of_mem hx⟩) (h.called x hx hpair habove)
  · rw [hexpired] at hx
    rw [Market.pendingState, hview]
    exact hkeep _ _ (Or.inr ⟨hbelow, x, hx, rfl, hquote, hnow⟩)
      (h.expired x hx hquote hnow hbelow old hold)
  · rw [hcalled]
    exact h.calledOnce
  · rw [hexpired]
    exact h.expiredOnce
  · rw [Market.pendingState, hview]
    obtain ⟨hto, hstored⟩ := hcurrent ask hask htype
    exact ⟨fun hd => hto (hd.of_sublist (by rw [hcalled]) (by rw [hexpired])), hstored⟩

theorem Covers.afterShort {sc total : Asset}
    (hvisit : ToVisit m e key → ∀ old r, positions.get (m.pendingState e) key = some r → R old r →
      R old (openedCover m e bid key total.amount mtrx.bidPaid.amount))
    (hhand : ∀ ask ∈ e.currentAsk, ask.type = .coverOrder → ask.marketIndex = key →
      ∀ r, positions.get (m.pendingState e) key = some r → S ask e.currentCollatRecord r →
      S ask e.currentCollatRecord (openedCover m e bid key total.amount mtrx.bidPaid.amount)) :
    Covers R S m (afterShort m e bid mtrx key sc total) := by
  refine h.storePosition rfl rfl rfl hvisit fun ask hask htype => ?_
  obtain ⟨hto, r, hr, hS⟩ := h.current ask hask htype
  refine ⟨hto, ?_⟩
  rw [Function.update_apply]
  split
  next heq =>
    rw [heq] at hr
    exact ⟨_, rfl, hhand ask hask htype heq r hr hS⟩
  next => exact ⟨r, hr, hS⟩

theorem Covers.settleCover {collateral owed : Int} (hread : Reading R S)
    (hask : e.currentAsk = some ask) (htype : ask.type = .coverOrder) (hcollateral : 0 ≤ collateral)
    (howed : 0 ≤ owed) :
    Covers R S m (settleCover e ask collateral owed) := by
  obtain ⟨hto, -⟩ := h.current ask hask htype
  refine h.storePosition rfl rfl rfl (fun hkey => absurd hkey hto) ?_
  rintro _ ⟨⟩ -
  refine ⟨hto, settled e.currentCollatRecord collateral owed, ?_, hread.settled ask _ _ _ hcollateral howed⟩
  exact Function.update_self ..

theorem Covers.payCurrentBid (hs : Synced m e) (hm : Setting m)
    (hpay : m.payCurrentBid e bid mtrx = .ok d) : Covers R S m d := by
  obtain ⟨htype, -, rfl⟩ := payCurrentBid_ok hm.current hs.quoteFees hpay
  refine h.same ?_ rfl rfl rfl rfl
  unfold afterBid Market.storeOrder withBalance
  rcases htype with htype | htype <;> dsimp only <;> rw [htype] <;> rfl

theorem Covers.payCurrentAsk {toQuote : Bool} (hs : Synced m e)
    (hm : Setting m) (hpay : m.payCurrentAsk e ask mtrx toQuote = .ok d) : Covers R S m d := by
  obtain ⟨htype, -, rfl⟩ := payCurrentAsk_ok hm.current hs.quoteFees hs.baseFees hpay
  refine h.frame ?_ (List.Sublist.refl _) (List.Sublist.refl _) ?_
  · unfold afterAsk Market.storeOrder withBalance
    rcases htype with htype | htype <;> dsimp only <;> rw [htype] <;> rfl
  · rintro _ ⟨⟩ hcover
    rcases htype with htype | htype <;> cases htype.symm.trans hcover

theorem Covers.payCurrentCover (hread : Reading R S)
    (hask : e.currentAsk = some ask) (hpay : m.payCurrentCover e ask mtrx = .ok (d, mtrx')) :
    Covers R S m d := by
  obtain ⟨htype, expiration, debt, payment, old, -, -, -, -, -, hpayoff, -, hrest, hcases⟩ :=
    payCurrentCover_ok hpay
  have howed : 0 ≤ payment.payoffBalance - unpaid (coverRest old mtrx) payment := by
    unfold unpaid
    split <;> omega
  have hredeemed : Covers R S m { e with
      quoteAsset := redeem e.quoteAsset payment (unpaid (coverRest old mtrx) payment) } :=
    h.same rfl rfl rfl rfl rfl
  rcases hcases with ⟨-, rfl, -⟩ | ⟨-, -, charged, returned, -, rfl, -⟩
  · exact hredeemed.settleCover hread hask htype hrest howed
  · have hpaid : Covers R S m (m.payOut { e with
        quoteAsset := redeem e.quoteAsset payment (unpaid (coverRest old mtrx) payment) }
        ask.getOwner m.baseId returned) := hredeemed.same rfl rfl rfl rfl rfl
    exact hpaid.settleCover hread hask htype le_rfl howed

theorem Covers.booked (hbooked : Booked mtrx e e') : Covers R S m e' :=
  h.same (by rw [hbooked.layer]) hbooked.cursors.collateral hbooked.cursors.expirations
    hbooked.currentAsk hbooked.record

end

/-- What the ask at hand receives from a short, and what it pays. -/
def shortTrade (m : Market) (e : EngineState) (bid ask : MarketOrder) (t : MarketTransaction) :
    Except ChainError (Asset × Asset) := do
  let feed ← orThrow m.feedPrice (.assertion "")
  if ask.type = .coverOrder then do
    let forSale ← shortSale feed bid
    coverFill m e ask t forSale
  else shortFill feed bid ask t

def openedKey (m : Market) (e : EngineState) (bid ask : MarketOrder) (t : MarketTransaction) :
    Except ChainError MarketIndexKey := do
  let feed ← orThrow m.feedPrice (.assertion "")
  let (exchanged, paid) ← shortTrade m e bid ask t
  require (0 < exchanged.amount) (.assertion "")
  let balance ← bid.getBalance
  let collateral ← shortStake feed bid exchanged
  let sc ← Market.roundCollateral balance collateral e.baseAsset.precision
  let total ← Asset.add sc paid
  let price ← divide exchanged { total with amount := (int64 (total.amount * 2)).tdiv 3 }
  pure { orderPrice := price, owner := bid.getOwner }

theorem shortTrade_ask {feed : Price} {exchanged paid : Asset} (htype : ask.type = .askOrder)
    (hfeed : m.feedPrice = some feed) (hfill : shortFill feed bid ask t = .ok (exchanged, paid)) :
    shortTrade m e bid ask t = .ok (exchanged, paid) := by
  unfold shortTrade
  rw [hfeed, htype]
  exact hfill

theorem shortTrade_cover {feed : Price} {forSale exchanged paid : Asset}
    (htype : ask.type = .coverOrder) (hfeed : m.feedPrice = some feed)
    (hsale : shortSale feed bid = .ok forSale)
    (hfill : coverFill m e ask t forSale = .ok (exchanged, paid)) :
    shortTrade m e bid ask t = .ok (exchanged, paid) := by
  simp only [shortTrade, eq_ok_iff]
  refine ⟨feed, hfeed, ?_⟩
  rw [if_pos htype, bind_eq_ok]
  exact ⟨forSale, hsale, hfill⟩

theorem openedKey_eq {feed : Price} {exchanged paid collateral sc total : Asset}
    (htype : bid.type = .shortOrder) (hfeed : m.feedPrice = some feed)
    (htrade : shortTrade m e bid ask t = .ok (exchanged, paid)) (hpos : 0 < exchanged.amount)
    (hstake : shortStake feed bid exchanged = .ok collateral)
    (hround : Market.roundCollateral { amount := bid.state.balance
                                       assetId := bid.marketIndex.orderPrice.baseAssetId }
      collateral e.baseAsset.precision = .ok sc) (htotal : Asset.add sc paid = .ok total)
    (howner : key.owner = bid.getOwner)
    (hkey : divide exchanged { total with amount := (int64 (total.amount * 2)).tdiv 3 } =
      .ok key.orderPrice) : openedKey m e bid ask t = .ok key := by
  simp only [openedKey, eq_ok_iff]
  refine ⟨feed, hfeed, (exchanged, paid), htrade, (), hpos, _, getBalance_short htype, collateral,
    hstake, sc, hround, total, htotal, key.orderPrice, hkey, ?_⟩
  rw [← howner]

end Bts.Blockchain.MarketCovers
