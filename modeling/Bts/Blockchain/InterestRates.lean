import Bts.Blockchain.AssetHistory
import Bts.Blockchain.ChainRuns
import Bts.Blockchain.Interest
import Bts.Blockchain.MarketEffects
import Bts.Blockchain.Positions

/-!
The interest rates of short orders and positions. A rate enters the chain with a short
operation, and the positions that the market opens and the operations that change them hand
it on.
-/

namespace Bts.Blockchain.InterestRates

open Base Result Exec Word Maps Overlay Runs Amounts Records MarketRecords Transactions
  Pending Database Layers Rules Evaluation Effects ExtendChain HeaderChecks ApplySpec MarketEngine
  MarketMatch MarketExecute MarketEffects MarketBooks BlockParts ChainRuns Interest AssetEffects MarketWrites

section Model

variable [Fc] {P : Price → Prop} {m : Market} {e e' : EngineState} {bid ask : MarketOrder}
  {mtrx mtrx' : MarketTransaction} {l l' : PendingState} {prev : ChainInterface}

structure Rated (P : Price → Prop) (c : ChainInterface) : Prop where
  shorts : Holdings.shorts.All (fun key _ => P key.orderPrice) c
  positions : Holdings.positions.All (fun _ r => P r.interestRate) c

theorem Rated.keep (h : Rated P (.pending l prev)) (hshorts : l'.shorts = l.shorts)
    (hcollateral : l'.collateral = l.collateral) : Rated P (.pending l' prev) :=
  ⟨h.shorts.keep hshorts, h.positions.keep hcollateral⟩

theorem Rated.storeShort (h : Rated P (.pending l prev)) {key : MarketIndexKey}
    (hkey : P key.orderPrice) (r : OrderRecord) :
    Rated P (.pending (l.storeShortRecord key r) prev) :=
  ⟨h.shorts.store rfl hkey, h.positions.keep rfl⟩

theorem Rated.storeCollateral (h : Rated P (.pending l prev)) (key : MarketIndexKey)
    {r : CollateralRecord} (hr : P r.interestRate) :
    Rated P (.pending (l.storeCollateralRecord key r) prev) :=
  ⟨h.shorts.keep rfl, h.positions.store rfl hr⟩

/-- The rates in the books, of the entries that the engine has still to visit and of the
orders at hand. -/
structure RatedEngine (P : Price → Prop) (m : Market) (e : EngineState) : Prop where
  books : Rated P (m.pendingState e)
  shorts : ∀ x ∈ e.shortItr, P x.1.orderPrice
  positions : ∀ x ∈ e.collateralItr, P x.2.interestRate
  bid : ∀ bid ∈ e.currentBid, bid.type = .shortOrder → P bid.marketIndex.orderPrice
  hand : P e.currentCollatRecord.interestRate

section

variable (h : RatedEngine P m e)
include h

theorem RatedEngine.sought (hsought : Sought e e') : RatedEngine P m e' := by
  refine ⟨?_, fun x hx => h.shorts x (hsought.shorts hx),
    fun x hx => h.positions x (hsought.positions hx), fun bid hbid htype => ?_, ?_⟩
  · unfold Market.pendingState
    rw [layer_of_held (congrArg Prod.fst hsought.kept)]
    exact h.books
  · rcases hsought.bid bid hbid htype with hold | ⟨x, hx, hindex⟩
    · exact h.bid bid hold htype
    · rw [hindex]
      exact h.shorts x hx
  · rcases hsought.hand with hold | ⟨x, hx, hrecord⟩
    · rw [hold]
      exact h.hand
    · rw [hrecord]
      exact h.positions x hx

theorem payOut_rated (owner : Nat) (assetId amount : Int) :
    RatedEngine P m (m.payOut e owner assetId amount) :=
  ⟨h.books.keep rfl rfl, h.shorts, h.positions, h.bid, h.hand⟩

theorem storeOrder_rated (order : MarketOrder) : RatedEngine P m (Market.storeOrder e order) := by
  have hbooks : Rated P (m.pendingState (Market.storeOrder e order)) := by
    refine h.books.keep ?_ ?_ <;>
    · unfold Market.storeOrder
      cases order.type <;> rfl
  exact ⟨hbooks, h.shorts, h.positions, h.bid, h.hand⟩

theorem payCurrentBid_rated (hpay : m.payCurrentBid e bid mtrx = .ok e') : RatedEngine P m e' := by
  simp only [Market.payCurrentBid, eq_ok_iff] at hpay
  obtain ⟨-, htype, -, -, -, -, quantity, -, price, -, rest, -, hpay⟩ := hpay
  have hpaid := payOut_rated h mtrx.bidOwner m.baseId mtrx.bidReceived.amount
  have hnot : bid.type ≠ .shortOrder := by
    rintro hshort
    rw [hshort] at htype
    rcases htype with htype | htype <;> cases htype
  have hrest {b : MarketOrder} (hb : b.type = bid.type) :
      ∀ c ∈ some b, c.type = .shortOrder → P c.marketIndex.orderPrice := by
    rintro c hc htype
    cases hc
    rw [hb] at htype
    exact absurd htype hnot
  split at hpay
  · cases hpay
    refine storeOrder_rated ?_ _
    exact ⟨hpaid.books, hpaid.shorts, hpaid.positions, hrest rfl, hpaid.hand⟩
  · cases hpay
    refine storeOrder_rated ?_ _
    exact ⟨hpaid.books, hpaid.shorts, hpaid.positions, hrest rfl, hpaid.hand⟩

theorem payCurrentAsk_rated {toQuote : Bool}
    (hpay : m.payCurrentAsk e ask mtrx toQuote = .ok e') : RatedEngine P m e' := by
  simp only [Market.payCurrentAsk, bind_eq_ok] at hpay
  obtain ⟨-, -, -, -, -, -, quantity, -, price, -, rest, -, hpay⟩ := hpay
  have hpaid := payOut_rated h mtrx.askOwner m.quoteId mtrx.askReceived.amount
  split at hpay
  · cases hpay
    refine storeOrder_rated ?_ _
    exact ⟨hpaid.books, hpaid.shorts, hpaid.positions, hpaid.bid, hpaid.hand⟩
  · cases hpay
    refine storeOrder_rated ?_ _
    exact ⟨hpaid.books, hpaid.shorts, hpaid.positions, hpaid.bid, hpaid.hand⟩

theorem payCurrentShort_rated
    (hbid : bid.type = .shortOrder → P bid.marketIndex.orderPrice)
    (hpay : m.payCurrentShort e bid mtrx = .ok (e', mtrx')) : RatedEngine P m e' := by
  obtain ⟨htype, collateral, sc, -, -, -, hcases⟩ := payCurrentShort_ok hpay
  have hrate := hbid htype
  have hrest : ∀ b ∈ some (withBalance bid (int64 (bid.state.balance - sc.amount))),
      b.type = .shortOrder → P b.marketIndex.orderPrice := by
    rintro b hb -
    cases hb
    exact hrate
  rcases hcases with ⟨-, rfl⟩ | ⟨-, -, key, total, -, -, -, -, -, rfl⟩
  · exact ⟨h.books, h.shorts, h.positions, hrest, h.hand⟩
  · refine ⟨?_, h.shorts, h.positions, hrest, h.hand⟩
    exact Rated.storeShort (Rated.storeCollateral h.books key hrate) hrate _

theorem payCurrentCover_rated
    (hpay : m.payCurrentCover e ask mtrx = .ok (e', mtrx')) : RatedEngine P m e' := by
  obtain ⟨-, expiration, debt, payment, old, -, -, -, -, -, -, -, -, hcases⟩ := payCurrentCover_ok hpay
  rcases hcases with ⟨-, rfl, -⟩ | ⟨-, -, charged, returned, -, rfl, -⟩
  · exact ⟨h.books.storeCollateral _ h.hand, h.shorts, h.positions, h.bid, h.hand⟩
  · have hredeemed : RatedEngine P m { e with
        quoteAsset := redeem e.quoteAsset payment (unpaid (coverRest old mtrx) payment) } :=
      ⟨h.books, h.shorts, h.positions, h.bid, h.hand⟩
    have hpaid := payOut_rated hredeemed ask.getOwner m.baseId returned
    exact ⟨hpaid.books.storeCollateral _ h.hand, h.shorts, h.positions, h.bid, h.hand⟩

theorem trade_rated
    (hbid : bid.type = .shortOrder → P bid.marketIndex.orderPrice)
    (htrade : trade m e bid ask mtrx = .ok (e', mtrx')) : RatedEngine P m e' :=
  trade_keeps (fun _ _ _ hpay hd => payCurrentBid_rated hd hpay)
    (fun _ _ _ _ hpay hd => payCurrentShort_rated hd hbid hpay)
    (fun _ _ _ _ hpay hd => payCurrentAsk_rated hd hpay)
    (fun _ _ _ _ hpay hd => payCurrentCover_rated hd hpay) htrade h

theorem collectFees_rated (mtrx : MarketTransaction) : RatedEngine P m (collectFees e mtrx) := by
  unfold collectFees
  split
  · exact ⟨h.books, h.shorts, h.positions, h.bid, h.hand⟩
  split
  · exact ⟨h.books, h.shorts, h.positions, h.bid, h.hand⟩
  · exact h

theorem matchPair_rated
    (hbid : bid.type = .shortOrder → P bid.marketIndex.orderPrice)
    (hmatch : matchPair m e bid ask = .ok (some e')) : RatedEngine P m e' := by
  rcases matchPair_ok hmatch with ⟨mtrx, -, hrecord⟩ | ⟨-, rfl⟩ | ⟨-, rfl⟩
  · simp only [recordTrade, Market.pushMarketTransaction, eq_ok_iff] at hrecord
    obtain ⟨⟨d, mtrx'⟩, htrade, pushed, ⟨-, -, rfl⟩, volume, -, rfl⟩ := hrecord
    have hd := trade_rated h hbid htrade
    refine collectFees_rated ?_ _
    exact ⟨hd.books, hd.shorts, hd.positions, hd.bid, hd.hand⟩
  · exact ⟨h.books, h.shorts, h.positions, fun b hb => absurd hb (Option.not_mem_none b), h.hand⟩
  · exact ⟨h.books, h.shorts, h.positions, h.bid, h.hand⟩

theorem matchMarket_rated (hmatch : matchMarket m e = .ok e') : RatedEngine P m e' := by
  refine matchMarket_keeps (fun d d' hsought hd => hd.sought hsought) ?_ hmatch h
  intro d u next bid ask hu hcurrent hd hpass
  exact matchPair_rated hd (hu.bid bid hcurrent) hpass

end

section Block

variable {db db' : ChainDatabase} {block : FullBlock} {signee : Nat} {s : EvaluationState}

theorem openMarket_rated {prior : ChainInterface} {quoteId baseId : Int} (hzero : P {})
    (hopen : openMarket prior quoteId baseId = .ok (m, e)) (hprior : Rated P prior)
    (hroot : Rated P (.database prior.root)) : RatedEngine P m e := by
  have hopened := openMarket_ok hopen
  have hhand : e.currentCollatRecord = {} := by
    simp only [openMarket, openBooks, eq_ok_iff, Prod.mk.injEq] at hopen
    obtain ⟨_, ⟨-, -, -, -, -, -, -, -, -, -, -, -, rfl⟩, -, -, -, rfl⟩ := hopen
    rfl
  refine ⟨?_, fun x hx => ?_, fun x hx => ?_, fun b hb => ?_, ?_⟩
  · unfold Market.pendingState
    rw [hopened.layer, hopened.below]
    exact ⟨fun k r hk => hprior.shorts k r ((congrFun (Holdings.shorts.get_blank prior rfl) k).symm.trans hk),
      fun k r hk => hprior.positions k r
        ((congrFun (Holdings.positions.get_blank prior rfl) k).symm.trans hk)⟩
  · exact hroot.shorts x.1 x.2 (hopened.shorts.stored x hx trivial)
  · exact hroot.positions x.1 x.2 (hopened.positions.stored x hx trivial)
  · rw [hopened.currentBid] at hb
    cases hb
  · rw [hhand]
    exact hzero

theorem execute_rated {quoteId baseId : Int} {timestamp : Nat} {trxs : List MarketTransaction}
    (hzero : P {}) (h : execute l prev quoteId baseId timestamp = .ok (l', trxs))
    (hl : Rated P (.pending l prev)) (hroot : Rated P (.database prev.root)) :
    Rated P (.pending l' prev) := by
  rcases execute_cases h with ⟨status, rfl⟩ | ⟨m, e, hopen, hrun⟩
  · exact hl.keep rfl rfl
  · obtain ⟨d, hmatch, hleft⟩ := runAndApply_left hopen hrun
    have hd := (matchMarket_rated (openMarket_rated hzero hopen hl hroot) hmatch).books
    refine ⟨fun k r hk => hd.shorts k r ?_, fun k r hk => hd.positions k r ?_⟩
    · rw [← hleft.shorts]
      exact hk
    · rw [← hleft.positions]
      exact hk

theorem executeMarkets_rated {timestamp : Nat} (hzero : P {})
    (h : executeMarkets db l timestamp = .ok l') (hl : Rated P (.pending l (.database db)))
    (hdb : Rated P (.database db)) : Rated P (.pending l' (.database db)) := by
  refine executeMarkets_keeps (I := fun u => Rated P (.pending u (.database db))) ?_ ?_ h hl
  · intro u u' quoteId baseId trxs _ hexecute hu
    exact execute_rated hzero hexecute hu hdb
  · intro u trxs hu
    exact hu.keep rfl rfl

def shortRate : Operation → Option Price
  | .short op => some op.shortIndex.orderPrice
  | _ => none

def ShortsWith (P : Price → Prop) (op : Operation) : Prop := ∀ rate ∈ shortRate op, P rate

instance (P : Price → Prop) [DecidablePred P] (op : Operation) : Decidable (ShortsWith P op) :=
  inferInstanceAs (Decidable (∀ rate ∈ _, _))

theorem effect_rated {op : Operation} (hzero : P {}) (h : Effect s op l)
    (hs : Rated P s.currentState) (hop : ShortsWith P op) : Rated P (.pending l s.prev) := by
  have hstored (a : AssetRecord) : Rated P (.pending (s.layer.storeAssetRecord a) s.prev) :=
    hs.keep rfl rfl
  cases h with
  | short op r => exact hs.storeShort (hop _ rfl) r
  | coverPaid op a old payment known position =>
    exact (hstored _).storeCollateral _ hzero
  | coverLeft op a old payment index known position =>
    exact ((hstored _).storeCollateral _ hzero).storeCollateral _ (hs.positions _ old position)
  | addCollateral op old price position =>
    exact (hs.storeCollateral _ hzero).storeCollateral _ (hs.positions _ old position)
  | registerAccount op id r layer stored =>
    obtain ⟨_, _, _, rfl⟩ := storeAccountRecord_ok stored
    exact hs.keep rfl rfl
  | updateAccount op r layer stored | withdrawPay op r layer stored
  | updateBlockSigningKey op r layer stored =>
    obtain ⟨_, _, _, rfl⟩ := storeAccountRecord_ok stored
    exact hs.keep rfl rfl
  | _ => exact hs.keep rfl rfl

/-- All short orders of a block have rates that satisfy `P`. -/
def BlockShortsWith (P : Price → Prop) (block : FullBlock) : Prop :=
  ∀ trx ∈ block.userTransactions, ∀ op ∈ trx.operations, ShortsWith P op

instance (P : Price → Prop) [DecidablePred P] (block : FullBlock) :
    Decidable (BlockShortsWith P block) := inferInstanceAs (Decidable (∀ trx ∈ _, _))

theorem applyTransactions_rated (hzero : P {}) (h : applyTransactions db block l = .ok l')
    (hl : Rated P (.pending l (.database db))) (hblock : BlockShortsWith P block) :
    Rated P (.pending l' (.database db)) := by
  refine applyTransactions_keeps (I := fun u => Rated P (.pending u (.database db))) ?_ ?_ ?_ h hl
  · intro trx htrx op hop u v hprev heffect hu
    rw [← hprev] at hu ⊢
    exact effect_rated hzero heffect hu (hblock trx htrx op hop)
  · intro u v hstep hu
    cases hstep with
    | fee a fees known => exact hu.keep rfl rfl
    | votes _ r stored =>
      obtain ⟨_, _, _, rfl⟩ := storeAccountRecord_ok stored
      exact hu.keep rfl rfl
  · intro u transactions unique hu
    exact hu.keep rfl rfl

theorem spared_rates : Spared fun l => (l.shorts, l.collateral) where
  account h := by
    obtain ⟨_, _, _, rfl⟩ := storeAccountRecord_ok h
    rfl
  asset _ _ := rfl
  slot _ _ := rfl
  property _ _ _ := rfl

theorem blockLayers_rated {produced paid middle applied layer : PendingState} (hzero : P {})
    (h : BlockLayers block db signee produced paid middle applied layer)
    (hdb : Rated P (.database db)) (hblock : BlockShortsWith P block) :
    Rated P (.pending layer (.database db)) := by
  have hspared := h.spared spared_rates
  rw [Prod.mk.injEq] at hspared
  have hblank : Rated P (.pending {} (.database db)) := by
    refine ⟨fun k r hk => hdb.shorts k r ?_, fun k r hk => hdb.positions k r ?_⟩
    · exact (congrFun (Holdings.shorts.get_blank (.database db) rfl) k).symm.trans hk
    · exact (congrFun (Holdings.positions.get_blank (.database db) rfl) k).symm.trans hk
  have hpaid := hblank.keep hspared.1 hspared.2
  have happlied : Rated P (.pending applied (.database db)) := by
    have hfills := h.fills
    unfold Filled at hfills
    split_ifs at hfills
    · exact executeMarkets_rated hzero hfills.2 (applyTransactions_rated hzero hfills.1 hpaid hblock) hdb
    · exact applyTransactions_rated hzero hfills.2 (executeMarkets_rated hzero hfills.1 hpaid hdb) hblock
  obtain ⟨properties, rfl, -⟩ := h.finishes
  exact happlied.keep rfl rfl

theorem applied_rated {d : ChainDatabase} (h : Applied l db d)
    (hl : Rated P (.pending l (.database db))) : Rated P (.database d) := by
  refine ⟨fun k r hk => hl.shorts k r ?_, fun k r hk => hl.positions k r ?_⟩
  · exact or_of_overlay ((h.shorts k).symm.trans hk)
  · exact or_of_overlay ((h.collateral k).symm.trans hk)

theorem Rated.database (h : Rated P (.database db)) (hshorts : db'.shortDb = db.shortDb)
    (hcollateral : db'.collateralDb = db.collateralDb) : Rated P (.database db') := by
  refine ⟨fun k r hk => h.shorts k r ?_, fun k r hk => h.positions k r ?_⟩
  · exact (congrArg (fun map => map.lookup k) hshorts).symm.trans hk
  · exact (congrArg (fun map => map.lookup k) hcollateral).symm.trans hk

theorem extendChain_rated (hzero : P {}) (h : extendChain block db = .ok () db')
    (hdb : Rated P (.database db)) (hblock : BlockShortsWith P block) :
    Rated P (.database db') := by
  obtain ⟨signee, produced, paid, middle, applied, layer, d, u, hlayers, ⟨_, _, _, rfl⟩, happlied,
    ⟨forks, numbers, rfl⟩⟩ := extendChain_parts h
  have hlayer := blockLayers_rated hzero hlayers hdb hblock
  have hu : Rated P (.database u) := applied_rated happlied ⟨hlayer.shorts, hlayer.positions⟩
  exact hu.database rfl rfl

theorem rated_run {blocks : List FullBlock} (hzero : P {})
    (hblocks : Meets grow (fun block d => returns (advance block d) ∧ BlockShortsWith P block) blocks db)
    (hdb : Rated P (.database db)) : Rated P (.database (run grow blocks db)) := by
  refine Meets.keeps (I := fun d => Rated P (.database d)) ?_ hblocks hdb
  rintro block d ⟨haccepted, hblock⟩ hd
  obtain ⟨u, ⟨_, _, _, _, rfl⟩, hextend⟩ := grow_ok haccepted
  exact extendChain_rated hzero hextend (hd.database rfl rfl) hblock

end Block

/-- A rate that a short order or a position of the chain has. -/
def RateIn (c : ChainInterface) (rate : Price) : Prop :=
  (∃ key r, Holdings.shorts.get c key = some r ∧ key.orderPrice = rate) ∨
    ∃ key r, Holdings.positions.get c key = some r ∧ r.interestRate = rate

theorem Rated.rateIn {c : ChainInterface} {rate : Price} (h : Rated P c) (hrate : RateIn c rate) :
    P rate := by
  rcases hrate with ⟨key, r, hr, rfl⟩ | ⟨key, r, hr, rfl⟩
  · exact h.shorts key r hr
  · exact h.positions key r hr

/-- Less than 1000 percent in the unit of `get_interest_owed`. -/
def Moderate (rate : Price) : Prop := (rate.ratio : Int) < 10 * pricePrecision
  deriving Decidable

omit [Fc] in
theorem yearsOf_year : yearsOf secondsPerYear = realPrecision := by decide +kernel

omit [Fc] in
theorem owedAmount_year (principle : Nat) (rate : Price) :
    owedAmount principle rate secondsPerYear = principle * yearlyRate rate / realPrecision := by
  unfold owedAmount
  rw [yearsOf_year, Nat.mul_div_cancel _ realPrecision_pos]

omit [Fc] in
theorem owedAmount_year_lt_iff {principle : Nat} (hpos : 0 < principle) (rate : Price) :
    owedAmount principle rate secondsPerYear < 10 * principle ↔ Moderate rate := by
  have hmoderate : Moderate rate ↔ yearlyRate rate < 10 * realPrecision := by
    unfold Moderate yearlyRate pricePrecision realPrecision
    omega
  have hscale : 10 * principle * realPrecision = principle * (10 * realPrecision) := by ring
  rw [owedAmount_year, Nat.div_lt_iff_lt_mul realPrecision_pos, hscale, hmoderate]
  exact Nat.mul_lt_mul_left hpos

theorem getInterestOwed_le (hreal : TruncatesReals) {rate : Price}
    (hrate : rate.ratio / 1000 < 2 ^ 63) {principle age : Nat} (hage : age < 2 ^ 64) {a : Int}
    {r : Asset} (h : getInterestOwed ⟨principle, a⟩ rate age = .ok r) :
    r.amount ≤ owedAmount principle rate age := by
  unfold getInterestOwed at h
  simp only [multiply_rate hrate, eq_ok_iff] at h
  obtain ⟨rate', hrate', owed, howed, rfl⟩ := h
  cases hrate'
  have hle := realInterestOwed_le hreal hrate hage principle
  rw [hreal.toUint64] at howed
  unfold toUint64 at howed
  split at howed
  · cases howed
    have hwrap : int64 _ ≤ _ := int64_le (Int.natCast_nonneg (Fixed.floor realPrecision
      (realInterestOwed principle (rate.ratio / 1000 : Nat) age)))
    exact hwrap.trans (Int.ofNat_le.mpr hle)
  · cases howed

omit [Fc] in
theorem yearly_interest_le {principle : Nat} {rate : Price} (hmax : (principle : Int) ≤ maxShares)
    (hrate : rate.ratio < 10 * 2 ^ 64) : principle * yearlyRate rate ≤ 10 ^ 15 * (10 * 2 ^ 64) := by
  have hyear : yearlyRate rate ≤ 10 * 2 ^ 64 := by
    unfold yearlyRate
    omega
  unfold maxShares at hmax
  exact Nat.mul_le_mul (by omega) hyear

/-- In a run of blocks whose short orders have moderate rates, a year on any debt costs less
than ten times the debt at the rate of every short order and of every position. A rate that
`short_operation` accepts has this property exactly if it is moderate. -/
theorem short_rates_moderate {blocks : List FullBlock} {db : ChainDatabase} (hreal : TruncatesReals)
    (hdb : Rated Moderate (.database db))
    (hblocks : Meets grow (fun block d => returns (advance block d) ∧ BlockShortsWith Moderate block)
      blocks db) :
    (∀ n rate, RateIn (.database (run grow (blocks.take n) db)) rate →
      ∀ (principle a : Int) (r : Asset), 1 ≤ principle →
        getInterestOwed ⟨principle, a⟩ rate secondsPerYear = .ok r → r.amount < 10 * principle) ∧
    ∀ (rate : Price) (principle a : Int), rate.ratio < 10 * 2 ^ 64 → 1 ≤ principle →
      principle ≤ maxShares → ∃ owed : Int,
        getInterestOwed ⟨principle, a⟩ rate secondsPerYear = .ok ⟨owed, a⟩ ∧
          (owed < 10 * principle ↔ Moderate rate) := by
  constructor
  · intro n rate hrate principle a r hpos howed
    have hrun := rated_run (by decide) (hblocks.take n) hdb
    have hmoderate := hrun.rateIn hrate
    lift principle to Nat using by omega
    have hle := getInterestOwed_le hreal (by unfold Moderate pricePrecision at hmoderate; omega) (by decide) howed
    have hlt := (owedAmount_year_lt_iff (show 0 < principle by omega) rate).mpr hmoderate
    omega
  · intro rate principle a hrate hpos hmax
    lift principle to Nat using by omega
    have hle := yearly_interest_le hmax hrate
    have hfits : owedAmount principle rate secondsPerYear < 2 ^ 63 := by
      rw [owedAmount_year, Nat.div_lt_iff_lt_mul realPrecision_pos]
      exact hle.trans_lt (by decide)
    unfold maxShares at hmax
    refine ⟨owedAmount principle rate secondsPerYear, getInterestOwed_eq hreal (by omega)
      yearsOf_year.le (by omega) (hle.trans_lt (by decide)) a hfits, ?_⟩
    rw [← owedAmount_year_lt_iff (show 0 < principle by omega) rate]
    omega

end Model

def ratesChain : @ChainDatabase Fc.plain :=
  letI := Fc.plain
  { headChain headNum with
    assetDb := (Table.empty.store (Genesis.baseAsset 50 1000)).store
      { id := 1, symbol := "USD", issuerAccountId := AssetRecord.marketIssuerId
        maximumShareSupply := 1000 }
    balanceDb := Table.empty.store
      { condition := { assetId := 0, data := .signature 9 none }, balance := 100 } }

def shortBlock (ratio : Nat) : FullBlock where
  previous := 5
  blockNum := headNum + 1
  timestamp := 1010
  transactionDigest := 1
  delegateSignature := 7
  userTransactions := [
    { expiration := 1100
      operations := [.withdraw ⟨9000, 10, []⟩,
        .short { amount := 10, shortIndex := { orderPrice := ⟨ratio, 0, 1⟩, owner := 9 } }]
      signatures := [9] }]

def shortKey (ratio : Nat) : MarketIndexKey := { orderPrice := ⟨ratio, 0, 1⟩, owner := 9 }

theorem short_rates_moderate_hundred :
    letI := Fc.plain
    RateIn (.database (run grow [shortBlock 1000000000000000000] ratesChain))
        ⟨1000000000000000000, 0, 1⟩ ∧
      ∀ r, getInterestOwed ⟨100, 1⟩ ⟨1000000000000000000, 0, 1⟩ secondsPerYear = .ok r →
        r.amount < 1000 := by
  let := Fc.plain
  have hdb : Rated Moderate (.database ratesChain) := ⟨by decide +kernel, by decide +kernel⟩
  have hblocks : Meets grow (fun block d => returns (advance block d) ∧
      BlockShortsWith Moderate block) [shortBlock 1000000000000000000] ratesChain := by
    decide +kernel
  have hshort : (Holdings.shorts.get (.database (run grow [shortBlock 1000000000000000000]
      ratesChain)) (shortKey 1000000000000000000)).isSome := by
    decide +kernel
  obtain ⟨r, hr⟩ := Option.isSome_iff_exists.mp hshort
  have hrate : RateIn (.database (run grow [shortBlock 1000000000000000000] ratesChain))
      ⟨1000000000000000000, 0, 1⟩ := Or.inl ⟨shortKey 1000000000000000000, r, hr, rfl⟩
  exact ⟨hrate, fun r howed =>
    (short_rates_moderate truncatesReals_plain hdb hblocks).1 1 _ hrate 100 1 r (by decide) howed⟩

/-- An accepted short order at 10000 percent: a year on a debt of 100 costs 10000. -/
theorem short_rate_accepted_above :
    letI := Fc.plain
    Meets grow (fun block d => returns (advance block d)) [shortBlock 100000000000000000000]
        ratesChain ∧
      (Holdings.shorts.get (.database (run grow [shortBlock 100000000000000000000] ratesChain))
        (shortKey 100000000000000000000)).isSome ∧
      getInterestOwed ⟨100, 1⟩ (shortKey 100000000000000000000).orderPrice secondsPerYear =
        .ok ⟨10000, 1⟩ := by
  let := Fc.plain
  decide +kernel

end Bts.Blockchain.InterestRates
