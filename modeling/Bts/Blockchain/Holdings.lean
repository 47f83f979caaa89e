import Bts.Base.Totals
import Bts.Blockchain.Layers

namespace Bts.Blockchain.Holdings

open Base Maps Totals Records MarketRecords Transactions Pending Database Layers

variable [Fc] {K V : Type} [DecidableEq K]

/-- Where the records of one kind are kept: in a map of each layer and in one of the
database. -/
structure Shelf (K V : Type) [DecidableEq K] where
  own : PendingState → Map K V
  base : ChainDatabase → Map K V

namespace Shelf

variable (s : Shelf K V) {l l' : PendingState} {prev c : ChainInterface} {k : K} {v : V}

def get (c : ChainInterface) (k : K) : Option V :=
  c.find (fun l => (s.own l).lookup k) fun db => (s.base db).lookup k

def keys : ChainInterface → Finset K
  | .database db => (s.base db).keys.toFinset
  | .pending l prev => (s.own l).keys.toFinset ∪ keys prev

/-- The sum of a weight over the records as they are read through the layers. -/
def held (w : K → V → Int) (c : ChainInterface) : Int := ∑ k ∈ s.keys c, (s.get c k).elim 0 (w k)

theorem get_pending : s.get (.pending l prev) k = ((s.own l).lookup k).or (s.get prev k) := rfl

theorem mem_keys (h : s.get c k ≠ none) : k ∈ s.keys c := by
  induction c with
  | database db =>
    refine List.mem_toFinset.mpr (AList.mem_keys.mp (AList.lookup_isSome.mp ?_))
    exact Option.isSome_iff_ne_none.mpr h
  | pending l prev ih =>
    rw [get_pending] at h
    cases hl : (s.own l).lookup k with
    | none =>
      rw [hl, Option.none_or] at h
      exact Finset.mem_union_right _ (ih h)
    | some v =>
      refine Finset.mem_union_left _ (List.mem_toFinset.mpr (AList.mem_keys.mp ?_))
      exact AList.lookup_isSome.mp (Option.isSome_of_eq_some hl)

theorem finiteKeys (c : ChainInterface) : FiniteKeys (s.get c) := ⟨s.keys c, fun _ => s.mem_keys⟩

theorem held_eq_sumOf (w : K → V → Int) (c : ChainInterface) : s.held w c = sumOf w (s.get c) :=
  (sumOf_eq_sum fun _ => s.mem_keys).symm

theorem get_store (prev : ChainInterface) (h : s.own l' = (s.own l).insert k v) :
    s.get (.pending l' prev) = Function.update (s.get (.pending l prev)) k (some v) := by
  funext j
  rw [get_pending, h, lookup_insert, Function.update_apply, get_pending]
  split
  · rfl
  · rfl

theorem get_congr (prev : ChainInterface) (h : s.own l' = s.own l) :
    s.get (.pending l' prev) = s.get (.pending l prev) := by
  funext j
  rw [get_pending, h, get_pending]

theorem held_store {w : K → V → Int} (h : s.own l' = (s.own l).insert k v) :
    s.held w (.pending l' prev) = s.held w (.pending l prev) -
      (s.get (.pending l prev) k).elim 0 (w k) + w k v := by
  rw [held_eq_sumOf, held_eq_sumOf, get_store s _ h, sumOf_update (s.finiteKeys _)]

theorem held_congr {w : K → V → Int} (h : s.own l' = s.own l) :
    s.held w (.pending l' prev) = s.held w (.pending l prev) := by
  rw [held_eq_sumOf, held_eq_sumOf, get_congr s _ h]

def All (P : K → V → Prop) (c : ChainInterface) : Prop := ∀ k v, s.get c k = some v → P k v

instance (P : K → V → Prop) [∀ k v, Decidable (P k v)] (c : ChainInterface) :
    Decidable (s.All P c) := by
  refine decidable_of_iff (∀ k ∈ s.keys c, ∀ v ∈ s.get c k, P k v) ?_
  constructor
  · intro h k v hk
    exact h k (s.mem_keys (by rw [hk]; exact nofun)) v hk
  · intro h k _ v hv
    exact h k v hv

def Nonneg (w : K → V → Int) (c : ChainInterface) : Prop := ∀ k v, s.get c k = some v → 0 ≤ w k v

instance (w : K → V → Int) (c : ChainInterface) : Decidable (s.Nonneg w c) :=
  inferInstanceAs (Decidable (s.All (fun k v => 0 ≤ w k v) c))

theorem get_blank (prev : ChainInterface) (h : s.own {} = ∅) :
    s.get (.pending {} prev) = s.get prev := by
  funext k
  rw [get_pending, h, AList.lookup_empty, Option.none_or]

variable {s} {w : K → V → Int}

section All

variable {P : K → V → Prop}

theorem All.keep (h : s.All P (.pending l prev)) (hown : s.own l' = s.own l) :
    s.All P (.pending l' prev) := by
  intro k v hk
  rw [s.get_congr _ hown] at hk
  exact h k v hk

theorem All.store (h : s.All P (.pending l prev)) (hown : s.own l' = (s.own l).insert k v)
    (hv : P k v) : s.All P (.pending l' prev) := by
  intro j u hj
  rw [s.get_store _ hown, Function.update_apply] at hj
  split at hj
  next heq =>
    cases hj
    rw [heq]
    exact hv
  next => exact h j u hj

end All

theorem Nonneg.le_held (h : s.Nonneg w c) (hk : s.get c k = some v) : w k v ≤ s.held w c := by
  rw [held_eq_sumOf]
  exact le_sumOf (s.finiteKeys c) h hk

theorem Nonneg.held_nonneg (h : s.Nonneg w c) : 0 ≤ s.held w c := by
  rw [held_eq_sumOf]
  exact sumOf_nonneg h

theorem Nonneg.elim_le (h : s.Nonneg w c) (k : K) :
    0 ≤ (s.get c k).elim 0 (w k) ∧ (s.get c k).elim 0 (w k) ≤ s.held w c := by
  cases hk : s.get c k with
  | none => exact ⟨le_rfl, h.held_nonneg⟩
  | some v => exact ⟨h k v hk, h.le_held hk⟩

theorem Nonneg.store (h : s.Nonneg w (.pending l prev)) (hown : s.own l' = (s.own l).insert k v)
    (hv : 0 ≤ w k v) : s.Nonneg w (.pending l' prev) ∧ s.held w (.pending l' prev) =
      s.held w (.pending l prev) - (s.get (.pending l prev) k).elim 0 (w k) + w k v := by
  exact ⟨All.store h hown hv, held_store s hown⟩

theorem Nonneg.keep (h : s.Nonneg w (.pending l prev)) (hown : s.own l' = s.own l) :
    s.Nonneg w (.pending l' prev) ∧ s.held w (.pending l' prev) = s.held w (.pending l prev) :=
  ⟨All.keep h hown, held_congr s hown⟩

variable {c' : ChainInterface}

theorem Nonneg.congr (h : s.Nonneg w c) (hget : s.get c' = s.get c) : s.Nonneg w c' := by
  intro j u hj
  rw [hget] at hj
  exact h j u hj

theorem held_of_get (hget : s.get c' = s.get c) : s.held w c' = s.held w c := by
  rw [held_eq_sumOf, held_eq_sumOf, hget]

theorem held_mono (h : ∀ k, (s.get c k).elim 0 (w k) ≤ (s.get c' k).elim 0 (w k)) :
    s.held w c ≤ s.held w c' := by
  rw [held_eq_sumOf, held_eq_sumOf]
  exact sumOf_mono (s.finiteKeys c) (s.finiteKeys c') h

end Shelf

theorem getBalanceRecord_id {c : ChainInterface} {id : Nat} {r : BalanceRecord}
    (h : c.getBalanceRecord id = some r) : Fc.conditionAddress r.condition = id :=
  ChainInterface.find_key (·.balances) (·.balanceDb) h

def balances : Shelf Nat BalanceRecord := ⟨fun l => l.balances.rows, fun db => db.balanceDb.rows⟩
def bids : Shelf MarketIndexKey OrderRecord := ⟨fun l => l.bids, fun db => db.bidDb⟩
def relativeBids : Shelf MarketIndexKey OrderRecord :=
  ⟨fun l => l.relativeBids, fun db => db.relativeBidDb⟩
def asks : Shelf MarketIndexKey OrderRecord := ⟨fun l => l.asks, fun db => db.askDb⟩
def shorts : Shelf MarketIndexKey OrderRecord := ⟨fun l => l.shorts, fun db => db.shortDb⟩
def positions : Shelf MarketIndexKey CollateralRecord :=
  ⟨fun l => l.collateral, fun db => db.collateralDb⟩
def assets : Shelf Int AssetRecord := ⟨fun l => l.assets.rows, fun db => db.assetDb.rows⟩
def accounts : Shelf Int AccountRecord := ⟨fun l => l.accounts.rows, fun db => db.accountDb.rows⟩

variable (id : Int)

def inBalance (_ : Nat) (r : BalanceRecord) : Int := if r.condition.assetId = id then r.balance else 0

/-- A bid holds the quote asset of its market, an ask and a short hold the base asset. -/
def inBid (key : MarketIndexKey) (r : OrderRecord) : Int :=
  if key.orderPrice.quoteAssetId = id then r.balance else 0

def inAsk (key : MarketIndexKey) (r : OrderRecord) : Int :=
  if key.orderPrice.baseAssetId = id then r.balance else 0

def inCollateral (key : MarketIndexKey) (r : CollateralRecord) : Int :=
  if key.orderPrice.baseAssetId = id then r.collateralBalance else 0

def inDebt (key : MarketIndexKey) (r : CollateralRecord) : Int :=
  if key.orderPrice.quoteAssetId = id then r.payoffBalance else 0

variable (c : ChainInterface)

def heldBalances : Int := balances.held (inBalance id) c
def heldBids : Int := bids.held (inBid id) c + relativeBids.held (inBid id) c
def heldAsks : Int := asks.held (inAsk id) c
def heldShorts : Int := shorts.held (inAsk id) c
def heldCollateral : Int := positions.held (inCollateral id) c
def owedDebt : Int := positions.held (inDebt id) c
def collectedFees : Int := (c.getAssetRecord id).elim 0 AssetRecord.collectedFees
def shareSupply : Int := (c.getAssetRecord id).elim 0 AssetRecord.currentShareSupply

end Bts.Blockchain.Holdings
