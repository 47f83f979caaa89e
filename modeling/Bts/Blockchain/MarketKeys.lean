import Bts.Blockchain.MarketRecords
import Bts.Db.LevelMap

namespace Bts.Blockchain.MarketKeys

open Amounts MarketRecords Db

/-- `operator ==` of the keys of orders, which compares prices by their ratios. -/
def keyEq (a b : MarketIndexKey) : Prop := Price.eq a.orderPrice b.orderPrice ∧ a.owner = b.owner
  deriving Decidable

def marketKeyOps : KeyOps MarketIndexKey where
  less a b := decide (MarketIndexKey.lt a b)
  equal a b := decide (keyEq a b)

section PriceOrder

variable {p q r : Price}

theorem price_lt_irrefl : ¬ Price.lt p p := by
  unfold Price.lt
  omega

theorem price_lt_trans (hpq : Price.lt p q) (hqr : Price.lt q r) : Price.lt p r := by
  unfold Price.lt at *
  omega

theorem price_eq_of_not_lt (hpq : ¬ Price.lt p q) (hqp : ¬ Price.lt q p) : p = q := by
  unfold Price.lt at hpq hqp
  cases p
  cases q
  simp only [Price.mk.injEq] at *
  omega

end PriceOrder

theorem key_lt_iff {a b : MarketIndexKey} : MarketIndexKey.lt a b ↔
    Price.lt a.orderPrice b.orderPrice ∨ (a.orderPrice = b.orderPrice ∧ a.owner < b.owner) := by
  unfold MarketIndexKey.lt
  constructor
  · rintro (hless | ⟨hmore, howner⟩)
    · exact Or.inl hless
    · by_cases hless : Price.lt a.orderPrice b.orderPrice
      · exact Or.inl hless
      · exact Or.inr ⟨price_eq_of_not_lt hless hmore, howner⟩
  · rintro (hless | ⟨hprice, howner⟩)
    · exact Or.inl hless
    · rw [hprice]
      exact Or.inr ⟨price_lt_irrefl, howner⟩

theorem marketKeyOps_strictTotal : marketKeyOps.StrictTotal := by
  refine ⟨fun a => ?_, fun a b c hab hbc => ?_, fun a b hab hba => ?_, fun a => ?_, fun a b hab => ?_⟩
  · refine decide_eq_false ?_
    rintro (hless | ⟨-, hless⟩)
    · exact price_lt_irrefl hless
    · exact absurd hless (Nat.lt_irrefl _)
  · refine decide_eq_true (key_lt_iff.mpr ?_)
    rcases key_lt_iff.mp (of_decide_eq_true hab) with hab | ⟨hpab, hab⟩
    · rcases key_lt_iff.mp (of_decide_eq_true hbc) with hbc | ⟨hpbc, -⟩
      · exact Or.inl (price_lt_trans hab hbc)
      · exact Or.inl (hpbc ▸ hab)
    · rw [hpab]
      exact (key_lt_iff.mp (of_decide_eq_true hbc)).imp_right fun hbc => ⟨hbc.1, hab.trans hbc.2⟩
  · have hab := of_decide_eq_false hab
    have hba := of_decide_eq_false hba
    rw [key_lt_iff, not_or] at hab hba
    have hprice := price_eq_of_not_lt hab.1 hba.1
    have howner : a.owner = b.owner := by
      refine Nat.le_antisymm ?_ ?_
      · exact Nat.le_of_not_lt fun hlt => hba.2 ⟨hprice.symm, hlt⟩
      · exact Nat.le_of_not_lt fun hlt => hab.2 ⟨hprice, hlt⟩
    cases a
    cases b
    exact congrArg₂ MarketIndexKey.mk hprice howner
  · exact decide_eq_true ⟨rfl, rfl⟩
  · obtain ⟨hratio, howner⟩ := of_decide_eq_true hab
    exact decide_eq_true ⟨hratio.symm, howner.symm⟩

/-- The database of orders compares its keys as a `std::map` does, by a total order that is 0 for
equal keys only, exactly if no owner has orders of one ratio in two markets. -/
theorem market_keys_ordered_iff (keys : Set MarketIndexKey) :
    (Orders (keyCompare marketKeyOps) keys ∧
      ∀ a ∈ keys, ∀ b ∈ keys, keyCompare marketKeyOps a b = mapCompare marketKeyOps a b) ↔
      ∀ a ∈ keys, ∀ b ∈ keys, a.orderPrice.ratio = b.orderPrice.ratio → a.owner = b.owner →
        a.assetPair = b.assetPair := by
  rw [orders_keyCompare_iff marketKeyOps_strictTotal]
  refine forall₂_congr fun a _ => forall₂_congr fun b _ => ⟨fun h hratio howner => ?_, fun h hequal => ?_⟩
  · rw [h (decide_eq_true ⟨hratio, howner⟩)]
  · obtain ⟨hratio, howner⟩ := of_decide_eq_true hequal
    obtain ⟨⟨ratio, base, quote⟩, owner⟩ := a
    obtain ⟨⟨ratio', base', quote'⟩, owner'⟩ := b
    have hpair := h hratio howner
    obtain ⟨rfl, rfl⟩ := Prod.mk.inj hpair
    obtain rfl : ratio = ratio' := hratio
    obtain rfl : owner = owner' := howner
    rfl

/-- The orders of one owner at one ratio in two markets: the first is before the second, and the
second is equal to the first. -/
theorem keys_of_two_markets_compare_equal :
    ∃ a b : MarketIndexKey, a ≠ b ∧ keyCompare marketKeyOps a b = -1 ∧
      keyCompare marketKeyOps b a = 0 ∧ mapCompare marketKeyOps b a = 1 :=
  ⟨{ orderPrice := ⟨5, 0, 1⟩, owner := 9 }, { orderPrice := ⟨5, 0, 2⟩, owner := 9 }, by decide⟩

end Bts.Blockchain.MarketKeys
