import Mathlib.Algebra.Order.Ring.Int
import Bts.Blockchain.Amounts

namespace Bts.Blockchain.Conversions

open Base Result Word Amounts

variable {a b r r' : Asset} {p q : Price}

theorem multiply_toQuote (hid : a.assetId = p.baseAssetId) (ha : 0 ≤ a.amount)
    (h : multiply a p = .ok r) :
    r.amount * pricePrecision ≤ a.amount * p.ratio ∧
      a.amount * p.ratio < (r.amount + 1) * pricePrecision ∧ r.assetId = p.quoteAssetId := by
  obtain ⟨-, ⟨-, hr, hamount⟩ | ⟨hbase, -⟩⟩ := multiply_ok h
  · rw [hamount, Int.tdiv_eq_ediv_of_nonneg (Int.mul_nonneg ha (Int.natCast_nonneg _))]
    exact ⟨Int.ediv_mul_le _ (by decide), Int.lt_ediv_add_one_mul_self _ (by decide), hr⟩
  · exact absurd hid hbase

theorem toQuote_mono (hid : a.assetId = p.baseAssetId) (hid' : b.assetId = q.baseAssetId)
    (ha : 0 ≤ a.amount) (hle : a.amount ≤ b.amount) (hratio : p.ratio ≤ q.ratio)
    (h : multiply a p = .ok r) (h' : multiply b q = .ok r') : r.amount ≤ r'.amount := by
  have hr := (multiply_toQuote hid ha h).1
  have hr' := (multiply_toQuote hid' (ha.trans hle) h').2.1
  have hmul : a.amount * p.ratio ≤ b.amount * q.ratio := by
    calc a.amount * (p.ratio : Int) ≤ b.amount * p.ratio :=
          Int.mul_le_mul_of_nonneg_right hle (Int.natCast_nonneg _)
      _ ≤ b.amount * q.ratio :=
          Int.mul_le_mul_of_nonneg_left (Int.ofNat_le.mpr hratio) (ha.trans hle)
  have hlt : r.amount * pricePrecision < (r'.amount + 1) * pricePrecision :=
    hr.trans_lt (hmul.trans_lt hr')
  exact Int.lt_add_one_iff.mp (Int.lt_of_mul_lt_mul_right hlt (by decide))

/-- The value of one share of an asset of the pair in the other asset, rounded up. -/
def shareValue (p : Price) (id : Int) : Int :=
  if id = p.baseAssetId then (p.ratio + pricePrecision - 1) / pricePrecision
  else (pricePrecision + p.ratio - 1) / p.ratio

theorem round_trip_loss {n m k x y : Int} (hy : 0 < y) (h : n * y < (m + 1) * x)
    (h' : m * x < (k + 1) * y) : n ≤ k + (x + y - 1) / y := by
  have hceil := Int.lt_ediv_add_one_mul_self (x + y - 1) hy
  by_contra hlt
  have hmul := Int.mul_le_mul_of_nonneg_right (show k + (x + y - 1) / y + 1 ≤ n by omega) hy.le
  rw [Int.add_mul, Int.one_mul] at h h' hceil
  rw [Int.add_mul, Int.add_mul, Int.one_mul] at hmul
  omega

section

variable (hne : p.baseAssetId ≠ p.quoteAssetId)
include hne

theorem multiply_toBase (hid : a.assetId = p.quoteAssetId) (ha : 0 ≤ a.amount) (h : multiply a p = .ok r) :
    r.amount * p.ratio ≤ a.amount * pricePrecision ∧
      (0 < p.ratio → a.amount * pricePrecision < (r.amount + 1) * p.ratio) ∧
      (p.ratio = 0 → r.amount = 0) ∧ r.assetId = p.baseAssetId := by
  obtain ⟨-, ⟨hbase, -⟩ | ⟨-, -, hr, hamount⟩⟩ := multiply_ok h
  · exact absurd (hbase.symm.trans hid) hne
  · rw [hamount, Int.tdiv_eq_ediv_of_nonneg (Int.mul_nonneg ha (by decide))]
    rcases Nat.eq_zero_or_pos p.ratio with hzero | hpos
    · rw [hzero, Int.natCast_zero, Int.mul_zero, Int.ediv_zero]
      exact ⟨Int.mul_nonneg ha (by decide), fun hpos => absurd hpos (lt_irrefl 0), fun _ => rfl, hr⟩
    · exact ⟨Int.ediv_mul_le _ (by omega), fun _ => Int.lt_ediv_add_one_mul_self _ (by omega),
        fun hzero => absurd hzero hpos.ne', hr⟩

theorem toBase_toQuote (hid : a.assetId = p.quoteAssetId)
    (ha : 0 ≤ a.amount) (hb : 0 ≤ b.amount) (h : multiply a p = .ok r) (hle : b.amount ≤ r.amount)
    (hid' : b.assetId = q.baseAssetId) (hratio : q.ratio ≤ p.ratio) (h' : multiply b q = .ok r') :
    r'.amount ≤ a.amount := by
  have hr := (multiply_toBase hne hid ha h).1
  have hr' := (multiply_toQuote hid' hb h').1
  have hmul : b.amount * q.ratio ≤ r.amount * p.ratio := by
    calc b.amount * (q.ratio : Int) ≤ b.amount * p.ratio :=
          Int.mul_le_mul_of_nonneg_left (Int.ofNat_le.mpr hratio) hb
      _ ≤ r.amount * p.ratio := Int.mul_le_mul_of_nonneg_right hle (Int.natCast_nonneg _)
  exact Int.le_of_mul_le_mul_right (hr'.trans (hmul.trans hr)) (by decide)

theorem toQuote_toBase (hid : a.assetId = p.baseAssetId)
    (ha : 0 ≤ a.amount) (hb : 0 ≤ b.amount) (h : multiply a p = .ok r) (hle : b.amount ≤ r.amount)
    (hid' : b.assetId = p.quoteAssetId) (h' : multiply b p = .ok r') : r'.amount ≤ a.amount := by
  have hr := (multiply_toQuote hid ha h).1
  obtain ⟨hr', -, hzero, -⟩ := multiply_toBase hne hid' hb h'
  rcases Nat.eq_zero_or_pos p.ratio with hratio | hpos
  · rw [hzero hratio]
    exact ha
  · have hmul : b.amount * pricePrecision ≤ r.amount * pricePrecision :=
      Int.mul_le_mul_of_nonneg_right hle (by decide)
    exact Int.le_of_mul_le_mul_right (hr'.trans (hmul.trans hr)) (by omega)

theorem toBase_mono (hid : a.assetId = p.quoteAssetId)
    (hid' : b.assetId = p.quoteAssetId) (hratio : 0 < p.ratio) (ha : 0 ≤ a.amount)
    (hle : a.amount ≤ b.amount) (h : multiply a p = .ok r) (h' : multiply b p = .ok r') :
    r.amount ≤ r'.amount := by
  have hr := (multiply_toBase hne hid ha h).1
  have hr' := (multiply_toBase hne hid' (ha.trans hle) h').2.1 hratio
  have hmul : a.amount * pricePrecision ≤ b.amount * pricePrecision :=
    Int.mul_le_mul_of_nonneg_right hle (by decide)
  exact Int.lt_add_one_iff.mp (Int.lt_of_mul_lt_mul_right (hr.trans_lt (hmul.trans_lt hr')) (by omega))

theorem convert_and_back (hratio : 0 < p.ratio)
    (ha : 0 ≤ a.amount) (h : multiply a p = .ok r) (h' : multiply r p = .ok r') :
    r'.amount ≤ a.amount ∧ a.amount ≤ r'.amount + shareValue p r.assetId := by
  have hr := multiply_nonneg ha h
  unfold shareValue
  rcases multiply_asset h with ⟨hid, hid'⟩ | ⟨hid, hid'⟩
  · rw [if_neg (by rw [hid']; exact hne.symm)]
    exact ⟨toQuote_toBase hne hid ha hr h le_rfl hid' h', round_trip_loss (by omega)
      (multiply_toQuote hid ha h).2.1 ((multiply_toBase hne hid' hr h').2.1 hratio)⟩
  · rw [if_pos hid']
    exact ⟨toBase_toQuote hne hid ha hr h le_rfl hid' le_rfl h', round_trip_loss (by decide)
      ((multiply_toBase hne hid ha h).2.1 hratio) (multiply_toQuote hid' hr h').2.1⟩

end

theorem divide_ratio (hids : b.assetId < a.assetId) (ha : 0 < a.amount) (hfits : Fits a.amount)
    (hb : 0 < b.amount) (h : divide a b = .ok p) :
    b.assetId = p.baseAssetId ∧ a.assetId = p.quoteAssetId ∧
      p.ratio * b.amount ≤ a.amount * pricePrecision := by
  simp only [divide, if_neg (not_lt.mpr hids.le), eq_ok_iff] at h
  obtain ⟨_, _, _, _, rfl⟩ := h
  have hpos : 0 ≤ a.amount * pricePrecision := Int.mul_nonneg ha.le (by decide)
  have hnonneg := Int.ediv_nonneg hpos hb.le
  have hle := Int.ediv_le_self b.amount hpos
  have hsmall : (a.amount * pricePrecision / b.amount).natAbs < 2 ^ 128 := by
    unfold Fits at hfits
    unfold pricePrecision at *
    omega
  refine ⟨rfl, rfl, ?_⟩
  rw [Int.tdiv_eq_ediv_of_nonneg hpos, Nat.mod_eq_of_lt hsmall, Int.natAbs_of_nonneg hnonneg]
  exact Int.ediv_mul_le _ hb.ne'

/-- A conversion and back gains nothing and loses at most one share of the other asset, a conversion
is monotone, and the price of two amounts converts neither to more than the price was made of. -/
theorem conversions_bounded (hne : p.baseAssetId ≠ p.quoteAssetId) (hratio : 0 < p.ratio) :
    (∀ a r r', 0 ≤ a.amount → multiply a p = .ok r → multiply r p = .ok r' →
      r'.amount ≤ a.amount ∧ a.amount ≤ r'.amount + shareValue p r.assetId) ∧
    (∀ a b r r', 0 ≤ a.amount → a.assetId = b.assetId → a.amount ≤ b.amount →
      multiply a p = .ok r → multiply b p = .ok r' → r.amount ≤ r'.amount) ∧
    ∀ a b, b.assetId < a.assetId → 0 < a.amount → Fits a.amount → 0 < b.amount →
      divide a b = .ok p → (∀ r, multiply b p = .ok r → r.amount ≤ a.amount) ∧
        ∀ r, multiply a p = .ok r → b.amount ≤ r.amount := by
  refine ⟨fun a r r' ha => convert_and_back hne hratio ha, fun a b r r' ha hab hle h h' => ?_,
    fun a b hids ha hfits hb hp => ?_⟩
  · rcases multiply_asset h with ⟨hid, -⟩ | ⟨hid, -⟩
    · exact toQuote_mono hid (hab.symm.trans hid) ha hle le_rfl h h'
    · exact toBase_mono hne hid (hab.symm.trans hid) hratio ha hle h h'
  · obtain ⟨hbase, hquote, hle⟩ := divide_ratio hids ha hfits hb hp
    refine ⟨fun r hr => ?_, fun r hr => ?_⟩
    · have hfloor := (multiply_toQuote hbase hb.le hr).1
      rw [Int.mul_comm b.amount] at hfloor
      exact Int.le_of_mul_le_mul_right (hfloor.trans hle) (by decide)
    · have hfloor := (multiply_toBase hne hquote ha.le hr).2.1 hratio
      rw [Int.mul_comm (p.ratio : Int)] at hle
      exact Int.lt_add_one_iff.mp (Int.lt_of_mul_lt_mul_right (hle.trans_lt hfloor) (by omega))

theorem conversions_bounded_third :
    let p : Price := ⟨333333333333333333, 0, 22⟩
    ∃ r r', multiply ⟨10, 0⟩ p = .ok r ∧ multiply r p = .ok r' ∧
      r'.amount ≤ 10 ∧ 10 ≤ r'.amount + shareValue p r.assetId := by
  intro p
  have hthere : multiply ⟨10, 0⟩ p = .ok ⟨3, 22⟩ := by decide
  have hback : multiply ⟨3, 22⟩ p = .ok ⟨9, 0⟩ := by decide
  exact ⟨_, _, hthere, hback,
    (conversions_bounded (by decide) (by decide)).1 _ _ _ (by decide) hthere hback⟩

end Bts.Blockchain.Conversions
