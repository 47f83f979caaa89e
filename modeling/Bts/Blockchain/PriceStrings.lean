import Bts.Base.Decimal
import Bts.Blockchain.Rules

namespace Bts.Blockchain.PriceStrings

open Base Result Word Decimal Errors Amounts Records Transactions Rules Database Layers

/-- The unit of a ratio, as the unsigned number that the text functions work with. -/
def ratioUnit : Nat := pricePrecision.toNat

theorem ratioUnit_eq : ratioUnit = 10 ^ 18 := rfl

def uint64 (x : Int) : Nat := (x % 2 ^ 64).toNat

/-- The digits behind the point and the power of ten they are counted in, both in
`int64_t`. -/
structure Fraction where
  part : Int
  magnitude : Int

def Fraction.push (f : Fraction) (d : Nat) : Fraction :=
  ⟨int64 (f.part * 10 + d), int64 (f.magnitude * 10)⟩

/-- The digits in front of the point are added up in `uint64_t`. A text that does not
begin with a digit has the ratio zero so far. -/
def readWhole : List Char → Nat × List Char
  | [] => (0, [])
  | c :: cs =>
    if c.isDigit then
      let (whole, rest) := readDigits (fun n d => (n * 10 + d) % 2 ^ 64) (digit c) cs
      (mul128 whole ratioUnit, rest)
    else (0, c :: cs)

def addFraction (ratio : Nat) : List Char → Option (Nat × List Char)
  | [] => some (ratio, [])
  | c :: cs =>
    if c.isDigit then
      let (f, rest) := readDigits Fraction.push ⟨digit c, 10⟩ cs
      if uint64 f.magnitude = 0 then none
      else some ((ratio + mul128 (uint128 f.part) (ratioUnit / uint64 f.magnitude)) % 2 ^ 128, rest)
    else some (ratio, c :: cs)

/-- `price::set_ratio_from_string`: the ratio, and the text behind the number. `none`
stands for a division by zero, which ends the process. -/
def setRatioFromString (s : List Char) : Option (Nat × List Char) :=
  match readWhole s with
  | (ratio, '.' :: rest) => addFraction ratio rest
  | (ratio, rest) => some (ratio, rest)

def ratioString (p : Price) : List Char :=
  (Nat.toDigits 10 (p.ratio / ratioUnit) ++
    '.' :: (Nat.toDigits 10 (p.ratio % ratioUnit + ratioUnit)).drop 1).rdropWhile (· = '0')

def intString (n : Int) : List Char :=
  if n < 0 then '-' :: Nat.toDigits 10 n.natAbs else Nat.toDigits 10 n.natAbs

def priceString (p : Price) : List Char :=
  ratioString p ++ ' ' :: intString p.quoteAssetId ++ '/' :: intString p.baseAssetId

def isSpace (c : Char) : Bool := c = ' ' || (9 ≤ c.toNat && c.toNat ≤ 13)

def readSign : List Char → Bool × List Char
  | '-' :: cs => (true, cs)
  | '+' :: cs => (false, cs)
  | cs => (false, cs)

/-- The digits of a number of 32 bits. A stream is what is left to read, or `none` once
reading has failed. -/
def readInt (negative : Bool) (cs : List Char) : Int × Option (List Char) :=
  let digits := cs.takeWhile Char.isDigit
  let n : Int := if negative then -(value digits : Int) else value digits
  if digits = [] then (0, none)
  else if n < -2 ^ 31 then (-2 ^ 31, none)
  else if 2 ^ 31 ≤ n then (2 ^ 31 - 1, none)
  else (n, some (cs.dropWhile Char.isDigit))

/-- A stream at its end leaves the old value. -/
def extractInt (old : Int) : Option (List Char) → Int × Option (List Char)
  | none => (old, none)
  | some cs =>
    if cs.dropWhile isSpace = [] then (old, none)
    else
      let (negative, cs) := readSign (cs.dropWhile isSpace)
      readInt negative cs

def extractChar (stream : Option (List Char)) : Option (List Char) := do
  match (← stream).dropWhile isSpace with
  | [] => none
  | _ :: cs => some cs

def priceOfString (s : List Char) : Option (Except ChainError Price) := do
  let (ratio, rest) ← setRatioFromString s
  let (quoteAssetId, stream) := extractInt 0 (some rest)
  let (baseAssetId, _) := extractInt 0 (extractChar stream)
  pure do
    require (baseAssetId < quoteAssetId) (.assertion "$\x7bquote\x7d > $\x7bbase\x7d")
    pure { ratio, baseAssetId, quoteAssetId }

/-- A price as an object of `fc::variant`. -/
structure PriceVariant where
  ratio : List Char
  quoteAssetId : Int
  baseAssetId : Int

def toVariant (p : Price) : PriceVariant :=
  { ratio := ratioString p, quoteAssetId := p.quoteAssetId, baseAssetId := p.baseAssetId }

def fromVariant (v : PriceVariant) : Option Price :=
  (setRatioFromString v.ratio).map fun (ratio, _) =>
    { ratio, baseAssetId := v.baseAssetId, quoteAssetId := v.quoteAssetId }

variable {is fs rest : List Char} {ratio : Nat}

theorem readWhole_append (his : Digits is) (hne : is ≠ []) (hrest : Ends rest) :
    readWhole (is ++ rest) = (mul128 (value is % 2 ^ 64) ratioUnit, rest) := by
  obtain ⟨c, cs, rfl⟩ := List.exists_cons_of_ne_nil hne
  have hc : c.isDigit := his c List.mem_cons_self
  have hcs : Digits cs := fun d hm => his d (List.mem_cons_of_mem _ hm)
  have hd : digit c % 2 ^ 64 = digit c := Nat.mod_eq_of_lt (by have := digit_lt hc; omega)
  have hfold := foldl_mod (2 ^ 64) (digit c) cs
  rw [hd] at hfold
  rw [List.cons_append, readWhole, if_pos hc, readDigits_append _ _ hcs hrest, hfold, value_cons]

theorem int64_push (x d : Int) : int64 (int64 x * 10 + d) = int64 (x * 10 + d) := by
  unfold int64
  omega

theorem push_foldl (x m : Int) (cs : List Char) :
    cs.foldl (fun f c => Fraction.push f (digit c)) ⟨int64 x, int64 m⟩ =
      ⟨int64 (x * 10 ^ cs.length + value cs), int64 (m * 10 ^ cs.length)⟩ := by
  induction cs generalizing x m with
  | nil => simp [value]
  | cons c cs ih =>
    have hpush : Fraction.push ⟨int64 x, int64 m⟩ (digit c) =
        ⟨int64 (x * 10 + digit c), int64 (m * 10)⟩ := by
      have hmagnitude := int64_push m 0
      rw [Int.add_zero, Int.add_zero] at hmagnitude
      unfold Fraction.push
      rw [int64_push, hmagnitude]
    rw [List.foldl_cons, hpush, ih, value_cons, List.length_cons, pow_succ]
    push_cast
    congr 2 <;> ring

def fractionUnit (k : Nat) : Nat := ratioUnit / (10 ^ k % 2 ^ 64)

theorem uint64_int64 (x : Int) : uint64 (int64 x) = uint64 x := by
  unfold uint64 int64
  omega

theorem uint64_pow (k : Nat) : uint64 (10 ^ k) = 10 ^ k % 2 ^ 64 := by
  have hcast : ((10 : Int) ^ k) = ((10 ^ k : Nat) : Int) := by push_cast; rfl
  unfold uint64
  omega

theorem pow_mod_eq_zero_iff (k : Nat) : 10 ^ k % 2 ^ 64 = 0 ↔ 64 ≤ k := by
  have hpow : (10 : Nat) ^ k = 2 ^ k * 5 ^ k := by rw [← Nat.mul_pow]
  rw [← Nat.dvd_iff_mod_eq_zero, hpow]
  constructor
  · intro h
    have hcoprime : Nat.Coprime (2 ^ 64) (5 ^ k) := Nat.Coprime.pow _ _ (by decide)
    exact (Nat.pow_dvd_pow_iff_le_right (by decide)).mp (hcoprime.dvd_of_dvd_mul_right h)
  · intro h
    exact Dvd.dvd.mul_right (Nat.pow_dvd_pow 2 h) _

theorem addFraction_digits (hfs : Digits fs) (hne : fs ≠ []) (hrest : Ends rest) :
    addFraction ratio (fs ++ rest) = if 64 ≤ fs.length then none
      else some ((ratio + mul128 (uint128 (int64 (value fs))) (fractionUnit fs.length)) % 2 ^ 128,
        rest) := by
  obtain ⟨c, cs, rfl⟩ := List.exists_cons_of_ne_nil hne
  have hc : c.isDigit := hfs c List.mem_cons_self
  have hcs : Digits cs := fun d hm => hfs d (List.mem_cons_of_mem _ hm)
  have hd : int64 (digit c) = digit c := int64_of_fits (by
    have := digit_lt hc
    unfold Fits
    omega)
  have hfold := push_foldl (digit c) 10 cs
  rw [hd] at hfold
  have hten : int64 10 = 10 := by decide
  rw [hten] at hfold
  have hvalue : (digit c * 10 ^ cs.length + value cs : Int) = (value (c :: cs) : Nat) := by
    rw [value_cons]
    rfl
  have hmagnitude : (10 * 10 ^ cs.length : Int) = 10 ^ (c :: cs).length := by
    rw [List.length_cons, pow_succ]
    ring
  rw [List.cons_append, addFraction, if_pos hc, readDigits_append _ _ hcs hrest, hfold, hvalue,
    hmagnitude]
  simp only [uint64_int64, uint64_pow, pow_mod_eq_zero_iff, fractionUnit]

/-- The ratio that is read from the numbers in front of the point and behind it. -/
def ratioRead (whole fraction k : Nat) : Nat :=
  (mul128 (whole % 2 ^ 64) ratioUnit + mul128 (uint128 (int64 fraction)) (fractionUnit k)) % 2 ^ 128

theorem ratioRead_zero (whole : Nat) : ratioRead whole 0 0 = mul128 (whole % 2 ^ 64) ratioUnit := by
  have hzero : mul128 (uint128 (int64 (0 : Nat))) (fractionUnit 0) = 0 := by decide +kernel
  unfold ratioRead
  rw [hzero, Nat.add_zero]
  exact Nat.mod_mod _ _

theorem setRatio_point (his : Digits is) (hne : is ≠ []) (hfs : Digits fs) (hrest : Ends rest) :
    setRatioFromString (is ++ '.' :: (fs ++ rest)) = if 64 ≤ fs.length then none
      else some (ratioRead (value is) (value fs) fs.length, rest) := by
  have hpoint : Ends ('.' :: (fs ++ rest)) := by
    intro c hc
    cases hc
    decide
  unfold setRatioFromString
  rw [readWhole_append his hne hpoint]
  cases fs with
  | cons c cs => exact addFraction_digits hfs (List.cons_ne_nil _ _) hrest
  | nil =>
    have hwhole : some (mul128 (value is % 2 ^ 64) ratioUnit, rest) =
        some (ratioRead (value is) (value []) ([] : List Char).length, rest) :=
      congrArg (fun r => some (r, rest)) (ratioRead_zero (value is)).symm
    rw [List.nil_append, if_neg (by decide), ← hwhole]
    cases rest with
    | nil => rfl
    | cons c cs => exact if_neg (hrest c rfl)

theorem setRatio_whole (his : Digits is) (hne : is ≠ []) :
    setRatioFromString is = some (ratioRead (value is) 0 0, []) := by
  have hread := readWhole_append his hne ends_nil
  rw [List.append_nil] at hread
  unfold setRatioFromString
  rw [hread, ratioRead_zero]

/-- The text of a number, with a point and the digits behind it or without. -/
def decimalText (is : List Char) : Option (List Char) → List Char
  | none => is
  | some fs => is ++ '.' :: fs

/-- The number that is written, in units of a ratio and rounded down. -/
def exactRatio (is fs : List Char) : Nat :=
  (value is * 10 ^ fs.length + value fs) * ratioUnit / 10 ^ fs.length

theorem setRatio_text {fs : Option (List Char)} (his : Digits is) (hne : is ≠ [])
    (hfs : Digits (fs.getD [])) :
    setRatioFromString (decimalText is fs) = if 64 ≤ (fs.getD []).length then none
      else some (ratioRead (value is) (value (fs.getD [])) (fs.getD []).length, []) := by
  cases fs with
  | none => exact setRatio_whole his hne
  | some fs =>
    have hpoint := setRatio_point his hne hfs ends_nil
    rw [List.append_nil] at hpoint
    exact hpoint

theorem exactRatio_eq (h : fs.length ≤ 18) :
    exactRatio is fs = value is * ratioUnit + value fs * 10 ^ (18 - fs.length) := by
  have hunit : ratioUnit = 10 ^ (18 - fs.length) * 10 ^ fs.length := by
    rw [← Nat.pow_add, Nat.sub_add_cancel h, ratioUnit_eq]
  have hscale : (value is * 10 ^ fs.length + value fs) * ratioUnit =
      (value is * ratioUnit + value fs * 10 ^ (18 - fs.length)) * 10 ^ fs.length := by
    rw [hunit]
    ring
  unfold exactRatio
  rw [hscale]
  exact Nat.mul_div_cancel _ (Nat.pow_pos (by decide))

theorem fractionUnit_eq {k : Nat} (h : k ≤ 18) : fractionUnit k = 10 ^ (18 - k) := by
  have hlt : (10 : Nat) ^ k < 2 ^ 64 :=
    Nat.lt_of_le_of_lt (Nat.pow_le_pow_right (by decide) h) (by decide)
  unfold fractionUnit
  rw [Nat.mod_eq_of_lt hlt, ratioUnit_eq]
  exact Nat.pow_div h (by decide)

theorem ratioRead_eq (hfs : Digits fs) (h : fs.length ≤ 18)
    (hfits : exactRatio is fs < 2 ^ 128) :
    ratioRead (value is) (value fs) fs.length =
      value is % 2 ^ 64 * ratioUnit + value fs * 10 ^ (18 - fs.length) := by
  have hvalue : value fs < 10 ^ 18 :=
    Nat.lt_of_lt_of_le (value_lt hfs) (Nat.pow_le_pow_right (by decide) h)
  rw [exactRatio_eq h] at hfits
  have hwhole : value is % 2 ^ 64 * ratioUnit ≤ value is * ratioUnit :=
    Nat.mul_le_mul_right _ (Nat.mod_le _ _)
  have hint : int64 (value fs) = value fs := int64_self
  unfold ratioRead
  rw [hint, uint128_cast (by omega), fractionUnit_eq h, mul128_eq (by omega), mul128_eq (by omega)]
  exact Nat.mod_eq_of_lt (by omega)

/-- The whole text is read, as the number that it writes. -/
def Reads (is : List Char) (fs : Option (List Char)) : Prop :=
  setRatioFromString (decimalText is fs) = some (exactRatio is (fs.getD []), [])

theorem reads_iff {fs : Option (List Char)} (his : Digits is) (hne : is ≠ [])
    (hfs : Digits (fs.getD [])) (hfits : exactRatio is (fs.getD []) < 2 ^ 128)
    (hlength : (fs.getD []).length ≤ 18) : Reads is fs ↔ value is < 2 ^ 64 := by
  have hread := ratioRead_eq hfs hlength hfits
  have hpos : 0 < ratioUnit := by decide
  unfold Reads
  rw [setRatio_text his hne hfs, if_neg (by omega), hread, exactRatio_eq hlength]
  constructor
  · intro h
    have hsum := congrArg Prod.fst (Option.some.inj h)
    have hwhole := Nat.eq_of_mul_eq_mul_right hpos (Nat.add_right_cancel hsum)
    exact hwhole ▸ Nat.mod_lt _ (by decide)
  · intro h
    rw [Nat.mod_eq_of_lt h]

theorem setRatio_none_iff {fs : Option (List Char)} (his : Digits is) (hne : is ≠ [])
    (hfs : Digits (fs.getD [])) :
    setRatioFromString (decimalText is fs) = none ↔ 64 ≤ (fs.getD []).length := by
  rw [setRatio_text his hne hfs]
  split
  next h => exact ⟨fun _ => h, fun _ => rfl⟩
  next h => exact ⟨fun hnone => absurd hnone (Option.some_ne_none _), fun hle => absurd hle h⟩

def wrappedDigits (n : Nat) : List Char :=
  List.replicate (n - 20) '0' ++ "18446744073709551616".toList

/-- The smallest ratio, written with `k` digits behind the point. -/
def smallestDigits (k : Nat) : List Char :=
  "000000000000000001".toList ++ List.replicate (k - 18) '0'

theorem wrappedDigits_digits (n : Nat) : Digits (wrappedDigits n) :=
  (digits_replicate_zero _).append (by decide)

theorem wrappedDigits_length {n : Nat} (hn : 20 ≤ n) : (wrappedDigits n).length = n := by
  have hback : "18446744073709551616".toList.length = 20 := by decide
  unfold wrappedDigits
  rw [List.length_append, List.length_replicate]
  omega

theorem smallestDigits_digits (k : Nat) : Digits (smallestDigits k) :=
  Digits.append (by decide) (digits_replicate_zero _)

theorem smallestDigits_length {k : Nat} (hk : 18 ≤ k) : (smallestDigits k).length = k := by
  have hfront : "000000000000000001".toList.length = 18 := by decide
  unfold smallestDigits
  rw [List.length_append, List.length_replicate]
  omega

theorem wrapped_misread (n k : Nat) :
    exactRatio (wrappedDigits n) (List.replicate k '0') < 2 ^ 128 ∧
      ¬ Reads (wrappedDigits n) (some (List.replicate k '0')) := by
  have hne : wrappedDigits n ≠ [] := List.append_ne_nil_of_right_ne_nil _ (by decide)
  have hvalue : value (wrappedDigits n) = 2 ^ 64 := by
    unfold wrappedDigits
    rw [value_append, value_replicate_zero, Nat.zero_mul, Nat.zero_add]
    decide +kernel
  have hexact : exactRatio (wrappedDigits n) (List.replicate k '0') = 2 ^ 64 * ratioUnit := by
    unfold exactRatio
    rw [value_replicate_zero, List.length_replicate, hvalue, Nat.add_zero, Nat.mul_right_comm]
    exact Nat.mul_div_cancel _ (Nat.pow_pos (by decide))
  have hread : ratioRead (2 ^ 64) 0 k = 0 := by
    unfold ratioRead mul128 uint128
    rw [Nat.mod_self, Nat.zero_mul]
    simp [int64]
  refine ⟨by rw [hexact]; decide, ?_⟩
  have htext := @setRatio_text _ (some (List.replicate k '0')) (wrappedDigits_digits n) hne
    (digits_replicate_zero k)
  rw [Option.getD_some, value_replicate_zero, List.length_replicate, hvalue, hread] at htext
  unfold Reads
  rw [htext, Option.getD_some, hexact]
  split <;> simp [ratioUnit_eq]

theorem two_dvd_mul128 {x : Nat} (y : Nat) (hx : 2 ∣ x) : 2 ∣ mul128 x y :=
  (Nat.dvd_mod_iff (by decide)).mpr (Dvd.dvd.mul_right hx y)

theorem two_dvd_ratioRead {fraction : Nat} (k : Nat) (h : 2 ∣ fraction) :
    2 ∣ ratioRead 0 fraction k := by
  have hpart : 2 ∣ uint128 (int64 fraction) := by
    unfold uint128 int64
    omega
  refine (Nat.dvd_mod_iff (by decide)).mpr (Nat.dvd_add ?_ (two_dvd_mul128 _ hpart))
  exact two_dvd_mul128 _ (by decide)

theorem smallest_misread {n k : Nat} (hn : 0 < n) (hk : 19 ≤ k) :
    exactRatio (List.replicate n '0') (smallestDigits k) < 2 ^ 128 ∧
      ¬ Reads (List.replicate n '0') (some (smallestDigits k)) := by
  have hlength : (smallestDigits k).length = k := smallestDigits_length (by omega)
  have hne : List.replicate n '0' ≠ [] := by
    rw [ne_eq, List.replicate_eq_nil_iff]
    omega
  have hvalue : value (smallestDigits k) = 10 ^ (k - 18) := by
    have hfront : value "000000000000000001".toList = 1 := by decide +kernel
    unfold smallestDigits
    rw [value_append, value_replicate_zero, List.length_replicate, hfront, Nat.one_mul,
      Nat.add_zero]
  have hexact : exactRatio (List.replicate n '0') (smallestDigits k) = 1 := by
    have hpow : 10 ^ (k - 18) * ratioUnit = 10 ^ k := by
      rw [ratioUnit_eq, ← Nat.pow_add]
      congr 1
      omega
    unfold exactRatio
    rw [value_replicate_zero, hlength, hvalue, Nat.zero_mul, Nat.zero_add, hpow]
    exact Nat.div_self (Nat.pow_pos (by decide))
  have heven : 2 ∣ ratioRead 0 (10 ^ (k - 18)) k :=
    two_dvd_ratioRead k (Dvd.dvd.pow (by decide) (by omega))
  have htext := @setRatio_text _ (some (smallestDigits k)) (digits_replicate_zero n) hne
    (smallestDigits_digits k)
  rw [Option.getD_some, value_replicate_zero, hlength, hvalue] at htext
  refine ⟨by rw [hexact]; decide, ?_⟩
  unfold Reads
  rw [htext, Option.getD_some, hexact]
  split
  · simp
  · intro h
    have hone : ratioRead 0 (10 ^ (k - 18)) k = 1 := congrArg Prod.fst (Option.some.inj h)
    rw [hone] at heven
    exact absurd heven (by decide)

/-- All numbers with `n` digits in front of the point and `k` behind it that have a ratio
are read, as long as neither count is too large. -/
theorem shape_iff {n k : Nat} (hn : 0 < n) :
    (∀ is fs, Digits is → is.length = n → Digits (fs.getD []) → (fs.getD []).length = k →
      exactRatio is (fs.getD []) < 2 ^ 128 → Reads is fs) ↔ n ≤ 19 ∧ k ≤ 18 := by
  constructor
  · intro h
    refine ⟨Nat.le_of_not_lt fun hlong => ?_, Nat.le_of_not_lt fun hlong => ?_⟩
    · obtain ⟨hfits, hmisread⟩ := wrapped_misread n k
      exact hmisread (h _ _ (wrappedDigits_digits n) (wrappedDigits_length hlong)
        (digits_replicate_zero k) List.length_replicate hfits)
    · obtain ⟨hfits, hmisread⟩ := smallest_misread hn hlong
      exact hmisread (h _ _ (digits_replicate_zero n) List.length_replicate
        (smallestDigits_digits k) (smallestDigits_length (Nat.le_of_lt hlong)) hfits)
  · rintro ⟨hwhole, hfraction⟩ is fs his rfl hfs rfl hfits
    refine (reads_iff his (List.ne_nil_of_length_pos hn) hfs hfits hfraction).mpr ?_
    calc value is < 10 ^ is.length := value_lt his
      _ ≤ 10 ^ 19 := Nat.pow_le_pow_right (by decide) hwhole
      _ < 2 ^ 64 := by decide

/-- The digits behind the point of a number that a text begins with. -/
def fractionDigits (s : List Char) : List Char :=
  match s.dropWhile Char.isDigit with
  | '.' :: rest => rest.takeWhile Char.isDigit
  | _ => []

theorem ends_dropWhile (s : List Char) : Ends (s.dropWhile Char.isDigit) := by
  intro c hc
  have hnot := List.head?_dropWhile_not Char.isDigit s
  rw [Option.mem_def.mp hc] at hnot
  simpa using hnot

theorem digits_takeWhile (s : List Char) : Digits (s.takeWhile Char.isDigit) :=
  fun _ hm => List.mem_takeWhile_imp hm

theorem takeWhile_ne_nil {c : Char} (hc : c.isDigit) (cs : List Char) :
    (c :: cs).takeWhile Char.isDigit ≠ [] := by
  rw [List.takeWhile_cons_of_pos hc]
  exact List.cons_ne_nil _ _

theorem readWhole_snd (s : List Char) : (readWhole s).2 = s.dropWhile Char.isDigit := by
  cases s with
  | nil => rfl
  | cons c cs =>
    by_cases hc : c.isDigit
    · have hread := readWhole_append (digits_takeWhile (c :: cs)) (takeWhile_ne_nil hc cs)
        (ends_dropWhile (c :: cs))
      rw [List.takeWhile_append_dropWhile] at hread
      rw [hread]
    · rw [readWhole, if_neg hc, List.dropWhile_cons_of_neg hc]

theorem addFraction_none_iff (s : List Char) :
    addFraction ratio s = none ↔ 64 ≤ (s.takeWhile Char.isDigit).length := by
  cases s with
  | nil => simp [addFraction]
  | cons c cs =>
    by_cases hc : c.isDigit
    · have hadd := @addFraction_digits _ _ ratio (digits_takeWhile (c :: cs))
        (takeWhile_ne_nil hc cs) (ends_dropWhile (c :: cs))
      rw [List.takeWhile_append_dropWhile] at hadd
      rw [hadd]
      split
      next h => exact ⟨fun _ => h, fun _ => rfl⟩
      next h => exact ⟨fun hnone => absurd hnone (Option.some_ne_none _), fun hle => absurd hle h⟩
    · rw [addFraction, if_neg hc, List.takeWhile_cons_of_neg hc]
      simp

theorem setRatioFromString_none_iff (s : List Char) :
    setRatioFromString s = none ↔ 64 ≤ (fractionDigits s).length := by
  have hrest := readWhole_snd s
  unfold setRatioFromString fractionDigits
  rw [← hrest]
  obtain ⟨r, rest⟩ := readWhole s
  split
  next heq =>
    cases heq
    exact addFraction_none_iff _
  next hpoint heq =>
    cases heq
    dsimp only
    split
    · exact (hpoint _ rfl).elim
    · simp

/-- What a delegate publishes: a value that reads as a price, or one that does not and
throws. -/
inductive FeedValue
  | price (v : PriceVariant)
  | other

structure PublishedFeed where
  value : FeedValue
  lastUpdate : Nat

/-- A feed that the median looks into: of the right market, of an active delegate and not
older than a day. -/
def Considered (now : Nat) (active : List Int) (quoteId : Int) (e : FeedIndex × PublishedFeed) :
    Prop :=
  e.1.feedId = quoteId ∧ 0 ≤ e.1.delegateId ∧ e.1.delegateId ∈ active ∧
    now < e.2.lastUpdate + secondsPerDay
  deriving Decidable

/-- The price that a feed contributes. Exceptions are caught, a division by zero is not. -/
def feedPrice (now : Nat) (active : List Int) (quoteId baseId : Int)
    (e : FeedIndex × PublishedFeed) : Option (Option Price) :=
  if Considered now active quoteId e then
    match e.2.value with
    | .price v => (fromVariant v).map fun p =>
        if p.quoteAssetId = quoteId ∧ p.baseAssetId = baseId then some p else none
    | .other => some none
  else some none

/-- `get_median_delegate_price` over the feeds as they were published. -/
def getMedianDelegatePrice (now : Nat) (active : List Int) (quoteId baseId : Int)
    (feeds : List (FeedIndex × PublishedFeed)) : Option (Option Price) :=
  (feeds.mapM (feedPrice now active quoteId baseId)).map fun read =>
    let prices := read.filterMap id
    if minFeeds ≤ prices.length then
      (prices.insertionSort fun a b => ¬ Price.lt b a)[prices.length / 2]?
    else none

/-- A published feed as the record of the chain that holds the price. -/
def parsedFeed (e : FeedIndex × PublishedFeed) : (_ : FeedIndex) × FeedRecord :=
  ⟨e.1, { feed := e.1
          value := match e.2.value with
            | .price v => ((fromVariant v).map Variant.price).getD .null
            | .other => .null
          lastUpdate := e.2.lastUpdate }⟩

section Median

variable {now : Nat} {active : List Int} {quoteId baseId : Int}
  {feeds : List (FeedIndex × PublishedFeed)}

theorem fromVariant_none_iff (v : PriceVariant) :
    fromVariant v = none ↔ 64 ≤ (fractionDigits v.ratio).length := by
  unfold fromVariant
  rw [Option.map_eq_none_iff, setRatioFromString_none_iff]

theorem feedPrice_none_iff (e : FeedIndex × PublishedFeed) :
    feedPrice now active quoteId baseId e = none ↔ Considered now active quoteId e ∧
      ∃ v, e.2.value = .price v ∧ 64 ≤ (fractionDigits v.ratio).length := by
  unfold feedPrice
  by_cases hconsidered : Considered now active quoteId e
  · cases e.2.value with
    | price v => simp [fromVariant_none_iff, hconsidered]
    | other => simp
  · simp [hconsidered]

theorem getMedianDelegatePrice_none_iff :
    getMedianDelegatePrice now active quoteId baseId feeds = none ↔
      ∃ e ∈ feeds, Considered now active quoteId e ∧
        ∃ v, e.2.value = .price v ∧ 64 ≤ (fractionDigits v.ratio).length := by
  unfold getMedianDelegatePrice
  rw [Option.map_eq_none_iff, mapM_eq_none_iff]
  simp only [feedPrice_none_iff]

/-- The median over the records is the one over the texts, if no text ends the process. -/
theorem getMedianDelegatePrice_eq [Fc] {db : ChainDatabase} {r : Option Price}
    (hfeeds : db.feedDb.rows.entries = feeds.map parsedFeed)
    (h : getMedianDelegatePrice db.now active quoteId baseId feeds = some r) :
    medianDelegatePrice db active quoteId baseId = r := by
  unfold getMedianDelegatePrice at h
  rw [Option.map_eq_some_iff] at h
  obtain ⟨read, hread, rfl⟩ := h
  unfold medianDelegatePrice
  rw [hfeeds, List.filterMap_map, ← mapM_reduceOption _ hread]
  intro e price hprice
  unfold feedPrice at hprice
  split at hprice
  next hconsidered =>
    obtain ⟨hfeed, hdelegate, hactive, hfresh⟩ := hconsidered
    cases hvalue : e.2.value with
    | price v =>
      rw [hvalue] at hprice
      obtain ⟨p, hp, rfl⟩ := Option.map_eq_some_iff.mp hprice
      simp [parsedFeed, hvalue, hp, hfeed, hdelegate, hactive, hfresh]
    | other =>
      rw [hvalue] at hprice
      cases hprice
      simp [parsedFeed, hvalue]
  next hconsidered =>
    cases hprice
    simp only [Function.comp_apply]
    split
    next p hp =>
      refine if_neg fun h => hconsidered ?_
      exact ⟨h.1, h.2.1, h.2.2.1, h.2.2.2.1⟩
    next => rfl

end Median

/-- A number is read as long as it has at most 18 digits behind the point and its whole
part fits in 64 bits. More digits of either kind make some number misread, and with 64
digits behind the point the process ends, also where the number is a feed that the median
considers. -/
theorem set_ratio_exact_iff {fs : Option (List Char)} (his : Digits is) (hne : is ≠ [])
    (hfs : Digits (fs.getD [])) (hfits : exactRatio is (fs.getD []) < 2 ^ 128) :
    ((fs.getD []).length ≤ 18 → (Reads is fs ↔ value is < 2 ^ 64)) ∧
    (setRatioFromString (decimalText is fs) = none ↔ 64 ≤ (fs.getD []).length) ∧
    ((∀ xs ys, Digits xs → xs.length = is.length → Digits (ys.getD []) →
        (ys.getD []).length = (fs.getD []).length → exactRatio xs (ys.getD []) < 2 ^ 128 →
        Reads xs ys) ↔ is.length ≤ 19 ∧ (fs.getD []).length ≤ 18) ∧
    ∀ now active quoteId baseId feeds,
      getMedianDelegatePrice now active quoteId baseId feeds = none ↔
        ∃ e ∈ feeds, Considered now active quoteId e ∧
          ∃ v, e.2.value = .price v ∧ 64 ≤ (fractionDigits v.ratio).length :=
  ⟨reads_iff his hne hfs hfits, setRatio_none_iff his hne hfs,
    shape_iff (List.length_pos_iff.mpr hne), fun _ _ _ _ _ => getMedianDelegatePrice_none_iff⟩

theorem set_ratio_exact_iff_half :
    exactRatio "1".toList "5".toList = 1500000000000000000 ∧
      Reads "1".toList (some "5".toList) := by
  have hfits : exactRatio "1".toList ((some "5".toList).getD []) < 2 ^ 128 := by decide +kernel
  have hread := set_ratio_exact_iff (by decide) (by decide) (by decide) hfits
  exact ⟨by decide +kernel, (hread.1 (by decide)).mpr (by decide +kernel)⟩

def longZero : List Char := '0' :: '.' :: List.replicate 64 '0'

/-- A number of 65 bits loses its top bit, the nineteenth digit behind the point drops all
of them, and the sixty-fourth ends the process. -/
theorem set_ratio_misreads :
    exactRatio "18446744073709551616".toList [] = 18446744073709551616000000000000000000 ∧
    setRatioFromString "18446744073709551616".toList = some (0, []) ∧
    exactRatio "0".toList "1000000000000000000".toList = 100000000000000000 ∧
    setRatioFromString "0.1000000000000000000".toList = some (0, []) ∧
    setRatioFromString longZero = none ∧
    getMedianDelegatePrice 0 [1] 22 0 [(⟨22, 1⟩, ⟨.price ⟨longZero, 22, 0⟩, 0⟩)] = none := by
  decide +kernel

section RoundTrip

variable {p : Price}

theorem toDigits_digits (n : Nat) : Digits (Nat.toDigits 10 n) :=
  fun _ hm => Nat.isDigit_of_mem_toDigits (by decide) (by decide) hm

theorem value_toDigits (n : Nat) : value (Nat.toDigits 10 n) = n := Nat.ofDigitChars_ten_toDigits

theorem value_padded {n : Nat} (h : n < ratioUnit) :
    ((Nat.toDigits 10 (n + ratioUnit)).drop 1).length = 18 ∧
      value ((Nat.toDigits 10 (n + ratioUnit)).drop 1) = n := by
  rw [ratioUnit_eq] at h ⊢
  have hupper := (Nat.length_toDigits_le_iff (b := 10) (n := n + 10 ^ 18) (k := 19) (by decide)
    (by decide)).mpr (by omega)
  have hlower := mt (Nat.length_toDigits_le_iff (b := 10) (n := n + 10 ^ 18) (k := 18) (by decide)
    (by decide)).mp (by omega)
  have hdigits := toDigits_digits (n + 10 ^ 18)
  have hvalue := value_toDigits (n + 10 ^ 18)
  cases hcs : Nat.toDigits 10 (n + 10 ^ 18) with
  | nil => exact absurd hcs Nat.toDigits_ne_nil
  | cons c cs =>
    rw [hcs] at hupper hlower hdigits hvalue
    rw [List.length_cons] at hupper hlower
    have hlength : cs.length = 18 := by omega
    have hlt := value_lt fun d hm => hdigits d (List.mem_cons_of_mem c hm)
    rw [value_cons, hlength] at hvalue
    rw [hlength] at hlt
    refine ⟨hlength, ?_⟩
    change value cs = n
    omega

/-- What is printed: the digits of the whole part, and the digits of the rest without the
zeros at their end. -/
theorem ratioString_eq (p : Price) : ∃ fs, Digits fs ∧ fs.length ≤ 18 ∧
    ratioString p = Nat.toDigits 10 (p.ratio / ratioUnit) ++ '.' :: fs ∧
    value fs * 10 ^ (18 - fs.length) = p.ratio % ratioUnit := by
  obtain ⟨hlength, hvalue⟩ := value_padded (Nat.mod_lt p.ratio (by decide : 0 < ratioUnit))
  have hdigits := toDigits_digits (p.ratio % ratioUnit + ratioUnit)
  unfold ratioString
  rw [rdropWhile_append_cons (by decide)]
  generalize Nat.toDigits 10 (p.ratio % ratioUnit + ratioUnit) = all at hlength hvalue hdigits
  obtain ⟨n, hzeros⟩ := exists_eq_rdropWhile_append (all.drop 1)
  have hlength' := congrArg List.length hzeros
  have hvalue' := congrArg value hzeros
  rw [List.length_append, List.length_replicate, hlength] at hlength'
  rw [value_append, value_replicate_zero, List.length_replicate, Nat.add_zero, hvalue] at hvalue'
  refine ⟨_, ?_, by omega, rfl, ?_⟩
  · intro c hm
    exact hdigits c (List.mem_of_mem_drop ((List.rdropWhile_prefix _ _).subset hm))
  · rw [hvalue']
    congr 2
    omega

/-- The ratio that comes back: the whole part has been cut down to 64 bits. -/
def ratioBack (p : Price) : Nat := p.ratio / ratioUnit % 2 ^ 64 * ratioUnit + p.ratio % ratioUnit

theorem ratioBack_eq_iff (p : Price) : ratioBack p = p.ratio ↔ p.ratio < 2 ^ 64 * ratioUnit := by
  have hsplit := Nat.div_add_mod' p.ratio ratioUnit
  have hpos : 0 < ratioUnit := by decide
  rw [← Nat.div_lt_iff_lt_mul hpos]
  unfold ratioBack
  constructor
  · intro h
    have hwhole := Nat.eq_of_mul_eq_mul_right hpos (Nat.add_right_cancel (h.trans hsplit.symm))
    exact hwhole ▸ Nat.mod_lt _ (by decide)
  · intro h
    rw [Nat.mod_eq_of_lt h, hsplit]

theorem setRatioFromString_ratioString (hratio : p.ratio < 2 ^ 128) (hrest : Ends rest) :
    setRatioFromString (ratioString p ++ rest) = some (ratioBack p, rest) := by
  obtain ⟨fs, hfs, hlength, hstring, hvalue⟩ := ratioString_eq p
  have hsplit := Nat.div_add_mod' p.ratio ratioUnit
  have hexact := @exactRatio_eq (Nat.toDigits 10 (p.ratio / ratioUnit)) fs hlength
  rw [value_toDigits, hvalue, hsplit] at hexact
  have hread := ratioRead_eq hfs hlength (by rw [hexact]; exact hratio)
  rw [value_toDigits, hvalue] at hread
  have hset := setRatio_point (toDigits_digits (p.ratio / ratioUnit)) Nat.toDigits_ne_nil hfs hrest
  rw [if_neg (by omega), value_toDigits, hread] at hset
  rw [hstring, List.append_assoc, List.cons_append]
  exact hset

/-- The ids of assets are numbers of 32 bits. -/
def Id32 (n : Int) : Prop := -2 ^ 31 ≤ n ∧ n < 2 ^ 31
  deriving Decidable

theorem readInt_digits {negative : Bool} {ds : List Char} {n : Int} (hds : Digits ds)
    (hne : ds ≠ []) (hrest : Ends rest) (hn : Id32 n)
    (hvalue : n = if negative then -(value ds : Int) else value ds) :
    readInt negative (ds ++ rest) = (n, some rest) := by
  unfold readInt
  dsimp only
  rw [takeWhile_digits hds hrest, dropWhile_digits hds hrest, ← hvalue]
  simp only [if_neg hne, if_neg (Int.not_lt.mpr hn.1), if_neg (Int.not_le.mpr hn.2)]

theorem isDigit_front {c : Char} (h : c.isDigit) : isSpace c = false ∧ c ≠ '-' ∧ c ≠ '+' := by
  have hd : 48 ≤ c.toNat := by
    simp only [Char.isDigit, Bool.and_eq_true, decide_eq_true_eq, ge_iff_le] at h
    exact h.1
  refine ⟨?_, ?_, ?_⟩
  · have hspace : c ≠ ' ' := by
      rintro rfl
      exact absurd hd (by decide)
    unfold isSpace
    simp only [hspace, decide_false, Bool.false_or, Bool.and_eq_false_iff, decide_eq_false_iff_not]
    omega
  · rintro rfl
    exact absurd hd (by decide)
  · rintro rfl
    exact absurd hd (by decide)

theorem readSign_digit {c : Char} (h : c.isDigit) (cs : List Char) :
    readSign (c :: cs) = (false, c :: cs) := by
  obtain ⟨-, hminus, hplus⟩ := isDigit_front h
  unfold readSign
  split
  next heq => exact absurd (List.cons.inj heq).1 hminus
  next heq => exact absurd (List.cons.inj heq).1 hplus
  next => rfl

theorem extractInt_cons {c : Char} (hc : isSpace c = false) (old : Int) (cs : List Char) :
    extractInt old (some (c :: cs)) = readInt (readSign (c :: cs)).1 (readSign (c :: cs)).2 := by
  have hdrop : (c :: cs).dropWhile isSpace = c :: cs :=
    List.dropWhile_cons_of_neg (by rw [hc]; decide)
  unfold extractInt
  dsimp only
  rw [hdrop, if_neg (List.cons_ne_nil c cs)]

theorem extractInt_space (old : Int) (cs : List Char) :
    extractInt old (some (' ' :: cs)) = extractInt old (some cs) := by
  have hdrop : (' ' :: cs).dropWhile isSpace = cs.dropWhile isSpace :=
    List.dropWhile_cons_of_pos (by decide)
  unfold extractInt
  dsimp only
  rw [hdrop]

theorem extractInt_intString {n : Int} (old : Int) (hn : Id32 n) (hrest : Ends rest) :
    extractInt old (some (intString n ++ rest)) = (n, some rest) := by
  have hdigits := toDigits_digits n.natAbs
  have hvalue := value_toDigits n.natAbs
  have hnonempty : Nat.toDigits 10 n.natAbs ≠ [] := Nat.toDigits_ne_nil
  unfold intString
  generalize Nat.toDigits 10 n.natAbs = ds at hdigits hvalue hnonempty
  by_cases hsign : n < 0
  · rw [if_pos hsign, List.cons_append, extractInt_cons (by decide)]
    change readInt true (ds ++ rest) = _
    refine readInt_digits hdigits hnonempty hrest hn ?_
    rw [if_pos rfl, hvalue]
    omega
  · obtain ⟨c, cs, rfl⟩ := List.exists_cons_of_ne_nil hnonempty
    have hc : c.isDigit := hdigits c List.mem_cons_self
    rw [if_neg hsign, List.cons_append, extractInt_cons (isDigit_front hc).1, readSign_digit hc]
    refine readInt_digits hdigits hnonempty hrest hn ?_
    rw [if_neg Bool.false_ne_true, hvalue]
    omega

theorem extractChar_slash (cs : List Char) : extractChar (some ('/' :: cs)) = some cs := by
  have hdrop : ('/' :: cs).dropWhile isSpace = '/' :: cs := List.dropWhile_cons_of_neg (by decide)
  simp only [extractChar, Option.bind_eq_bind, Option.bind_some, hdrop]

theorem priceOfString_priceString (hratio : p.ratio < 2 ^ 128) (hquote : Id32 p.quoteAssetId)
    (hbase : Id32 p.baseAssetId) (hordered : p.baseAssetId < p.quoteAssetId) :
    priceOfString (priceString p) = some (.ok { p with ratio := ratioBack p }) := by
  have hspace : Ends (' ' :: (intString p.quoteAssetId ++ '/' :: intString p.baseAssetId)) := by
    intro c hc
    cases hc
    decide
  have hslash : Ends ('/' :: intString p.baseAssetId) := by
    intro c hc
    cases hc
    decide
  have hset := setRatioFromString_ratioString hratio hspace
  have hread := extractInt_intString 0 hquote hslash
  have hback := extractInt_intString 0 hbase ends_nil
  rw [List.append_nil] at hback
  unfold priceOfString priceString
  rw [List.append_assoc, List.cons_append, hset]
  simp only [Option.bind_eq_bind, Option.bind_some]
  rw [extractInt_space, hread]
  rw [extractChar_slash, hback]
  refine congrArg some ?_
  simp only [require, hordered, if_true]
  rfl

theorem fromVariant_toVariant (hratio : p.ratio < 2 ^ 128) :
    fromVariant (toVariant p) = some { p with ratio := ratioBack p } := by
  have hset := setRatioFromString_ratioString hratio ends_nil
  rw [List.append_nil] at hset
  unfold fromVariant toVariant
  rw [hset]
  rfl

/-- A price comes back from its text and from its variant exactly where the whole part of
its ratio fits in 64 bits. -/
theorem price_round_trip_iff (hratio : p.ratio < 2 ^ 128) (hquote : Id32 p.quoteAssetId)
    (hbase : Id32 p.baseAssetId) (hordered : p.baseAssetId < p.quoteAssetId) :
    (priceOfString (priceString p) = some (.ok p) ↔ p.ratio < 2 ^ 64 * ratioUnit) ∧
    (fromVariant (toVariant p) = some p ↔ p.ratio < 2 ^ 64 * ratioUnit) := by
  have hback : { p with ratio := ratioBack p } = p ↔ p.ratio < 2 ^ 64 * ratioUnit := by
    rw [← ratioBack_eq_iff]
    exact ⟨fun h => congrArg Price.ratio h, fun h => by rw [h]⟩
  rw [priceOfString_priceString hratio hquote hbase hordered, fromVariant_toVariant hratio,
    Option.some.injEq, Except.ok.injEq, Option.some.injEq]
  exact ⟨hback, hback⟩

end RoundTrip

theorem price_round_trip_iff_half :
    priceString ⟨1500000000000000000, 0, 22⟩ = "1.5 22/0".toList ∧
      priceOfString (priceString ⟨1500000000000000000, 0, 22⟩) =
        some (.ok ⟨1500000000000000000, 0, 22⟩) := by
  have htrip := price_round_trip_iff (p := ⟨1500000000000000000, 0, 22⟩) (by decide) (by decide)
    (by decide) (by decide)
  exact ⟨by decide +kernel, htrip.1.mpr (by decide)⟩

/-- The largest ratio, `price::infinite()`, loses the upper bits of its whole part. -/
theorem infinite_not_restored :
    priceOfString (priceString ⟨2 ^ 128 - 1, 0, 22⟩) =
      some (.ok ⟨8240973594166534375374607431768211455, 0, 22⟩) ∧
    fromVariant (toVariant ⟨2 ^ 128 - 1, 0, 22⟩) =
      some ⟨8240973594166534375374607431768211455, 0, 22⟩ := by
  decide +kernel

end Bts.Blockchain.PriceStrings
