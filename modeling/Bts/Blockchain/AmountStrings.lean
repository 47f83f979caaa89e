import Bts.Blockchain.PriceStrings

namespace Bts.Blockchain.AmountStrings

open Base Word Maps Decimal Errors Amounts Records Transactions Rules Layers PriceStrings

/-- `atoll`: white space, a sign and digits. A number beyond 64 bits stops at their bounds. -/
def atoll (s : List Char) : Int :=
  let (negative, cs) := readSign (s.dropWhile isSpace)
  let n : Int := value (cs.takeWhile Char.isDigit)
  if negative then max (-n) (-2 ^ 63) else min n (2 ^ 63 - 1)

/-- A loop on a number of 64 bits, given up after so many passes. -/
def whileLoop (cond : Int → Bool) (body : Int → Int) : Nat → Int → Option Int
  | 0, _ => none
  | passes + 1, f => if cond f then whileLoop cond body passes (body f) else some f

/-- The first digits of the fraction, as many as the precision has zeros. After 64 passes
either loop is at zero in 64 bits and never ends, which is `none`. -/
def scaleFraction (precision : Nat) (fraction : Int) : Option Int := do
  let f ← whileLoop (fun f => uint64 f < precision) (fun f => int64 (f * 10)) 65 fraction
  whileLoop (fun f => precision ≤ uint64 f) (fun f => f.tdiv 10) 65 f

/-- One digit less for every zero in front of the fraction. -/
def shiftZeros : List Char → Int → Int
  | '0' :: cs, f => shiftZeros cs (f.tdiv 10)
  | _, f => f

def uglyAmount (precision : Nat) (amount : List Char) : Option Int :=
  let whole := int64 (atoll (amount.takeWhile (· ≠ '.')) * precision)
  match amount.dropWhile (· ≠ '.') with
  | [] => some whole
  | _ :: fractionString =>
    let fraction := atoll fractionString
    if fractionString ≠ [] ∧ 0 < fraction then do
      let fraction := shiftZeros fractionString (← scaleFraction precision fraction)
      pure (if 0 ≤ whole then int64 (whole + fraction) else int64 (whole - fraction))
    else some whole

section Scaling

variable {f j m n d passes : Nat}

theorem uint64_cast (h : f < 2 ^ 64) : uint64 f = f := by
  unfold uint64
  omega

theorem pow_le_maximum (hj : j ≤ 15) : 10 ^ j ≤ 10 ^ 15 := Nat.pow_le_pow_right (by decide) hj

theorem tdiv_ten (f : Nat) : (f : Int).tdiv 10 = ((f / 10 : Nat) : Int) := by
  rw [Int.tdiv_eq_ediv_of_nonneg (by omega)]
  omega

theorem scaleUp_ok (hj : j ≤ 15) (hf : f < 2 ^ 63) (hn : 10 ^ j ≤ f * 10 ^ n) (hp : n < passes) :
    ∃ i, whileLoop (fun f => uint64 f < 10 ^ j) (fun f => int64 (f * 10)) passes f =
        some ((f * 10 ^ i : Nat) : Int) ∧ 10 ^ j ≤ f * 10 ^ i ∧ f * 10 ^ i < 2 ^ 63 := by
  induction n generalizing f passes with
  | zero =>
    obtain ⟨passes, rfl⟩ := Nat.exists_eq_succ_of_ne_zero (Nat.ne_of_gt hp)
    rw [Nat.pow_zero, Nat.mul_one] at hn
    refine ⟨0, ?_, by rwa [Nat.pow_zero, Nat.mul_one], by rwa [Nat.pow_zero, Nat.mul_one]⟩
    rw [whileLoop, if_neg, Nat.pow_zero, Nat.mul_one]
    rw [uint64_cast (by omega), decide_eq_true_eq]
    exact Nat.not_lt.mpr hn
  | succ n ih =>
    obtain ⟨passes, rfl⟩ := Nat.exists_eq_succ_of_ne_zero (Nat.ne_of_gt (Nat.zero_lt_of_lt hp))
    rw [whileLoop, uint64_cast (by omega)]
    by_cases hsmall : f < 10 ^ j
    · have hmax := pow_le_maximum hj
      have hcast : int64 (f * 10) = ((f * 10 : Nat) : Int) := by
        rw [int64_of_fits (by unfold Fits; omega)]
        rfl
      have hpow : f * 10 * 10 ^ n = f * 10 ^ (n + 1) := by ring
      obtain ⟨i, hi, hlow, hhigh⟩ := @ih (f * 10) passes (by omega)
        (by rw [hpow]; exact hn) (by omega)
      have hshift : f * 10 * 10 ^ i = f * 10 ^ (i + 1) := by ring
      rw [hshift] at hi hlow hhigh
      refine ⟨i + 1, ?_, hlow, hhigh⟩
      rw [if_pos (decide_eq_true hsmall), hcast]
      exact hi
    · refine ⟨0, ?_, by rw [Nat.pow_zero, Nat.mul_one]; omega, by rwa [Nat.pow_zero, Nat.mul_one]⟩
      rw [if_neg (by rwa [decide_eq_true_eq]), Nat.pow_zero, Nat.mul_one]

theorem scaleDown_ok (hf : f < 2 ^ 63) (hhigh : f < 10 ^ (j + m))
    (hlow : m = 0 ∨ 10 ^ (j + m) ≤ f * 10) (hp : m < passes) :
    whileLoop (fun f => 10 ^ j ≤ uint64 f) (fun f => f.tdiv 10) passes f =
      some ((f / 10 ^ m : Nat) : Int) := by
  obtain ⟨passes, rfl⟩ := Nat.exists_eq_succ_of_ne_zero (Nat.ne_of_gt (Nat.zero_lt_of_lt hp))
  rw [whileLoop, uint64_cast (by omega)]
  induction m generalizing f passes with
  | zero =>
    rw [if_neg (by rw [decide_eq_true_eq]; exact Nat.not_le.mpr hhigh), Nat.pow_zero, Nat.div_one]
  | succ m ih =>
    have hpow : 10 ^ (j + (m + 1)) = 10 ^ (j + m) * 10 := by rw [← Nat.add_assoc, Nat.pow_succ]
    have hle : 10 ^ (j + m) ≤ f := by
      omega
    have hlarge : 10 ^ j ≤ f := Nat.le_trans (Nat.pow_le_pow_right (by decide) (by omega)) hle
    obtain ⟨passes, rfl⟩ := Nat.exists_eq_succ_of_ne_zero (n := passes) (by omega)
    have hnext := @ih (f / 10) (by omega) (by omega) ?_ passes (by omega)
    · rw [if_pos (decide_eq_true hlarge), tdiv_ten, whileLoop, uint64_cast (by omega), hnext,
        Nat.div_div_eq_div_mul, Nat.pow_succ, Nat.mul_comm]
    · by_cases hm : m = 0
      · exact Or.inl hm
      · right
        obtain ⟨k, rfl⟩ := Nat.exists_eq_succ_of_ne_zero hm
        have hk : 10 ^ (j + (k + 1)) = 10 ^ (j + k) * 10 := by rw [← Nat.add_assoc, Nat.pow_succ]
        rw [hk] at hle ⊢
        omega

theorem scaleFraction_ok (hj : j ≤ 15) (hpos : 0 < f) (hf : f < 2 ^ 63) (hhigh : f < 10 ^ d)
    (hlow : 10 ^ d ≤ f * 10) :
    scaleFraction (10 ^ j) f = some ((f * 10 ^ j / 10 ^ d : Nat) : Int) := by
  obtain ⟨i, hup, hprecision, hfits⟩ := scaleUp_ok hj hf (Nat.le_mul_of_pos_left (10 ^ j) hpos)
    (by omega : j < 65)
  have hhigh' : f * 10 ^ i < 10 ^ (d + i) := by
    rw [Nat.pow_add]
    exact Nat.mul_lt_mul_of_pos_right hhigh (Nat.pow_pos (by decide))
  have hlow' : 10 ^ (d + i) ≤ f * 10 ^ i * 10 := by
    rw [Nat.pow_add, Nat.mul_right_comm]
    exact Nat.mul_le_mul_right _ hlow
  have hle : j < d + i :=
    (Nat.pow_lt_pow_iff_right (by decide)).mp (Nat.lt_of_le_of_lt hprecision hhigh')
  have hdigits : d + i < 21 := by
    refine (Nat.pow_lt_pow_iff_right (by decide : 1 < 10)).mp (Nat.lt_of_le_of_lt hlow' ?_)
    omega
  have hsum : j + (d + i - j) = d + i := by omega
  have hdown := @scaleDown_ok (f * 10 ^ i) j (d + i - j) 65 hfits (by rwa [hsum])
    (Or.inr (by rwa [hsum])) (by omega)
  unfold scaleFraction
  rw [hup, Option.bind_eq_bind, Option.bind_some, hdown]
  congr 2
  -- Both sides are the quotient by `10 ^ (d + i)`, one scaled by `10 ^ i` and one by `10 ^ j`.
  calc f * 10 ^ i / 10 ^ (d + i - j) = f * 10 ^ i * 10 ^ j / (10 ^ (d + i - j) * 10 ^ j) :=
        (Nat.mul_div_mul_right _ _ (Nat.pow_pos (by decide))).symm
    _ = f * 10 ^ j * 10 ^ i / (10 ^ d * 10 ^ i) := by
        rw [Nat.mul_right_comm, ← Nat.pow_add, ← Nat.pow_add, Nat.add_comm _ j, hsum]
    _ = f * 10 ^ j / 10 ^ d := Nat.mul_div_mul_right _ _ (Nat.pow_pos (by decide))

theorem shiftZeros_replicate (n : Nat) {cs : List Char} (hcs : cs.head? ≠ some '0') :
    shiftZeros (List.replicate n '0' ++ cs) f = ((f / 10 ^ n : Nat) : Int) := by
  induction n generalizing f with
  | zero =>
    rw [Nat.pow_zero, Nat.div_one, List.replicate_zero, List.nil_append]
    unfold shiftZeros
    split
    · exact absurd rfl hcs
    · rfl
  | succ n ih =>
    rw [List.replicate_succ, List.cons_append, shiftZeros, tdiv_ten, ih, Nat.div_div_eq_div_mul,
      Nat.pow_succ, Nat.mul_comm]

end Scaling

section Texts

variable {is fs : List Char} {j : Nat}

def leadingZeros (fs : List Char) : Nat := (fs.takeWhile (· = '0')).length

theorem exists_front (hpos : 0 < value fs) :
    ∃ c cs, fs = List.replicate (leadingZeros fs) '0' ++ c :: cs ∧ c ≠ '0' := by
  have hzeros : fs.takeWhile (· = '0') = List.replicate (leadingZeros fs) '0' := by
    refine List.eq_replicate_iff.mpr ⟨rfl, fun c hm => ?_⟩
    have hc := List.mem_takeWhile_imp hm
    exact of_decide_eq_true hc
  have hsplit := List.takeWhile_append_dropWhile (p := (· = '0')) (l := fs)
  rw [hzeros] at hsplit
  cases hrest : fs.dropWhile (· = '0') with
  | nil =>
    rw [hrest, List.append_nil] at hsplit
    rw [← hsplit, value_replicate_zero] at hpos
    exact absurd hpos (Nat.lt_irrefl 0)
  | cons c cs =>
    have hnot := List.head?_dropWhile_not (· = '0') fs
    rw [hrest] at hsplit hnot
    exact ⟨c, cs, hsplit.symm, of_decide_eq_false hnot⟩

theorem digit_pos {c : Char} (hc : c.isDigit) (hne : c ≠ '0') : 0 < digit c := by
  have hlow : '0'.toNat ≤ c.toNat := by
    simp only [Char.isDigit, Bool.and_eq_true, decide_eq_true_eq, ge_iff_le] at hc
    exact hc.1
  have hne' : c.toNat ≠ '0'.toNat := fun h => hne (Char.toNat_inj.mp h)
  unfold digit
  omega

/-- What the fraction adds to the amount. The digits are those of a number of at most
63 bits. -/
def uglyFraction (fs : List Char) (precision : Nat) : Nat :=
  if value fs < 2 ^ 63 then value fs * precision / 10 ^ fs.length
  else (2 ^ 63 - 1) * precision / 10 ^ (19 + leadingZeros fs)

theorem atoll_digits (hfs : Digits fs) : atoll fs = min (value fs : Int) (2 ^ 63 - 1) := by
  have htake := takeWhile_digits hfs ends_nil
  rw [List.append_nil] at htake
  cases fs with
  | nil => rfl
  | cons c cs =>
    have hc : c.isDigit := hfs c List.mem_cons_self
    have hspace : ¬ isSpace c := by
      rw [(isDigit_front hc).1]
      exact Bool.false_ne_true
    unfold atoll
    rw [List.dropWhile_cons_of_neg hspace, readSign_digit hc]
    dsimp only
    rw [htake, if_neg Bool.false_ne_true]

theorem atoll_minus (his : Digits is) : atoll ('-' :: is) = max (-(value is : Int)) (-2 ^ 63) := by
  have htake := takeWhile_digits his ends_nil
  rw [List.append_nil] at htake
  have hspace : ¬ isSpace '-' := by decide
  unfold atoll
  change (if true then max (-(value (is.takeWhile Char.isDigit) : Int)) (-2 ^ 63) else _) = _
  rw [htake, if_pos rfl]

theorem scaleFraction_text (hj : j ≤ 15) (hfs : Digits fs) (hpos : 0 < value fs) :
    (scaleFraction (10 ^ j) (atoll fs)).map (shiftZeros fs) =
      some (uglyFraction fs (10 ^ j) : Int) := by
  obtain ⟨c, cs, hsplit, hne⟩ := exists_front hpos
  have hmem : c ∈ fs := by rw [hsplit]; exact List.mem_append_right _ List.mem_cons_self
  have hback : Digits (c :: cs) := by
    rw [hsplit] at hfs
    exact fun d hm => hfs d (List.mem_append_right _ hm)
  have hvalue : value fs = value (c :: cs) := by
    rw [hsplit, value_append, value_replicate_zero, Nat.zero_mul, Nat.zero_add]
  have hlength : fs.length = leadingZeros fs + (c :: cs).length := by
    conv_lhs => rw [hsplit, List.length_append, List.length_replicate]
  have hshift : ∀ f : Nat, shiftZeros fs f = ((f / 10 ^ leadingZeros fs : Nat) : Int) := by
    intro f
    conv_lhs => rw [hsplit]
    exact shiftZeros_replicate _ (by simpa using hne)
  have hhigh := value_lt hback
  have hlow : 10 ^ (c :: cs).length ≤ value (c :: cs) * 10 := by
    have hc := digit_pos (hfs c hmem) hne
    rw [value_cons, List.length_cons, Nat.pow_succ]
    refine Nat.mul_le_mul_right 10 (Nat.le_trans ?_ (Nat.le_add_right _ _))
    exact Nat.le_mul_of_pos_left _ hc
  rw [atoll_digits hfs]
  unfold uglyFraction
  by_cases hfits : value fs < 2 ^ 63
  · have hmin : min (value fs : Int) (2 ^ 63 - 1) = value fs := by omega
    rw [hvalue] at hpos hfits
    rw [hmin, if_pos (hvalue ▸ hfits), hvalue, scaleFraction_ok hj hpos hfits hhigh hlow,
      Option.map_some, hshift, Nat.div_div_eq_div_mul, ← Nat.pow_add, hlength, Nat.add_comm]
  · have hmin : min (value fs : Int) (2 ^ 63 - 1) = ((2 ^ 63 - 1 : Nat) : Int) := by omega
    have hscale := scaleFraction_ok (f := 2 ^ 63 - 1) (d := 19) hj (by decide) (by decide)
      (by decide) (by decide)
    rw [hmin, if_neg hfits, hscale, Option.map_some, hshift, Nat.div_div_eq_div_mul, ← Nat.pow_add]

def signedText (negative : Bool) (is : List Char) (fs : Option (List Char)) : List Char :=
  if negative then '-' :: decimalText is fs else decimalText is fs

/-- The number that is written, in units of an asset and cut towards zero. -/
def exactAmount (negative : Bool) (is fs : List Char) (precision : Nat) : Int :=
  let n := (value is * 10 ^ fs.length + value fs) * precision / 10 ^ fs.length
  if negative then -(n : Int) else n

def exactFraction (fs : List Char) (precision : Nat) : Nat := value fs * precision / 10 ^ fs.length

theorem exactAmount_eq (negative : Bool) (precision : Nat) :
    exactAmount negative is fs precision =
      if negative then -((value is * precision + exactFraction fs precision : Nat) : Int)
      else (value is * precision + exactFraction fs precision : Nat) := by
  have hsum : (value is * 10 ^ fs.length + value fs) * precision =
      value fs * precision + value is * precision * 10 ^ fs.length := by ring
  have hdiv : (value is * 10 ^ fs.length + value fs) * precision / 10 ^ fs.length =
      value is * precision + exactFraction fs precision := by
    rw [hsum, Nat.add_mul_div_right _ _ (Nat.pow_pos (by decide)), Nat.add_comm]
    rfl
  unfold exactAmount
  rw [hdiv]

variable {precision : Nat} {negative : Bool}

theorem exactFraction_lt (hfs : Digits fs) (hp : 0 < precision) :
    exactFraction fs precision < precision := by
  unfold exactFraction
  rw [Nat.div_lt_iff_lt_mul (Nat.pow_pos (by decide)), Nat.mul_comm]
  exact Nat.mul_lt_mul_of_pos_left (value_lt hfs) hp

theorem uglyFraction_lt (hfs : Digits fs) (hp : 0 < precision) :
    uglyFraction fs precision < precision := by
  unfold uglyFraction
  split
  · exact exactFraction_lt hfs hp
  · rw [Nat.div_lt_iff_lt_mul (Nat.pow_pos (by decide)), Nat.mul_comm]
    refine Nat.mul_lt_mul_of_pos_left ?_ hp
    calc 2 ^ 63 - 1 < 10 ^ 19 := by decide
      _ ≤ 10 ^ (19 + leadingZeros fs) := Nat.pow_le_pow_right (by decide) (Nat.le_add_right _ _)

def addFractionTo (whole fraction : Int) : Int :=
  if 0 ≤ whole then int64 (whole + fraction) else int64 (whole - fraction)

theorem addFractionTo_zero {whole : Int} (h : Fits whole) : addFractionTo whole 0 = whole := by
  unfold addFractionTo
  rw [Int.add_zero, Int.sub_zero, ite_self, int64_of_fits h]

theorem uglyFraction_zero (h : value fs = 0) (precision : Nat) : uglyFraction fs precision = 0 := by
  unfold uglyFraction
  rw [h, if_pos (by decide), Nat.zero_mul, Nat.zero_div]

def signedDigits (negative : Bool) (is : List Char) : List Char :=
  if negative then '-' :: is else is

def signedWhole (negative : Bool) (is : List Char) (precision : Nat) : Int :=
  if negative then -((value is * precision : Nat) : Int) else (value is * precision : Nat)

theorem signedWhole_fits (hfits : Fits (exactAmount negative is fs precision)) :
    Fits (signedWhole negative is precision) := by
  rw [exactAmount_eq] at hfits
  unfold signedWhole
  generalize value is * precision = whole at hfits ⊢
  generalize exactFraction fs precision = fraction at hfits
  unfold Fits at hfits ⊢
  cases negative with
  | true =>
    rw [if_pos rfl] at hfits ⊢
    omega
  | false =>
    rw [if_neg Bool.false_ne_true] at hfits ⊢
    omega

theorem atoll_signedDigits (hp : 0 < precision) (his : Digits is)
    (hfits : Fits (signedWhole negative is precision)) :
    int64 (atoll (signedDigits negative is) * precision) = signedWhole negative is precision := by
  have hle : value is ≤ value is * precision := Nat.le_mul_of_pos_right _ hp
  have hcast : ((value is * precision : Nat) : Int) = value is * precision := by push_cast; rfl
  unfold signedWhole at hfits ⊢
  unfold signedDigits
  cases negative with
  | true =>
    rw [if_pos rfl] at hfits ⊢
    have hmax : max (-(value is : Int)) (-2 ^ 63) = -(value is : Int) := by
      unfold Fits at hfits
      omega
    rw [if_pos rfl, atoll_minus his, hmax, Int.neg_mul, ← hcast, int64_of_fits hfits]
  | false =>
    rw [if_neg Bool.false_ne_true] at hfits ⊢
    have hmin : min (value is : Int) (2 ^ 63 - 1) = value is := by
      unfold Fits at hfits
      omega
    rw [if_neg Bool.false_ne_true, atoll_digits his, hmin, ← hcast, int64_of_fits hfits]

theorem ne_point_of_mem (his : Digits is) : ∀ c ∈ signedDigits negative is, (c ≠ '.' : Bool) := by
  have hdigit : ∀ c ∈ is, (c ≠ '.' : Bool) := by
    intro c hc
    refine decide_eq_true fun h => ?_
    have hisDigit := his c hc
    rw [h] at hisDigit
    exact absurd hisDigit (by decide)
  cases negative with
  | true =>
    intro c hc
    exact (List.mem_cons.mp hc).elim (fun h => by rw [h]; decide) (hdigit c)
  | false => exact hdigit

theorem uglyAmount_text {fs : Option (List Char)} (hj : j ≤ 15) (his : Digits is)
    (hfs : Digits (fs.getD [])) (hfits : Fits (signedWhole negative is (10 ^ j))) :
    uglyAmount (10 ^ j) (signedText negative is fs) =
      some (addFractionTo (signedWhole negative is (10 ^ j)) (uglyFraction (fs.getD []) (10 ^ j))) := by
  have hpoint := @ne_point_of_mem is negative his
  have hread := atoll_signedDigits (Nat.pow_pos (by decide)) his hfits
  have hfront : signedText negative is fs =
      signedDigits negative is ++ (fs.map ('.' :: ·)).getD [] := by
    unfold signedText signedDigits decimalText
    cases fs <;> cases negative <;> simp
  unfold uglyAmount
  rw [hfront, List.takeWhile_append_of_pos hpoint, List.dropWhile_append_of_pos hpoint]
  cases fs with
  | none =>
    have hzero : uglyFraction [] (10 ^ j) = 0 := uglyFraction_zero rfl _
    rw [Option.map_none, Option.getD_none, List.takeWhile_nil, List.dropWhile_nil,
      List.append_nil, hread, hzero, Int.natCast_zero, addFractionTo_zero hfits]
  | some fs =>
    have htake : ('.' :: fs).takeWhile (fun c => decide (c ≠ '.')) = [] :=
      List.takeWhile_cons_of_neg (by decide)
    have hdrop : ('.' :: fs).dropWhile (fun c => decide (c ≠ '.')) = '.' :: fs :=
      List.dropWhile_cons_of_neg (by decide)
    rw [Option.map_some, Option.getD_some, Option.getD_some, htake, hdrop, List.append_nil, hread]
    dsimp only
    have hmin := atoll_digits hfs
    rw [Option.getD_some] at hmin
    by_cases hpos : 0 < value fs
    · have hne : fs ≠ [] := by
        rintro rfl
        exact absurd hpos (Nat.lt_irrefl 0)
      have hscale := scaleFraction_text hj hfs hpos
      obtain ⟨f, hf, hshift⟩ := Option.map_eq_some_iff.mp hscale
      rw [Option.getD_some] at hf
      rw [if_pos ⟨hne, by omega⟩, hf]
      exact congrArg (fun f => some (addFractionTo _ f)) hshift
    · have hzero : value fs = 0 := by omega
      rw [if_neg (by omega), uglyFraction_zero hzero, Int.natCast_zero, addFractionTo_zero hfits]

end Texts

section Model

variable [Fc]

def toUglyAsset (c : ChainInterface) (amount : List Char) (symbol : String) :
    Option (Except ChainError Asset) :=
  match c.getAssetRecordBySymbol symbol with
  | none => some (.error .unknownAssetSymbol)
  | some record => (uglyAmount record.precision amount).map fun amount =>
      .ok { amount, assetId := record.id }

omit [Fc] in
theorem addFractionTo_eq_iff {negative : Bool} {is fs : List Char} {precision fraction : Nat}
    (hp : 0 < precision) (hmax : precision ≤ 10 ^ 15) (hfs : Digits fs)
    (hfraction : fraction < precision) (hfits : Fits (exactAmount negative is fs precision)) :
    addFractionTo (signedWhole negative is precision) fraction =
        exactAmount negative is fs precision ↔
      fraction = exactFraction fs precision ∧
        (negative = false ∨ 0 < value is ∨ exactFraction fs precision = 0) := by
  have hexact := exactFraction_lt hfs hp
  have hwhole : 0 < value is ↔ 0 < value is * precision := by
    rw [Nat.mul_pos_iff_of_pos_right hp]
  rw [hwhole]
  rw [exactAmount_eq] at hfits ⊢
  unfold signedWhole addFractionTo
  generalize value is * precision = whole at hfits ⊢
  generalize exactFraction fs precision = exact at hfits hexact ⊢
  unfold Fits at hfits
  unfold int64
  cases negative with
  | true =>
    simp only [if_true, Bool.true_eq_false, false_or] at hfits ⊢
    split <;> omega
  | false =>
    simp only [Bool.false_eq_true, if_false, true_or, and_true] at hfits ⊢
    split <;> omega

/-- An amount is read as it is written, cut to the precision of the asset, unless the
digits behind the point do not fit in 63 bits and their first ones are not by chance those
of the largest number that does, or a sign is lost with a whole part of zero. -/
theorem to_ugly_asset_exact_iff {c : ChainInterface} {symbol : String} {record : AssetRecord}
    {negative : Bool} {is : List Char} {fs : Option (List Char)}
    (hrecord : c.getAssetRecordBySymbol symbol = some record)
    (hpower : isPowerOfTen record.precision) (his : Digits is) (hfs : Digits (fs.getD []))
    (hfits : Fits (exactAmount negative is (fs.getD []) record.precision)) :
    toUglyAsset c (signedText negative is fs) symbol =
        some (.ok ⟨exactAmount negative is (fs.getD []) record.precision, record.id⟩) ↔
      (value (fs.getD []) < 2 ^ 63 ∨ exactFraction (fs.getD []) record.precision =
        (2 ^ 63 - 1) * record.precision / 10 ^ (19 + leadingZeros (fs.getD []))) ∧
      (negative = false ∨ 0 < value is ∨ exactFraction (fs.getD []) record.precision = 0) := by
  obtain ⟨j, hj, hprecision⟩ := List.mem_map.mp hpower
  have hj15 : j ≤ 15 := by
    have := List.mem_range.mp hj
    omega
  rw [← hprecision] at hfits
  have hpos : 0 < 10 ^ j := Nat.pow_pos (by decide)
  have hugly := uglyAmount_text hj15 his hfs (signedWhole_fits hfits)
  have hsum := addFractionTo_eq_iff hpos (pow_le_maximum hj15) hfs (uglyFraction_lt hfs hpos) hfits
  have hfraction : uglyFraction (fs.getD []) (10 ^ j) = exactFraction (fs.getD []) (10 ^ j) ↔
      value (fs.getD []) < 2 ^ 63 ∨ exactFraction (fs.getD []) (10 ^ j) =
        (2 ^ 63 - 1) * 10 ^ j / 10 ^ (19 + leadingZeros (fs.getD [])) := by
    unfold uglyFraction
    split
    next hvalue => exact ⟨fun _ => Or.inl hvalue, fun _ => rfl⟩
    next hvalue => exact ⟨fun h => Or.inr h.symm, fun h => (h.resolve_left hvalue).symm⟩
  unfold toUglyAsset
  rw [hrecord]
  dsimp only
  rw [← hprecision, hugly, ← hfraction, ← hsum, Option.map_some, Option.some.injEq,
    Except.ok.injEq, Asset.mk.injEq]
  exact ⟨fun h => h.1, fun h => ⟨h, rfl⟩⟩

end Model

def shareChain : @ChainInterface Fc.plain :=
  letI := Fc.plain
  .database
    { assetDb := Table.empty.store
        { id := 0, symbol := "BTS", issuerAccountId := 0, precision := 100000 }
      symbolIndexDb := AList.insert "BTS" 0 ∅ }

theorem to_ugly_asset_exact_iff_half :
    letI := Fc.plain
    toUglyAsset shareChain "-1.5".toList "BTS" = some (.ok ⟨-150000, 0⟩) := by
  let := Fc.plain
  have hrecord : shareChain.getAssetRecordBySymbol "BTS" =
      some { id := 0, symbol := "BTS", issuerAccountId := 0, precision := 100000 } := rfl
  have hread := @to_ugly_asset_exact_iff _ _ _ _ true "1".toList (some "5".toList) hrecord
    (by decide) (by decide) (by decide) (by decide +kernel)
  exact hread.mpr (by decide +kernel)

/-- The sign of an amount between minus one and zero is lost, and a fraction of more than
63 bits is read as the largest number of 63 bits. -/
theorem to_ugly_asset_misreads :
    letI := Fc.plain
    toUglyAsset shareChain "-0.5".toList "BTS" = some (.ok ⟨50000, 0⟩) ∧
    exactAmount true "0".toList "5".toList 100000 = -50000 ∧
    toUglyAsset shareChain "0.99999999999999999999".toList "BTS" = some (.ok ⟨92233, 0⟩) ∧
    exactAmount false "0".toList "99999999999999999999".toList 100000 = 99999 := by
  decide +kernel

end Bts.Blockchain.AmountStrings
