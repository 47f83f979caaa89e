import Mathlib.Data.List.DropRight
import Mathlib.Algebra.Order.Ring.Nat
import Mathlib.Tactic.Ring

/-!
Decimal digits, read and written with the most significant one first.
-/

namespace Bts.Base.Decimal

variable {σ : Type} {cs rest : List Char}

def digit (c : Char) : Nat := c.toNat - '0'.toNat

def Digits (cs : List Char) : Prop := ∀ c ∈ cs, c.isDigit

instance (cs : List Char) : Decidable (Digits cs) := List.decidableBAll _ cs

/-- The number that a list of digits stands for. -/
def value (cs : List Char) : Nat := Nat.ofDigitChars 10 cs 0

/-- A text that does not go on with a digit. -/
def Ends (rest : List Char) : Prop := ∀ c ∈ rest.head?, ¬ c.isDigit
  deriving Decidable

def readDigits (step : σ → Nat → σ) : σ → List Char → σ × List Char
  | s, [] => (s, [])
  | s, c :: cs => if c.isDigit then readDigits step (step s (digit c)) cs else (s, c :: cs)

theorem digit_lt {c : Char} (h : c.isDigit) : digit c < 10 := by
  simp only [Char.isDigit, Bool.and_eq_true, decide_eq_true_eq, ge_iff_le] at h
  have hle : c.toNat ≤ '9'.toNat := h.2
  unfold digit
  have hnine : '9'.toNat = 57 := rfl
  have hzero : '0'.toNat = 48 := rfl
  omega

theorem value_cons (c : Char) (cs : List Char) :
    value (c :: cs) = digit c * 10 ^ cs.length + value cs := by
  unfold value digit
  rw [Nat.ofDigitChars_cons, Nat.mul_zero, Nat.zero_add, Nat.ofDigitChars_eq_ofDigitChars_zero,
    Nat.mul_comm]

theorem value_append (xs ys : List Char) :
    value (xs ++ ys) = value xs * 10 ^ ys.length + value ys := by
  unfold value
  rw [Nat.ofDigitChars_append, Nat.ofDigitChars_eq_ofDigitChars_zero, Nat.mul_comm]

theorem value_replicate_zero (n : Nat) : value (List.replicate n '0') = 0 := by
  unfold value
  rw [Nat.ofDigitChars_replicate_zero, Nat.mul_zero]

theorem ends_nil : Ends [] := fun _ hc => nomatch hc

theorem digits_replicate_zero (n : Nat) : Digits (List.replicate n '0') := by
  intro c hc
  rw [List.eq_of_mem_replicate hc]
  decide

theorem Digits.append {xs ys : List Char} (hxs : Digits xs) (hys : Digits ys) :
    Digits (xs ++ ys) := by
  intro c hc
  exact (List.mem_append.mp hc).elim (hxs c) (hys c)

theorem value_lt (h : Digits cs) : value cs < 10 ^ cs.length := by
  induction cs with
  | nil => exact Nat.one_pos
  | cons c cs ih =>
    have hd : digit c < 10 := digit_lt (h c List.mem_cons_self)
    have hv : value cs < 10 ^ cs.length := ih fun d hm => h d (List.mem_cons_of_mem _ hm)
    rw [value_cons, List.length_cons, Nat.pow_succ]
    calc digit c * 10 ^ cs.length + value cs < digit c * 10 ^ cs.length + 10 ^ cs.length :=
          Nat.add_lt_add_left hv _
      _ = (digit c + 1) * 10 ^ cs.length := by ring
      _ ≤ 10 * 10 ^ cs.length := Nat.mul_le_mul_right _ hd
      _ = 10 ^ cs.length * 10 := Nat.mul_comm _ _

theorem takeWhile_digits (hcs : Digits cs) (hrest : Ends rest) :
    (cs ++ rest).takeWhile Char.isDigit = cs := by
  have hnil : rest.takeWhile Char.isDigit = [] := by
    cases rest with
    | nil => rfl
    | cons c rest => exact List.takeWhile_cons_of_neg (hrest c rfl)
  rw [List.takeWhile_append_of_pos hcs, hnil, List.append_nil]

theorem dropWhile_digits (hcs : Digits cs) (hrest : Ends rest) :
    (cs ++ rest).dropWhile Char.isDigit = rest := by
  rw [List.dropWhile_append_of_pos hcs]
  cases rest with
  | nil => rfl
  | cons c rest => exact List.dropWhile_cons_of_neg (hrest c rfl)

theorem readDigits_append (step : σ → Nat → σ) (s : σ) (hcs : Digits cs) (hrest : Ends rest) :
    readDigits step s (cs ++ rest) = (cs.foldl (fun s c => step s (digit c)) s, rest) := by
  induction cs generalizing s with
  | nil =>
    cases rest with
    | nil => rfl
    | cons c rest => exact if_neg (hrest c rfl)
  | cons c cs ih =>
    rw [List.cons_append, readDigits, if_pos (hcs c List.mem_cons_self)]
    exact ih _ fun d hm => hcs d (List.mem_cons_of_mem _ hm)

/-- Digits that are added up in a number which wraps around. -/
theorem foldl_mod (m n : Nat) (cs : List Char) :
    cs.foldl (fun n c => (n * 10 + digit c) % m) (n % m) =
      (n * 10 ^ cs.length + value cs) % m := by
  induction cs generalizing n with
  | nil => rw [List.length_nil, Nat.pow_zero, Nat.mul_one]; rfl
  | cons c cs ih =>
    have hstep : (n % m * 10 + digit c) % m = (n * 10 + digit c) % m := by
      rw [Nat.add_mod, Nat.mod_mul_mod, ← Nat.add_mod]
    rw [List.foldl_cons, hstep, ih, value_cons, List.length_cons, Nat.pow_succ]
    congr 1
    ring

theorem exists_eq_rdropWhile_append (cs : List Char) :
    ∃ n, cs = cs.rdropWhile (· = '0') ++ List.replicate n '0' := by
  refine ⟨(cs.rtakeWhile (· = '0')).length, ?_⟩
  have hzeros : cs.rtakeWhile (· = '0') =
      List.replicate (cs.rtakeWhile (· = '0')).length '0' := by
    refine List.eq_replicate_iff.mpr ⟨rfl, fun c hm => ?_⟩
    have hc := List.mem_rtakeWhile_imp hm
    exact of_decide_eq_true hc
  calc cs = cs.rdropWhile (· = '0') ++ cs.rtakeWhile (· = '0') :=
        List.rdropWhile_append_rtakeWhile.symm
    _ = _ := congrArg _ hzeros

theorem rdropWhile_append_cons {p : Char → Bool} {a : Char} (ha : ¬ p a) (xs ys : List Char) :
    (xs ++ a :: ys).rdropWhile p = xs ++ a :: ys.rdropWhile p := by
  induction ys using List.reverseRecOn with
  | nil => rw [List.rdropWhile_concat_neg p xs a ha, List.rdropWhile_nil]
  | append_singleton ys b ih =>
    have hassoc : xs ++ a :: (ys ++ [b]) = (xs ++ a :: ys) ++ [b] := by
      rw [List.append_assoc, List.cons_append]
    rw [hassoc, List.rdropWhile_concat, List.rdropWhile_concat, ih]
    split
    · rfl
    · rw [← hassoc]

end Bts.Base.Decimal
