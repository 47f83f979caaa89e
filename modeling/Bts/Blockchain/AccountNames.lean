import Mathlib.Data.List.TakeWhile
import Bts.Blockchain.Rules

namespace Bts.Blockchain.AccountNames

open Rules

structure IsLabel (l : List Char) : Prop where
  head : l.head?.any Char.isLower
  last : l.getLast?.any fun c => c.isLower || c.isDigit
  chars : ∀ c ∈ l, c.isLower ∨ c.isDigit ∨ c = '-'

/-- Labels with single dots between them. -/
inductive Labels : List Char → Prop
  | one {l} : IsLabel l → Labels l
  | dot {l rest} : IsLabel l → Labels rest → Labels (l ++ '.' :: rest)

theorem upper_apart {c : Char} (h : c.isUpper = true) : c.isLower = false ∧ c.isDigit = false := by
  unfold Char.isUpper at h
  unfold Char.isLower Char.isDigit
  simp [UInt32.le_iff_toNat_le] at h ⊢
  omega

theorem isNameEnd_eq : isNameEnd = fun c => c.isLower || c.isDigit := by
  funext c
  unfold isNameEnd Char.isAlphanum Char.isAlpha
  cases hcase : c.isUpper with
  | true => simp [upper_apart hcase]
  | false => simp

theorem IsLabel.no_dot {l : List Char} (h : IsLabel l) : '.' ∉ l := by
  intro hdot
  have hchar := h.chars '.' hdot
  revert hchar
  decide

theorem parentNames_label {l : List Char} (h : '.' ∉ l) : parentNames l = [] := by
  induction l with
  | nil => rfl
  | cons c l ih =>
    rw [List.mem_cons, not_or] at h
    rw [parentNames, if_neg (Ne.symm h.1)]
    exact ih h.2

theorem parentNames_dot {l : List Char} (h : '.' ∉ l) (rest : List Char) :
    parentNames (l ++ '.' :: rest) = rest :: parentNames rest := by
  induction l with
  | nil => exact if_pos rfl
  | cons c l ih =>
    rw [List.mem_cons, not_or] at h
    rw [List.cons_append, parentNames, if_neg (Ne.symm h.1)]
    exact ih h.2

variable {l rest : List Char}

theorem isLabel_iff : IsLabel l ↔ l.head?.any Char.isAlpha ∧ l.getLast?.any isNameEnd ∧
    l.all fun c => isNameEnd c || c = '-' := by
  rw [isNameEnd_eq, List.all_eq_true]
  simp only [Bool.or_eq_true, decide_eq_true_eq, or_assoc]
  constructor
  · intro h
    refine ⟨?_, h.last, h.chars⟩
    obtain ⟨c, hc, hlower⟩ := (Option.any_eq_true ..).mp h.head
    exact (Option.any_eq_true ..).mpr ⟨c, hc, Bool.or_eq_true_iff.mpr (Or.inr hlower)⟩
  · rintro ⟨hhead, hlast, hchars⟩
    refine ⟨?_, hlast, hchars⟩
    obtain ⟨c, hc, halpha⟩ := (Option.any_eq_true ..).mp hhead
    refine (Option.any_eq_true ..).mpr ⟨c, hc, ?_⟩
    rcases Bool.or_eq_true_iff.mp halpha with hupper | hlower
    · rcases hchars c (List.mem_of_head? hc) with h | h | rfl
      · exact h
      · cases (upper_apart hupper).2.symm.trans h
      · cases hupper
    · exact hlower

theorem takeWhile_label (h : '.' ∉ l) : l.takeWhile (· ≠ '.') = l ∧
    ∀ rest, (l ++ '.' :: rest).takeWhile (· ≠ '.') = l := by
  have hne : ∀ c ∈ l, decide (c ≠ '.') = true := fun c hc => decide_eq_true fun heq => h (heq ▸ hc)
  refine ⟨List.takeWhile_eq_self_iff.mpr hne, fun rest => ?_⟩
  rw [List.takeWhile_append_of_pos hne]
  simp

theorem isValidNamePart_label (h : '.' ∉ l) :
    isValidNamePart l = true ↔ (1 ≤ l.length ∧ l.length ≤ 63) ∧ IsLabel l := by
  unfold isValidNamePart
  rw [(takeWhile_label h).1, isLabel_iff]
  simp only [Bool.and_eq_true, decide_eq_true_eq]
  tauto

theorem isValidNamePart_dot (h : '.' ∉ l) :
    isValidNamePart (l ++ '.' :: rest) = true ↔ (l ++ '.' :: rest).length ≤ 63 ∧ IsLabel l ∧
      ('.' :: rest).getLast?.any isNameEnd := by
  have hlast : (l ++ '.' :: rest).getLast? = ('.' :: rest).getLast? :=
    List.getLast?_append_of_ne_nil l (List.cons_ne_nil '.' rest)
  unfold isValidNamePart
  rw [(takeWhile_label h).2, isLabel_iff, hlast]
  cases l with
  | nil => simp
  | cons c l =>
    have hpos : 1 ≤ (c :: l ++ '.' :: rest).length := Nat.le_add_left ..
    simp only [List.cons_append, List.head?_cons, Bool.and_eq_true, decide_eq_true_eq] at hpos ⊢
    tauto

theorem labels_of_valid {cs : List Char} (h : (cs :: parentNames cs).all isValidNamePart = true) :
    Labels cs := by
  induction hn : cs.length using Nat.strong_induction_on generalizing cs with
  | _ n ih =>
    by_cases hdot : '.' ∈ cs
    · obtain ⟨l, rest, rfl, hl⟩ := List.eq_append_cons_of_mem hdot
      rw [parentNames_dot hl, List.all_cons, Bool.and_eq_true, isValidNamePart_dot hl] at h
      refine .dot h.1.2.1 (ih rest.length ?_ h.2 rfl)
      rw [← hn, List.length_append, List.length_cons]
      omega
    · rw [parentNames_label hdot, List.all_cons, Bool.and_eq_true, isValidNamePart_label hdot] at h
      exact .one h.1.2

theorem valid_of_labels {cs : List Char} (h : Labels cs) (hlength : cs.length ≤ 63) :
    (cs :: parentNames cs).all isValidNamePart = true := by
  induction h with
  | @one l hl =>
    have hpos : 1 ≤ l.length := by
      cases l with
      | nil => cases hl.head
      | cons c l => exact Nat.le_add_left ..
    rw [parentNames_label hl.no_dot, List.all_cons, Bool.and_eq_true,
      isValidNamePart_label hl.no_dot]
    exact ⟨⟨⟨hpos, hlength⟩, hl⟩, rfl⟩
  | @dot l rest hl hrest ih =>
    have hvalid := ih (by
      rw [List.length_append, List.length_cons] at hlength
      omega)
    rw [parentNames_dot hl.no_dot, List.all_cons, Bool.and_eq_true, isValidNamePart_dot hl.no_dot]
    refine ⟨⟨hlength, hl, ?_⟩, hvalid⟩
    rw [List.all_cons, Bool.and_eq_true] at hvalid
    simp only [isValidNamePart, Bool.and_eq_true] at hvalid
    cases rest with
    | nil => cases hvalid.1.1.1.1.2
    | cons c rest =>
      exact hvalid.1.1.1.2

/-- The accepted names are those of labels with single dots between them, and the parent of an
accepted name is accepted as well. -/
theorem account_name_grammar (name : String) :
    (isValidAccountName name = true ↔
      (1 ≤ name.toList.length ∧ name.toList.length ≤ 63) ∧ Labels name.toList) ∧
    ∀ parent, isValidAccountName name = true → getParentAccountName name = some parent →
      isValidAccountName parent = true := by
  refine ⟨⟨fun h => ?_, fun h => valid_of_labels h.2 h.1.2⟩, ?_⟩
  · have hpart : isValidNamePart name.toList = true := by
      unfold isValidAccountName at h
      rw [List.all_cons, Bool.and_eq_true] at h
      exact h.1
    simp only [isValidNamePart, Bool.and_eq_true, decide_eq_true_eq] at hpart
    exact ⟨hpart.1.1.1.1, labels_of_valid h⟩
  · intro parent h hparent
    by_cases hdot : '.' ∈ name.toList
    · obtain ⟨l, rest, hname, hl⟩ := List.eq_append_cons_of_mem hdot
      unfold isValidAccountName getParentAccountName at *
      rw [hname, parentNames_dot hl] at h hparent
      cases hparent
      rw [List.all_cons, Bool.and_eq_true] at h
      rw [String.toList_ofList]
      exact h.2
    · unfold getParentAccountName at hparent
      rw [parentNames_label hdot] at hparent
      cases hparent

end Bts.Blockchain.AccountNames
