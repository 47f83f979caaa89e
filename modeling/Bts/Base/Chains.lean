import Mathlib.Data.Finset.Card

namespace Bts.Base.Chains

variable {α : Type} {prev : α → α} {root : α} {rank : α → Nat} {head x y : α}

/-- `x` is `head` or one of the nodes before it, down to the root. -/
inductive OnChain (prev : α → α) (root : α) : α → α → Prop
  | self (head : α) : OnChain prev root head head
  | before {head x : α} (notRoot : head ≠ root) (chain : OnChain prev root (prev head) x) :
    OnChain prev root head x

theorem onChain_iff :
    OnChain prev root head x ↔ x = head ∨ (head ≠ root ∧ OnChain prev root (prev head) x) := by
  constructor
  · intro h
    cases h with
    | self => exact Or.inl rfl
    | before notRoot chain => exact Or.inr ⟨notRoot, chain⟩
  · rintro (rfl | ⟨hroot, hchain⟩)
    · exact .self _
    · exact .before hroot hchain

theorem onChain_root : OnChain prev root root x ↔ x = root := by
  rw [onChain_iff]
  simp

theorem OnChain.trans (h : OnChain prev root head x) (h' : OnChain prev root x y) :
    OnChain prev root head y := by
  induction h with
  | self => exact h'
  | before notRoot _ ih => exact .before notRoot (ih h')

theorem OnChain.step (h : OnChain prev root head x) (hx : x ≠ root) :
    OnChain prev root head (prev x) :=
  h.trans (.before hx (.self _))

/-- Every node of the chain but the root is one above the node before it. -/
def Numbered (prev : α → α) (root : α) (rank : α → Nat) (head : α) : Prop :=
  ∀ y, OnChain prev root head y → y ≠ root → rank y = rank (prev y) + 1

theorem Numbered.step (h : Numbered prev root rank head) (hhead : head ≠ root) :
    Numbered prev root rank (prev head) :=
  fun y hy hroot => h y (.before hhead hy) hroot

theorem OnChain.rank_le (h : OnChain prev root head x) (hn : Numbered prev root rank head) :
    x = head ∨ rank x < rank head := by
  induction h with
  | self => exact Or.inl rfl
  | @before head x notRoot chain ih =>
    have hstep := hn head (.self head) notRoot
    rcases ih (hn.step notRoot) with rfl | hlt
    · exact Or.inr (by omega)
    · exact Or.inr (by omega)

theorem OnChain.unique (hx : OnChain prev root head x) (hy : OnChain prev root head y)
    (hn : Numbered prev root rank head) (hrank : rank x = rank y) : x = y := by
  induction hx with
  | self =>
    rcases hy.rank_le hn with rfl | hlt
    · rfl
    · omega
  | @before head x notRoot chain ih =>
    rcases onChain_iff.mp hy with rfl | ⟨-, hy⟩
    · rcases (OnChain.before notRoot chain).rank_le hn with heq | hlt
      · exact heq
      · omega
    · exact ih hy (hn.step notRoot) hrank

theorem Numbered.reaches_root (hn : Numbered prev root rank head) : OnChain prev root head root := by
  induction hr : rank head using Nat.strong_induction_on generalizing head with
  | _ n ih =>
    by_cases hhead : head = root
    · rw [hhead]
      exact .self root
    · have hstep := hn head (.self head) hhead
      exact .before hhead (ih (rank (prev head)) (by omega) (hn.step hhead) rfl)

theorem Numbered.exists_rank (hn : Numbered prev root rank head) {n : Nat} (hroot : rank root ≤ n)
    (hle : n ≤ rank head) : ∃ x, OnChain prev root head x ∧ rank x = n := by
  induction hk : rank head - n generalizing head with
  | zero => exact ⟨head, .self head, by omega⟩
  | succ k ih =>
    have hhead : head ≠ root := by
      rintro rfl
      omega
    have hstep := hn head (.self head) hhead
    obtain ⟨x, hx, hrank⟩ := ih (hn.step hhead) (by omega) (by omega)
    exact ⟨x, .before hhead hx, hrank⟩

end Bts.Base.Chains
