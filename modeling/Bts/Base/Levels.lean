import Mathlib.Data.Finset.Card
import Mathlib.Data.List.Dedup
import Mathlib.Logic.Relation

namespace Bts.Base.Levels

variable {α : Type} [DecidableEq α] {next : α → List α} {n : Nat} {ids : List α} {a b x : α}

def nextLevel (next : α → List α) (ids : List α) : List α := (ids.flatMap next).dedup

/-- The nodes a walk visits that goes through a graph level by level. -/
def visited (next : α → List α) : Nat → List α → List α
  | 0, _ => []
  | n + 1, ids => ids ++ visited next n (nextLevel next ids)

/-- `b` is `a` or comes after it. -/
def Below (next : α → List α) : α → α → Prop := Relation.ReflTransGen fun a b => b ∈ next a

theorem mem_nextLevel : x ∈ nextLevel next ids ↔ ∃ a ∈ ids, x ∈ next a := by
  simp [nextLevel]

theorem below_of_mem_visited (h : x ∈ visited next n ids) : ∃ a ∈ ids, Below next a x := by
  induction n generalizing ids with
  | zero => cases h
  | succ n ih =>
    rcases List.mem_append.mp h with hx | hx
    · exact ⟨x, hx, .refl⟩
    · obtain ⟨b, hb, hbelow⟩ := ih hx
      obtain ⟨a, ha, hnext⟩ := mem_nextLevel.mp hb
      exact ⟨a, ha, .head hnext hbelow⟩

/-- The walk takes one step more for each node of lower rank, so it is done when it has
made as many steps as there are nodes. -/
theorem mem_visited_of_below {rank : α → Nat} {nodes : Finset α}
    (hrank : ∀ a b, b ∈ next a → rank a < rank b) (hclosed : ∀ a ∈ nodes, ∀ b ∈ next a, b ∈ nodes)
    (hn : (nodes.filter fun y => rank a ≤ rank y).card ≤ n) (hids : a ∈ ids) (ha : a ∈ nodes)
    (h : Below next a x) : x ∈ visited next n ids := by
  induction h using Relation.ReflTransGen.head_induction_on generalizing n ids with
  | refl =>
    obtain ⟨m, rfl⟩ : ∃ m, n = m + 1 := by
      refine ⟨n - 1, (Nat.sub_add_cancel ?_).symm⟩
      refine le_trans (Finset.card_pos.mpr ⟨x, ?_⟩) hn
      exact Finset.mem_filter.mpr ⟨ha, le_refl _⟩
    exact List.mem_append_left _ hids
  | @head a b hab _ ih =>
    have hlt := hrank a b hab
    have hfewer : (nodes.filter fun y => rank b ≤ rank y).card <
        (nodes.filter fun y => rank a ≤ rank y).card := by
      refine Finset.card_lt_card (Finset.ssubset_iff_of_subset ?_ |>.mpr ⟨a, ?_, ?_⟩)
      · intro y hy
        rw [Finset.mem_filter] at hy ⊢
        exact ⟨hy.1, by omega⟩
      · exact Finset.mem_filter.mpr ⟨ha, le_refl _⟩
      · rw [Finset.mem_filter]
        omega
    obtain ⟨m, rfl⟩ : ∃ m, n = m + 1 := ⟨n - 1, by omega⟩
    refine List.mem_append_right _ ?_
    exact ih (by omega) (mem_nextLevel.mpr ⟨a, hids, hab⟩) (hclosed a ha b hab)

/-- A walk with as many levels as a ranked graph has nodes visits what is below its start. -/
theorem mem_visited_iff {rank : α → Nat} (nodes : Finset α)
    (hrank : ∀ a b, b ∈ next a → rank a < rank b) (hclosed : ∀ a ∈ nodes, ∀ b ∈ next a, b ∈ nodes)
    (hids : ∀ a ∈ ids, a ∈ nodes) (hn : nodes.card ≤ n) :
    x ∈ visited next n ids ↔ ∃ a ∈ ids, Below next a x := by
  refine ⟨below_of_mem_visited, ?_⟩
  rintro ⟨a, ha, hbelow⟩
  have hcard := (Finset.card_filter_le nodes fun y => rank a ≤ rank y).trans hn
  exact mem_visited_of_below hrank hclosed hcard ha (hids a ha) hbelow

end Bts.Base.Levels
