import Mathlib.Data.Set.Basic
import Mathlib.Logic.Function.Basic

namespace Bts.Db

variable {K V : Type}

structure KeyOps (K : Type) where
  less : K → K → Bool
  equal : K → K → Bool

def keyCompare (ops : KeyOps K) (a b : K) : Int :=
  if ops.less a b then -1 else if ops.equal a b then 0 else 1

/-- The order of a `std::map`, which asks `<` alone. -/
def mapCompare (ops : KeyOps K) (a b : K) : Int :=
  if ops.less a b then -1 else if ops.less b a then 1 else 0

/-- A comparison is a total order of some keys, and 0 for equal keys only. -/
structure Orders (compare : K → K → Int) (keys : Set K) : Prop where
  eq_zero_iff : ∀ a ∈ keys, ∀ b ∈ keys, compare a b = 0 ↔ a = b
  antisymm : ∀ a ∈ keys, ∀ b ∈ keys, compare b a = -compare a b
  trans : ∀ a ∈ keys, ∀ b ∈ keys, ∀ c ∈ keys, compare a b ≤ 0 → compare b c ≤ 0 → compare a c ≤ 0

/-- The operator `<` is a strict total order, and `==` holds at least of a key and itself. -/
structure KeyOps.StrictTotal (ops : KeyOps K) : Prop where
  irrefl : ∀ a, ops.less a a = false
  trans : ∀ a b c, ops.less a b = true → ops.less b c = true → ops.less a c = true
  total : ∀ a b, ops.less a b = false → ops.less b a = false → a = b
  refl : ∀ a, ops.equal a a = true
  symm : ∀ a b, ops.equal a b = true → ops.equal b a = true

section Compare

variable {ops : KeyOps K} {a b c : K}

theorem KeyOps.StrictTotal.asymm (h : ops.StrictTotal) (hab : ops.less a b = true) :
    ops.less b a = false := by
  rw [Bool.eq_false_iff]
  intro hba
  have haa := h.trans a b a hab hba
  rw [h.irrefl] at haa
  cases haa

theorem mapCompare_le_zero (h : ops.StrictTotal) : mapCompare ops a b ≤ 0 ↔ ops.less b a = false := by
  unfold mapCompare
  cases hab : ops.less a b with
  | true => simp [h.asymm hab]
  | false => cases ops.less b a <;> simp

theorem orders_mapCompare (h : ops.StrictTotal) (keys : Set K) : Orders (mapCompare ops) keys := by
  refine ⟨fun a _ b _ => ⟨fun hzero => ?_, fun hab => ?_⟩, fun a _ b _ => ?_,
    fun a _ b _ c _ hab hbc => ?_⟩
  · unfold mapCompare at hzero
    cases hab : ops.less a b with
    | true => simp [hab] at hzero
    | false =>
      cases hba : ops.less b a with
      | true => simp [hab, hba] at hzero
      | false => exact h.total a b hab hba
  · subst hab
    simp [mapCompare, h.irrefl]
  · unfold mapCompare
    cases hab : ops.less a b with
    | true => simp [h.asymm hab]
    | false => cases ops.less b a <;> simp
  · rw [mapCompare_le_zero h] at hab hbc ⊢
    rw [Bool.eq_false_iff]
    intro hca
    cases hlt : ops.less a b with
    | true => exact Bool.eq_false_iff.mp hbc (h.trans c a b hca hlt)
    | false =>
      obtain rfl := h.total a b hlt hab
      exact Bool.eq_false_iff.mp hbc hca

/-- The comparison of a database orders its keys as a `std::map` does exactly if no two of them
are `==`. -/
theorem orders_keyCompare_iff (h : ops.StrictTotal) (keys : Set K) :
    (Orders (keyCompare ops) keys ∧
      ∀ a ∈ keys, ∀ b ∈ keys, keyCompare ops a b = mapCompare ops a b) ↔
      ∀ a ∈ keys, ∀ b ∈ keys, ops.equal a b = true → a = b := by
  constructor
  · rintro ⟨horders, -⟩ a ha b hb hequal
    cases hab : ops.less a b with
    | false =>
      refine (horders.eq_zero_iff a ha b hb).mp ?_
      simp [keyCompare, hab, hequal]
    | true =>
      refine ((horders.eq_zero_iff b hb a ha).mp ?_).symm
      simp [keyCompare, h.asymm hab, h.symm a b hequal]
  · intro hkeys
    have hagrees : ∀ a ∈ keys, ∀ b ∈ keys, keyCompare ops a b = mapCompare ops a b := by
      intro a ha b hb
      unfold keyCompare mapCompare
      cases hab : ops.less a b with
      | true => rfl
      | false =>
        cases hba : ops.less b a with
        | false =>
          obtain rfl := h.total a b hab hba
          simp [h.refl]
        | true =>
          have hne : ops.equal a b = false := by
            rw [Bool.eq_false_iff]
            intro hequal
            obtain rfl := hkeys a ha b hb hequal
            exact Bool.eq_false_iff.mp hab hba
          simp [hne]
    have horders := orders_mapCompare h keys
    refine ⟨⟨fun a ha b hb => ?_, fun a ha b hb => ?_, fun a ha b hb c hc => ?_⟩, hagrees⟩
    · rw [hagrees a ha b hb]
      exact horders.eq_zero_iff a ha b hb
    · rw [hagrees a ha b hb, hagrees b hb a ha]
      exact horders.antisymm a ha b hb
    · rw [hagrees a ha b hb, hagrees b hb c hc, hagrees a ha c hc]
      exact horders.trans a ha b hb c hc

end Compare

/-- The operators of keys that the comparison of a database orders. -/
structure Comparator (K : Type) extends KeyOps K where
  orders : Orders (keyCompare toKeyOps) Set.univ

/-- The ids of accounts and assets are compared as integers. -/
def idComparator : Comparator Int where
  less a b := decide (a < b)
  equal a b := decide (a = b)
  orders := by
    refine ((orders_keyCompare_iff ⟨?_, ?_, ?_, ?_, ?_⟩ Set.univ).mpr ?_).1
    · simp
    · simpa using fun a b c => Int.lt_trans
    · simpa using fun a b hab hba => Int.le_antisymm hba hab
    · simp
    · simp [eq_comm]
    · simp

namespace Comparator

variable (c : Comparator K) {a b : K}

def compare : K → K → Int := keyCompare c.toKeyOps

theorem compare_eq_zero : c.compare a b = 0 ↔ a = b := c.orders.eq_zero_iff a trivial b trivial

theorem equal_of_not_less (hless : ¬ c.compare a b < 0) : c.equal a b = true ↔ a = b := by
  unfold compare keyCompare at hless
  cases hab : c.less a b with
  | true => simp [hab] at hless
  | false =>
    rw [← c.compare_eq_zero]
    unfold compare keyCompare
    cases c.equal a b <;> simp [hab]

end Comparator

inductive BatchEntry (K V : Type)
  | store (key : K) (value : V)
  | remove (key : K)

/-- `leveldb::DB`, opened with the comparison of a map. An iterator is at the entry `seek` finds,
and passes the list of all entries from `SeekToFirst` on. -/
class LevelDb (c : Comparator K) (V : Type) where
  DB : Type
  put : DB → K → V → DB
  delete : DB → K → DB
  write : DB → List (BatchEntry K V) → DB
  seek : DB → K → Option (K × V)
  entries : DB → List (K × V)

def BatchEntry.apply {c : Comparator K} [LevelDb c V] (db : LevelDb.DB c V) :
    BatchEntry K V → LevelDb.DB c V
  | .store key value => LevelDb.put db key value
  | .remove key => LevelDb.delete db key

/-- What the library promises of its calls where none of them fails. -/
class LawfulLevelDb (c : Comparator K) (V : Type) [LevelDb c V] : Prop where
  sorted : ∀ db : LevelDb.DB c V,
    (LevelDb.entries db).Pairwise fun x y => c.compare x.1 y.1 < 0
  mem_put : ∀ (db : LevelDb.DB c V) k v j w, (j, w) ∈ LevelDb.entries (LevelDb.put db k v) ↔
    (j = k ∧ w = v) ∨ (j ≠ k ∧ (j, w) ∈ LevelDb.entries db)
  mem_delete : ∀ (db : LevelDb.DB c V) k j w, (j, w) ∈ LevelDb.entries (LevelDb.delete db k) ↔
    j ≠ k ∧ (j, w) ∈ LevelDb.entries db
  write_eq : ∀ (db : LevelDb.DB c V) batch, LevelDb.write db batch = batch.foldl BatchEntry.apply db
  seek_eq : ∀ (db : LevelDb.DB c V) k,
    LevelDb.seek db k = (LevelDb.entries db).find? fun row => ¬ c.compare row.1 k < 0

abbrev LevelMap (c : Comparator K) (V : Type) [LevelDb c V] := LevelDb.DB c V

namespace LevelMap

variable {c : Comparator K} [LevelDb c V] (m : LevelMap c V)

def store (k : K) (v : V) : LevelMap c V := LevelDb.put m k v

def remove (k : K) : LevelMap c V := LevelDb.delete m k

def commit (batch : List (BatchEntry K V)) : LevelMap c V := LevelDb.write m batch

/-- The iterator at the first key that is not less than a key, if it is `==` to it. -/
def find (k : K) : Option (K × V) := (LevelDb.seek m k).filter fun row => c.equal row.1 k

def fetchOptional (k : K) : Option V := (m.find k).map Prod.snd

def rows : List (K × V) := LevelDb.entries m

/-- The rows of a database are those of a map. -/
def Holds (contents : K → Option V) : Prop :=
  ∀ k v, (k, v) ∈ m.rows ↔ contents k = some v

omit [LevelDb c V] in
theorem compare_ne_of_mem {k j : K} {v w : V} {rest : List (K × V)}
    (h : ((k, v) :: rest).Pairwise fun x y => c.compare x.1 y.1 < 0) (hmem : (j, w) ∈ rest) :
    c.compare k j < 0 ∧ k ≠ j := by
  have hless := (List.pairwise_cons.mp h).1 _ hmem
  exact ⟨hless, fun he => absurd (c.compare_eq_zero.mpr he) hless.ne⟩

omit [LevelDb c V] in
theorem find_not_less {rows : List (K × V)} {k j : K} {w : V}
    (h : rows.Pairwise fun x y => c.compare x.1 y.1 < 0) :
    ((rows.find? fun row => ¬ c.compare row.1 k < 0).filter fun row => c.equal row.1 k) =
      some (j, w) ↔ j = k ∧ (k, w) ∈ rows := by
  induction rows with
  | nil => simp
  | cons row rest ih =>
    obtain ⟨i, u⟩ := row
    have hrest := ih (List.pairwise_cons.mp h).2
    by_cases hless : c.compare i k < 0
    · have hne : k ≠ i := fun he => absurd (c.compare_eq_zero.mpr he.symm) hless.ne
      rw [List.find?_cons_of_neg (by simp [hless]), hrest]
      simp [hne]
    · rw [List.find?_cons_of_pos (by simp [hless]), Option.filter_eq_some_iff, Option.some.injEq,
        Prod.mk.injEq]
      constructor
      · rintro ⟨⟨rfl, rfl⟩, hequal⟩
        obtain rfl := (c.equal_of_not_less hless).mp hequal
        exact ⟨rfl, List.mem_cons_self⟩
      · rintro ⟨rfl, hmem⟩
        rcases List.mem_cons.mp hmem with he | hmem
        · obtain ⟨rfl, rfl⟩ := Prod.mk.inj he
          exact ⟨⟨rfl, rfl⟩, (c.equal_of_not_less hless).mpr rfl⟩
        · exact absurd (compare_ne_of_mem h hmem).1 hless

variable {m} [LawfulLevelDb c V]

theorem fetchOptional_eq_some {k : K} {v : V} : m.fetchOptional k = some v ↔ (k, v) ∈ m.rows := by
  have hfind {j : K} {w : V} : m.find k = some (j, w) ↔ j = k ∧ (k, w) ∈ m.rows := by
    unfold find
    rw [LawfulLevelDb.seek_eq]
    exact find_not_less (LawfulLevelDb.sorted m)
  unfold fetchOptional
  rw [Option.map_eq_some_iff]
  constructor
  · rintro ⟨⟨j, w⟩, hrow, rfl⟩
    exact (hfind.mp hrow).2
  · intro hmem
    exact ⟨(k, v), hfind.mpr ⟨rfl, hmem⟩, rfl⟩

theorem holds_of_fetch {contents : K → Option V} (h : m.fetchOptional = contents) :
    m.Holds contents := by
  intro k v
  rw [← fetchOptional_eq_some, h]

variable [DecidableEq K]

theorem fetchOptional_store (m : LevelMap c V) (k : K) (v : V) :
    (m.store k v).fetchOptional = Function.update m.fetchOptional k (some v) := by
  funext j
  refine Option.ext fun w => ?_
  rw [fetchOptional_eq_some]
  refine (LawfulLevelDb.mem_put m k v j w).trans ?_
  rw [Function.update_apply]
  split
  next hj => simp [hj, eq_comm]
  next hj => simp [hj, fetchOptional_eq_some, rows]

theorem fetchOptional_remove (m : LevelMap c V) (k : K) :
    (m.remove k).fetchOptional = Function.update m.fetchOptional k none := by
  funext j
  refine Option.ext fun w => ?_
  rw [fetchOptional_eq_some]
  refine (LawfulLevelDb.mem_delete m k j w).trans ?_
  rw [Function.update_apply]
  split
  next hj => simp [hj]
  next hj => simp [hj, fetchOptional_eq_some, rows]

end LevelMap

end Bts.Db
