import Bts.Blockchain.ChainIndex
import Bts.Net.Synopsis

namespace Bts.Net.ItemIds

open Base.Result Blockchain Transactions Database ChainInvariant ChainIndex StrandedHead Synopsis

theorem find_ne {p : Nat → Bool} {l : List Nat} (h : l.find? p ≠ some 0) :
    (l.find? fun x => x ≠ 0 && p x) = l.find? p := by
  induction l with
  | nil => rfl
  | cons a l ih =>
    rw [List.find?_cons] at h ⊢
    rw [List.find?_cons]
    cases hp : p a with
    | false =>
      rw [hp] at h
      rw [Bool.and_false]
      exact ih h
    | true =>
      rw [hp] at h
      have ha : a ≠ 0 := fun hzero => h (congrArg some hzero)
      rw [decide_eq_true ha, Bool.true_and]

section ItemIds

variable [Fc] {prev rank : Nat → Nat} {db : ChainDatabase} {s : List Nat}

/-- The highest-positioned entry of a synopsis that is included. -/
def lastSeen (db : ChainDatabase) (synopsis : List Nat) : Option Nat :=
  synopsis.reverse.find? (isIncludedBlock db)

/-- The highest-positioned entry that is a block of the main chain, which the null id is not. -/
def lastBlock (db : ChainDatabase) (synopsis : List Nat) : Option Nat :=
  synopsis.reverse.find? fun id => id ≠ 0 && isIncludedBlock db id

variable (h : IndexedChain prev rank db)

include h

theorem included_number {x : Nat} (hx : isIncludedBlock db x = true) :
    (getBlockNum db x).toOption = some (rank x) ∧ rank x ≤ db.getHeadBlockNum ∧ (rank x = 0 → x = 0) := by
  have hchain := (h.included x).mp ((Option.any_eq_true _ _).mp hx)
  have hle : rank x ≤ db.getHeadBlockNum := by
    change rank x ≤ db.headBlockHeader.blockNum
    rw [h.number]
    rcases hchain.rank_le h.numbered with rfl | hlt
    · exact Nat.le_refl _
    · exact hlt.le
  unfold getBlockNum
  by_cases hzero : x = 0
  · rw [if_pos hzero, hzero, h.zero]
    exact ⟨rfl, Nat.zero_le _, fun _ => rfl⟩
  · obtain ⟨r, hr⟩ := Option.isSome_iff_exists.mp
      (h.catalogue.tree.recorded x hzero (h.known hchain))
    have hrank := h.catalogue.numbered x hzero (h.known hchain)
    have hnum := (h.catalogue.records x r hr).2
    rw [if_neg hzero, hr]
    exact ⟨congrArg some hnum, hle, fun hroot => by omega⟩

theorem findSome_included : (s.reverse.findSome? fun id =>
    if isIncludedBlock db id then (getBlockNum db id).toOption else none) = (lastSeen db s).map rank := by
  rw [lastSeen, List.find?_eq_findSome?_guard, List.map_findSome?]
  congr 1
  funext x
  by_cases hx : isIncludedBlock db x = true
  · rw [if_pos hx, (included_number h hx).1]
    simp [Option.guard, hx]
  · simp [Option.guard, hx]

theorem lastBlock_number (s : List Nat) : 1 ≤ ((lastBlock db s).map rank).getD 1 ∧
    (db.getHeadBlockNum ≠ 0 → ((lastBlock db s).map rank).getD 1 ≤ db.getHeadBlockNum) := by
  cases hx : lastBlock db s with
  | none => exact ⟨Nat.le_refl _, Nat.one_le_iff_ne_zero.mpr⟩
  | some x =>
    have hfound := List.find?_some (show List.find? _ _ = some x from hx)
    obtain ⟨hne, hincluded⟩ := Bool.and_eq_true_iff.mp hfound
    obtain ⟨-, hle, hzero⟩ := included_number h hincluded
    exact ⟨Nat.one_le_iff_ne_zero.mpr fun hr => of_decide_eq_true hne (hzero hr), fun _ => hle⟩

/-- The null id is in the fork database as an included block, with the number 0 that the index of
numbers does not have. -/
theorem getItemIds_blocks_iff (hs : s.length ≤ blockchainSynopsisSizeLimit) (limit : Nat) :
    let start := ((lastBlock db s).map rank).getD 1
    let count := db.getHeadBlockNum + 1 - start
    (∃ ids remaining, getItemIds db s limit = .ok (ids, remaining) ∧ ids.length = min limit count ∧
        ids.map some = (List.range' start ids.length).map (fun n => db.blockNumToIdDb.lookup n) ∧
        remaining + ids.length = count) ↔
      db.getHeadBlockNum = 0 ∨ lastSeen db s ≠ some 0 := by
  have hindex (n : Nat) : db.blockNumToIdDb.lookup n = none ↔ ¬ (1 ≤ n ∧ n ≤ db.getHeadBlockNum) :=
    Option.not_isSome_iff_eq_none.symm.trans (not_congr (IndexedChain.indexed h n))
  obtain ⟨hpos, hle⟩ := lastBlock_number h s
  unfold getItemIds
  rw [require, if_pos hs, findSome_included h]
  dsimp only [pure_bind]
  by_cases hhead : db.getHeadBlockNum = 0
  · rw [if_pos hhead]
    refine iff_of_true ⟨[], 0, rfl, ?_, rfl, ?_⟩ (Or.inl hhead)
    · rw [List.length_nil]
      omega
    · rw [List.length_nil]
      omega
  have hle := hle hhead
  rw [if_neg hhead, or_iff_right hhead]
  by_cases hseen : lastSeen db s = some 0
  · rw [hseen, Option.map_some, h.zero, Option.getD_some, Nat.zero_min]
    refine iff_of_false ?_ (not_not.mpr rfl)
    rintro ⟨ids, remaining, hrun, -, -, hsum⟩
    cases limit with
    | zero =>
      cases hrun
      rw [List.reverse_nil, List.length_nil] at hsum
      omega
    | succ limit =>
      rw [mapM_eq_none_iff.mpr ⟨0, List.mem_range'_1.mpr (by omega), (hindex 0).mpr (by omega)⟩] at hrun
      cases hrun
      rw [List.length_nil] at hsum
      omega
  · have hblock : lastBlock db s = lastSeen db s := find_ne hseen
    rw [hblock] at hpos hle ⊢
    refine iff_of_true ?_ hseen
    rw [Nat.min_eq_left hle]
    split
    next hnone =>
      obtain ⟨n, hn, hlookup⟩ := mapM_eq_none_iff.mp hnone
      rw [List.mem_range'_1] at hn
      exact absurd ⟨by omega, by omega⟩ ((hindex n).mp hlookup)
    next ids hids =>
      have hmap := map_some_mapM hids
      have hlength := congrArg List.length hmap
      rw [List.length_map, List.length_map, List.length_range'] at hlength
      refine ⟨ids, _, rfl, ?_, hlength ▸ hmap, ?_⟩
      · omega
      · omega

end ItemIds

theorem forkedBlocks_mainChain :
    letI := Fc.plain
    MainChain forkedPrevious forkedNumber (pushBlocks forkedBlocks (startedChain 2000)) :=
  letI := Fc.plain
  pushBlocks_mainChain ((startedChain_started 2000).mainChain rfl) forkedBlocks_meet

/-- The second entry is the block that the fork has left out. -/
theorem getItemIds_blocks_iff_forkedBlocks :
    letI := Fc.plain
    let d := pushBlocks forkedBlocks (startedChain 2000)
    ∃ ids remaining, getItemIds d [firstId, 2008] 2 = .ok (ids, remaining) ∧ ids.length = 2 ∧
      ids.map some = (List.range' 1 ids.length).map (fun n => d.blockNumToIdDb.lookup n) ∧
      remaining + ids.length = 3 := by
  let := Fc.plain
  have hhead : (pushBlocks forkedBlocks (startedChain 2000)).getHeadBlockNum = 3 := by decide +kernel
  have hseen : lastSeen (pushBlocks forkedBlocks (startedChain 2000)) [firstId, 2008] = some firstId := by
    decide +kernel
  have hblocks := (getItemIds_blocks_iff (s := [firstId, 2008])
    forkedBlocks_mainChain.toIndexedChain (by decide) 2).mpr (Or.inr (by rw [hseen]; decide))
  rw [show lastBlock _ [firstId, 2008] = some firstId by decide +kernel, hhead] at hblocks
  exact hblocks

/-- Asked for what comes after the null id, a node with three blocks answers that it has none. -/
theorem null_id_hides_blocks :
    letI := Fc.plain
    let d := pushBlocks forkedBlocks (startedChain 2000)
    MainChain forkedPrevious forkedNumber d ∧ d.getHeadBlockNum = 3 ∧ isIncludedBlock d 0 = true ∧
      getItemIds d [0] 2000 = .ok ([], 0) := by
  refine ⟨forkedBlocks_mainChain, ?_, ?_, ?_⟩
  · decide +kernel
  · decide +kernel
  · decide +kernel

end Bts.Net.ItemIds
