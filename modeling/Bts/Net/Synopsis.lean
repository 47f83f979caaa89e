import Bts.Blockchain.ForkDatabase

namespace Bts.Net.Synopsis

open Base.Result Blockchain Errors Transactions Database ForkDatabase

def blocksPerYear : Nat := 3153600

def blockchainSynopsisSizeLimit : Nat := Nat.log2 (blocksPerYear * 20)

section Client

variable [Fc] (db : ChainDatabase)

def isIncludedBlock (id : Nat) : Bool := (db.forkDb.lookup id).any BlockForkData.isIncluded

def getBlockNum (id : Nat) : Except ChainError Nat :=
  if id = 0 then pure 0
  else (·.blockNum) <$> orThrow (db.blockIdToBlockRecordDb.lookup id) .keyNotFound

def getBlockOf (blockNum : Nat) : Except ChainError FullBlock := do
  let id ← orThrow (db.blockNumToIdDb.lookup blockNum) .keyNotFound
  getBlock db id

def nextNum (trueHigh low : Nat) : Nat := low + (trueHigh - low + 2) / 2

/-- The values of `low_block_num` in the loops that make a synopsis. -/
def synopsisNums (trueHigh high : Nat) : Nat → Nat → List Nat
  | 0, _ => []
  | passes + 1, low =>
    low :: if nextNum trueHigh low ≤ high then
      synopsisNums trueHigh high passes (nextNum trueHigh low) else []

/-- The loop of `get_blockchain_synopsis`, on the main chain and then on the fork. -/
def summarize (nonForkHigh : Nat) (forkHistory : List Nat) (blocksAfter : Nat) :
    Except ChainError (List Nat) :=
  let high := nonForkHigh + forkHistory.length
  (synopsisNums (high + blocksAfter) high (high + 1) 1).mapM fun low =>
    if low ≤ nonForkHigh then FullBlock.id <$> getBlockOf db low
    else orThrow forkHistory[low - nonForkHigh - 1]? .keyNotFound

/-- A key that is not found gives an empty synopsis. -/
def orEmpty {α : Type} (x : Except ChainError α) (f : α → Except ChainError (List Nat)) :
    Except ChainError (List Nat) :=
  match x with
  | .ok a => f a
  | .error .keyNotFound => pure []
  | .error e => throw e

def getBlockchainSynopsis (referencePoint blocksAfter : Nat) : Except ChainError (List Nat) :=
  if referencePoint = 0 then
    if db.getHeadBlockNum = 0 then pure [] else summarize db db.getHeadBlockNum [] blocksAfter
  else if isIncludedBlock db referencePoint then
    orEmpty (getBlockNum db referencePoint) fun n => summarize db n [] blocksAfter
  else
    orEmpty (getForkHistory db referencePoint) fun history =>
      summarize db ((getBlockNum db (history.getLastD 0)).toOption.getD 0) history.dropLast.reverse
        blocksAfter

def synopsisTooLong : ChainError :=
  .assertion "Peer provided unreasonably long blockchain synopsis during sync"

/-- `get_item_ids`: the ids after the last one of the synopsis that is on the chain, and how many
there are beyond the limit. -/
def getItemIds (synopsis : List Nat) (limit : Nat) : Except ChainError (List Nat × Nat) := do
  require (synopsis.length ≤ blockchainSynopsisSizeLimit) synopsisTooLong
  let seen := synopsis.reverse.findSome? fun id =>
    if isIncludedBlock db id then (getBlockNum db id).toOption else none
  let head := db.getHeadBlockNum
  if head = 0 then pure ([], 0)
  else
    let first := min (seen.getD 1) head
    let count := min limit (head - first + 1)
    match (List.range' first count).mapM fun n => db.blockNumToIdDb.lookup n with
    | none => pure ([], 0)
    | some ids => pure (ids, head - first + 1 - count)

end Client

/-- Each pass leaves half of the numbers, so that there is one pass for each digit of their count. -/
theorem length_synopsisNums {high low passes : Nat} (hlow : low ≤ high) (hpasses : high - low < passes) :
    (synopsisNums high high passes low).length = Nat.log2 (high - low + 1) + 1 := by
  induction passes generalizing low with
  | zero => omega
  | succ passes ih =>
    unfold synopsisNums
    by_cases hnext : nextNum high low ≤ high
    · rw [if_pos hnext, List.length_cons]
      unfold nextNum at hnext ⊢
      have hhalf : high - (low + (high - low + 2) / 2) + 1 = (high - low + 1) / 2 := by omega
      have hlog : Nat.log2 (high - low + 1) = Nat.log2 ((high - low + 1) / 2) + 1 := by
        rw [Nat.log2_def, if_pos (by omega)]
      rw [ih hnext (by omega), hhalf, hlog]
    · rw [if_neg hnext]
      unfold nextNum at hnext
      have hone : high - low + 1 = 1 := by omega
      rw [hone]
      rfl

theorem mem_synopsisNums {trueHigh high low passes n : Nat} (hlow : low ≤ high)
    (hn : n ∈ synopsisNums trueHigh high passes low) : low ≤ n ∧ n ≤ high := by
  induction passes generalizing low with
  | zero => cases hn
  | succ passes ih =>
    rcases List.mem_cons.mp hn with rfl | hn
    · exact ⟨Nat.le_refl n, hlow⟩
    · split at hn
      next hnext =>
        have hrest := ih hnext hn
        unfold nextNum at hrest
        omega
      next => cases hn

section Length

variable [Fc] {db : ChainDatabase} {ids : Nat → Nat}

/-- The main chain has the blocks with these ids up to a number. -/
def HasBlocks (db : ChainDatabase) (ids : Nat → Nat) (high : Nat) : Prop :=
  ∀ n, 0 < n → n ≤ high → FullBlock.id <$> getBlockOf db n = .ok (ids n)

theorem wholeChain_synopsis (h : HasBlocks db ids db.getHeadBlockNum) :
    ∃ s, getBlockchainSynopsis db 0 0 = .ok s ∧
      (s.length ≤ blockchainSynopsisSizeLimit ↔ db.getHeadBlockNum < 2 ^ 25) := by
  have hlimit : blockchainSynopsisSizeLimit = 25 :=
    (Nat.log2_eq_iff (by decide)).mpr ⟨by decide, by decide⟩
  unfold getBlockchainSynopsis
  by_cases hzero : db.getHeadBlockNum = 0
  · rw [if_pos hzero, hzero]
    exact ⟨[], rfl, by decide⟩
  · have hone : 1 ≤ db.getHeadBlockNum := by omega
    have hmap := mapM_eq_map (l := synopsisNums (db.getHeadBlockNum + 0) db.getHeadBlockNum
      (db.getHeadBlockNum + 1) 1) (g := ids) (f := fun low =>
        if low ≤ db.getHeadBlockNum then FullBlock.id <$> getBlockOf db low
        else orThrow ([] : List Nat)[low - db.getHeadBlockNum - 1]? .keyNotFound) (by
      intro n hn
      have hrange := mem_synopsisNums hone hn
      rw [if_pos hrange.2]
      exact h n hrange.1 hrange.2)
    rw [if_neg hzero]
    refine ⟨_, hmap, ?_⟩
    rw [List.length_map, Nat.add_zero, length_synopsisNums hone (by omega), Nat.sub_add_cancel hone,
      ← Nat.log2_lt hzero]
    exact Nat.lt_iff_add_one_le.symm

theorem getItemIds_ok_iff {other : ChainDatabase} {s : List Nat} {limit : Nat} :
    (∃ r, getItemIds other s limit = .ok r) ↔ s.length ≤ blockchainSynopsisSizeLimit := by
  unfold getItemIds
  simp only [bind_eq_ok, require_eq_ok]
  constructor
  · rintro ⟨_, _, hs, _⟩
    exact hs
  · intro hs
    split
    · exact ⟨_, (), hs, rfl⟩
    · split <;> exact ⟨_, (), hs, rfl⟩

/-- The synopsis of a whole chain is longer than the limit from the block 2^25 on, which comes before
the twenty years are over. -/
theorem synopsis_accepted_iff {other : ChainDatabase} {limit : Nat}
    (h : HasBlocks db ids db.getHeadBlockNum) :
    ∃ s, getBlockchainSynopsis db 0 0 = .ok s ∧
      ((s.length ≤ blockchainSynopsisSizeLimit ∧ ∃ r, getItemIds other s limit = .ok r) ↔
        db.getHeadBlockNum < 2 ^ 25) := by
  obtain ⟨s, hs, hlength⟩ := wholeChain_synopsis h
  refine ⟨s, hs, ?_⟩
  rw [getItemIds_ok_iff, and_self]
  exact hlength

end Length

def numberedChain (high : Nat) : @ChainDatabase Fc.plain :=
  letI := Fc.plain
  { blockNumToIdDb := ((List.range' 1 high).map fun n => ⟨n, 1000 * n⟩).toAList
    blockIdToBlockDataDb := ((List.range' 1 high).map fun n => ⟨1000 * n, { blockNum := n }⟩).toAList
    headBlockHeader := { blockNum := high } }

theorem dlookup_map {V : Type} {f : Nat → Nat} (hf : f.Injective) (g : Nat → V) {l : List Nat} {n : Nat}
    (hn : n ∈ l) : (l.map fun n => (⟨f n, g n⟩ : Σ _ : Nat, V)).dlookup (f n) = some (g n) := by
  induction l with
  | nil => cases hn
  | cons a l ih =>
    rw [List.map_cons]
    by_cases ha : f n = f a
    · cases hf ha
      exact List.dlookup_cons_eq ..
    · rw [List.dlookup_cons_ne _ _ ha]
      exact ih (List.mem_of_ne_of_mem (fun heq => ha (congrArg f heq)) hn)

theorem numberedChain_blocks (high : Nat) :
    letI := Fc.plain
    HasBlocks (numberedChain high) (1000 * ·) high := by
  let := Fc.plain
  intro n hpos hn
  have hmem : n ∈ List.range' 1 high := by
    rw [List.mem_range'_1]
    omega
  have hid : (numberedChain high).blockNumToIdDb.lookup n = some (1000 * n) := by
    rw [numberedChain, AList.lookup_to_alist]
    exact dlookup_map (f := id) Function.injective_id _ hmem
  have hblock : (numberedChain high).blockIdToBlockDataDb.lookup (1000 * n) =
      some { blockNum := n } := by
    rw [numberedChain, AList.lookup_to_alist]
    exact dlookup_map (fun a b hab => by omega) _ hmem
  unfold getBlockOf getBlock
  rw [hid]
  dsimp only [orThrow, bind, Except.bind]
  rw [hblock]
  rfl

theorem synopsis_accepted_iff_threeBlocks :
    letI := Fc.plain
    ∃ s, getBlockchainSynopsis (numberedChain 3) 0 0 = .ok s ∧
      ((s.length ≤ blockchainSynopsisSizeLimit ∧ ∃ r, getItemIds {} s 2000 = .ok r) ↔ 3 < 2 ^ 25) :=
  letI := Fc.plain
  synopsis_accepted_iff (numberedChain_blocks 3)

/-- The synopsis of a chain of ten and a half years is too long. -/
theorem long_chain_refused :
    letI := Fc.plain
    2 ^ 25 ≤ blocksPerYear * 20 ∧ HasBlocks (numberedChain (2 ^ 25)) (1000 * ·) (2 ^ 25) ∧
      ∃ s, getBlockchainSynopsis (numberedChain (2 ^ 25)) 0 0 = .ok s ∧
        blockchainSynopsisSizeLimit < s.length ∧ ¬ ∃ r, getItemIds {} s 2000 = .ok r := by
  let := Fc.plain
  have hblocks := numberedChain_blocks (2 ^ 25)
  refine ⟨by decide, hblocks, ?_⟩
  obtain ⟨s, hs, hlength⟩ := wholeChain_synopsis hblocks
  have hlong : ¬ s.length ≤ blockchainSynopsisSizeLimit := fun hle => Nat.lt_irrefl _ (hlength.mp hle)
  exact ⟨s, hs, Nat.not_le.mp hlong, fun hr => hlong (getItemIds_ok_iff.mp hr)⟩

end Bts.Net.Synopsis
