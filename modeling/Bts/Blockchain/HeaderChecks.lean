import Bts.Blockchain.ExtendChain

namespace Bts.Blockchain.HeaderChecks

open Base Result Exec Maps Records Transactions Database ExtendChain

section Model

variable [Fc] {db db' : ChainDatabase} {block : FullBlock}

theorem verifyHeader_ok {signee : Nat} (h : verifyHeader db block signee = .ok ()) :
    (1 < block.blockNum → block.blockNum = db.headBlockHeader.blockNum + 1) ∧
      block.previous = db.headBlockId ∧
      (1 < block.blockNum → db.headBlockHeader.timestamp < block.timestamp) := by
  simp only [verifyHeader, eq_ok_iff] at h
  obtain ⟨_, hnum, _, hprev, _, _, _, htime, _⟩ := h
  exact ⟨hnum, hprev, htime⟩

theorem extendBlock_verified (h : extendBlock block db = .ok () db') :
    ∃ signee, blockSignee db block = .ok signee ∧ verifyHeader db block signee = .ok () := by
  simp only [extendBlock, prepareBlock, bind_run_ok, read_run_ok, lift_run_ok] at h
  obtain ⟨_, _, ⟨_, _, ⟨rfl, rfl⟩, signee, _, ⟨hsignee, rfl⟩, _, _, ⟨_, rfl⟩, _, _, ⟨hverified, rfl⟩, _⟩,
    _⟩ := h
  exact ⟨signee, hsignee, hverified⟩

theorem extendChain_ok (h : extendChain block db = .ok () db') :
    ∃ u, extendBlock block db = .ok () u ∧ db' = purgeUnique u := by
  simp only [extendChain, bind_run_ok, update_run_ok] at h
  obtain ⟨_, u, hu, hpurge⟩ := h
  refine ⟨u, ?_, hpurge.symm⟩
  unfold onError at hu
  cases hbody : extendBlock block db with
  | ok a t =>
    rw [hbody] at hu
    exact hu
  | error e t =>
    simp only [hbody, bind_run_ok, lift_run_ok] at hu
    obtain ⟨_, _, _, hthrow, _⟩ := hu
    exact absurd hthrow throw_eq_ok

/-- A block that is put on a chain follows its head in number and time exactly when the
number it claims for itself is above one. -/
theorem accepted_follows_head_iff (h : extendChain block db = .ok () db')
    (hhead : 1 ≤ db.headBlockHeader.blockNum) :
    (block.blockNum = db.headBlockHeader.blockNum + 1 ∧
      db.headBlockHeader.timestamp < block.timestamp) ↔ 1 < block.blockNum := by
  obtain ⟨u, hu, -⟩ := extendChain_ok h
  obtain ⟨signee, -, hverified⟩ := extendBlock_verified hu
  obtain ⟨hnum, -, htime⟩ := verifyHeader_ok hverified
  constructor
  · rintro ⟨hblock, -⟩
    omega
  · exact fun hone => ⟨hnum hone, htime hone⟩

end Model

def producer : AccountRecord where
  id := 1
  name := "delegate"
  ownerKey := 7
  activeKeyHistory := (∅ : Map Nat Nat).insert 1 7
  delegateInfo := some { signingKeyHistory := (∅ : Map Nat Nat).insert 1 7 }

/-- The number of the head, between two checkpoints. -/
def headNum : Nat := 1250000

/-- A chain with one delegate, whose head is the block with the id 5. -/
def headChain (number : Nat) : @ChainDatabase Fc.plain :=
  letI := Fc.plain
  { headBlockHeader := { blockNum := number, timestamp := 1000 }
    headBlockId := 5
    wallClock := 2000
    blockNumToIdDb := (∅ : Map Nat Nat).insert number 5
    forkDb := (∅ : Map Nat _).insert 5
      { isValid := some true, isIncluded := true, isLinked := true, isKnown := true }
    accountDb := Table.empty.store producer
    accountIndexDb := (∅ : Map _ _).insert "delegate" 1
    addressToAccountDb := (∅ : Map _ _).insert 7 1
    propertyDb := ((((∅ : Map _ _).insert .activeDelegateListId (.accounts [1, 1])).insert
      .lastRandomSeedId (.hash 0)).insert .confirmationRequirement (.int 1)).insert .chainId
        (.hash 0) }

def readyChain (block : FullBlock) (time : Nat) : @ChainDatabase Fc.plain :=
  letI := Fc.plain
  { headChain headNum with
    headBlockHeader := { blockNum := headNum, timestamp := time }
    forkDb := (∅ : Map Nat _).insert block.id { isLinked := true, isKnown := true }
    blockIdToBlockRecordDb := (∅ : Map Nat _).insert block.id
      { block.toSignedBlockHeader with }
    delegateVoteIndexDb := [(0, 1)]
    assetDb := Table.empty.store { id := 0, symbol := "BTS", issuerAccountId := 0 }
    propertyDb := (((∅ : Map _ _).insert .activeDelegateListId (.accounts [1])).insert
      .lastRandomSeedId (.hash 0)).insert .confirmationRequirement (.int 1) }

/-- The next block, and a block that claims to have number zero and to be older than the
head. -/
def nextBlock : FullBlock where
  previous := 5
  blockNum := headNum + 1
  timestamp := 1010
  delegateSignature := 7

def zeroBlock : FullBlock where
  previous := 5
  blockNum := 0
  timestamp := 1010
  delegateSignature := 7

theorem accepted_follows_head_iff_nextBlock :
    letI := Fc.plain
    ∃ db', extendChain nextBlock (readyChain nextBlock 1000) = .ok () db' ∧
      nextBlock.blockNum = (readyChain nextBlock 1000).headBlockHeader.blockNum + 1 ∧
      (readyChain nextBlock 1000).headBlockHeader.timestamp < nextBlock.timestamp := by
  let := Fc.plain
  have hreturns : returns (extendChain nextBlock (readyChain nextBlock 1000)) := by decide +kernel
  obtain ⟨db', hrun⟩ : ∃ db', extendChain nextBlock (readyChain nextBlock 1000) = .ok () db' :=
    ⟨_, eq_ok_of_returns hreturns⟩
  exact ⟨db', hrun, (accepted_follows_head_iff hrun (by decide)).mpr (by decide)⟩

/-- A block that claims number zero is put on a chain of a million blocks, with a time before
that of the head, and enters the index under that number. -/
theorem false_zero_block_accepted :
    letI := Fc.plain
    ∃ db', extendChain zeroBlock (readyChain zeroBlock 1900) = .ok () db' ∧
      1 ≤ (readyChain zeroBlock 1900).headBlockHeader.blockNum ∧
      zeroBlock.blockNum ≠ (readyChain zeroBlock 1900).headBlockHeader.blockNum + 1 ∧
      zeroBlock.timestamp < (readyChain zeroBlock 1900).headBlockHeader.timestamp ∧
      db'.blockNumToIdDb.lookup 0 = some zeroBlock.id := by
  let := Fc.plain
  have hreturns : returns (extendChain zeroBlock (readyChain zeroBlock 1900)) := by
    decide +kernel
  have hindex : (endState (extendChain zeroBlock (readyChain zeroBlock 1900))).blockNumToIdDb.lookup
      0 = some zeroBlock.id := by
    decide +kernel
  have hrun := eq_ok_of_returns hreturns
  generalize endState (extendChain zeroBlock (readyChain zeroBlock 1900)) = db' at hrun hindex
  exact ⟨db', hrun, by decide, by decide, by decide, hindex⟩

end Bts.Blockchain.HeaderChecks
