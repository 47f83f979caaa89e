import Bts.Base.Runs
import Bts.Blockchain.ForkInvariants
import Bts.Blockchain.ForkSwitch

namespace Bts.Blockchain.ChainIndex

open Base Exec Maps Chains Runs Records Transactions Database ForkDatabase ForkMarks ForkTree
  ForkFlags ForkInvariants HeaderChecks ChainInvariant StoreSpec StrandedHead ForkSwitch

section Model

variable [Fc] {prev rank : Nat → Nat} {db : ChainDatabase} {blocks : List FullBlock}

def push (block : FullBlock) (db : ChainDatabase) : ChainDatabase := endState (pushBlock block db)

structure Started (db : ChainDatabase) : Prop where
  fresh : Fresh db
  head : db.headBlockId = 0
  header : db.headBlockHeader.blockNum = 0
  numbers : ∀ n, db.blockNumToIdDb.lookup n = none
  records : ∀ id, db.blockIdToBlockRecordDb.lookup id = none
  data : ∀ id, db.blockIdToBlockDataDb.lookup id = none
  listed : ∀ n, db.forkNumberDb.lookup n = none
  undos : ∀ id, db.undoStateDb.lookup id = none

theorem Started.forksAt (h : Started db) (n : Nat) : forksAt db n = [] := by
  unfold ChainInvariant.forksAt
  rw [h.listed]
  rfl

theorem Started.mainChain (h : Started db) (hzero : rank 0 = 0) : MainChain prev rank db := by
  have hgenesis := h.fresh.forks 0
  have hnone {x : Nat} (hx : x ≠ 0) : forksOf db x = none := by
    rw [h.fresh.forks, if_neg hx]
  have hincluded (x : Nat) : Included (forksOf db) x ↔ x = 0 := by
    constructor
    · rintro ⟨d, hd, -⟩
      by_contra hx
      rw [hnone hx] at hd
      cases hd
    · rintro rfl
      exact ⟨_, hgenesis, rfl⟩
  refine ⟨⟨⟨h.fresh.tree, fun c hc hknown => ?_, fun id r hr => ?_, fun id b hb => ?_,
    fun id hid hknown => ?_, fun id hid hknown => ?_, fun n id hid => ?_⟩, hzero, ?_, ?_,
    fun x => ?_, fun x hx => ?_, fun n x => ?_⟩, fun x hx => ?_⟩
  · exact absurd (h.fresh.known hknown) hc
  · rw [h.records] at hr
    cases hr
  · rw [h.data] at hb
    cases hb
  · exact absurd (h.fresh.known hknown) hid
  · exact absurd (h.fresh.known hknown) hid
  · rw [h.forksAt] at hid
    cases hid
  · rw [h.header, h.head, hzero]
  · exact fun hhead => absurd h.head hhead
  · rw [hincluded, h.head, onChain_root]
  · rw [(hincluded x).mp hx]
    exact ⟨⟨_, hgenesis, rfl⟩, ⟨_, hgenesis, rfl⟩⟩
  · rw [h.numbers, h.head, onChain_root]
    refine ⟨nofun, ?_⟩
    rintro ⟨hx, hx0, -⟩
    exact absurd hx0 hx
  · rw [h.undos] at hx
    cases hx

theorem IndexedChain.indexed (h : IndexedChain prev rank db) (n : Nat) :
    (db.blockNumToIdDb.lookup n).isSome ↔ 1 ≤ n ∧ n ≤ db.headBlockHeader.blockNum := by
  rw [Option.isSome_iff_exists, h.number]
  simp only [h.numbers]
  constructor
  · rintro ⟨x, hx, hchain, rfl⟩
    have hstep := h.catalogue.numbered x hx (h.known hchain)
    rcases hchain.rank_le h.numbered with rfl | hlt
    · omega
    · omega
  · rintro ⟨hpos, hle⟩
    obtain ⟨x, hchain, hrank⟩ := h.numbered.exists_rank (by rw [h.zero]; omega) hle
    refine ⟨x, ?_, hchain, hrank⟩
    rintro rfl
    rw [h.zero] at hrank
    omega

theorem pushBlocks_mainChain (hstart : MainChain prev rank db)
    (hblocks : Meets push (fun block d => Honest prev rank block ∧
      PushUndoable block d) blocks db) :
    MainChain prev rank (pushBlocks blocks db) :=
  hblocks.keeps (fun _ _ hd hmain => pushBlock_mainChain hmain hd.1 hd.2) hstart

/-- Where the blocks that are popped can be undone, the included blocks are the head and its
ancestors, the index of numbers has just these, and they are valid. -/
theorem index_follows_head (hstart : MainChain prev rank db)
    (hblocks : Meets push (fun block d => Honest prev rank block ∧
      PushUndoable block d) blocks db) :
    let d := pushBlocks blocks db
    (∀ x, Has (fun f => f.isIncluded = true) (forksOf d) x ↔ OnChain prev 0 d.headBlockId x) ∧
      (∀ n, (d.blockNumToIdDb.lookup n).isSome ↔ 1 ≤ n ∧ n ≤ d.headBlockHeader.blockNum) ∧
      (∀ n x, d.blockNumToIdDb.lookup n = some x → OnChain prev 0 d.headBlockId x ∧ rank x = n) ∧
      ∀ x, Has (fun f => f.isIncluded = true) (forksOf d) x →
        Has (fun f => f.isValid = some true) (forksOf d) x := by
  have hmain := pushBlocks_mainChain hstart hblocks
  exact ⟨hmain.included, IndexedChain.indexed hmain.toIndexedChain,
    fun n x hx => ((hmain.numbers n x).mp hx).2, fun x hx => (hmain.sound x hx).1⟩

end Model

def delegateOf (id : Int) (name : String) (key : Nat) : AccountRecord :=
  { producer with
    id
    name
    ownerKey := key
    activeKeyHistory := (∅ : Map Nat Nat).insert 1 key
    delegateInfo := some { signingKeyHistory := (∅ : Map Nat Nat).insert 1 key } }

def startedChain (time : Nat) : @ChainDatabase Fc.plain :=
  letI := Fc.plain
  { wallClock := time
    forkDb := (∅ : Map Nat _).insert 0
      { isValid := some true, isIncluded := true, isLinked := true, isKnown := true }
    accountDb := ((Table.empty.store (delegateOf 1 "first" 7)).store
      (delegateOf 2 "second" 8)).store (delegateOf 3 "third" 9)
    accountIndexDb := (((∅ : Map _ _).insert "first" 1).insert "second" 2).insert "third" 3
    addressToAccountDb := (((∅ : Map _ _).insert 7 1).insert 8 2).insert 9 3
    assetDb := Table.empty.store { id := 0, symbol := "BTS", issuerAccountId := 0 }
    propertyDb := ((((∅ : Map _ _).insert .activeDelegateListId (.accounts [1, 2, 3, 1])).insert
      .lastRandomSeedId (.hash 0)).insert .confirmationRequirement (.int 1)).insert .chainId
        (.hash 0) }

theorem startedChain_started (time : Nat) : @Started Fc.plain (startedChain time) := by
  let := Fc.plain
  refine ⟨⟨fun id => ?_, 0, rfl⟩, rfl, rfl, fun _ => rfl, fun _ => rfl, fun _ => rfl, fun _ => rfl,
    fun _ => rfl⟩
  exact lookup_insert ∅ 0 _ id

def signedBlock (previous blockNum timestamp signature : Nat) (trxs : List SignedTransaction) :
    FullBlock where
  previous
  blockNum
  timestamp
  transactionDigest := trxs.length
  delegateSignature := signature
  userTransactions := trxs

/-- The id of the first block, which a checkpoint fixes. -/
def firstId : Nat := 0x8abcfb93c52f999e3ef5288c4f837f4f15af5521

/-- A third block that arrives before the second one, and a fork that leaves out both. -/
def forkedBlocks : List FullBlock :=
  [signedBlock 0 1 1010 (firstId - 1000) [], signedBlock 2009 3 1040 7 [],
    signedBlock firstId 2 1030 9 [], signedBlock firstId 2 1020 8 []]

def forkedPrevious (id : Nat) : Nat :=
  if id = 3007 then 2009 else if id = firstId then 0 else firstId

def forkedNumber (id : Nat) : Nat := if id = firstId then 1 else id / 1000

theorem forkedBlocks_undoable :
    letI := Fc.plain
    Meets push PushUndoable forkedBlocks (startedChain 2000) := by
  decide +kernel

theorem forkedBlocks_honest :
    letI := Fc.plain
    ∀ block ∈ forkedBlocks, Honest forkedPrevious forkedNumber block := by
  let := Fc.plain
  simp only [forkedBlocks, List.forall_mem_cons]
  refine ⟨⟨?_, ?_, ?_, ?_⟩, ⟨?_, ?_, ?_, ?_⟩, ⟨?_, ?_, ?_, ?_⟩, ⟨?_, ?_, ?_, ?_⟩, nofun⟩ <;> decide

theorem forkedBlocks_meet :
    letI := Fc.plain
    Meets push (fun block d => Honest forkedPrevious forkedNumber block ∧
      PushUndoable block d) forkedBlocks (startedChain 2000) :=
  letI := Fc.plain
  Meets.and (.of_forall fun block hb _ => forkedBlocks_honest block hb) forkedBlocks_undoable

theorem index_follows_head_forkedBlocks :
    letI := Fc.plain
    let d := pushBlocks forkedBlocks (startedChain 2000)
    d.headBlockId = 3007 ∧ ∀ n, (d.blockNumToIdDb.lookup n).isSome ↔ 1 ≤ n ∧ n ≤ 3 := by
  let := Fc.plain
  have hnumber : (pushBlocks forkedBlocks (startedChain 2000)).headBlockHeader.blockNum = 3 := by
    decide +kernel
  have hindex := (index_follows_head ((startedChain_started 2000).mainChain rfl)
    forkedBlocks_meet).2.1
  rw [hnumber] at hindex
  exact ⟨by decide +kernel, hindex⟩

end Bts.Blockchain.ChainIndex
