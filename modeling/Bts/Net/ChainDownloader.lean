import Mathlib.Data.List.Basic

/-!
The chain downloader fetches blocks from the chain servers, one after the other. It asks
each of them for the blocks from the same first number on.
-/

namespace Bts.Net.ChainDownloader

/-- What a chain server sends: how many blocks follow, and the blocks, by their numbers. -/
inductive Incoming
  | count (blocks : Nat)
  | block (num : Nat)

/-- The loop of `handle_get_blocks_from_number`; `heads` are the numbers of the head block
that its rounds read. -/
def sendBlocks : Nat → List Nat → List Incoming
  | _, [] => [.count 0]
  | startBlock, endBlock :: heads =>
    if startBlock ≤ endBlock then
      .count (endBlock - startBlock + 1) ::
        ((List.range' startBlock (endBlock - startBlock + 1)).map .block ++ sendBlocks (endBlock + 1) heads)
    else [.count 0]

def handleGetBlocksFromNumber (startBlock : Nat) (heads : List Nat) : List Incoming :=
  sendBlocks (if startBlock = 0 then 1 else startBlock) heads

/-- The blocks the callback gets while `blocksToRetrieve` blocks are to come. Reading
throws where the connection has failed. -/
def retrieve : Nat → List Incoming → List Nat
  | 0, .count blocksToRetrieve :: rest =>
    if blocksToRetrieve = 0 then [] else retrieve blocksToRetrieve rest
  | blocksToRetrieve + 1, .block num :: rest => num :: retrieve blocksToRetrieve rest
  | _, _ => []

/-- What is read from a server until its connection fails, and whether the download is
cancelled then. -/
structure Session where
  incoming : List Incoming := []
  canceled : Bool := false

def getAllBlocks : List Session → List Nat
  | [] => []
  | s :: rest => retrieve 0 s.incoming ++ if s.canceled then [] else getAllBlocks rest

def contacted : List Session → List Session
  | [] => []
  | s :: rest => s :: if s.canceled then [] else contacted rest

def Session.delivers (s : Session) : Prop := ∃ num, .block num ∈ s.incoming

variable {sessions : List Session} {heads : List Nat} {l : List Incoming} {start k : Nat}

/-- Wherever the connection fails, the blocks that came are consecutive. -/
theorem retrieve_sent
    (h : l <+: (List.range' start k).map .block ++ sendBlocks (start + k) heads) :
    ∃ n, retrieve k l = List.range' start n ∧ (0 < n ↔ ∃ num, .block num ∈ l) := by
  induction l generalizing start k heads with
  | nil => exact ⟨0, by cases k <;> rfl, by simp⟩
  | cons x l ih =>
    cases k with
    | succ k =>
      rw [List.range'_succ, List.map_cons, List.cons_append, List.cons_prefix_cons,
        Nat.add_comm k, ← Nat.add_assoc] at h
      obtain ⟨rfl, h⟩ := h
      obtain ⟨n, hn, -⟩ := ih h
      exact ⟨n + 1, congrArg (start :: ·) hn, by simp⟩
    | zero =>
      have hlast (h : x :: l <+: [.count 0]) : ∃ n, retrieve 0 (x :: l) = List.range' start n ∧
          (0 < n ↔ ∃ num, .block num ∈ x :: l) := by
        obtain ⟨rfl, hl⟩ := List.cons_prefix_cons.mp h
        rw [List.prefix_nil.mp hl]
        exact ⟨0, rfl, by simp⟩
      cases heads with
      | nil => exact hlast h
      | cons head heads =>
        rw [List.range'_zero, List.map_nil, List.nil_append, Nat.add_zero, sendBlocks] at h
        split at h
        next hle =>
          rw [List.cons_prefix_cons, show head + 1 = start + (head - start + 1) by omega] at h
          obtain ⟨rfl, h⟩ := h
          obtain ⟨n, hn, hblocks⟩ := ih h
          refine ⟨n, ?_, ?_⟩
          · rw [retrieve, if_neg (Nat.succ_ne_zero _), hn]
          · simpa using hblocks
        next => exact hlast h

theorem getAllBlocks_eq (sessions : List Session) :
    getAllBlocks sessions = (contacted sessions).flatMap fun s => retrieve 0 s.incoming := by
  induction sessions with
  | nil => rfl
  | cons s rest ih =>
    rw [getAllBlocks, contacted, List.flatMap_cons, ih]
    cases s.canceled <;> rfl

theorem contacted_subset (sessions : List Session) : contacted sessions ⊆ sessions := by
  induction sessions with
  | nil => exact List.Subset.refl _
  | cons s rest ih =>
    refine List.cons_subset_cons s ?_
    split
    · exact List.nil_subset _
    · exact ih

/-- The callback gets each block number once and in increasing order exactly if at most
one of the servers that are contacted delivers a block. -/
theorem blocks_once_iff {firstBlockNumber : Nat} (hserved : ∀ s ∈ sessions, ∃ heads,
      s.incoming <+: handleGetBlocksFromNumber firstBlockNumber heads) :
    (getAllBlocks sessions).Pairwise (· < ·) ↔
      (contacted sessions).Pairwise fun s t => ¬ (s.delivers ∧ t.delivers) := by
  have hsession (s : Session) (hs : s ∈ contacted sessions) : ∃ n, retrieve 0 s.incoming =
      List.range' (if firstBlockNumber = 0 then 1 else firstBlockNumber) n ∧ (0 < n ↔ s.delivers) := by
    obtain ⟨heads, hheads⟩ := hserved s (contacted_subset sessions hs)
    exact retrieve_sent (k := 0) hheads
  rw [getAllBlocks_eq, List.pairwise_flatMap, and_iff_right]
  · refine List.Pairwise.iff_of_mem fun {s t} hs ht => ?_
    obtain ⟨n, hn, hdelivers⟩ := hsession s hs
    obtain ⟨n', hn', hdelivers'⟩ := hsession t ht
    rw [hn, hn', ← hdelivers, ← hdelivers']
    constructor
    -- Both have delivered the first block.
    · rintro hlt ⟨hpos, hpos'⟩
      exact Nat.lt_irrefl _ (hlt _ (List.mem_range'_1.mpr ⟨Nat.le_refl _, Nat.lt_add_of_pos_right hpos⟩)
        _ (List.mem_range'_1.mpr ⟨Nat.le_refl _, Nat.lt_add_of_pos_right hpos'⟩))
    · intro hnot x hx y hy
      rw [List.mem_range'_1] at hx hy
      exact absurd ⟨by omega, by omega⟩ hnot
  · intro s hs
    obtain ⟨n, hn, -⟩ := hsession s hs
    rw [hn]
    exact List.pairwise_lt_range'

/-- The connection to the first server fails, and the second one sends two blocks. -/
theorem blocks_once_iff_failed :
    (getAllBlocks [{}, { incoming := handleGetBlocksFromNumber 0 [2] }]).Pairwise (· < ·) := by
  refine (@blocks_once_iff _ 0 ?_).mpr ?_
  · simp only [List.forall_mem_cons]
    exact ⟨⟨[], List.nil_prefix⟩, ⟨[2], List.prefix_rfl⟩, nofun⟩
  · simp [contacted, Session.delivers]

/-- The second of two servers is asked again for the block that the first one has sent. -/
theorem block_downloaded_again :
    let served : Session := { incoming := handleGetBlocksFromNumber 0 [1] }
    getAllBlocks [served, served] = [1, 1] := by
  decide

end Bts.Net.ChainDownloader
