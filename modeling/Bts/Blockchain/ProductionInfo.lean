import Bts.Blockchain.BlockParts
import Bts.Blockchain.Holdings

namespace Bts.Blockchain.ProductionInfo

open Base Result Exec Maps Records Transactions Pending Database Layers UndoSpec Holdings
  ExtendChain HeaderChecks BlockParts

theorem getSlotNumber_start (n : Nat) : getSlotNumber (getSlotStartTime n) = n :=
  Nat.mul_div_cancel n (by decide)

section Model

variable [Fc] {db : ChainDatabase} {block : FullBlock} {l l' : PendingState}
  {prev : ChainInterface}

/-- A number of the statistics of an account, where one that is no delegate has none. -/
def statOf (f : DelegateStats → Nat) (r : AccountRecord) : Int := r.delegateInfo.elim 0 fun d => f d

def stat (f : DelegateStats → Nat) (c : ChainInterface) (id : Int) : Int :=
  (c.getAccountRecord id).elim 0 (statOf f)

/-- The slots that all delegates together have produced and missed. -/
def slotResults (c : ChainInterface) : Int :=
  accounts.held (fun _ r => statOf DelegateStats.blocksProduced r +
    statOf DelegateStats.blocksMissed r) c

variable {r : AccountRecord} {active : List Int}

theorem getAccountRecord_id {c : ChainInterface} {id : Int} (h : c.getAccountRecord id = some r) :
    r.id = id :=
  ChainInterface.find_key (·.accounts) (·.accountDb) h

theorem storeStats {d d' : DelegateStats} {id : Int}
    (hr : (ChainInterface.pending l prev).getAccountRecord id = some r)
    (hd : r.delegateInfo = some d)
    (hstore : l.storeAccountRecord { r with delegateInfo := some d' } = .ok l') :
    (∀ f j, stat f (.pending l' prev) j =
      stat f (.pending l prev) j + if j = id then (f d' : Int) - f d else 0) ∧
    slotResults (.pending l' prev) = slotResults (.pending l prev) +
      (d'.blocksProduced + d'.blocksMissed) - (d.blocksProduced + d.blocksMissed) := by
  have hid := getAccountRecord_id hr
  subst hid
  have hown : accounts.own l' = (accounts.own l).insert r.id { r with delegateInfo := some d' } :=
    congrArg Table.rows (storeAccountRecord_accounts hstore)
  have hget := accounts.get_store prev hown
  constructor
  · intro f j
    have hj := congrFun hget j
    change (ChainInterface.pending l' prev).getAccountRecord j =
      Function.update (fun j => (ChainInterface.pending l prev).getAccountRecord j) r.id _ j at hj
    unfold stat
    rw [hj, Function.update_apply]
    split
    next heq =>
      rw [heq, hr]
      simp only [Option.elim_some, statOf, hd]
      omega
    next => omega
  · unfold slotResults
    rw [Shelf.held_store accounts hown]
    change _ - ((ChainInterface.pending l prev).getAccountRecord r.id).elim 0 _ + _ = _
    rw [hr]
    simp only [Option.elim_some, statOf, hd]
    omega

/-- The layer `l'` counts one more slot than `l` for the delegate `id`. -/
structure Counted (db : ChainDatabase) (l l' : PendingState) (id : Int) (made lost : Nat)
    (slot : SlotRecord) : Prop where
  produced : ∀ j, stat DelegateStats.blocksProduced (.pending l' (.database db)) j =
    stat DelegateStats.blocksProduced (.pending l (.database db)) j + if j = id then (made : Int) else 0
  missed : ∀ j, stat DelegateStats.blocksMissed (.pending l' (.database db)) j =
    stat DelegateStats.blocksMissed (.pending l (.database db)) j + if j = id then (lost : Int) else 0
  total : slotResults (.pending l' (.database db)) =
    slotResults (.pending l (.database db)) + made + lost
  slots : db.trackStats = true → l'.slots = l.slots.store slot

theorem recordStats {d d' : DelegateStats} {id : Int} {made lost : Nat} (slot : SlotRecord)
    (hr : (ChainInterface.pending l (.database db)).getAccountRecord id = some r)
    (hd : r.delegateInfo = some d)
    (hstore : l.storeAccountRecord { r with delegateInfo := some d' } = .ok l')
    (hproduced : d'.blocksProduced = d.blocksProduced + made)
    (hmissed : d'.blocksMissed = d.blocksMissed + lost) :
    Counted db l (recordSlot db l' slot) id made lost slot := by
  obtain ⟨hstats, htotal⟩ := storeStats hr hd hstore
  have hcounts (f : DelegateStats → Nat) {n : Nat} (hf : f d' = f d + n) (j : Int) :
      stat f (.pending l' (.database db)) j =
        stat f (.pending l (.database db)) j + if j = id then (n : Int) else 0 := by
    rw [hstats, hf]
    split <;> push_cast <;> omega
  have hsum : slotResults (.pending l' (.database db)) =
      slotResults (.pending l (.database db)) + made + lost := by
    omega
  simp only [PendingState.storeAccountRecord, eq_ok_iff] at hstore
  obtain ⟨_, -, rfl⟩ := hstore
  unfold recordSlot
  split
  next => exact ⟨hcounts _ hproduced, hcounts _ hmissed, hsum, fun _ => rfl⟩
  next hoff =>
    exact ⟨hcounts _ hproduced, hcounts _ hmissed, hsum, fun htrack => absurd htrack hoff⟩

/-- The delegate that `get_slot_signee` names for a slot. -/
def slotSigner (db : ChainDatabase) (active : List Int) (timestamp : Nat) : Option Int :=
  (getSlotSignee db timestamp active).toOption.map AccountRecord.id

/-- How many of some slots are those of a delegate. -/
def slotsOf (db : ChainDatabase) (active : List Int) (times : List Nat) (id : Int) : Nat :=
  times.countP fun t => slotSigner db active t = some id

theorem countProduced_ok {key : Nat} (h : countProduced db block key l = .ok l') :
    ∃ signer, db.getAccountRecordByAddress (Fc.address key) = some signer ∧
      Counted db l l' signer.id 1 0
        { startTime := block.timestamp, blockProducerId := signer.id, blockId := some block.id } := by
  simp only [countProduced, AccountRecord.delegate, eq_ok_iff] at h
  obtain ⟨signer, hsigner, _, -, r, hr, d, hd, _, -, stored, hstore, rfl⟩ := h
  exact ⟨signer, hsigner, recordStats _ hr hd hstore rfl rfl⟩

theorem countMissed_ok {t : Nat} (h : countMissed db active l t = .ok l') :
    ∃ signer, slotSigner db active t = some signer ∧
      Counted db l l' signer 0 1 { startTime := t, blockProducerId := signer } := by
  simp only [countMissed, AccountRecord.delegate, eq_ok_iff] at h
  obtain ⟨signer, hsigner, r, hr, d, hd, stored, hstore, rfl⟩ := h
  refine ⟨signer.id, ?_, recordStats _ hr hd hstore rfl rfl⟩
  unfold slotSigner
  rw [hsigner]
  rfl

theorem countMissed_all {times : List Nat} (h : times.foldlM (countMissed db active) l = .ok l') :
    (∀ id, stat DelegateStats.blocksProduced (.pending l' (.database db)) id =
      stat DelegateStats.blocksProduced (.pending l (.database db)) id) ∧
    (∀ id, stat DelegateStats.blocksMissed (.pending l' (.database db)) id =
      stat DelegateStats.blocksMissed (.pending l (.database db)) id + slotsOf db active times id) ∧
    slotResults (.pending l' (.database db)) =
      slotResults (.pending l (.database db)) + times.length ∧
    (db.trackStats = true → ∀ t, (t ∉ times → l'.slots.lookup t = l.slots.lookup t) ∧
      (t ∈ times → ∃ id, slotSigner db active t = some id ∧
        l'.slots.lookup t = some { startTime := t, blockProducerId := id })) := by
  induction times, l, h using foldlM_induct with
  | nil =>
    refine ⟨fun _ => rfl, fun _ => (Int.add_zero _).symm, (Int.add_zero _).symm, fun _ t => ?_⟩
    exact ⟨fun _ => rfl, fun ht => absurd ht List.not_mem_nil⟩
  | cons time times l u hu hrest ih =>
    obtain ⟨signer, hsigner, hcounted⟩ := countMissed_ok hu
    obtain ⟨hproduced', hmissed', htotal', hslots'⟩ := ih
    refine ⟨fun id => ?_, fun id => ?_, ?_, fun htrack t => ?_⟩
    · rw [hproduced', hcounted.produced]
      simp
    · rw [hmissed', hcounted.missed]
      unfold slotsOf
      rw [List.countP_cons, hsigner]
      simp only [Option.some.injEq, decide_eq_true_eq, eq_comm (a := signer)]
      split <;> push_cast <;> omega
    · rw [htotal', hcounted.total, List.length_cons]
      omega
    · obtain ⟨hout, hin⟩ := hslots' htrack t
      rw [hcounted.slots htrack, Table.lookup_store] at hout
      rw [List.mem_cons, not_or]
      refine ⟨fun ⟨hne, hmem⟩ => (hout hmem).trans (if_neg hne), fun ht => ?_⟩
      by_cases hmem : t ∈ times
      · exact hin hmem
      · have heq := ht.resolve_right hmem
        subst heq
        exact ⟨signer, hsigner, (hout hmem).trans (if_pos rfl)⟩

/-- The slots after that of the head, up to that of the block. -/
def slotsSince (head : SignedBlockHeader) (block : FullBlock) : List Nat :=
  if head.blockNum = 0 then [getSlotNumber block.timestamp]
  else (List.range (getSlotNumber block.timestamp - getSlotNumber head.timestamp)).map
    fun i => getSlotNumber head.timestamp + 1 + i

theorem getSlotSignee_congr {s t : Nat} (h : getSlotNumber s = getSlotNumber t) :
    getSlotSignee db s active = getSlotSignee db t active := by
  unfold getSlotSignee
  rw [h]

theorem missedSlots_slots (halign : block.timestamp % blockIntervalSec = 0)
    (hpassed : db.headBlockHeader.blockNum = 0 ∨ db.headBlockHeader.timestamp < block.timestamp) :
    (missedSlots db.headBlockHeader block).map getSlotNumber =
      (slotsSince db.headBlockHeader block).dropLast ∧
    (slotsSince db.headBlockHeader block).length =
      (missedSlots db.headBlockHeader block).length + 1 := by
  unfold missedSlots slotsSince
  by_cases hfirst : db.headBlockHeader.blockNum = 0
  · rw [if_pos hfirst, if_neg (by omega)]
    exact ⟨rfl, rfl⟩
  · rw [if_neg hfirst, if_pos (by omega)]
    unfold getSlotNumber blockIntervalSec at *
    have hcount : block.timestamp / 10 - db.headBlockHeader.timestamp / 10 =
        (block.timestamp - (db.headBlockHeader.timestamp + 10) + (10 - 1)) / 10 + 1 := by omega
    rw [hcount, List.range_succ, List.map_append, List.map_singleton, List.dropLast_concat]
    refine ⟨?_, by simp⟩
    rw [List.map_map]
    refine List.map_congr_left fun i _ => ?_
    simp only [Function.comp_apply]
    omega

/-- The statistics of the delegates, the records of the slots and the confirmations that a
block requires, after one result is recorded for each slot since the head. -/
structure Recorded (db : ChainDatabase) (block : FullBlock) (signee : Nat) (active : List Int)
    (layer : PendingState) : Prop where
  total : slotResults (.pending layer (.database db)) = slotResults (.database db) +
    (slotsSince db.headBlockHeader block).length
  produced : ∃ signer, db.getAccountRecordByAddress (Fc.address signee) = some signer ∧
    (∀ id, stat DelegateStats.blocksProduced (.pending layer (.database db)) id =
      stat DelegateStats.blocksProduced (.database db) id + if id = signer.id then 1 else 0) ∧
    (db.trackStats = true → layer.slots.lookup block.timestamp = some
      { startTime := block.timestamp, blockProducerId := signer.id, blockId := some block.id })
  missed : ∀ id, stat DelegateStats.blocksMissed (.pending layer (.database db)) id =
    stat DelegateStats.blocksMissed (.database db) id + slotsOf db active
      ((slotsSince db.headBlockHeader block).dropLast.map getSlotStartTime) id
  slots : db.trackStats = true → ∀ n ∈ (slotsSince db.headBlockHeader block).dropLast,
    ∃ t id, getSlotNumber t = n ∧ slotSigner db active (getSlotStartTime n) = some id ∧
      layer.slots.lookup t = some { startTime := t, blockProducerId := id }
  confirmations : ∃ n, layer.properties.lookup .confirmationRequirement = some (.int n) ∧
    1 ≤ n ∧ n ≤ 3 * numDelegates

theorem slotsOf_numbers (active : List Int) (times : List Nat) (id : Int) :
    slotsOf db active times id =
      slotsOf db active ((times.map getSlotNumber).map getSlotStartTime) id := by
  unfold slotsOf
  rw [List.map_map, List.countP_map]
  refine List.countP_congr fun t _ => ?_
  simp only [Function.comp_apply, decide_eq_true_eq]
  unfold slotSigner
  rw [getSlotSignee_congr (getSlotNumber_start (getSlotNumber t))]

theorem missedSlots_before {t : Nat} (ht : t ∈ missedSlots db.headBlockHeader block) :
    t < block.timestamp := by
  unfold missedSlots at ht
  split at ht
  · obtain ⟨i, hi, rfl⟩ := List.mem_map.mp ht
    rw [List.mem_range] at hi
    unfold blockIntervalSec at *
    omega
  · cases ht

theorem slotResults_blank (prev : ChainInterface) :
    slotResults (.pending {} prev) = slotResults prev :=
  accounts.held_of_get (accounts.get_blank prev rfl)

theorem updateDelegateProductionInfo_ok {signee : Nat} {layer : PendingState}
    (h : updateDelegateProductionInfo db block signee {} = .ok layer) :
    ∃ active, (ChainInterface.database db).getActiveDelegates = .ok active ∧
      slotResults (.pending layer (.database db)) =
        slotResults (.database db) + (missedSlots db.headBlockHeader block).length + 1 ∧
      (db.headBlockHeader.blockNum = 0 ∨ db.headBlockHeader.timestamp < block.timestamp →
        block.timestamp % blockIntervalSec = 0 → Recorded db block signee active layer) := by
  simp only [updateDelegateProductionInfo, eq_ok_iff] at h
  obtain ⟨counted, hcounted, required, -, active, hactive, charged, hcharged, rfl⟩ := h
  obtain ⟨signer, hsigner, hproduced⟩ := countProduced_ok hcounted
  obtain ⟨hproduced', hmissed', htotal', hslots⟩ := countMissed_all hcharged
  have hsum : slotResults (.pending charged (.database db)) =
      slotResults (.database db) + (missedSlots db.headBlockHeader block).length + 1 := by
    rw [htotal', hproduced.total, slotResults_blank]
    omega
  refine ⟨active, hactive, hsum, fun hpassed halign => ?_⟩
  obtain ⟨hnumbers, hlength⟩ := missedSlots_slots halign hpassed
  constructor
  case total =>
    refine hsum.trans ?_
    omega
  case produced =>
    refine ⟨signer, hsigner, fun id => (hproduced' id).trans (hproduced.produced id), fun htrack => ?_⟩
    refine ((hslots htrack block.timestamp).1 fun hmem => ?_).trans ?_
    · exact absurd (missedSlots_before hmem) (Nat.lt_irrefl _)
    · rw [hproduced.slots htrack, Table.lookup_store, if_pos rfl]
  case missed =>
    intro id
    rw [← hnumbers, ← slotsOf_numbers]
    refine (hmissed' id).trans (congrArg (· + _) ((hproduced.missed id).trans ?_))
    rw [Nat.cast_zero, ite_self, Int.add_zero]
    rfl
  case slots =>
    intro htrack n hn
    rw [← hnumbers] at hn
    obtain ⟨t, ht, rfl⟩ := List.mem_map.mp hn
    obtain ⟨id, hid, hlookup⟩ := (hslots htrack t).2 ht
    refine ⟨t, id, rfl, ?_, hlookup⟩
    unfold slotSigner
    rw [getSlotSignee_congr (getSlotNumber_start (getSlotNumber t))]
    exact hid
  case confirmations =>
    refine ⟨_, (lookup_insert _ _ _ _).trans (if_pos rfl), ?_, ?_⟩
    · unfold numDelegates
      omega
    · omega

/-- The block is accepted with one result recorded for each slot since the head exactly
when it is the first block or comes after the head. -/
theorem extendChain_records_slots_iff {db' : ChainDatabase} (h : extendChain block db = .ok () db') :
    (∃ signee active layer, blockSignee db block = .ok signee ∧
      (ChainInterface.database db).getActiveDelegates = .ok active ∧
      updateDelegateProductionInfo db block signee {} = .ok layer ∧
      Recorded db block signee active layer) ↔
    (db.headBlockHeader.blockNum = 0 ∨ db.headBlockHeader.timestamp < block.timestamp) := by
  constructor
  · rintro ⟨signee, active, layer, -, -, hlayer, hrecorded⟩
    by_contra hnone
    obtain ⟨_, -, hsum, -⟩ := updateDelegateProductionInfo_ok hlayer
    have htotal := hrecorded.total
    have hempty : slotsSince db.headBlockHeader block = [] := by
      have hle : getSlotNumber block.timestamp ≤ getSlotNumber db.headBlockHeader.timestamp :=
        Nat.div_le_div_right (by omega)
      unfold slotsSince
      rw [if_neg (by omega), Nat.sub_eq_zero_of_le hle]
      rfl
    rw [hempty, List.length_nil] at htotal
    omega
  · intro hpassed
    obtain ⟨signee, layer, _, _, _, _, _, _, hparts, -⟩ := extendChain_parts h
    obtain ⟨active, hactive, -, hrecorded⟩ := updateDelegateProductionInfo_ok hparts.produces
    have halign : block.timestamp % blockIntervalSec = 0 := by
      have hverified := hparts.verifies
      simp only [verifyHeader, eq_ok_iff] at hverified
      obtain ⟨_, -, _, -, _, halign, -⟩ := hverified
      exact halign
    exact ⟨signee, active, layer, hparts.signs, hactive, hparts.produces, hrecorded hpassed halign⟩

end Model

def gapChain : @ChainDatabase Fc.plain :=
  letI := Fc.plain
  { readyChain nextBlock 980 with
    propertyDb := (readyChain nextBlock 980).propertyDb.insert .activeDelegateListId
      (.accounts (List.replicate numDelegates 1)) }

theorem extendChain_records_slots_iff_gapChain :
    letI := Fc.plain
    (∃ db', extendChain nextBlock gapChain = .ok () db') ∧
    ∃ signee active layer, blockSignee gapChain nextBlock = .ok signee ∧
      (ChainInterface.database gapChain).getActiveDelegates = .ok active ∧
      updateDelegateProductionInfo gapChain nextBlock signee {} = .ok layer ∧
      Recorded gapChain nextBlock signee active layer ∧
      slotsSince gapChain.headBlockHeader nextBlock = [99, 100, 101] := by
  let := Fc.plain
  have hreturns : returns (extendChain nextBlock gapChain) := by decide +kernel
  have hrun := eq_ok_of_returns hreturns
  obtain ⟨signee, active, layer, hsigns, hactive, hlayer, hrecorded⟩ :=
    (extendChain_records_slots_iff hrun).mpr (by decide)
  exact ⟨⟨_, hrun⟩, signee, active, layer, hsigns, hactive, hlayer, hrecorded, by decide⟩

/-- A block that claims number zero and is older than the head is counted as produced, though
no slot has passed. -/
theorem false_zero_block_counted :
    letI := Fc.plain
    (∃ db', extendChain zeroBlock (readyChain zeroBlock 1900) = .ok () db') ∧
    slotsSince (readyChain zeroBlock 1900).headBlockHeader zeroBlock = [] ∧
    ∃ layer, updateDelegateProductionInfo (readyChain zeroBlock 1900) zeroBlock 7 {} = .ok layer ∧
      slotResults (.pending layer (.database (readyChain zeroBlock 1900))) =
        slotResults (.database (readyChain zeroBlock 1900)) + 1 := by
  let := Fc.plain
  have hreturns : returns (extendChain zeroBlock (readyChain zeroBlock 1900)) := by
    decide +kernel
  have hrun := eq_ok_of_returns hreturns
  obtain ⟨signee, layer, _, _, _, _, _, _, hparts, -⟩ := extendChain_parts hrun
  have hsignee : signee = 7 := Except.ok.inj hparts.signs.symm
  subst hsignee
  obtain ⟨_, -, hsum, -⟩ := updateDelegateProductionInfo_ok hparts.produces
  have hmissed : missedSlots (readyChain zeroBlock 1900).headBlockHeader zeroBlock = [] := by decide
  rw [hmissed, List.length_nil, Nat.cast_zero, Int.add_zero] at hsum
  exact ⟨⟨_, hrun⟩, by decide, layer, hparts.produces, hsum⟩

end Bts.Blockchain.ProductionInfo
