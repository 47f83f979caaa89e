import Bts.Base.Runs
import Bts.Blockchain.BlockParts
import Bts.Blockchain.Genesis

namespace Bts.Blockchain.ChainRuns

open Base.Exec Transactions Database ExtendChain ForkDatabase ForkWalks

variable [Fc] {db d db' : ChainDatabase} {block : FullBlock}

def Catalogued (db d : ChainDatabase) : Prop :=
  ∃ forks records data numbers, d = { db with
    forkDb := forks
    blockIdToBlockRecordDb := records
    blockIdToBlockDataDb := data
    forkNumberDb := numbers }

theorem Catalogued.refl (db : ChainDatabase) : Catalogued db db := ⟨_, _, _, _, rfl⟩

theorem Catalogued.storeFork (h : Catalogued db d) (id : Nat) (f : BlockForkData) :
    Catalogued db (storeFork id f d) := by
  obtain ⟨forks, records, data, numbers, rfl⟩ := h
  exact ⟨_, records, data, numbers, rfl⟩

theorem Catalogued.onlyForks (h : Catalogued db d) (hforks : OnlyForks d db') :
    Catalogued db db' := by
  obtain ⟨forks, records, data, numbers, rfl⟩ := h
  exact ⟨_, records, data, numbers, hforks⟩

theorem indexBlock_catalogued (id : Nat) (block : FullBlock) :
    Keeps (Catalogued db) (indexBlock id block) := by
  refine Keeps.bindRead fun d => Keeps.bind (Keeps.update fun _ h => ?_) fun _ => ?_
  · obtain ⟨forks, records, data, numbers, rfl⟩ := h
    exact ⟨forks, records, _, numbers, rfl⟩
  refine Keeps.bind (Keeps.onlyIf (Keeps.bindLift fun seed => ?_)) fun _ => ?_
  · refine Keeps.update fun _ h => ?_
    obtain ⟨forks, records, data, numbers, rfl⟩ := h
    exact ⟨forks, _, data, numbers, rfl⟩
  · refine Keeps.update fun _ h => ?_
    obtain ⟨forks, records, data, numbers, rfl⟩ := h
    exact ⟨forks, records, data, _, rfl⟩

theorem storeAndIndex_catalogued (id : Nat) (block : FullBlock) :
    Keeps (Catalogued db) (storeAndIndex id block) := by
  refine Keeps.bind (indexBlock_catalogued id block) fun _ => Keeps.bindRead fun d => ?_
  refine Keeps.bind (Keeps.update fun _ h => h.storeFork _ _) fun _ => ?_
  refine Keeps.bindRead fun d t ht => ?_
  exact ht.onlyForks (placeBlock_onlyForks _ _ _ t rfl)

/-- Put a block on the chain, as `push_block` does where it follows the head: store it, and
extend the chain by it. -/
def advance (block : FullBlock) : DbAction Unit := do
  let _ ← storeAndIndex block.id block
  extendChain block

def grow (block : FullBlock) (db : ChainDatabase) : ChainDatabase := endState (advance block db)

theorem advance_ok (h : advance block db = .ok () db') :
    ∃ d, Catalogued db d ∧ extendChain block d = .ok () db' := by
  simp only [advance, bind_run_ok] at h
  obtain ⟨longest, d, hstore, hextend⟩ := h
  have hkeeps := storeAndIndex_catalogued block.id block db (.refl db)
  rw [hstore] at hkeeps
  exact ⟨d, hkeeps, hextend⟩

theorem grow_ok (h : returns (advance block db)) :
    ∃ d, Catalogued db d ∧ extendChain block d = .ok () (grow block db) :=
  advance_ok (eq_ok_of_returns h)

end Bts.Blockchain.ChainRuns
