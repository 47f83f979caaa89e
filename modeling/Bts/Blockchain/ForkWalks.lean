import Bts.Blockchain.ForkDatabase

namespace Bts.Blockchain.ForkWalks

open Base.Exec Transactions Database ExtendChain ForkDatabase

variable [Fc] {I : ChainDatabase → Prop} {db d : ChainDatabase}

theorem markBlocks_keeps {mark : BlockForkData → BlockForkData}
    (hmark : ∀ id, Keeps I (markBlock mark id)) (levels : Nat) (ids : List Nat) :
    Keeps I (markBlocks mark levels ids) := by
  induction levels generalizing ids with
  | zero => exact Keeps.pure ()
  | succ levels ih =>
    refine Keeps.bind (Keeps.forEach fun id _ => hmark id) fun _ => ?_
    exact Keeps.bindRead fun _ => ih _

theorem markAsLinked_keeps (hmark : ∀ id, Keeps I (markBlock setLinked id)) (levels : Nat)
    (ids : List Nat) (best : Nat × Nat × BlockForkData) :
    Keeps I (markAsLinked levels ids best) := by
  induction levels generalizing ids best with
  | zero => exact Keeps.pure _
  | succ levels ih =>
    refine Keeps.bind (Keeps.forEach fun id _ => hmark id) fun _ => ?_
    exact Keeps.bindRead fun _ => Keeps.bindLift fun best => ih _ _

theorem tryFork_keeps {blockId forkId : Nat} (hswitch : Keeps I (switchToFork forkId))
    (hfuture : ∀ d, I d → I { d with
      revalidatableFutureBlocksDb := insert blockId d.revalidatableFutureBlocksDb }) :
    Keeps I (tryFork blockId forkId) := by
  refine Keeps.bindRead fun d => Keeps.bindLift fun f => Keeps.ite ?_ (Keeps.pure _)
  refine Keeps.onError (Keeps.bind hswitch fun _ => ?_) fun e => ?_
  · exact Keeps.bindRead fun _ => Keeps.bindLift fun _ => Keeps.pure _
  · exact Keeps.bind (Keeps.onlyIf (Keeps.update hfuture)) fun _ => Keeps.pure _

theorem tryForks_keeps {blockId : Nat} (htry : ∀ forkId, Keeps I (tryFork blockId forkId))
    (forks : List Nat) : Keeps I (tryForks blockId forks) := by
  induction forks with
  | nil => exact Keeps.pure _
  | cons forkId rest ih => exact Keeps.bind (htry forkId) fun _ => Keeps.ite (Keeps.pure _) ih

theorem tryNumbers_keeps {blockId : Nat} (htry : ∀ forkId, Keeps I (tryFork blockId forkId))
    (number : Nat) : Keeps I (tryNumbers blockId number) := by
  induction number with
  | zero => exact Keeps.pure _
  | succ number ih =>
    refine Keeps.bindRead fun d => ?_
    exact Keeps.bind (tryForks_keeps htry _) fun _ => Keeps.ite (Keeps.pure _) ih

def OnlyForks (db d : ChainDatabase) : Prop := d = { db with forkDb := d.forkDb }

theorem OnlyForks.storeFork (h : OnlyForks db d) (id : Nat) (f : BlockForkData) :
    OnlyForks db (storeFork id f d) := by
  rw [h]
  rfl

theorem markBlock_onlyForks (mark : BlockForkData → BlockForkData) (id : Nat) :
    Keeps (OnlyForks db) (markBlock mark id) :=
  Keeps.bindRead fun _ => Keeps.bindLift fun f =>
    Keeps.update fun _ h => h.storeFork id (mark f)

theorem placeBlock_onlyForks (blockId : Nat) (previous : BlockForkData)
    (placeholder : Option BlockForkData) :
    Keeps (OnlyForks db) (placeBlock blockId previous placeholder) := by
  have hstore (f : BlockForkData) : Keeps (OnlyForks db) (update (storeFork blockId f) : DbAction Unit) :=
    Keeps.update fun _ h => h.storeFork blockId f
  cases placeholder with
  | none => exact Keeps.bind (hstore _) fun _ => Keeps.pure _
  | some f =>
    refine Keeps.ite ?_ (Keeps.bind (hstore _) fun _ => Keeps.pure _)
    refine Keeps.bind (hstore _) fun _ => Keeps.bindRead fun _ => Keeps.ite ?_ ?_
    · exact Keeps.bind (markBlocks_keeps (markBlock_onlyForks _) _ _) fun _ => Keeps.pure _
    · exact markAsLinked_keeps (markBlock_onlyForks _) _ _ _

end Bts.Blockchain.ForkWalks
