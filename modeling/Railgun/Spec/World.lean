import Railgun.Spec.Forest
import Railgun.Spec.Windows

/-!
# Interleavings

The database with everything that can be under way over it: a write
transaction, of which there is one at a time, snapshots that are held, and batches
staged through overlays over snapshots, which hold no lock. Actions interleave in
any order (`World.run`); the syncer's windows commit in between. What a step has to
meet is said in terms of the stores' own reads. For the tables to stay right,
batches have to fit when they are landed (`Fits`). For roots to stay right, a node
inserted or landed has to keep the snapshot of its tree (`KeepsSnapshot`, `Lands`).
-/

namespace Railgun

open Height

/-! ## Actions -/

structure World where
  db : Database
  txn : Option WriteTxn
  views : List ReadView
  overlays : List Overlay

/-- A database and nothing under way. -/
def World.on (db : Database) : World := ⟨db, none, [], []⟩

inductive Action
  /-- The syncer commits a window. -/
  | window (call : WindowCall)
  /-- A write transaction is begun, mutated, and committed or dropped. -/
  | begin
  | write (write : Write)
  | commit
  | rollback
  /-- A snapshot is taken. -/
  | read
  /-- A batch is staged through an overlay over a snapshot, or laid over another. -/
  | stage (view : Nat)
  | overlay (overlay view : Nat)
  | stageWrite (overlay : Nat) (write : Write)
  /-- It is landed in a transaction of its own, or dropped. -/
  | apply (overlay : Nat)
  | discard (overlay : Nat)
  deriving DecidableEq

section
variable (tables : PoseidonTables) (serde : Serde MerkleAccumulatorState)

/-- One action. A transaction waits for the one that is open, so an action that
would begin another does not happen; nor does one on what is not there. -/
def World.step (w : World) : Action → World
  | .window call =>
    if w.txn.isNone then { w with db := (commitCall tables serde w.db call).2 } else w
  | .begin => if w.txn.isNone then { w with txn := some ⟨w.db.engine⟩ } else w
  | .write write => { w with txn := w.txn.map fun txn => (answering write.mutate txn).2 }
  | .commit =>
    match w.txn with
    | some txn => { w with db := ⟨txn.inner⟩, txn := none }
    | none => w
  | .rollback => { w with txn := none }
  | .read => { w with views := w.views ++ [w.db.read] }
  | .stage v =>
    match w.views[v]? with
    | some view => { w with overlays := w.overlays ++ [WriteBatch.new.overlay view] }
    | none => w
  | .overlay i v =>
    match w.views[v]? with
    | some view => { w with overlays := w.overlays.modify i fun overlay => overlay.batch.overlay view }
    | none => w
  | .stageWrite i write =>
    { w with overlays := w.overlays.modify i fun overlay => (answering write.mutate overlay).2 }
  | .apply i =>
    match w.txn, w.overlays[i]? with
    | none, some overlay =>
      { w with db := (w.db.apply overlay.batch).2, overlays := w.overlays.eraseIdx i }
    | _, _ => w
  | .discard i => { w with overlays := w.overlays.eraseIdx i }

def World.run (w : World) (actions : List Action) : World :=
  actions.foldl (World.step tables serde) w

/-- Every action meets a condition on the state it is taken in. -/
def World.AllMeet (meets : World → Action → Prop) (w : World) : List Action → Prop
  | [] => True
  | action :: actions => meets w action ∧ AllMeet meets (w.step tables serde action) actions

end

/-! ## Counters -/

/-- A reader's counters are the heights of what it holds. -/
structure Counted {R : Type} [Reader R] (reader : R) : Prop where
  length : ∀ t, ∃ length, Commitments.treeLength reader t = .ok length ∧
    IsHeight (fun p => ∃ (q : U32) (n : Node), q.toNat = p ∧
      Commitments.node reader t q = .ok (some n)) length.toNat
  count : ∃ count, Commitments.treeCount reader = .ok count ∧
    IsHeight (fun k => ∃ (t q : U32) (n : Node), t.toNat = k ∧
      Commitments.node reader t q = .ok (some n)) count.toNat

/-- A reader's root is the one it rebuilds from its leaves. -/
def RootsRight (tables : PoseidonTables) (serde : Serde MerkleAccumulatorState) {R : Type} [Reader R]
    (reader : R) : Prop := ∀ t, ∃ accumulator length missing,
  treeFrontier tables reader t = .ok (accumulator, length, missing) ∧
  merkleRoot tables serde reader t = .ok accumulator.root

/-! ## Landing a batch -/

/-- What a batch itself holds. -/
def WriteBatch.alone (batch : WriteBatch) : Overlay := batch.overlay ⟨fun _ => ∅⟩

/-- Nothing a batch stages contradicts the database: the places of its nodes are
free or hold the same nodes, and none of its counters is behind. -/
structure Fits (db : Database) (batch : WriteBatch) : Prop where
  node : ∀ t p n m, Commitments.node batch.alone t p = .ok (some n) →
    Commitments.node db.read t p = .ok (some m) → m = n
  length : ∀ t length length', Commitments.treeLength batch.alone t = .ok length →
    Commitments.treeLength db.read t = .ok length' → length = 0 ∨ length' ≤ length
  count : ∀ count count', Commitments.treeCount batch.alone = .ok count →
    Commitments.treeCount db.read = .ok count' → count = 0 ∨ count' ≤ count

/-- Every batch that is landed fits the database as it is then. -/
def World.AppliesFit (w : World) : Action → Prop
  | .apply i => w.txn = none → ∀ overlay ∈ w.overlays[i]?, Fits w.db overlay.batch
  | _ => True

/-- No node is in the tree with the last number. -/
def Action.InRange : Action → Prop
  | .window call => ∀ n ∈ call.commitments, n.position.treeNumber < BitVec.allOnes 32
  | .write mutation => mutation.InRange
  | .stageWrite _ mutation => mutation.InRange
  | _ => True

instance Action.decidableInRange (action : Action) : Decidable action.InRange := by
  cases action <;> unfold Action.InRange <;> infer_instance

/-! ## Below a snapshot -/

section
variable (serde : Serde MerkleAccumulatorState)

/-- A node's place is not below its tree's snapshot, or has a leaf that hashes as the node does. -/
def KeepsLeaf {R : Type} [Reader R] (reader : R) (n : Node) : Prop :=
  ∀ stored, Commitments.leafHash reader n.position.treeNumber n.position.leafIndex = .ok stored →
    snapshotLength serde reader n.position.treeNumber ≤ n.position.leafIndex.toNat ∨
      SameField n.hash (stored.getD railgunMerkleZero)

/-- A node that fills a free place keeps the leaf there: an empty one. -/
def KeepsSnapshot {R : Type} [Reader R] (reader : R) : Write → Prop
  | .node n => Admissible n →
    Commitments.leafHash reader n.position.treeNumber n.position.leafIndex = .ok none → KeepsLeaf serde reader n
  | _ => True

/-- A batch laid over a snapshot, or landed on it, puts no tree's length back or short of a node, and keeps the
leaves there. -/
structure Lands (view : ReadView) (batch : WriteBatch) : Prop where
  length : ∀ t length length', Commitments.treeLength view t = .ok length →
    Commitments.treeLength (batch.overlay view) t = .ok length' → length ≤ length' ∧
    ∀ p n, Commitments.node batch.alone t p = .ok (some n) → p < length'
  leaf : ∀ t p n, Commitments.node batch.alone t p = .ok (some n) → KeepsLeaf serde view n

/-- No snapshot is left behind: windows see what is stored, and the nodes that are inserted, staged and landed keep
the leaves below it. -/
def World.SnapshotsKept (w : World) : Action → Prop
  | .window call => w.txn = none → SeesStored serde w.db.read call.commitments
  | .write write => ∀ txn ∈ w.txn, KeepsSnapshot serde txn write
  | .stageWrite i write => ∀ overlay ∈ w.overlays[i]?, KeepsSnapshot serde overlay write
  | .overlay i v => ∀ overlay ∈ w.overlays[i]?, ∀ view ∈ w.views[v]?, Lands serde view overlay.batch
  | .apply i => w.txn = none → ∀ overlay ∈ w.overlays[i]?, Lands serde w.db.read overlay.batch
  | _ => True

end

end Railgun
