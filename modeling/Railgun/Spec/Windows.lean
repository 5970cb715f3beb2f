import Railgun.Impl.Sync

/-!
# Sequences of windows

A sequence of `commit_window` calls, whatever each returns, and what a window
has to see of the store for the snapshots it advances: where a tree's snapshot
ends, and which stored leaves lie between there and the window's last leaf.
Leaves are compared as the hash takes them, modulo the scalar field.
-/

namespace Railgun

/-! ## Words in a hash -/

/-- The field element a word stands for in a hash. -/
def fieldOf (word : U256) : Fr := Fin.ofNat scalarField word.toNat

/-- Words that stand for one field element. -/
def SameField (a b : U256) : Prop := fieldOf a = fieldOf b

instance : DecidableRel SameField := fun a b => decEq (fieldOf a) (fieldOf b)

/-! ## Windows -/

/-- The arguments of a call. -/
structure WindowCall where
  commitments : List Node
  nullifiers : List Nullified
  through : BlockNumber
  deriving DecidableEq

section
variable (tables : PoseidonTables) (serde : Serde MerkleAccumulatorState)

def commitCall (db : Database) (call : WindowCall) : Except SyncError Unit × Database :=
  commitWindow tables serde db call.commitments call.nullifiers call.through

/-- The database after the calls. -/
def commitCalls (db : Database) (calls : List WindowCall) : Database :=
  calls.foldl (fun db call => (commitCall tables serde db call).2) db

/-- Every call succeeds. -/
def AllSucceed (db : Database) : List WindowCall → Prop
  | [] => True
  | call :: calls => (commitCall tables serde db call).1 = .ok () ∧
      AllSucceed (commitCall tables serde db call).2 calls

/-- How many leaves a tree's snapshot holds; none if there is no snapshot. -/
def snapshotLength {R : Type} [Reader R] (reader : R) (t : U32) : Nat :=
  match Frontier.snapshot reader t with
  | .ok (some bytes) =>
    match serde.fromSlice bytes with
    | .ok state => state.nextIndex.toNat
    | .error _ => 0
  | _ => 0

/-- In every tree, the window has a leaf below the snapshot (which then is
rebuilt), or every leaf that is stored from the snapshot to the window's last
leaf is one of the window's, or hashes as the empty one does. -/
def SeesStored {R : Type} [Reader R] (reader : R) (commitments : List Node) : Prop := ∀ t,
  (∃ n ∈ commitments, n.position.treeNumber = t ∧
    n.position.leafIndex.toNat < snapshotLength serde reader t) ∨
  ∀ m : Node, Commitments.node reader t m.position.leafIndex = .ok (some m) →
    snapshotLength serde reader t ≤ m.position.leafIndex.toNat →
    (∃ n ∈ commitments, n.position.treeNumber = t ∧ m.position.leafIndex ≤ n.position.leafIndex) →
    m ∈ commitments ∨ SameField m.hash railgunMerkleZero

/-- Every call's window sees what is stored when it is made. -/
def AllSee (db : Database) : List WindowCall → Prop
  | [] => True
  | call :: calls => SeesStored serde db.read call.commitments ∧
      AllSee (commitCall tables serde db call).2 calls

end

end Railgun
