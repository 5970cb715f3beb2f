import Railgun.Framework.GapFill
import Railgun.Framework.Outcome
import Railgun.Impl.Poseidon
import Railgun.Impl.Tables

/-!
# The Merkle walk

The frontier accumulator, its snapshots, and the two paths to a root: the
snapshot whose `next_index` is the tree's length (`merkleRoot`), and the full
walk over the stored leaves (`treeFrontier`, which `validate` always takes).
-/

namespace Railgun

open GapFill (repeatWhile)
open Outcome (ensure)

/-- Depth, pairwise hash and empty leaf of a tree. -/
structure MerkleConfig where
  depth : Nat
  hash : U256 → U256 → U256
  zero : U256

def railgunTreeDepth : Nat := 16

def railgunMerkleZero : U256 :=
  2051258411002736885948763699317990061539314419500486054347250703186609807356

/-- RAILGUN's tree over a table of Poseidon parameters. Two inputs always hash
(`hashFieldInputs_ok`), so the `expect` never fails. -/
def railgunMerkleConfig (tables : PoseidonTables) : MerkleConfig where
  depth := railgunTreeDepth
  hash left right :=
    match hashFieldInputs tables [left, right] with
    | .ok hash => hash
    | .error _ => 0
  zero := railgunMerkleZero

/-! ## The accumulator -/

/-- So many empty-subtree hashes, from `current` up. -/
def zeroLevels (C : MerkleConfig) : Nat → U256 → List U256
  | 0, _ => []
  | n + 1, current => current :: zeroLevels C n (C.hash current current)

/-- The empty-subtree hash of every level, the root's included. -/
def zeroValueLevels (C : MerkleConfig) : List U256 := zeroLevels C (C.depth + 1) C.zero

/-- The streaming root: one pending left child a level. -/
@[ext] structure MerkleAccumulator (C : MerkleConfig) where
  zeros : List U256
  filledSubtrees : List U256
  nextIndex : U64
  root : U256
  zeros_eq : zeros = zeroValueLevels C
  depth_eq : filledSubtrees.length = C.depth

/-- What is persisted of an accumulator. -/
structure MerkleAccumulatorState where
  filledSubtrees : List U256
  nextIndex : U64
  root : U256
  deriving DecidableEq

inductive MerkleError
  | database (e : DatabaseError)
  | treeOverfull (tree count capacity : U32)
  | frontierCodec (message : String)
  | malformedFrontier (expectedDepth foundDepth : Nat)
  deriving DecidableEq, Repr

theorem length_zeroLevels (C : MerkleConfig) : ∀ n z, (zeroLevels C n z).length = n
  | 0, _ => rfl
  | n + 1, z => by rw [zeroLevels, List.length_cons, length_zeroLevels C n]

namespace MerkleAccumulator

variable {C : MerkleConfig}

def new : MerkleAccumulator C where
  zeros := zeroValueLevels C
  filledSubtrees := (zeroValueLevels C).take C.depth
  nextIndex := 0
  root := (zeroValueLevels C).getD C.depth 0
  zeros_eq := rfl
  depth_eq := by rw [List.length_take, zeroValueLevels, length_zeroLevels]; omega

def state (acc : MerkleAccumulator C) : MerkleAccumulatorState :=
  { filledSubtrees := acc.filledSubtrees, nextIndex := acc.nextIndex, root := acc.root }

def fromState (state : MerkleAccumulatorState) : Except MerkleError (MerkleAccumulator C) :=
  if h : state.filledSubtrees.length = C.depth then
    .ok { state with zeros := zeroValueLevels C, zeros_eq := rfl, depth_eq := h }
  else .error (.malformedFrontier C.depth state.filledSubtrees.length)

/-- A leaf on its way up. -/
structure Climb where
  index : U64
  current : U256
  filledSubtrees : List U256

/-- One level up: a left child is cached and hashed with an empty subtree, a
right child with the cached left one. -/
def Climb.level (zeros : List U256) (climb : Climb) (level : Nat) : Climb :=
  if climb.index &&& 1 = 0 then
    { index := climb.index >>> 1
      current := C.hash climb.current (zeros.getD level 0)
      filledSubtrees := climb.filledSubtrees.set level climb.current }
  else
    { climb with
      index := climb.index >>> 1
      current := C.hash (climb.filledSubtrees.getD level 0) climb.current }

/-- The climb of a leaf over so many levels. -/
def climb (acc : MerkleAccumulator C) (leaf : U256) (levels : Nat) : Climb :=
  (List.range levels).foldl (Climb.level (C := C) acc.zeros)
    { index := acc.nextIndex, current := leaf, filledSubtrees := acc.filledSubtrees }

theorem length_climb (zeros : List U256) : ∀ (levels : List Nat) (climb : Climb),
    (levels.foldl (Climb.level (C := C) zeros) climb).filledSubtrees.length =
      climb.filledSubtrees.length
  | [], _ => rfl
  | l :: levels, climb => by
    rw [List.foldl_cons, length_climb zeros levels, Climb.level]
    split <;> simp

/-- Appends a leaf at the next index. -/
def insert (acc : MerkleAccumulator C) (leaf : U256) : MerkleAccumulator C where
  zeros := acc.zeros
  filledSubtrees := (acc.climb leaf C.depth).filledSubtrees
  nextIndex := acc.nextIndex + 1
  root := (acc.climb leaf C.depth).current
  zeros_eq := acc.zeros_eq
  depth_eq := by rw [climb, length_climb, acc.depth_eq]

/-- The number of leaves. -/
def len (acc : MerkleAccumulator C) : U64 := acc.nextIndex

end MerkleAccumulator

/-! ## The walk -/

section
variable {R : Type} [Reader R] (tables : PoseidonTables)

/-- The state of the full walk. -/
structure Walk where
  accumulator : MerkleAccumulator (railgunMerkleConfig tables)
  missing : U32
  expected : U32

variable {tables}

/-- A missing position: the empty leaf stands in for it. -/
def Walk.pad (walk : Walk tables) : Walk tables :=
  { accumulator := walk.accumulator.insert (railgunMerkleConfig tables).zero
    missing := walk.missing + 1
    expected := walk.expected + 1 }

/-- `while expected < position`: the turns are the positions in between. -/
def Walk.padTo (walk : Walk tables) (position : U32) : Walk tables :=
  repeatWhile (fun w => w.expected < position) Walk.pad (position.toNat - walk.expected.toNat) walk

/-- One entry of the leaf scan. -/
def Walk.entry (walk : Walk tables) (entry : Except DatabaseError (U32 × CommitmentHash)) :
    Except MerkleError (Walk tables) := do
  let (position, hash) ← entry.mapError .database
  let walk := walk.padTo position
  return { walk with
    accumulator := walk.accumulator.insert hash, expected := walk.expected + 1 }

variable (tables)

/-- Folds the stored leaves of a tree into a fresh accumulator, filling gaps;
with the leaf count and the number of gaps. -/
def treeFrontier (reader : R) (tree : U32) :
    Except MerkleError (MerkleAccumulator (railgunMerkleConfig tables) × U32 × U32) := do
  let leafCount ← (Commitments.treeLength reader tree).mapError .database
  let capacity := (1 : U32) <<< railgunTreeDepth
  ensure (leafCount ≤ capacity) (.treeOverfull tree leafCount capacity)
  let entries ← (Commitments.leafHashes reader tree).mapError .database
  let walk ← entries.toList.foldlM Walk.entry
    ({ accumulator := .new, missing := 0, expected := 0 } : Walk tables)
  let walk := walk.padTo leafCount
  return (walk.accumulator, leafCount, walk.missing)

/-- The outcome of a full walk. -/
structure TreeIntegrity where
  tree : U32
  leafCount : U32
  root : U256
  missing : U32
  valid : Bool
  deriving DecidableEq

def walkUp (reader : R) (tree : U32) : Except MerkleError (U256 × U32 × U32) := do
  let (accumulator, leafCount, missing) ← treeFrontier tables reader tree
  return (accumulator.root, leafCount, missing)

/-- The recomputed root and what `isValid` says of it. -/
def validate (reader : R) (tree : U32) (isValid : U32 → U32 → U256 → Bool) :
    Except MerkleError TreeIntegrity := do
  let (root, leafCount, missing) ← walkUp tables reader tree
  let lastLeafIndex := if leafCount = 0 then 0 else leafCount - 1
  return { tree, leafCount, root, missing, valid := isValid tree lastLeafIndex root }

/-- The root: of the snapshot if it has as many leaves as the tree, else
recomputed. -/
def merkleRoot (serde : Serde MerkleAccumulatorState) (reader : R) (tree : U32) :
    Except MerkleError U256 := do
  let leafCount ← (Commitments.treeLength reader tree).mapError .database
  match ← (Frontier.snapshot reader tree).mapError .database with
  | some bytes =>
    let state ← (serde.fromSlice bytes).mapError .frontierCodec
    if state.nextIndex = leafCount.setWidth 64 then return state.root
  | none => pure ()
  return (← walkUp tables reader tree).1

end

end Railgun
