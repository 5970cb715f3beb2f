import Railgun.Impl.Database
import Railgun.Impl.Merkle

/-!
# Sequences of typed calls

What a client can ask of a store, as data: the mutators and the reads of the
typed tables, raw point reads and scans, and the two root queries. A sequence
of calls runs on any store, one after the other whatever each returns, and
collects the answers; inside `Database::write` it is a closure that keeps
going and returns them.
-/

namespace Railgun

/-- A call on a store. Scans have their bounds the right way round. -/
inductive Call
  | insertNode (node : Node)
  | insertNullifier (nullified : Nullified)
  | setSyncedBlock (block : BlockNumber)
  | setSnapshot (tree : U32) (bytes : Bytes)
  | clearSnapshot (tree : U32)
  | saveNotes (notes : List DecryptedNote)
  | get (table : TableId) (key : Bytes)
  | range (table : TableId) (start stop : Bytes) (ordered : compare start stop ≠ .gt)
  | node (tree position : U32)
  | leafHash (tree position : U32)
  | nodes (tree : U32)
  | leafHashes (tree : U32)
  | treeLength (tree : U32)
  | treeCount
  | isNullified (tree : U32) (nullifier : Nullifier)
  | syncedBlock
  | snapshot (tree : U32)
  | loadNotes
  | merkleRoot (tree : U32)
  | validate (tree : U32) (isValid : U32 → U32 → U256 → Bool)

/-- What a call returns; a scan is read to its end. -/
inductive Answer
  | done (result : Except DatabaseError Unit)
  | bytes (result : Except DatabaseError (Option Bytes))
  | entries (result : Except DatabaseError (List (Except DatabaseError Entry)))
  | node (result : Except DatabaseError (Option Node))
  | hash (result : Except DatabaseError (Option CommitmentHash))
  | nodes (result : Except DatabaseError (List (Except DatabaseError Node)))
  | hashes (result : Except DatabaseError (List (Except DatabaseError (U32 × CommitmentHash))))
  | counter (result : Except DatabaseError U32)
  | flag (result : Except DatabaseError Bool)
  | block (result : Except DatabaseError (Option BlockNumber))
  | notes (result : Except DatabaseError (List DecryptedNote))
  | root (result : Except MerkleError U256)
  | integrity (result : Except MerkleError TreeIntegrity)

/-- What the calls take from elsewhere: the contents of the Poseidon tables
and the two serialized records. -/
structure Backend where
  tables : PoseidonTables
  states : Serde MerkleAccumulatorState
  notes : Serde (List DecryptedNote)

section
variable {S : Type} [Reader S] [Writer S] (backend : Backend)

/-- A mutator's answer, and the store after it. -/
def mutating (m : EStateM DatabaseError S Unit) (store : S) : Answer × S :=
  match m store with
  | .ok value store => (.done (.ok value), store)
  | .error error store => (.done (.error error), store)

def runCall (store : S) : Call → Answer × S
  | .insertNode node => mutating (CommitmentsMut.insertNode node) store
  | .insertNullifier nullified => mutating (CommitmentsMut.insertNullifier nullified) store
  | .setSyncedBlock block => mutating (CommitmentsMut.setSyncedBlock block) store
  | .setSnapshot tree bytes => mutating (FrontierMut.setSnapshot tree bytes) store
  | .clearSnapshot tree => mutating (FrontierMut.clearSnapshot tree) store
  | .saveNotes notes => mutating (DecodedMut.save backend.notes notes) store
  | .get table key => (.bytes (Reader.get store table key), store)
  | .range table start stop _ =>
    (.entries ((Reader.range store table start stop).map RangeIter.toList), store)
  | .node tree position => (.node (Commitments.node store tree position), store)
  | .leafHash tree position => (.hash (Commitments.leafHash store tree position), store)
  | .nodes tree => (.nodes ((Commitments.nodes store tree).map Nodes.toList), store)
  | .leafHashes tree => (.hashes ((Commitments.leafHashes store tree).map LeafHashes.toList), store)
  | .treeLength tree => (.counter (Commitments.treeLength store tree), store)
  | .treeCount => (.counter (Commitments.treeCount store), store)
  | .isNullified tree nullifier => (.flag (Commitments.isNullified store tree nullifier), store)
  | .syncedBlock => (.block (Commitments.syncedBlock store), store)
  | .snapshot tree => (.bytes (Frontier.snapshot store tree), store)
  | .loadNotes => (.notes (Decoded.load backend.notes store), store)
  | .merkleRoot tree => (.root (merkleRoot backend.tables backend.states store tree), store)
  | .validate tree isValid => (.integrity (validate backend.tables store tree isValid), store)

/-- A sequence of calls: the answers, and the store after the last. -/
def runCalls (store : S) : List Call → List Answer × S
  | [] => ([], store)
  | call :: calls =>
    let (answer, store) := runCall backend store call
    let (answers, store) := runCalls store calls
    (answer :: answers, store)

end

/-- The closure that makes the calls and returns their answers. -/
def callsInTxn (backend : Backend) (calls : List Call) :
    EStateM DatabaseError WriteTxn (List Answer) := fun txn =>
  let (answers, txn) := runCalls backend txn calls
  .ok answers txn

end Railgun
