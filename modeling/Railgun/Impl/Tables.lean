import Railgun.Impl.Store

/-!
# The typed tables

The commitments table, with its five key namespaces, the frontier snapshots
and the decoded notes: reads over any `Reader`, mutators over any store that
reads and writes. Every key starts with the byte of its namespace and spells
its numbers big-endian.
-/

namespace Railgun

open BigEndian

/-! ## Keys -/

/-- `b'c' | tree | position`. -/
def commitmentKey (tree position : U32) : Bytes := 0x63 :: (beBytes 4 tree ++ beBytes 4 position)

/-- `b'n' | tree | nullifier`. -/
def nullifierKey (tree : U32) (nullifier : Nullifier) : Bytes := 0x6e :: (beBytes 4 tree ++ nullifier.1)

/-- `b'm' | tree`. -/
def lengthKey (tree : U32) : Bytes := 0x6d :: beBytes 4 tree

/-- `b'g'`. -/
def treeCountKey : Bytes := [0x67]

/-- `b's'`. -/
def syncedBlockKey : Bytes := [0x73]

/-- A stored counter; absent means zero. -/
def decodeU32 : Option Bytes → Except DatabaseError U32
  | some bytes =>
    if bytes.length = 4 then .ok (fromBeBytes 32 bytes) else .error (.engine "malformed counter")
  | none => .ok 0

/-- The position in a commitment key: its bytes 5 to 8. -/
def positionFromKey (key : Bytes) : Except DatabaseError U32 :=
  let bytes := (key.drop 5).take 4
  if bytes.length = 4 then .ok (fromBeBytes 32 bytes)
  else .error (.engine "malformed commitment key")

/-! ## The commitments table -/

/-- The leaf hash scan of a tree. -/
structure LeafHashes where
  iter : RangeIter

/-- The node scan of a tree. -/
structure Nodes where
  iter : RangeIter

def LeafHashes.item (entry : Except DatabaseError Entry) :
    Except DatabaseError (U32 × CommitmentHash) := do
  let (key, value) ← entry
  let position ← positionFromKey key
  let hash ← (decodeHash value).mapError .codec
  return (position, hash)

def LeafHashes.toList (hashes : LeafHashes) : List (Except DatabaseError (U32 × CommitmentHash)) :=
  hashes.iter.toList.map item

def Nodes.item (entry : Except DatabaseError Entry) : Except DatabaseError Node := do
  let (_, value) ← entry
  (decodeNode value).mapError .codec

def Nodes.toList (nodes : Nodes) : List (Except DatabaseError Node) := nodes.iter.toList.map item

namespace Commitments

variable {R : Type} [Reader R] (reader : R)

/-- The node stored at a position. -/
def node (tree position : U32) : Except DatabaseError (Option Node) := do
  match ← Reader.get reader .commitments (commitmentKey tree position) with
  | some bytes => return some (← (decodeNode bytes).mapError .codec)
  | none => return none

def leafHash (tree position : U32) : Except DatabaseError (Option CommitmentHash) := do
  match ← Reader.get reader .commitments (commitmentKey tree position) with
  | some bytes => return some (← (decodeHash bytes).mapError .codec)
  | none => return none

/-- Every leaf hash of a tree, with its position. -/
def leafHashes (tree : U32) : Except DatabaseError LeafHashes := do
  return ⟨← Reader.range reader .commitments (commitmentKey tree 0)
    (commitmentKey tree (BitVec.allOnes 32))⟩

/-- Every node of a tree. -/
def nodes (tree : U32) : Except DatabaseError Nodes := do
  return ⟨← Reader.range reader .commitments (commitmentKey tree 0)
    (commitmentKey tree (BitVec.allOnes 32))⟩

/-- The recorded length of a tree. -/
def treeLength (tree : U32) : Except DatabaseError U32 := do
  decodeU32 (← Reader.get reader .commitments (lengthKey tree))

/-- The recorded number of trees. -/
def treeCount : Except DatabaseError U32 := do
  decodeU32 (← Reader.get reader .commitments treeCountKey)

def latestTree : Except DatabaseError (Option U32) := do
  let count ← treeCount reader
  return if count = 0 then none else some (count - 1)

def isNullified (tree : U32) (nullifier : Nullifier) : Except DatabaseError Bool := do
  return (← Reader.get reader .commitments (nullifierKey tree nullifier)).isSome

/-- The sync watermark. -/
def syncedBlock : Except DatabaseError (Option BlockNumber) := do
  match ← Reader.get reader .commitments syncedBlockKey with
  | some bytes =>
    if bytes.length = 8 then return some (fromBeBytes 64 bytes)
    else throw (.engine "malformed watermark")
  | none => return none

def isSynced : Except DatabaseError Bool := do
  return (← syncedBlock reader).isSome

end Commitments

namespace CommitmentsMut

variable {W : Type} [Reader W] [Writer W]

/-- Raises a counter to `wanted` if it is lower. -/
def raise (key : Bytes) (stored wanted : U32) : EStateM DatabaseError W Unit :=
  if stored < wanted then Writer.put .commitments key (beBytes 4 wanted) else pure ()

/-- Stages a commitment at its position, and raises the tree's length and the
tree count to cover it. -/
def insertNode (node : Node) : EStateM DatabaseError W Unit := do
  let tree := node.position.treeNumber
  let index := node.position.leafIndex
  let key := commitmentKey tree index
  let some encoded := encodeNode node | throw (.panicked "stored blob length fits in u32")
  match ← reading (Reader.get · .commitments key) with
  | some existing =>
    if existing = encoded then return ()
    else throw (.commitmentConflict tree index)
  | none =>
    Writer.put .commitments key encoded
    let length ← reading (Commitments.treeLength · tree)
    let count ← reading (Commitments.treeCount ·)
    raise (lengthKey tree) length (index + 1)
    raise treeCountKey count (tree + 1)

/-- Stages a nullifier: its key, with no value. -/
def insertNullifier (nullified : Nullified) : EStateM DatabaseError W Unit :=
  Writer.put .commitments (nullifierKey nullified.treeNumber nullified.nullifier) []

/-- Stages the watermark. -/
def setSyncedBlock (block : BlockNumber) : EStateM DatabaseError W Unit :=
  Writer.put .commitments syncedBlockKey (beBytes 8 block)

end CommitmentsMut

/-! ## Frontier snapshots -/

/-- The stored snapshot of a tree. -/
def Frontier.snapshot {R : Type} [Reader R] (reader : R) (tree : U32) :
    Except DatabaseError (Option Bytes) :=
  Reader.get reader .frontier (beBytes 4 tree)

namespace FrontierMut

variable {W : Type} [Writer W]

def setSnapshot (tree : U32) (bytes : Bytes) : EStateM DatabaseError W Unit :=
  Writer.put .frontier (beBytes 4 tree) bytes

def clearSnapshot (tree : U32) : EStateM DatabaseError W Unit :=
  Writer.delete .frontier (beBytes 4 tree)

end FrontierMut

/-! ## Decoded notes -/

/-- What `serde_json` does on a type: `to_vec` and `from_slice`, with the text
of its error. -/
structure Serde (α : Type) where
  toVec : α → Except String Bytes
  fromSlice : Bytes → Except String α

/-- Every value is written, and read back as it was. -/
def Serde.RoundTrips {α : Type} (serde : Serde α) : Prop :=
  ∀ x, ∃ bytes, serde.toVec x = .ok bytes ∧ serde.fromSlice bytes = .ok x

/-- `b"decoded_notes"`. -/
def notesKey : Bytes := "decoded_notes".toUTF8.data.toList.map UInt8.toBitVec

section
variable (serde : Serde (List DecryptedNote))

/-- The stored notes, or none. -/
def Decoded.load {R : Type} [Reader R] (reader : R) : Except DatabaseError (List DecryptedNote) := do
  match ← Reader.get reader .decoded notesKey with
  | some bytes => (serde.fromSlice bytes).mapError .serde
  | none => return []

/-- Replaces the stored notes. -/
def DecodedMut.save {W : Type} [Writer W] (notes : List DecryptedNote) :
    EStateM DatabaseError W Unit :=
  match serde.toVec notes with
  | .ok encoded => Writer.put .decoded notesKey encoded
  | .error message => throw (.serde message)

end

end Railgun
