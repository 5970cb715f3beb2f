import Railgun.Impl.Note
import Railgun.Impl.Tables

/-!
# The decoder

A wallet's scan of the stored trees, and its notes grouped by asset. A node
that does not decrypt is skipped; whether a note is spent is looked up when
balances are asked for. The tracing event for a skipped node is left out.
-/

namespace Railgun

open Outcome

/-- Errors of the `decoder` crate. -/
inductive DecodeError
  | database (e : DatabaseError)
  deriving DecidableEq, Repr

deriving instance Hashable for AssetId

/-! ## Scans -/

structure Decoder where
  decryptor : NoteDecryptor

namespace Decoder

variable (prims : Primitives) (decoder : Decoder) {R : Type} [Reader R]

/-- One node of a tree's scan: its note is kept, or it is not ours. -/
def scanNode (found : List DecryptedNote) (stored : Except DatabaseError Node) :
    Except DecodeError (List DecryptedNote) := do
  let stored ← stored.mapError .database
  match decoder.decryptor.decryptNode prims stored with
  | .ok note => return found ++ [note]
  | .error _ => return found

/-- Every stored leaf of a tree, decrypted. -/
def decodeTree (view : R) (tree : U32) : Except DecodeError (List DecryptedNote) := do
  let nodes ← (Commitments.nodes view tree).mapError .database
  nodes.toList.foldlM (decoder.scanNode prims) []

/-- Every tree, one after the other. -/
def decodeAll (view : R) : Except DecodeError (List DecryptedNote) := do
  let treeCount ← (Commitments.treeCount view).mapError .database
  (List.range treeCount.toNat).foldlM (fun found tree => do
    return found ++ (← decoder.decodeTree prims view (BitVec.ofNat 32 tree))) []

end Decoder

/-! ## Notes by asset -/

/-- The spendable position for an asset. -/
structure Balance where
  value : U256
  unspentUtxos : List DecryptedNote

/-- A wallet's notes by asset. -/
structure DecodedNotes where
  byAsset : Std.HashMap AssetId (List DecryptedNote)

/-- `U256::saturating_add`. -/
def saturatingAdd (a b : U256) : U256 :=
  if a.toNat + b.toNat < 2 ^ 256 then a + b else BitVec.allOnes 256

namespace DecodedNotes

/-- `entry(note.asset).or_default().push(note)`. -/
def push (byAsset : Std.HashMap AssetId (List DecryptedNote)) (note : DecryptedNote) :
    Std.HashMap AssetId (List DecryptedNote) :=
  byAsset.insert note.asset ((byAsset[note.asset]?.getD []) ++ [note])

/-- Groups notes by asset. -/
def fromNotes (notes : List DecryptedNote) : DecodedNotes := ⟨notes.foldl push ∅⟩

/-- The assets with a note. -/
def assets (notes : DecodedNotes) : List AssetId := notes.byAsset.keys

/-- All notes of an asset, spent and unspent. -/
def utxos (notes : DecodedNotes) (asset : AssetId) : List DecryptedNote := notes.byAsset[asset]?.getD []

/-- A flat copy of the notes, in the order the map has its assets in. -/
def toNotes (notes : DecodedNotes) : List DecryptedNote := notes.byAsset.toList.flatMap (·.2)

variable {R : Type} [Reader R] (view : R)

/-- Counts a note, unless its nullifier was seen in its tree. -/
def addNote (balance : Balance) (note : DecryptedNote) : Except DecodeError Balance := do
  let spent ← (Commitments.isNullified view note.position.treeNumber note.nullifier).mapError .database
  if spent then return balance
  return { value := saturatingAdd balance.value note.value.asU256
           unspentUtxos := balance.unspentUtxos ++ [note] }

/-- The balance of an asset, entered if it has an unspent note. -/
def addAsset (balances : Std.HashMap AssetId Balance) (entry : AssetId × List DecryptedNote) :
    Except DecodeError (Std.HashMap AssetId Balance) := do
  let balance ← entry.2.foldlM (addNote view) { value := 0, unspentUtxos := [] }
  return if balance.unspentUtxos.isEmpty then balances else balances.insert entry.1 balance

/-- The unspent notes of each asset and their value. -/
def balances (notes : DecodedNotes) : Except DecodeError (Std.HashMap AssetId Balance) :=
  notes.byAsset.toList.foldlM (addAsset view) ∅

end DecodedNotes

end Railgun
