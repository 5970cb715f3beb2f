import Railgun.Spec.Client
import Railgun.Spec.Lifecycle
import Railgun.Impl.Decoder

/-!
# What a wallet shows

The notes that a chain's commitments hold for a wallet, and which of them the
chain's nullifiers have spent, up to a block. A wallet also keeps the notes it
found: grouped by asset, and listed again in whatever order the map has its
assets in (`DecodedNotes.Flattens`).
-/

namespace Railgun

section
variable (chain : Chain) (prims : Primitives) (decoder : Decoder) (lo hi : Nat)

/-- A commitment of the blocks decrypts to the note. Trees are scanned up to one
before the last number, past which they cannot be counted. -/
def Chain.Pays (note : DecryptedNote) : Prop :=
  ∃ n, chain.Between lo hi (.commitment n) ∧ n.position.treeNumber < BitVec.allOnes 32 ∧
    decoder.decryptor.decryptNode prims n = .ok note

/-- None of the blocks has the note's nullifier, in its tree. -/
def Chain.Unspent (note : DecryptedNote) : Prop :=
  ¬ chain.Between lo hi (.nullified ⟨note.position.treeNumber, note.nullifier⟩)

end

/-- An asset's balance is of these notes: there is one if there are any, and then
they are listed in the order they were found, and their values add up. -/
structure Balance.IsOf (entry : Option Balance) (found : List DecryptedNote) (spendable : DecryptedNote → Prop) :
    Prop where
  isSome : entry.isSome ↔ ∃ note ∈ found, spendable note
  mem : ∀ balance ∈ entry, ∀ note, note ∈ balance.unspentUtxos ↔ note ∈ found ∧ spendable note
  sublist : ∀ balance ∈ entry, balance.unspentUtxos.Sublist found
  value : ∀ balance ∈ entry, balance.value.toNat = (balance.unspentUtxos.map (·.value.toNat)).sum

/-- What is left of a balance, if anything, when one of its notes is spent. -/
structure Balance.Spends (note : DecryptedNote) (balance : Balance) (rest : Option Balance) : Prop where
  mem : note ∈ balance.unspentUtxos
  isNone : rest = none ↔ balance.unspentUtxos = [note]
  utxos : (rest.elim [] fun rest => rest.unspentUtxos) = balance.unspentUtxos.erase note
  value : (rest.elim 0 fun rest => rest.value.toNat) + note.value.toNat = balance.value.toNat

/-- Two leaves of a tree have one nullifier. -/
def NoteDecryptor.NullifiersCollide (prims : Primitives) (decryptor : NoteDecryptor) : Prop :=
  ∃ i j nullifier, i < treeLeafCapacity ∧ j < treeLeafCapacity ∧ i ≠ j ∧
    nullifierOf prims decryptor.nullifyingKey i = .ok nullifier ∧
    nullifierOf prims decryptor.nullifyingKey j = .ok nullifier

/-- A flat copy of the notes, with the assets in any order. -/
def DecodedNotes.Flattens (notes : DecodedNotes) (flat : List DecryptedNote) : Prop :=
  ∃ entries : List (AssetId × List DecryptedNote), entries.Perm notes.byAsset.toList ∧
    flat = entries.flatMap (·.2)

/-- What is written is read back as it was. -/
def Serde.ReadsBack {α : Type} (serde : Serde α) : Prop :=
  ∀ x bytes, serde.toVec x = .ok bytes → serde.fromSlice bytes = .ok x

/-- A step that does not write the notes past the typed calls. -/
def LifeStep.SparesNotes (step : LifeStep) : Prop :=
  step.KeepsStamps ∧ ∀ entry, step.leaves? .decoded notesKey ≠ some entry

/-- Nor wipes the tables, nor saves notes. -/
def LifeStep.Spares (step : LifeStep) : Prop :=
  step.SparesNotes ∧ step ≠ .clearAll ∧ step.saved? = none

end Railgun
