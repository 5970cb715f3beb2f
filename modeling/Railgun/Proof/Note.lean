import Railgun.Impl.Note

/-!
# What a decrypted note is tied to

Every note a decryptor returns is assembled from the wallet's own master key
and nullifying key and from the node's position (`assemble_ok`), so its owner,
nullifier and commitment hash are those of its fields. A transact is then
compared with the stored leaf (`openTransact_ties`). A shield is compared with
the public note key only: its note is the leaf's exactly when the leaf is the
hash of the public fields (`decryptNode_ties_iff`), which nothing checks
(`decryptNode_unchecked`).
-/

namespace Railgun

open Outcome

section
variable (prims : Primitives) (decryptor : NoteDecryptor)

/-- The note is the one the node's leaf commits to, and the wallet's. -/
structure TiedTo (node : Node) (note : DecryptedNote) : Prop where
  commitmentHash : note.commitmentHash = node.hash
  preimage : noteHash prims note.notePublicKey note.asset note.value = .ok node.hash
  owner : ∃ master, masterPublicKey prims decryptor.spendingPublicKey decryptor.nullifyingKey = .ok master ∧
    notePublicKey prims master note.random = .ok note.notePublicKey
  nullifier : nullifierOf prims decryptor.nullifyingKey node.position.leafIndex = .ok note.nullifier
  position : note.position = node.position

/-- A shield's bundle opens for the wallet to `random`, its value fits a note,
its note key is the wallet's key under `random`, and the remaining hashes of
the note are defined. -/
def OpensShield (position : NodePosition) (body : ShieldBody) (random : ByteArr 16) : Prop :=
  ∃ ciphertext shared value master hash nullifier blinded,
    shieldCiphertext body.encryptedBundle = .ok ciphertext ∧
    deriveSharedKey prims decryptor.viewingKey body.shieldKey = .ok shared ∧
    decryptWithSharedKey prims ciphertext shared = .ok [random.1] ∧
    NoteValue.tryFromU256 body.value = .ok value ∧
    masterPublicKey prims decryptor.spendingPublicKey decryptor.nullifyingKey = .ok master ∧
    notePublicKey prims master random = .ok body.npk ∧
    noteHash prims body.npk body.token value = .ok hash ∧
    nullifierOf prims decryptor.nullifyingKey position.leafIndex = .ok nullifier ∧
    blindedCommitment prims hash body.npk position.treeNumber position.leafIndex = .ok blinded

/-- A shield's leaf is the hash of its public note key, token and value. -/
def HashesPublicFields (hash : CommitmentHash) (body : ShieldBody) : Prop :=
  ∀ value, NoteValue.tryFromU256 body.value = .ok value →
    noteHash prims body.npk body.token value = .ok hash

end

variable {prims : Primitives} {decryptor : NoteDecryptor}

theorem copyExact_ok {n : Nat} {bytes : Bytes} {array : ByteArr n} :
    copyExact n bytes = .ok array ↔ bytes = array.1 := by
  rw [copyExact]
  split
  · rw [Except.ok.injEq]
    exact ⟨fun h => h ▸ rfl, fun h => Subtype.ext h⟩
  · rename_i h
    simp only [reduceCtorEq, false_iff]
    exact fun he => h (he ▸ array.2)

theorem assemble_ok {master : PoseidonHash} {position : NodePosition} {asset : AssetId}
    {value : NoteValue} {random : ByteArr 16} {memo : String} {kind : BlindedCommitmentType}
    {note : DecryptedNote} :
    decryptor.assemble prims master position asset value random memo kind = .ok note ↔
      ∃ npk hash nullifier blinded,
        notePublicKey prims master random = .ok npk ∧ noteHash prims npk asset value = .ok hash ∧
        nullifierOf prims decryptor.nullifyingKey position.leafIndex = .ok nullifier ∧
        blindedCommitment prims hash npk position.treeNumber position.leafIndex = .ok blinded ∧
        note = ⟨position, value, asset, random, memo, hash, npk, nullifier, blinded, kind⟩ := by
  simp only [NoteDecryptor.assemble, bind_eq_ok, pure_eq_ok]
  constructor
  · rintro ⟨npk, h₁, hash, h₂, nullifier, h₃, blinded, h₄, rfl⟩
    exact ⟨npk, hash, nullifier, blinded, h₁, h₂, h₃, h₄, rfl⟩
  · rintro ⟨npk, hash, nullifier, blinded, h₁, h₂, h₃, h₄, rfl⟩
    exact ⟨npk, h₁, hash, h₂, nullifier, h₃, blinded, h₄, rfl⟩

/-- An assembled note is tied to every leaf that is its commitment hash. -/
theorem tiedTo_of_assemble {master : PoseidonHash} {node : Node} {asset : AssetId}
    {value : NoteValue} {random : ByteArr 16} {memo : String} {kind : BlindedCommitmentType}
    {note : DecryptedNote} (hm : decryptor.master prims = .ok master)
    (h : decryptor.assemble prims master node.position asset value random memo kind = .ok note)
    (hh : note.commitmentHash = node.hash) : TiedTo prims decryptor node note := by
  obtain ⟨npk, hash, nullifier, blinded, h₁, h₂, h₃, h₄, rfl⟩ := assemble_ok.mp h
  obtain rfl : hash = node.hash := hh
  exact ⟨rfl, h₂, ⟨master, hm, h₁⟩, h₃, rfl⟩

/-- The transact path ends by comparing the note with the leaf. -/
theorem openTransact_ties {node : Node} {bundle : List Bytes} {note : DecryptedNote}
    (h : decryptor.openTransact prims node.position node.hash bundle = .ok note) :
    TiedTo prims decryptor node note := by
  simp only [NoteDecryptor.openTransact, bind_eq_ok, pure_eq_ok, ensure_eq_ok] at h
  obtain ⟨⟨block₀, block₁, block₂, memo⟩, -, _, -, master, hm, -, -, _, -, _, -, _, -, note', ha, _,
    hh, rfl⟩ := h
  exact tiedTo_of_assemble hm ha hh

/-- The shield path ends by comparing the note's key with the public one. -/
theorem decryptShield_ok {position : NodePosition} {body : ShieldBody} {note : DecryptedNote} :
    decryptor.decryptShield prims position body = .ok note ↔
      ∃ ciphertext shared random value master,
        shieldCiphertext body.encryptedBundle = .ok ciphertext ∧
        deriveSharedKey prims decryptor.viewingKey body.shieldKey = .ok shared ∧
        decryptWithSharedKey prims ciphertext shared = .ok [random.1] ∧
        NoteValue.tryFromU256 body.value = .ok value ∧ decryptor.master prims = .ok master ∧
        decryptor.assemble prims master position body.token value random "" .shield = .ok note ∧
        note.notePublicKey = body.npk := by
  simp only [NoteDecryptor.decryptShield, bind_eq_ok]
  constructor
  · rintro ⟨ciphertext, h₁, shared, h₂, blocks, h₃, h⟩
    split at h
    · simp only [bind_eq_ok, copyExact_ok, mapError_eq_ok, ensure_eq_ok, pure_eq_ok] at h
      obtain ⟨random, rfl, value, h₄, master, h₅, _, h₆, _, hk, rfl⟩ := h
      exact ⟨ciphertext, shared, random, value, master, h₁, h₂, h₃, h₄, h₅, h₆, hk⟩
    · cases h
  · rintro ⟨ciphertext, shared, random, value, master, h₁, h₂, h₃, h₄, h₅, h₆, hk⟩
    refine ⟨ciphertext, h₁, shared, h₂, _, h₃, ?_⟩
    simp only [bind_eq_ok, copyExact_ok, mapError_eq_ok, ensure_eq_ok, pure_eq_ok]
    exact ⟨random, rfl, value, h₄, master, h₅, note, h₆, (), hk, rfl⟩

/-- A decrypted shield is the leaf's note exactly when the leaf is the hash of
the shield's public fields. -/
theorem decryptShield_ties_iff {node : Node} {body : ShieldBody} :
    (∀ note, decryptor.decryptShield prims node.position body = .ok note →
      TiedTo prims decryptor node note) ↔
    ((∃ random, OpensShield prims decryptor node.position body random) →
      HashesPublicFields prims node.hash body) := by
  constructor
  · rintro h ⟨random, ciphertext, shared, value, master, hash, nullifier, blinded, h₁, h₂, h₃, h₄,
      h₅, h₆, h₇, h₈, h₉⟩ value' hv
    obtain rfl : value = value' := Except.ok.inj (h₄.symm.trans hv)
    have hn : decryptor.assemble prims master node.position body.token value random "" .shield = .ok _ :=
      assemble_ok.mpr ⟨body.npk, hash, nullifier, blinded, h₆, h₇, h₈, h₉, rfl⟩
    exact (h _ (decryptShield_ok.mpr
      ⟨ciphertext, shared, random, value, master, h₁, h₂, h₃, h₄, h₅, hn, rfl⟩)).preimage
  · intro h note hn
    obtain ⟨ciphertext, shared, random, value, master, h₁, h₂, h₃, h₄, h₅, h₆, hk⟩ :=
      decryptShield_ok.mp hn
    obtain ⟨npk, hash, nullifier, blinded, a₁, a₂, a₃, a₄, rfl⟩ := assemble_ok.mp h₆
    obtain rfl : npk = body.npk := hk
    have hp := h ⟨random, ciphertext, shared, value, master, hash, nullifier, blinded, h₁, h₂, h₃,
      h₄, h₅, a₁, a₂, a₃, a₄⟩ value h₄
    exact tiedTo_of_assemble h₅ h₆ (Except.ok.inj (a₂.symm.trans hp))

/-- A decrypted note is the one its node's leaf commits to exactly for the
transacts, and for the shields that do not open for the wallet or whose leaf
is the hash of their public fields. -/
theorem decryptNode_ties_iff (prims : Primitives) (decryptor : NoteDecryptor) (node : Node) :
    (∀ note, decryptor.decryptNode prims node = .ok note → TiedTo prims decryptor node note) ↔
      ∀ body, node.body = .shield body →
        (∃ random, OpensShield prims decryptor node.position body random) →
          HashesPublicFields prims node.hash body := by
  cases hb : node.body with
  | transact body =>
    refine iff_of_true (fun note h => ?_) (fun _ h => nomatch h)
    simp only [NoteDecryptor.decryptNode, hb, NoteDecryptor.decryptTransact, bind_eq_ok] at h
    obtain ⟨_, -, _, -, h⟩ := h
    exact openTransact_ties h
  | shield body =>
    simp only [NoteDecryptor.decryptNode, hb, NodeBody.shield.injEq, forall_eq']
    exact decryptShield_ties_iff

/-- Primitives that hash everything to 0 and open everything. -/
def openPrimitives : Primitives :=
  { poseidon := fun _ => .ok 0, ecdh := fun _ point => some point, aead := fun _ _ m => some m }

/-- A wallet of zero keys. -/
def zeroDecryptor : NoteDecryptor := ⟨.replicate 32 0, ⟨0, 0⟩, 0⟩

/-- A shield of zero fields whose leaf is 1. -/
def strayShield : Node :=
  ⟨⟨0, 0, by decide⟩, 1, 0, .shield
    ⟨0, .erc20 (.replicate 20 0), 0, [.replicate 32 0, .replicate 32 0], .replicate 32 0⟩⟩

/-- Nothing compares a shield's note with its leaf: one whose public fields
hash to 0 and whose leaf is 1 is decrypted to a note of hash 0. -/
theorem decryptNode_unchecked :
    ¬ ∀ (prims : Primitives) (decryptor : NoteDecryptor) (node : Node) (note : DecryptedNote),
      decryptor.decryptNode prims node = .ok note → TiedTo prims decryptor node note := by
  intro h
  have hd : ∃ note, zeroDecryptor.decryptNode openPrimitives strayShield = .ok note := ⟨_, rfl⟩
  obtain ⟨note, hd⟩ := hd
  have hh := (h _ _ _ _ hd).preimage
  simp [noteHash, poseidonOf, openPrimitives, strayShield, Except.mapError] at hh

end Railgun
