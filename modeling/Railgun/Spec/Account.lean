import Mathlib.Algebra.Group.Basic
import Railgun.Impl.Account

/-!
# Payments to an address

What the curve's crates document: the points are a group, the encoding is read
back, and a verifying key is the base point times the pruned half of the key's
SHA-512. What it takes for two derivations to come to one key. And what a sender
makes of an address: the keys agreed on with it, or with it blinded, and the note
sealed under them in the layout of a shield or of a transact.
-/

namespace Railgun

open BigEndian

/-! ## The curve -/

/-- The secret scalar of an Ed25519 key, from the SHA-512 of the key: the first
half, with the lowest three bits and the highest cleared and the one below set. -/
def prunedScalar (digest : ByteArr 64) : Nat :=
  let head := digest.1.take 32
  let head := head.modify 0 (· &&& 0xf8)
  let head := head.modify 31 fun b => b &&& 0x7f ||| 0x40
  Nat.ofDigits 256 (head.map BitVec.toNat)

/-- What the crates document of the curve, in which `base` is the base point. -/
structure EdwardsCrate.Documented {Point : Type} [AddCommGroup Point] (crate : EdwardsCrate Point)
    (base : Point) : Prop where
  mul_eq : ∀ point scalar, crate.mul point scalar = scalar • point
  decompress_compress : ∀ point, crate.decompress (crate.compress point) = some point
  order_base : groupOrder • base = 0
  verifyingKey_eq : ∀ key, crate.verifyingKey key = crate.compress (prunedScalar (crate.sha512 key.1) • base)

/-- A public key times a blinding factor. -/
def EdwardsCrate.Blinds {Point : Type} (crate : EdwardsCrate Point) (factor : Nat) (key : ViewingPublicKey)
    (blinded : BlindedKey) : Prop :=
  ∃ point, crate.decompress key = some point ∧ blinded = crate.compress (crate.mul point factor)

/-! ## Payments -/

section
variable {Point : Type} (crate : EdwardsCrate Point) (prims : Primitives)
  (sealed : SharedKey → ByteArr 16 → Bytes → Bytes × ByteArr 16) (address : RailgunAddress) (sender : ViewingKey)
  (asset : AssetId) (value : NoteValue) (random : ByteArr 16)

/-- A shield made out to an address. -/
structure PaysShield (body : ShieldBody) : Prop where
  token : body.token = asset
  value : body.value.toNat = value.toNat
  npk : notePublicKey prims address.masterKey random = .ok body.npk
  shieldKey : body.shieldKey = crate.publicKey sender
  bundle : ∃ shared iv, ∃ word₀ word₁ : ByteArr 32, ∃ rest,
    deriveSharedKey prims sender address.viewingPubkey = .ok shared ∧
    body.encryptedBundle = word₀ :: word₁ :: rest ∧
    word₀.1 = iv.1 ++ (sealed shared iv random.1).2.1 ∧ word₁.1.take 16 = (sealed shared iv random.1).1

/-- A transact made out to an address, with a memo; its leaf is `hash`. -/
structure PaysTransact (memo : Bytes) (hash : CommitmentHash) (body : TransactBody) : Prop where
  hash : ∃ npk, notePublicKey prims address.masterKey random = .ok npk ∧ noteHash prims npk asset value = .ok hash
  words : ∃ w₀ w₁ w₂ : ByteArr 32, body.ciphertext.data = [w₀.1, w₁.1, w₂.1]
  keys : ∃ factor shared, crate.Blinds factor (crate.publicKey sender) body.blindedSenderKey ∧
    crate.Blinds factor address.viewingPubkey body.blindedReceiverKey ∧
    deriveSharedKeyBlinded prims sender body.blindedReceiverKey = .ok shared ∧
    (body.ciphertext.data.flatten ++ body.memo, body.ciphertext.tag) = sealed shared body.ciphertext.iv
      (beBytes 32 address.masterKey ++ beBytes 32 asset.tokenHash ++ (random.1 ++ beBytes 16 value) ++ memo)

end

/-- A note of what was paid. -/
structure DecryptedNote.Of (note : DecryptedNote) (position : NodePosition) (asset : AssetId) (value : NoteValue)
    (random : ByteArr 16) (memo : String) : Prop where
  position : note.position = position
  asset : note.asset = asset
  value : note.value = value
  random : note.random = random
  memo : note.memo = memo

end Railgun
