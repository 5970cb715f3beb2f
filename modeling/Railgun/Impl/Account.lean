import Railgun.Impl.Address
import Railgun.Impl.BabyJubJub
import Railgun.Impl.Decoder
import Railgun.Impl.Derivation

/-!
# Accounts

The keys of an account, derived from a seed along its two paths, the address
they are given out as, and the key agreement of viewing keys on curve25519. The
curve, the hashes and the seed of a mnemonic are parameters.
-/

namespace Railgun

open BigEndian

/-! ## Viewing keys -/

/-- What the `curve25519_dalek`, `ed25519_dalek` and `sha2` crates do. A scalar
is the number it stands for. -/
structure EdwardsCrate (Point : Type) where
  decompress : ByteArr 32 → Option Point
  compress : Point → ByteArr 32
  /-- `point * scalar`. -/
  mul : Point → Nat → Point
  /-- `SigningKey::from_bytes(key).verifying_key().to_bytes()`. -/
  verifyingKey : ByteArr 32 → ByteArr 32
  sha256 : Bytes → ByteArr 32
  sha512 : Bytes → ByteArr 64

/-- The order of the group that the base point generates; scalars are modulo it. -/
def groupOrder : Nat := 2 ^ 252 + 27742317777372353535851937790883648493

/-- `Scalar::from_bytes_mod_order`. -/
def scalarFromBytes (bytes : Bytes) : Nat := Nat.ofDigits 256 (bytes.map BitVec.toNat) % groupOrder

namespace EdwardsCrate

variable {Point : Type} (crate : EdwardsCrate Point)

def publicKey (key : ViewingKey) : ViewingPublicKey := crate.verifyingKey key

def toCurve25519Scalar (key : ViewingKey) : Nat :=
  let head := (crate.sha512 key.1).1.take 32
  let head := head.modify 0 (· &&& 248)
  let head := head.modify 31 (· &&& 63)
  let head := head.modify 31 (· ||| 64)
  scalarFromBytes head

def sharedKey (key : ViewingKey) (theirPoint : Point) : SharedKey :=
  crate.sha256 (crate.compress (crate.mul theirPoint (crate.toCurve25519Scalar key))).1

/-- The shared key of a viewing key and a compressed point, if it is one. -/
def ecdh (key : ViewingKey) (theirs : ByteArr 32) : Option SharedKey :=
  (crate.decompress theirs).map (crate.sharedKey key)

/-- Note decryption with the vendored hash and this curve. -/
def primitives (tables : PoseidonTables) (aead : SharedKey → ByteArr 16 → Bytes → Option Bytes) : Primitives where
  poseidon := hashFieldInputs tables
  ecdh := crate.ecdh
  aead := aead

end EdwardsCrate

def nullifyingKey (tables : PoseidonTables) (key : ViewingKey) : Except CryptoError PoseidonHash :=
  (hashFieldInputs tables [fromBeBytes 256 key.1]).mapError .poseidon

/-! ## Derived keys -/

structure DerivedRailgunKeys where
  spendingKey : BabyJubJub.SpendingKey
  viewingKey : ViewingKey
  spendingPublicKey : BabyJubJubPoint
  nullifyingKey : PoseidonHash
  masterPublicKey : PoseidonHash

/-- `b"babyjubjub seed"`. -/
def curveSeed : Bytes := "babyjubjub seed".toUTF8.data.toList.map UInt8.toBitVec

namespace KeyNode

variable (hmacSha512 : Bytes → Bytes → ByteArr 64) (blake512 : Bytes → ByteArr 64)

def fromSeed (seed : Bytes) : KeyNode := fromDigest (hmacSha512 curveSeed seed)

def spendingKey (self : KeyNode) : BabyJubJub.SpendingKey := self.chainKey

def viewingKey (self : KeyNode) : ViewingKey := self.chainKey

/-- The keys of an account, from the seed of its mnemonic. -/
def deriveRailgunKeys (tables : PoseidonTables) (seed : ByteArr 64) (index : RailgunAccountIndex) :
    Except CryptoError DerivedRailgunKeys := do
  let master := fromSeed hmacSha512 seed.1
  let spendingNode := master.derivePath hmacSha512 index.spendingPath
  let viewingNode := master.derivePath hmacSha512 index.viewingPath
  let spendingKey := spendingNode.spendingKey
  let viewingKey := viewingNode.viewingKey
  let spendingPublicKey := BabyJubJub.publicKey blake512 spendingKey
  let nullifyingKey ← nullifyingKey tables viewingKey
  let masterPublicKey ←
    (hashFieldInputs tables [spendingPublicKey.x, spendingPublicKey.y, nullifyingKey]).mapError .poseidon
  return { spendingKey, viewingKey, spendingPublicKey, nullifyingKey, masterPublicKey }

end KeyNode

namespace DerivedRailgunKeys

variable (keys : DerivedRailgunKeys)

/-- The address to give out, with a chain as its hint. -/
def address {Point : Type} (crate : EdwardsCrate Point) (chain : ChainId) : RailgunAddress :=
  { masterKey := keys.masterPublicKey, viewingPubkey := crate.publicKey keys.viewingKey, chain }

end DerivedRailgunKeys

/-- A decryptor from a derived account. -/
def NoteDecryptor.fromKeys (keys : DerivedRailgunKeys) : NoteDecryptor where
  viewingKey := keys.viewingKey
  spendingPublicKey := keys.spendingPublicKey
  nullifyingKey := keys.nullifyingKey

def Decoder.fromKeys (keys : DerivedRailgunKeys) : Decoder := ⟨.fromKeys keys⟩

end Railgun
