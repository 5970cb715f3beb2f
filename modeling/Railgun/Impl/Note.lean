import Railgun.Framework.Outcome
import Railgun.Impl.Poseidon

/-!
# Note decryption

Opening a shield or a transact leaf with a wallet's viewing key, and the
Poseidon hashes its fields are committed under. Poseidon, the curve25519 key
agreement and AES-256-GCM are parameters (`Primitives`); the framing around
them is the source's. Sums of block lengths that overflow a `usize` cannot
occur for blocks held in memory and are left out.
-/

namespace Railgun

open BigEndian Outcome

/-- Errors of the `crypto` crate (those the modelled functions raise). -/
inductive CryptoError
  | poseidon (e : PoseidonError)
  | type (e : TypeError)
  | aes
  | pointDecompression
  | malformedCommitment
  | commitmentMismatch
  deriving DecidableEq, Repr

/-- What note decryption takes from elsewhere: the hash of a sequence of
inputs, the shared key of a viewing key and a compressed point (none if it is
not on the curve), and authenticated decryption under a key and a nonce (none
if the tag does not match). -/
structure Primitives where
  poseidon : List U256 → Except PoseidonError PoseidonHash
  ecdh : ViewingKey → ByteArr 32 → Option SharedKey
  aead : SharedKey → ByteArr 16 → Bytes → Option Bytes

structure BabyJubJubPoint where
  x : U256
  y : U256
  deriving DecidableEq

section
variable (prims : Primitives)

/-! ## Commitment hashes -/

def poseidonOf (inputs : List U256) : Except CryptoError PoseidonHash :=
  (prims.poseidon inputs).mapError .poseidon

def masterPublicKey (spend : BabyJubJubPoint) (nullifying : PoseidonHash) :
    Except CryptoError PoseidonHash :=
  poseidonOf prims [spend.x, spend.y, nullifying]

def notePublicKey (master : PoseidonHash) (random : ByteArr 16) : Except CryptoError U256 :=
  poseidonOf prims [master, fromBeBytes 256 random.1]

def noteHash (npk : U256) (asset : AssetId) (value : NoteValue) :
    Except CryptoError CommitmentHash :=
  poseidonOf prims [npk, asset.tokenHash, value.asU256]

def nullifierOf (nullifying : PoseidonHash) (leafIndex : U32) : Except CryptoError Nullifier := do
  let hash ← poseidonOf prims [nullifying, leafIndex.setWidth 256]
  return ⟨beBytes 32 hash, length_beBytes 32 hash⟩

def blindedCommitment (hash : CommitmentHash) (npk : U256) (treeNumber leafIndex : U32) :
    Except CryptoError U256 :=
  let position : U128 := treeNumber.setWidth 128 * 65536 + leafIndex.setWidth 128
  poseidonOf prims [hash, npk, position.setWidth 256]

/-! ## Ciphertexts -/

/-- The plaintext cut back into blocks of the ciphertext's lengths. -/
def splitBlocks : List Bytes → Bytes → Except CryptoError (List Bytes)
  | [], _ => .ok []
  | block :: blocks, decrypted =>
    if block.length ≤ decrypted.length then do
      let data ← splitBlocks blocks (decrypted.drop block.length)
      return decrypted.take block.length :: data
    else .error .malformedCommitment

/-- Opens a ciphertext: its blocks and the tag, joined, under the shared key. -/
def decryptWithSharedKey (ciphertext : Ciphertext) (key : SharedKey) :
    Except CryptoError (List Bytes) :=
  match prims.aead key ciphertext.iv (ciphertext.data.flatten ++ ciphertext.tag.1) with
  | some decrypted => splitBlocks ciphertext.data decrypted
  | none => .error .aes

/-- The note ciphertext: the data blocks and the memo as the last. -/
def withMemo (ciphertext : Ciphertext) (memo : Bytes) : Ciphertext :=
  { ciphertext with data := ciphertext.data ++ [memo] }

def copyExact (n : Nat) (bytes : Bytes) : Except CryptoError (ByteArr n) :=
  if h : bytes.length = n then .ok ⟨bytes, h⟩ else .error .malformedCommitment

/-- The shield ciphertext: nonce and tag in the first word of the bundle, one
block in the second. -/
def shieldCiphertext : List (ByteArr 32) → Except CryptoError Ciphertext
  | word₀ :: word₁ :: _ => do
    let iv ← copyExact 16 (word₀.1.take 16)
    let tag ← copyExact 16 (word₀.1.drop 16)
    return { iv, tag, data := [word₁.1.take 16] }
  | _ => .error .malformedCommitment

/-- ECDH against a raw viewing key. -/
def deriveSharedKey (key : ViewingKey) (theirPublic : ViewingPublicKey) :
    Except CryptoError SharedKey :=
  match prims.ecdh key theirPublic with
  | some shared => .ok shared
  | none => .error .pointDecompression

/-- ECDH against a blinded sender key. -/
def deriveSharedKeyBlinded (key : ViewingKey) (blinded : BlindedKey) :
    Except CryptoError SharedKey :=
  match prims.ecdh key blinded with
  | some shared => .ok shared
  | none => .error .pointDecompression

end

/-! ## Memo text -/

/-- A UTF-8 continuation byte. -/
def isContinuation (b : Byte) : Bool := 0x80 ≤ b && b ≤ 0xbf

/-- The second bytes that may follow a three- or four-byte lead. -/
def isSecond (lead b : Byte) : Bool :=
  if lead = 0xe0 then 0xa0 ≤ b && b ≤ 0xbf
  else if lead = 0xed then 0x80 ≤ b && b ≤ 0x9f
  else if lead = 0xf0 then 0x90 ≤ b && b ≤ 0xbf
  else if lead = 0xf4 then 0x80 ≤ b && b ≤ 0x8f
  else isContinuation b

/-- The character of a lead byte's payload bits and the bytes that follow it. -/
def utf8Char (bits : Nat) (rest : Bytes) : Char :=
  .ofNat (rest.foldl (fun acc b => acc * 64 + b.toNat % 64) bits)

/-- The first character of a byte string and the number of bytes it takes; an
ill-formed sequence is replaced, up to its longest well-formed beginning. -/
def utf8Step (lead : Byte) (rest : Bytes) : Char × Nat :=
  let replacement := Char.ofNat 0xfffd
  if lead < 0x80 then (.ofNat lead.toNat, 1)
  else if 0xc2 ≤ lead && lead ≤ 0xdf then
    match rest with
    | b :: _ => if isContinuation b then (utf8Char (lead.toNat % 32) [b], 2) else (replacement, 1)
    | _ => (replacement, 1)
  else if 0xe0 ≤ lead && lead ≤ 0xef then
    match rest with
    | b :: c :: _ =>
      if isSecond lead b then
        if isContinuation c then (utf8Char (lead.toNat % 16) [b, c], 3) else (replacement, 2)
      else (replacement, 1)
    | [b] => if isSecond lead b then (replacement, 2) else (replacement, 1)
    | [] => (replacement, 1)
  else if 0xf0 ≤ lead && lead ≤ 0xf4 then
    match rest with
    | b :: c :: d :: _ =>
      if isSecond lead b then
        if isContinuation c then
          if isContinuation d then (utf8Char (lead.toNat % 8) [b, c, d], 4) else (replacement, 3)
        else (replacement, 2)
      else (replacement, 1)
    | [b, c] =>
      if isSecond lead b then
        if isContinuation c then (replacement, 3) else (replacement, 2)
      else (replacement, 1)
    | [b] => if isSecond lead b then (replacement, 2) else (replacement, 1)
    | [] => (replacement, 1)
  else (replacement, 1)

def utf8Lossy : Nat → Bytes → List Char
  | fuel + 1, lead :: rest =>
    let (char, len) := utf8Step lead rest
    char :: utf8Lossy fuel ((lead :: rest).drop len)
  | _, _ => []

/-- `String::from_utf8_lossy`: every character takes a byte at least. -/
def fromUtf8Lossy (bytes : Bytes) : String := .ofList (utf8Lossy bytes.length bytes)

/-! ## The decryptor -/

/-- A wallet's keys. -/
structure NoteDecryptor where
  viewingKey : ViewingKey
  spendingPublicKey : BabyJubJubPoint
  nullifyingKey : PoseidonHash

namespace NoteDecryptor

variable (prims : Primitives) (decryptor : NoteDecryptor)

def master : Except CryptoError PoseidonHash :=
  masterPublicKey prims decryptor.spendingPublicKey decryptor.nullifyingKey

def assemble (master : PoseidonHash) (position : NodePosition) (asset : AssetId) (value : NoteValue)
    (random : ByteArr 16) (memo : String) (commitmentType : BlindedCommitmentType) :
    Except CryptoError DecryptedNote := do
  let notePublicKey ← notePublicKey prims master random
  let commitmentHash ← noteHash prims notePublicKey asset value
  let nullifier ← nullifierOf prims decryptor.nullifyingKey position.leafIndex
  let blindedCommitment ←
    blindedCommitment prims commitmentHash notePublicKey position.treeNumber position.leafIndex
  return { position, value, asset, random, memo, commitmentHash, notePublicKey, nullifier,
           blindedCommitment, commitmentType }

/-- The blocks of an opened transact, `[master, token_hash, random | value, memo?]`. -/
def splitBundle : List Bytes → Except CryptoError (Bytes × Bytes × Bytes × Option Bytes)
  | [block₀, block₁, block₂] => .ok (block₀, block₁, block₂, none)
  | [block₀, block₁, block₂, memo] => .ok (block₀, block₁, block₂, some memo)
  | _ => .error .malformedCommitment

/-- The note in an opened transact. -/
def openTransact (position : NodePosition) (hash : CommitmentHash) (bundle : List Bytes) :
    Except CryptoError DecryptedNote := do
  let (block₀, block₁, block₂, memo) ← splitBundle bundle
  let decryptedMaster := fromBeBytes 256 (← copyExact 32 block₀).1
  let master ← decryptor.master prims
  ensure (decryptedMaster = master) .commitmentMismatch
  let tokenHash ← copyExact 32 block₁
  let asset ← (AssetId.fromTokenHash tokenHash.1).mapError .type
  let randomValue ← copyExact 32 block₂
  let random : ByteArr 16 := ⟨randomValue.1.take 16, by rw [List.length_take, randomValue.2]; rfl⟩
  let value : NoteValue := fromBeBytes 128 ((randomValue.1.drop 16).take 16)
  let note ← decryptor.assemble prims master position asset value random
    ((memo.map fromUtf8Lossy).getD "") .transact
  ensure (note.commitmentHash = hash) .commitmentMismatch
  return note

def decryptTransact (position : NodePosition) (hash : CommitmentHash) (body : TransactBody) :
    Except CryptoError DecryptedNote := do
  let shared ← deriveSharedKeyBlinded prims decryptor.viewingKey body.blindedSenderKey
  let bundle ← decryptWithSharedKey prims (withMemo body.ciphertext body.memo) shared
  decryptor.openTransact prims position hash bundle

def decryptShield (position : NodePosition) (body : ShieldBody) :
    Except CryptoError DecryptedNote := do
  let ciphertext ← shieldCiphertext body.encryptedBundle
  let shared ← deriveSharedKey prims decryptor.viewingKey body.shieldKey
  match ← decryptWithSharedKey prims ciphertext shared with
  | [block] =>
    let random ← copyExact 16 block
    let value ← (NoteValue.tryFromU256 body.value).mapError .type
    let master ← decryptor.master prims
    let note ← decryptor.assemble prims master position body.token value random "" .shield
    ensure (note.notePublicKey = body.npk) .commitmentMismatch
    return note
  | _ => throw .malformedCommitment

/-- `decrypt_node`: `node.decrypt_with(decryptor)`. -/
def decryptNode (node : Node) : Except CryptoError DecryptedNote :=
  match node.body with
  | .transact body => decryptor.decryptTransact prims node.position node.hash body
  | .shield body => decryptor.decryptShield prims node.position body

end NoteDecryptor

end Railgun
