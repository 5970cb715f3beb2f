import Railgun.Framework.ByteCodec
import Railgun.Impl.Types

/-!
# The codec of stored nodes

`position | hash | block | body_tag | body`: fixed-width big-endian words, raw
arrays, and blobs behind a 32-bit length. A length of `2 ^ 32` or more panics
in `blob_len`, so encoding yields nothing there. Allocation is not modelled.
-/

namespace Railgun

open ByteCodec BigEndian

inductive CodecError
  | unexpectedEof
  | trailingBytes
  | invalidCommitmentTag (tag : Byte)
  | invalidAssetTag (tag : Byte)
  | type (e : TypeError)
  deriving DecidableEq, Repr

def tagShield : Byte := 0
def tagTransact : Byte := 1
def tagErc20 : Byte := 0

/-! ## Encoding -/

/-- `u32::try_from(len).expect(..)`. -/
def blobLen (len : Nat) : Option U32 :=
  if len < 2 ^ 32 then some (BitVec.ofNat 32 len) else none

def putU32 (value : U32) : Option Bytes := some (beBytes 4 value)
def putU64 (value : U64) : Option Bytes := some (beBytes 8 value)
def putU256 (value : U256) : Option Bytes := some (beBytes 32 value)

/-- A raw array. -/
def putArray {n : Nat} (array : ByteArr n) : Option Bytes := some array.1

/-- A length, as `blob_len` passes it to `put_u32`. -/
def putLen (len : Nat) : Option Bytes := blobLen len >>= putU32

def putBlob (bytes : Bytes) : Option Bytes := cat (putLen bytes.length) (some bytes)

def putPosition (position : NodePosition) : Option Bytes :=
  cat (putU32 position.treeNumber) (putU32 position.leafIndex)

def putAsset : AssetId → Option Bytes
  | .erc20 address => cat (some [tagErc20]) (putArray address)

def putCiphertext (ciphertext : Ciphertext) : Option Bytes :=
  cat (putArray ciphertext.iv) <| cat (putArray ciphertext.tag) <|
  cat (putLen ciphertext.data.length) (putAll putBlob ciphertext.data)

def putBundle (bundle : List (ByteArr 32)) : Option Bytes :=
  cat (putLen bundle.length) (putAll putArray bundle)

def putShieldBody (body : ShieldBody) : Option Bytes :=
  cat (putU256 body.npk) <| cat (putAsset body.token) <| cat (putU256 body.value) <|
  cat (putBundle body.encryptedBundle) (putArray body.shieldKey)

def putTransactBody (body : TransactBody) : Option Bytes :=
  cat (putCiphertext body.ciphertext) <| cat (putBlob body.memo) <|
  cat (putArray body.blindedSenderKey) <| cat (putArray body.blindedReceiverKey)
  (putBlob body.annotation)

def putBody : NodeBody → Option Bytes
  | .shield body => cat (some [tagShield]) (putShieldBody body)
  | .transact body => cat (some [tagTransact]) (putTransactBody body)

/-- A node's record; nothing where `blob_len` panics. -/
def encodeNode (node : Node) : Option Bytes :=
  cat (putPosition node.position) <| cat (putU256 node.hash) <| cat (putU64 node.block)
  (putBody node.body)

/-! ## Decoding -/

abbrev CodecReader := Reader CodecError

def takeArray (n : Nat) : CodecReader (ByteArr n) := take .unexpectedEof n

def takeU8 : CodecReader Byte := do return fromBeBytes 8 (← takeArray 1).1
def takeU32 : CodecReader U32 := do return fromBeBytes 32 (← takeArray 4).1
def takeU64 : CodecReader U64 := do return fromBeBytes 64 (← takeArray 8).1
def takeU256 : CodecReader U256 := do return fromBeBytes 256 (← takeArray 32).1

def takeBlob : CodecReader Bytes := do
  let len ← takeU32
  return (← takeArray len.toNat).1

def takeBundle : CodecReader (List (ByteArr 32)) := do
  let count ← takeU32
  times (takeArray 32) count.toNat

def takePosition : CodecReader NodePosition := do
  let treeNumber ← takeU32
  let leafIndex ← takeU32
  match NodePosition.tryNew treeNumber leafIndex with
  | .ok position => return position
  | .error e => throw (.type e)

def takeAsset : CodecReader AssetId := do
  let tag ← takeU8
  if tag = tagErc20 then return .erc20 (← takeArray 20)
  else throw (.invalidAssetTag tag)

def takeCiphertext : CodecReader Ciphertext := do
  let iv ← takeArray 16
  let tag ← takeArray 16
  let blockCount ← takeU32
  let data ← times takeBlob blockCount.toNat
  return { iv, tag, data }

def takeShieldBody : CodecReader ShieldBody := do
  let npk ← takeU256
  let token ← takeAsset
  let value ← takeU256
  let encryptedBundle ← takeBundle
  let shieldKey ← takeArray 32
  return { npk, token, value, encryptedBundle, shieldKey }

def takeTransactBody : CodecReader TransactBody := do
  let ciphertext ← takeCiphertext
  let memo ← takeBlob
  let blindedSenderKey ← takeArray 32
  let blindedReceiverKey ← takeArray 32
  let annotation ← takeBlob
  return { ciphertext, memo, blindedSenderKey, blindedReceiverKey, annotation }

def takeBody : CodecReader NodeBody := do
  let tag ← takeU8
  if tag = tagShield then return .shield (← takeShieldBody)
  else if tag = tagTransact then return .transact (← takeTransactBody)
  else throw (.invalidCommitmentTag tag)

def takeNode : CodecReader Node := do
  let position ← takePosition
  let hash ← takeU256
  let block ← takeU64
  let body ← takeBody
  return { position, hash, block, body }

/-- A node from a whole record: `finish` rejects what follows it. -/
def decodeNode (bytes : Bytes) : Except CodecError Node := decode .trailingBytes takeNode bytes

/-- Only the leaf hash of a record; the body is not looked at. -/
def decodeHash (bytes : Bytes) : Except CodecError CommitmentHash :=
  (do let _ ← takePosition; takeU256 : CodecReader CommitmentHash).run' bytes

end Railgun
