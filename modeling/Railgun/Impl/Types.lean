import Railgun.Framework.BigEndian

/-!
# Domain types

The shared vocabulary of the `types` crate, as far as the store, the Merkle
walk, note decryption and the syncer use it. Fixed-width integers are bit
vectors and wrap, as in a release build; fixed-size arrays carry their length.
The newtypes over a word or an array (`CommitmentHash`, `BlockNumber`, the
keys) are the word or the array.
-/

namespace Railgun

abbrev U32 := BitVec 32
abbrev U64 := BitVec 64
abbrev U128 := BitVec 128
abbrev U256 := BitVec 256

instance : Std.TransOrd U32 := inferInstance

/-- An array `[u8; n]`. -/
abbrev ByteArr (n : Nat) := { bs : Bytes // bs.length = n }

/-- The array of `n` times the byte `b`. -/
def ByteArr.replicate (n : Nat) (b : Byte) : ByteArr n := ⟨List.replicate n b, List.length_replicate⟩

abbrev B256 := ByteArr 32
abbrev EvmAddress := ByteArr 20
abbrev CommitmentHash := U256
abbrev PoseidonHash := U256
abbrev Nullifier := B256
abbrev BlockNumber := U64
abbrev ViewingKey := ByteArr 32
abbrev SharedKey := ByteArr 32
abbrev ViewingPublicKey := ByteArr 32
abbrev BlindedKey := ByteArr 32

/-- Errors of the `types` crate (those the modelled functions raise). -/
inductive TypeError
  | invalidLength (expected actual : Nat)
  | invalidTokenHash
  | invalidNodePosition (leafIndex : U32)
  | valueOverflow
  deriving DecidableEq, Repr

/-! ## Positions -/

def treeLeafCapacity : U32 := 65536

theorem zero_lt_capacity : 0 < treeLeafCapacity := by decide

/-- Where a commitment sits in the forest. -/
structure NodePosition where
  treeNumber : U32
  leafIndex : U32
  inTree : leafIndex < treeLeafCapacity
  deriving DecidableEq

def NodePosition.tryNew (treeNumber leafIndex : U32) : Except TypeError NodePosition :=
  if h : treeLeafCapacity ≤ leafIndex then .error (.invalidNodePosition leafIndex)
  else .ok ⟨treeNumber, leafIndex, BitVec.not_le.mp h⟩

/-- A position as an indexer reports it, with what is past the end of a tree
carried into the next ones; nothing where the tree number's `expect` fails. -/
def NodePosition.normalized (treeNumber leafIndex : U32) : Option NodePosition :=
  let global := treeNumber.toNat * 65536 + leafIndex.toNat
  if global / 65536 < 2 ^ 32 then
    some ⟨BitVec.ofNat 32 (global / 65536), BitVec.ofNat 32 (global % 65536), by
      rw [BitVec.lt_def, BitVec.toNat_ofNat]
      exact Nat.lt_of_le_of_lt (Nat.mod_le _ _) (Nat.mod_lt _ (by decide))⟩
  else none

theorem NodePosition.ext {p q : NodePosition} (ht : p.treeNumber = q.treeNumber)
    (hl : p.leafIndex = q.leafIndex) : p = q := by
  cases p; cases q; cases ht; cases hl; rfl

theorem NodePosition.leaf_lt (p : NodePosition) : p.leafIndex.toNat < 65536 := p.inTree

theorem NodePosition.toNat_leafIndex_succ (p : NodePosition) :
    (p.leafIndex + 1).toNat = p.leafIndex.toNat + 1 := by
  have := p.leaf_lt
  rw [BitVec.toNat_add]
  exact Nat.mod_eq_of_lt (show p.leafIndex.toNat + 1 < 2 ^ 32 by omega)

/-! ## Amounts and tokens -/

/-- A note amount. -/
abbrev NoteValue := U128

/-- The amount a 256-bit word holds, if its high half is zero. -/
def NoteValue.tryFromU256 (value : U256) : Except TypeError NoteValue :=
  let bytes := BigEndian.beBytes 32 value
  if (bytes.take 16).any (· ≠ 0) then .error .valueOverflow
  else .ok (BigEndian.fromBeBytes 128 (bytes.drop 16))

def NoteValue.asU256 (value : NoteValue) : U256 := value.setWidth 256

/-- A token identity; ERC-20 only. -/
inductive AssetId
  | erc20 (address : EvmAddress)
  deriving DecidableEq

/-- The address, right-aligned in a field element. -/
def AssetId.tokenHash : AssetId → U256
  | .erc20 address => BigEndian.fromBeBytes 256 (List.replicate 12 0 ++ address.1)

def AssetId.fromTokenHash (hash : Bytes) : Except TypeError AssetId :=
  if h : hash.length = 32 then
    if (hash.take 12).any (· ≠ 0) then .error .invalidTokenHash
    else .ok (.erc20 ⟨hash.drop 12, by rw [List.length_drop, h]⟩)
  else .error (.invalidLength 32 hash.length)

/-! ## Commitments -/

/-- A ciphertext as a commitment event carries it. -/
structure Ciphertext where
  iv : ByteArr 16
  tag : ByteArr 16
  data : List Bytes
  deriving DecidableEq

inductive BlindedCommitmentType
  | shield
  | transact
  deriving DecidableEq

/-- A shield commitment's payload. -/
structure ShieldBody where
  npk : U256
  token : AssetId
  value : U256
  encryptedBundle : List (ByteArr 32)
  shieldKey : ViewingPublicKey
  deriving DecidableEq

/-- A transact commitment's payload. -/
structure TransactBody where
  ciphertext : Ciphertext
  memo : Bytes
  blindedSenderKey : BlindedKey
  blindedReceiverKey : BlindedKey
  annotation : Bytes
  deriving DecidableEq

inductive NodeBody
  | shield (body : ShieldBody)
  | transact (body : TransactBody)
  deriving DecidableEq

/-- A leaf of the forest: its place, its Merkle leaf value, its block and its payload. -/
structure Node where
  position : NodePosition
  hash : CommitmentHash
  block : BlockNumber
  body : NodeBody
  deriving DecidableEq

/-- A nullifier event: a commitment of the tree is spent. -/
structure Nullified where
  treeNumber : U32
  nullifier : Nullifier
  deriving DecidableEq

/-- A note decrypted from a commitment. -/
structure DecryptedNote where
  position : NodePosition
  value : NoteValue
  asset : AssetId
  random : ByteArr 16
  memo : String
  commitmentHash : CommitmentHash
  notePublicKey : U256
  nullifier : Nullifier
  blindedCommitment : U256
  commitmentType : BlindedCommitmentType
  deriving DecidableEq

/-- Adds to a block number, stopping at the largest one. -/
def BlockNumber.saturatingAdd (a b : BlockNumber) : BlockNumber :=
  if a.toNat + b.toNat < 2 ^ 64 then a + b else BitVec.allOnes 64

end Railgun
