import Railgun.Framework.Bech32
import Railgun.Framework.Outcome
import Railgun.Impl.Types

/-!
# The `0zk` address

The payload of 73 bytes, a version, the master public key, the network id under
its mask and the viewing public key, and the string it is carried in. The
`bech32` crate is a parameter: either checksum is accepted and left-over bits
are dropped on the way in; bech32m and zero padding are written on the way out.
-/

namespace Railgun

open BigEndian Outcome

/-- The `bech32` crate, as far as addresses use it, with what it documents. -/
structure Bech32Crate (ε : Type) where
  decode : String → Except ε (Bech32.Hrp × Bytes)
  encodeBech32m : Bech32.Hrp → Bytes → Option String
  decode_eq_ok : ∀ {s hrp payload}, decode s = .ok (hrp, payload) ↔
    ∃ variant xs, Bech32.Spells s.toList variant hrp xs ∧ payload = Regroup.pack 8 xs
  encode_eq : ∀ hrp payload, encodeBech32m hrp payload =
    let chars := Bech32.text .bech32m hrp.lower (Regroup.pad 5 payload)
    if chars.length ≤ Bech32.codeLength then some (.ofList chars) else none

/-- Address format version. -/
def version : Byte := 1

/-- `PREFIX`, the human-readable part `0zk`. -/
def addressHrp : Bech32.Hrp := ⟨['0', 'z', 'k'], by decide⟩

/-- `b"railgun\0"`. -/
def networkIdXorKey : Bytes := [0x72, 0x61, 0x69, 0x6c, 0x67, 0x75, 0x6e, 0x00]

def allChainsNetworkId : ByteArr 8 := .replicate 8 0xff

def chainTypeEvm : Byte := 0x00

/-- Errors of parsing an address; `ε` is the decoder's. -/
inductive RailgunAddressError (ε : Type)
  | bech32Decode (e : ε)
  | invalidPrefix (hrp : String)
  | badLength (len : Nat)
  | invalidVersion (version : Byte)
  | unknownChainType (type : Byte)

/-! ## Chain hints -/

inductive ChainId
  | all
  | evm (id : U64)
  deriving DecidableEq

/-- The network id, before the mask: `chain_type(1) | chain_id(7, BE)`. -/
def ChainId.toNetworkId : ChainId → ByteArr 8
  | .all => allChainsNetworkId
  | .evm id => ⟨beBytes 8 (id &&& 0x00ffffffffffffff), length_beBytes 8 _⟩

def ChainId.fromNetworkId {ε : Type} (bytes : ByteArr 8) : Except (RailgunAddressError ε) ChainId :=
  if bytes = allChainsNetworkId then .ok .all
  else
    let value : U64 := fromBeBytes 64 bytes.1
    let chainType : Byte := (value >>> 56).setWidth 8
    let id := value &&& 0x00ffffffffffffff
    if chainType = chainTypeEvm then .ok (.evm id) else .error (.unknownChainType chainType)

/-- The network id under the mask, or freed from it. -/
def xorNetworkId (bytes : ByteArr 8) : ByteArr 8 :=
  ⟨bytes.1.zipWith (· ^^^ ·) networkIdXorKey, by rw [List.length_zipWith, bytes.2]; rfl⟩

/-! ## Addresses -/

structure RailgunAddress where
  masterKey : PoseidonHash
  viewingPubkey : ViewingPublicKey
  chain : ChainId
  deriving DecidableEq

namespace RailgunAddress

def payload (address : RailgunAddress) : Bytes :=
  version :: (beBytes 32 address.masterKey ++ (xorNetworkId address.chain.toNetworkId).1 ++
    address.viewingPubkey.1)

variable {ε : Type} (bech32 : Bech32Crate ε)

/-- `to_string`, and the conversion to a string that serialization uses; nothing
where the `expect` fails. -/
def toString (address : RailgunAddress) : Option String :=
  bech32.encodeBech32m addressHrp address.payload

/-- The address in a decoded payload. -/
def fromPayload (payload : Bytes) : Except (RailgunAddressError ε) RailgunAddress :=
  if h : payload.length = 73 then do
    let formatVersion := payload.headD 0
    ensure (formatVersion = version) (.invalidVersion formatVersion)
    let masterKey := fromBeBytes 256 ((payload.drop 1).take 32)
    let networkId := xorNetworkId ⟨(payload.drop 33).take 8, by simp [h]⟩
    let chain ← ChainId.fromNetworkId networkId
    let viewingPubkey := ⟨(payload.drop 41).take 32, by simp [h]⟩
    return { masterKey, viewingPubkey, chain }
  else .error (.badLength payload.length)

/-- `from_str`, and the conversion from a string that deserialization uses. -/
def fromStr (s : String) : Except (RailgunAddressError ε) RailgunAddress := do
  let (hrp, payload) ← (bech32.decode s).mapError .bech32Decode
  ensure (hrp.lower = addressHrp.lower) (.invalidPrefix (.ofList hrp.1))
  fromPayload payload

end RailgunAddress

end Railgun
