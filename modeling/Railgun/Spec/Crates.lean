import Railgun.Framework.Blake
import Railgun.Framework.Ed25519
import Railgun.Framework.Gcm
import Railgun.Spec.Account

/-!
# The crates

The parameters of accounts and notes as the crates define them: `dalek` is
Ed25519 with SHA-2, compressed points in little-endian bytes; the hashes are
HMAC over SHA-512 and BLAKE-512; and messages are sealed and opened with
AES-256-GCM under nonces of sixteen bytes.
-/

namespace Railgun

open BigEndian

noncomputable def dalek : EdwardsCrate (Edwards.Point Ed25519.curve) where
  decompress bytes := Ed25519.decompress (fromBeBytes 256 bytes.1.reverse)
  compress point := ⟨(beBytes 32 (Ed25519.compress point)).reverse, by simp⟩
  mul point scalar := scalar • point
  verifyingKey key :=
    let scalar := prunedScalar ⟨Sha2.hash Sha2.sha512 key.1, Sha2.length_hash ..⟩
    ⟨(beBytes 32 (Ed25519.compress (scalar • Ed25519.base))).reverse, by simp⟩
  sha256 bytes := ⟨Sha2.hash Sha2.sha256 bytes, Sha2.length_hash ..⟩
  sha512 bytes := ⟨Sha2.hash Sha2.sha512 bytes, Sha2.length_hash ..⟩

def hmacSha512 (key message : Bytes) : ByteArr 64 :=
  ⟨Sha2.hmac Sha2.sha512 key message, Sha2.length_hash ..⟩

/-- The node of a seed. -/
example :
    let seed : BitVec 512 := 0x5eb00bbddcf069084889a8ab9155568165f5c453ccb85e70811aaed6f6da5fc1#256 ++
      0x9a5ac40b389cd370d086206dec8aa6c43daea6690f20ad3d8d48b2d2ce9e38e4#256
    let node := KeyNode.fromSeed hmacSha512 (beBytes 64 seed)
    fromBeBytes 256 node.chainCode.1 = 0x30d550bc2f61a7c206a1eba3704502da77f366fe69721265b3b7e2c7f05eeabc ∧
      fromBeBytes 256 node.chainKey.1 = 0x1fafc64161d1807e294cc9fded180ca2009aaaedf4cbd7359d4aaa3bb462f411 := by
  decide +kernel

def blake512 (message : Bytes) : ByteArr 64 := ⟨Blake.blake512 message, Blake.length_blake512 message⟩

def aesGcmSeal (key : SharedKey) (iv : ByteArr 16) (message : Bytes) : Bytes × ByteArr 16 :=
  let sealed := Gcm.encrypt (Gcm.aes256 key.1) (fromBeBytes 128 iv.1) message
  (sealed.1, ⟨beBytes 16 sealed.2, length_beBytes 16 _⟩)

def aesGcmOpen (key : SharedKey) (iv : ByteArr 16) (sealed : Bytes) : Option Bytes :=
  Gcm.decrypt (Gcm.aes256 key.1) (fromBeBytes 128 iv.1) sealed

end Railgun
