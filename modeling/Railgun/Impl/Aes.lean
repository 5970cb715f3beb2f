import Railgun.Impl.Note

/-!
# Ciphertext framing

`decrypt_gcm`, loop by loop: the blocks are measured, joined with the tag and
opened, and the plaintext is cut at running offsets. Lengths are checked
against the largest `usize`, which is a parameter, as is the cipher.
-/

namespace Railgun

section
variable (usizeMax : Nat)

/-- `checked_add` on lengths; a sum that does not fit is a malformed commitment. -/
def addLen (a b : Nat) : Except CryptoError Nat :=
  if a + b ≤ usizeMax then .ok (a + b) else .error .malformedCommitment

/-- `decrypted.get(offset..stop)`. -/
def getRange (decrypted : Bytes) (offset stop : Nat) : Option Bytes :=
  if offset ≤ stop ∧ stop ≤ decrypted.length then some ((decrypted.drop offset).take (stop - offset))
  else none

/-- The blocks cut so far, and where the next one starts. -/
structure Cut where
  data : List Bytes
  offset : Nat

/-- The second loop's turn: as many bytes as the block has. -/
def cutBlock (decrypted : Bytes) (cut : Cut) (block : Bytes) : Except CryptoError Cut := do
  let stop ← addLen usizeMax cut.offset block.length
  match getRange decrypted cut.offset stop with
  | some chunk => return { data := cut.data ++ [chunk], offset := stop }
  | none => throw .malformedCommitment

variable (prims : Primitives)

def decryptGcm (ciphertext : Ciphertext) (key : SharedKey) : Except CryptoError (List Bytes) := do
  let dataLen ← ciphertext.data.foldlM (fun dataLen block => addLen usizeMax dataLen block.length) 0
  let _combinedLen ← addLen usizeMax dataLen ciphertext.tag.1.length
  let combined := ciphertext.data.foldl (· ++ ·) [] ++ ciphertext.tag.1
  match prims.aead key ciphertext.iv combined with
  | none => throw .aes
  | some decrypted =>
    let cut ← ciphertext.data.foldlM (cutBlock usizeMax decrypted) { data := [], offset := 0 }
    return cut.data

end

end Railgun
