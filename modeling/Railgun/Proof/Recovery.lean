import Railgun.Impl.PoseidonT3
import Railgun.Proof.Aes
import Railgun.Proof.Note

/-!
# Notes addressed to the wallet

What was sealed for a wallet in the layout of a transact or of a shield is
opened by it, cut back into the fields it was made of, and returned as a note
(`decryptNode_recovers`): the encryption side is in no crate, so the layout is
stated here.
-/

namespace Railgun

open BigEndian Outcome

/-! ## Fields -/

theorem toBE_add : ∀ m n x : Nat, toBE (m + n) x = toBE m (x / 256 ^ n) ++ toBE n x
  | 0, n, x => by rw [Nat.zero_add]; rfl
  | m + 1, n, x => by
    rw [Nat.succ_add, toBE, toBE, toBE_add m n x, Nat.div_div_eq_div_mul, ← Nat.pow_add, Nat.add_comm n m]
    rfl

theorem toBE_zero : ∀ n, toBE n 0 = List.replicate n 0
  | 0 => rfl
  | n + 1 => by rw [toBE, Nat.zero_div, toBE_zero n]; rfl

/-- A token hash is read back as its token. -/
theorem fromTokenHash_tokenHash (asset : AssetId) :
    AssetId.fromTokenHash (beBytes 32 asset.tokenHash) = .ok asset := by
  obtain ⟨address⟩ := asset
  have hlen : (List.replicate 12 (0 : Byte) ++ address.1).length = 32 := by
    rw [List.length_append, List.length_replicate, address.2]
  rw [AssetId.tokenHash, beBytes_fromBeBytes (by decide) hlen, AssetId.fromTokenHash, dif_pos hlen,
    if_neg (by rw [List.take_left' List.length_replicate]; decide)]
  exact congrArg (fun a => Except.ok (AssetId.erc20 a)) (Subtype.ext (List.drop_left' List.length_replicate))

/-- A word below `2 ^ 128` is an amount. -/
theorem tryFromU256_asU256 (value : NoteValue) : NoteValue.tryFromU256 value.asU256 = .ok value := by
  have hlt := value.isLt
  have hword : value.asU256.toNat = value.toNat := by
    rw [NoteValue.asU256, BitVec.toNat_setWidth, Nat.mod_eq_of_lt (by omega)]
  have hbytes : beBytes 32 value.asU256 = List.replicate 16 0 ++ beBytes 16 value := by
    rw [beBytes, hword, show 32 = 16 + 16 from rfl, toBE_add,
      Nat.div_eq_of_lt (show value.toNat < 256 ^ 16 from hlt), toBE_zero]
    rfl
  rw [NoteValue.tryFromU256, hbytes]
  simp only [List.take_left' (List.length_replicate (n := 16) (a := (0 : Byte))),
    List.drop_left' (List.length_replicate (n := 16) (a := (0 : Byte)))]
  rw [if_neg (by decide), fromBeBytes_beBytes (by decide)]

/-! ## Sealing -/

/-- An ideal cipher: what is sealed under a key and a nonce is as long as the
message, and is opened under them to the message. -/
structure Seals (prims : Primitives) (sealed : SharedKey → ByteArr 16 → Bytes → Bytes × ByteArr 16) :
    Prop where
  length : ∀ key iv message, (sealed key iv message).1.length = message.length
  opens : ∀ key iv message,
    prims.aead key iv ((sealed key iv message).1 ++ (sealed key iv message).2.1) = some message

section
variable {tables : PoseidonTables} {prims : Primitives} {decryptor : NoteDecryptor}
  {sealed : SharedKey → ByteArr 16 → Bytes → Bytes × ByteArr 16}

theorem poseidonOf_ok (hposeidon : prims.poseidon = hashFieldInputs tables) (inputs : List U256)
    (hne : inputs ≠ []) (hle : inputs.length ≤ 13) : ∃ hash, poseidonOf prims inputs = .ok hash := by
  obtain ⟨hash, h⟩ := hashFieldInputs_ok tables hne hle
  exact ⟨hash, by rw [poseidonOf, hposeidon, h]; rfl⟩

/-- What was sealed in pieces is opened in those pieces. -/
theorem decryptWithSharedKey_sealed (hseals : Seals prims sealed) {key : SharedKey}
    {ciphertext : Ciphertext} {pieces : List Bytes}
    (hdata : ciphertext.data.flatten = (sealed key ciphertext.iv pieces.flatten).1)
    (htag : ciphertext.tag = (sealed key ciphertext.iv pieces.flatten).2)
    (hlen : ciphertext.data.map List.length = pieces.map List.length) :
    decryptWithSharedKey prims ciphertext key = .ok pieces := by
  rw [decryptWithSharedKey, hdata, htag, hseals.opens]
  exact splitBlocks_flatten hlen

/-- A wallet's note can always be assembled. -/
theorem assemble_total (decryptor : NoteDecryptor) (hposeidon : prims.poseidon = hashFieldInputs tables)
    {master : PoseidonHash} {npk : U256} {hash : CommitmentHash} {asset : AssetId} {value : NoteValue}
    {random : ByteArr 16} (hnpk : notePublicKey prims master random = .ok npk)
    (hhash : noteHash prims npk asset value = .ok hash)
    (position : NodePosition) (memo : String) (kind : BlindedCommitmentType) :
    ∃ nullifier blinded, decryptor.assemble prims master position asset value random memo kind =
      .ok ⟨position, value, asset, random, memo, hash, npk, nullifier, blinded, kind⟩ := by
  obtain ⟨nullifier, hnullifier⟩ : ∃ nullifier,
      nullifierOf prims decryptor.nullifyingKey position.leafIndex = .ok nullifier := by
    obtain ⟨hash, h⟩ := poseidonOf_ok hposeidon
      [decryptor.nullifyingKey, position.leafIndex.setWidth 256] (by simp) (by simp)
    exact ⟨_, by rw [nullifierOf, h]; rfl⟩
  obtain ⟨blinded, hblinded⟩ : ∃ blinded,
      blindedCommitment prims hash npk position.treeNumber position.leafIndex = .ok blinded :=
    poseidonOf_ok hposeidon _ (by simp) (by simp)
  exact ⟨nullifier, blinded, assemble_ok.mpr
    ⟨npk, hash, nullifier, blinded, hnpk, hhash, hnullifier, hblinded, rfl⟩⟩

/-! ## The two layouts -/

/-- The plaintext of a transact, in its pieces. -/
def transactPieces (master : PoseidonHash) (asset : AssetId) (value : NoteValue) (random : ByteArr 16)
    (memo : Bytes) : List Bytes :=
  [beBytes 32 master, beBytes 32 asset.tokenHash, random.1 ++ beBytes 16 value, memo]

/-- A transact of three words and a memo that were sealed together, under the
key of the wallet and the blinded sender key. -/
structure AddressedTransact (prims : Primitives)
    (sealed : SharedKey → ByteArr 16 → Bytes → Bytes × ByteArr 16) (decryptor : NoteDecryptor)
    (body : TransactBody) (plaintext : Bytes) : Prop where
  words : ∃ w₀ w₁ w₂ : ByteArr 32, body.ciphertext.data = [w₀.1, w₁.1, w₂.1]
  key : ∃ shared, prims.ecdh decryptor.viewingKey body.blindedSenderKey = some shared ∧
    body.ciphertext.data.flatten ++ body.memo = (sealed shared body.ciphertext.iv plaintext).1 ∧
    body.ciphertext.tag = (sealed shared body.ciphertext.iv plaintext).2

/-- A shield whose bundle holds a nonce and a tag in its first word and the
sealed bytes at the head of its second, under the key of the wallet and the
shield key. -/
structure AddressedShield (prims : Primitives)
    (sealed : SharedKey → ByteArr 16 → Bytes → Bytes × ByteArr 16) (decryptor : NoteDecryptor)
    (body : ShieldBody) (plaintext : Bytes) : Prop where
  bundle : ∃ shared iv, ∃ word₀ word₁ : ByteArr 32, ∃ rest,
    prims.ecdh decryptor.viewingKey body.shieldKey = some shared ∧
    body.encryptedBundle = word₀ :: word₁ :: rest ∧
    word₀.1 = iv.1 ++ (sealed shared iv plaintext).2.1 ∧
    word₁.1.take 16 = (sealed shared iv plaintext).1

theorem openTransact_pieces {master : PoseidonHash} {asset : AssetId} {value : NoteValue}
    {random : ByteArr 16} {memo : Bytes} {note : DecryptedNote} {position : NodePosition}
    (hmaster : decryptor.master prims = .ok master)
    (hnote : decryptor.assemble prims master position asset value random (fromUtf8Lossy memo) .transact =
      .ok note) :
    decryptor.openTransact prims position note.commitmentHash
      (transactPieces master asset value random memo) = .ok note := by
  have hlen : (random.1 ++ beBytes 16 value).length = 32 := by
    rw [List.length_append, random.2, length_beBytes]
  have hmem : fromBeBytes 256 (beBytes 32 master) = master := fromBeBytes_beBytes (by decide) master
  have hrandom : (random.1 ++ beBytes 16 value).take 16 = random.1 := List.take_left' random.2
  have hvalue : fromBeBytes 128 (((random.1 ++ beBytes 16 value).drop 16).take 16) = value := by
    rw [List.drop_left' random.2, List.take_of_length_le (Nat.le_of_eq (length_beBytes 16 value)),
      fromBeBytes_beBytes (by decide)]
  simp only [NoteDecryptor.openTransact, bind_eq_ok, pure_eq_ok, ensure_eq_ok, mapError_eq_ok,
    copyExact_ok]
  refine ⟨_, rfl, ⟨beBytes 32 master, length_beBytes 32 master⟩, rfl, master, hmaster, (), hmem,
    ⟨beBytes 32 asset.tokenHash, length_beBytes 32 _⟩, rfl, asset, fromTokenHash_tokenHash asset,
    ⟨random.1 ++ beBytes 16 value, hlen⟩, rfl, note, ?_, (), rfl, rfl⟩
  rw [hvalue]
  exact (congrArg (fun r => decryptor.assemble prims master position asset value r
    (fromUtf8Lossy memo) .transact) (Subtype.ext hrandom)).trans hnote

theorem decryptTransact_addressed (hseals : Seals prims sealed) {body : TransactBody}
    {master : PoseidonHash} {asset : AssetId} {value : NoteValue} {random : ByteArr 16} {memo : Bytes}
    {note : DecryptedNote} {position : NodePosition} {hash : CommitmentHash}
    (hbody : AddressedTransact prims sealed decryptor body
      (transactPieces master asset value random memo).flatten)
    (hmaster : decryptor.master prims = .ok master)
    (hnote : decryptor.assemble prims master position asset value random (fromUtf8Lossy memo) .transact =
      .ok note) (hhash : note.commitmentHash = hash) :
    decryptor.decryptTransact prims position hash body = .ok note := by
  subst hhash
  obtain ⟨w₀, w₁, w₂, hwords⟩ := hbody.words
  obtain ⟨shared, hshared, hdata, htag⟩ := hbody.key
  -- Sealing keeps the length, so what is left after three words is the memo's.
  have hlength : body.memo.length = memo.length := by
    have := congrArg List.length hdata
    rw [hseals.length, hwords, List.length_append] at this
    simp only [transactPieces, List.flatten_cons, List.flatten_nil, List.length_append,
      length_beBytes, w₀.2, w₁.2, w₂.2, random.2, List.length_nil] at this
    omega
  have hopen : decryptWithSharedKey prims (withMemo body.ciphertext body.memo) shared =
      .ok (transactPieces master asset value random memo) := by
    refine decryptWithSharedKey_sealed hseals ?_ htag ?_
    · rw [withMemo, List.flatten_append, List.flatten_singleton]
      exact hdata
    · rw [withMemo, hwords]
      simp only [transactPieces, List.cons_append, List.nil_append, List.map_cons, List.map_nil, w₀.2,
        w₁.2, w₂.2, length_beBytes, List.length_append, random.2, hlength]
  rw [NoteDecryptor.decryptTransact, deriveSharedKeyBlinded, hshared, ok_bind, hopen, ok_bind]
  exact openTransact_pieces hmaster hnote

theorem decryptShield_addressed (hseals : Seals prims sealed) {body : ShieldBody}
    {master : PoseidonHash} {value : NoteValue} {random : ByteArr 16} {note : DecryptedNote}
    {position : NodePosition} (hbody : AddressedShield prims sealed decryptor body random.1)
    (hvalue : body.value = value.asU256) (hmaster : decryptor.master prims = .ok master)
    (hnote : decryptor.assemble prims master position body.token value random "" .shield = .ok note)
    (hnpk : note.notePublicKey = body.npk) :
    decryptor.decryptShield prims position body = .ok note := by
  obtain ⟨shared, iv, word₀, word₁, rest, hshared, hbundle, hword₀, hword₁⟩ := hbody.bundle
  have hcipher : shieldCiphertext body.encryptedBundle =
      .ok ⟨iv, (sealed shared iv random.1).2, [word₁.1.take 16]⟩ := by
    rw [hbundle, shieldCiphertext, hword₀, List.take_left' iv.2, List.drop_left' iv.2,
      copyExact_ok.mpr rfl, ok_bind, copyExact_ok.mpr rfl]
    rfl
  refine decryptShield_ok.mpr ⟨_, shared, random, value, master, hcipher, ?_, ?_, ?_, hmaster, hnote, hnpk⟩
  · rw [deriveSharedKey, hshared]
  · refine decryptWithSharedKey_sealed hseals ?_ ?_ ?_
    · rw [List.flatten_singleton, List.flatten_singleton]
      exact hword₁
    · rw [List.flatten_singleton]
    · rw [List.map_singleton, List.map_singleton, hword₁, hseals.length]
  · rw [hvalue, tryFromU256_asU256]

end

/-- Whoever seals a note for the wallet, in either layout, is understood: the
wallet decrypts the node to a note of that asset, value, random and memo. -/
theorem decryptNode_recovers (tables : PoseidonTables) (prims : Primitives)
    (hposeidon : prims.poseidon = hashFieldInputs tables)
    (sealed : SharedKey → ByteArr 16 → Bytes → Bytes × ByteArr 16) (hseals : Seals prims sealed)
    (decryptor : NoteDecryptor) (position : NodePosition)
    (block : BlockNumber) (asset : AssetId) (value : NoteValue) (random : ByteArr 16) :
    ∃ master npk hash,
      masterPublicKey prims decryptor.spendingPublicKey decryptor.nullifyingKey = .ok master ∧
      notePublicKey prims master random = .ok npk ∧ noteHash prims npk asset value = .ok hash ∧
      (∀ (memo : Bytes) (body : TransactBody),
        AddressedTransact prims sealed decryptor body
          (beBytes 32 master ++ beBytes 32 asset.tokenHash ++ (random.1 ++ beBytes 16 value) ++ memo) →
        ∃ note, decryptor.decryptNode prims ⟨position, hash, block, .transact body⟩ = .ok note ∧
          note.position = position ∧ note.asset = asset ∧ note.value = value ∧
          note.random = random ∧ note.memo = fromUtf8Lossy memo) ∧
      ∀ (leaf : CommitmentHash) (body : ShieldBody), AddressedShield prims sealed decryptor body random.1 →
        body.npk = npk → body.token = asset → body.value.toNat = value.toNat →
        ∃ note, decryptor.decryptNode prims ⟨position, leaf, block, .shield body⟩ = .ok note ∧
          note.position = position ∧ note.asset = asset ∧ note.value = value ∧
          note.random = random ∧ note.memo = "" := by
  obtain ⟨master, hmaster⟩ : ∃ master,
      masterPublicKey prims decryptor.spendingPublicKey decryptor.nullifyingKey = .ok master :=
    poseidonOf_ok hposeidon _ (by simp) (by simp)
  obtain ⟨npk, hnpk⟩ : ∃ npk, notePublicKey prims master random = .ok npk :=
    poseidonOf_ok hposeidon _ (by simp) (by simp)
  obtain ⟨hash, hhash⟩ : ∃ hash, noteHash prims npk asset value = .ok hash :=
    poseidonOf_ok hposeidon _ (by simp) (by simp)
  refine ⟨master, npk, hash, hmaster, hnpk, hhash, fun memo body hbody => ?_,
    fun leaf body hbody hkey htoken hvalue => ?_⟩
  · obtain ⟨nullifier, blinded, hnote⟩ := assemble_total decryptor hposeidon hnpk hhash position
      (fromUtf8Lossy memo) .transact
    have hplain : beBytes 32 master ++ beBytes 32 asset.tokenHash ++ (random.1 ++ beBytes 16 value) ++ memo =
        (transactPieces master asset value random memo).flatten := by
      simp only [transactPieces, List.flatten_cons, List.flatten_nil, List.append_nil, List.append_assoc]
    rw [hplain] at hbody
    refine ⟨⟨position, value, asset, random, fromUtf8Lossy memo, hash, npk, nullifier, blinded, .transact⟩,
      ?_, rfl, rfl, rfl, rfl, rfl⟩
    rw [NoteDecryptor.decryptNode]
    exact decryptTransact_addressed hseals hbody hmaster hnote rfl
  · subst htoken
    obtain ⟨nullifier, blinded, hnote⟩ := assemble_total decryptor hposeidon hnpk hhash position "" .shield
    have hword : body.value = value.asU256 := by
      have hlt := value.isLt
      refine BitVec.eq_of_toNat_eq ?_
      rw [hvalue, NoteValue.asU256, BitVec.toNat_setWidth, Nat.mod_eq_of_lt (by omega)]
    refine ⟨⟨position, value, body.token, random, "", hash, npk, nullifier, blinded, .shield⟩,
      ?_, rfl, rfl, rfl, rfl, rfl⟩
    rw [NoteDecryptor.decryptNode]
    exact decryptShield_addressed hseals hbody hword hmaster hnote hkey.symm

/-- What stands before a zero tag. -/
def openClear (bytes : Bytes) : Option Bytes :=
  if bytes.drop (bytes.length - 16) = List.replicate 16 0 then some (bytes.take (bytes.length - 16)) else none

theorem openClear_append (message : Bytes) : openClear (message ++ List.replicate 16 0) = some message := by
  have hlen : (message ++ List.replicate 16 (0 : Byte)).length - 16 = message.length := by
    rw [List.length_append, List.length_replicate, Nat.add_sub_cancel]
  rw [openClear, hlen, List.drop_left, if_pos rfl, List.take_left]

/-- The vendored hash, a key agreement that shows the other side's key, and a
cipher that shows the message before a zero tag. -/
def clearPrimitives : Primitives :=
  { poseidon := hashFieldInputs poseidonTables
    ecdh := fun _ point => some point
    aead := fun _ _ bytes => openClear bytes }

theorem clearPrimitives_seals : Seals clearPrimitives fun _ _ message => (message, .replicate 16 0) where
  length _ _ _ := rfl
  opens _ _ message := openClear_append message

/-- Five units of a token with the memo `hi`, sealed for the zero wallet. -/
theorem decryptNode_recovers_transact : ∃ hash body note,
    zeroDecryptor.decryptNode clearPrimitives ⟨⟨0, 7, by decide⟩, hash, 0, .transact body⟩ = .ok note ∧
      note.value = 5 ∧ note.memo = "hi" := by
  obtain ⟨master, npk, hash, -, -, -, htransact, -⟩ := decryptNode_recovers poseidonTables
    clearPrimitives rfl _ clearPrimitives_seals zeroDecryptor ⟨0, 7, by decide⟩ 0
    (.erc20 (.replicate 20 0)) 5 (.replicate 16 0)
  obtain ⟨note, hnote, -, -, hvalue, -, hmemo⟩ := htransact [0x68, 0x69]
    { ciphertext := ⟨.replicate 16 0, .replicate 16 0, [beBytes 32 master,
        beBytes 32 (AssetId.erc20 (.replicate 20 0)).tokenHash, List.replicate 16 0 ++ beBytes 16 (5 : U128)]⟩
      memo := [0x68, 0x69]
      blindedSenderKey := .replicate 32 0
      blindedReceiverKey := .replicate 32 0
      annotation := [] }
    ⟨⟨⟨_, length_beBytes 32 _⟩, ⟨_, length_beBytes 32 _⟩, ⟨_, by simp [length_beBytes]⟩, rfl⟩,
      _, rfl, by simp [ByteArr.replicate], rfl⟩
  exact ⟨hash, _, note, hnote, hvalue, hmemo.trans (by decide +kernel)⟩

end Railgun
