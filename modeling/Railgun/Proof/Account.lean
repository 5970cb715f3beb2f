import Railgun.Impl.PoseidonKeys
import Railgun.Proof.Address
import Railgun.Proof.Derivation
import Railgun.Proof.Recovery
import Railgun.Spec.Crates

/-!
# Payments to an address are found

The two sides of a key agreement come to one key (`ecdh_agrees`): the mask that
`to_curve25519_scalar` prunes with clears one bit more than the key expansion
does, and sets it again, and scalars modulo the order act on multiples of the
base point as they are. So whoever takes an address from its text can pay the
account that derived it (`payment_recovered`), and with the crates as they are
some payment is made (`payment_recovered_dalek`).
-/

namespace Railgun

open BigEndian Outcome

/-! ## Key agreement -/

/-- Bit 6 is set either way. -/
theorem prune_byte (b : Byte) : b &&& 63 ||| 64 = b &&& 0x7f ||| 0x40 := by
  refine BitVec.eq_of_getLsbD_eq fun i hi => ?_
  simp only [BitVec.getLsbD_or, BitVec.getLsbD_and]
  interval_cases i <;> simp

section
variable {Point : Type} (crate : EdwardsCrate Point)

theorem toCurve25519Scalar_eq (key : ViewingKey) :
    crate.toCurve25519Scalar key = prunedScalar (crate.sha512 key.1) % groupOrder := by
  have hprune : ∀ bytes : Bytes, (bytes.modify 31 (· &&& 63)).modify 31 (· ||| 64) =
      bytes.modify 31 fun b => b &&& 0x7f ||| 0x40 := fun bytes => by
    rw [List.modify_modify_eq]
    exact congrArg (bytes.modify 31) (funext prune_byte)
  simp only [EdwardsCrate.toCurve25519Scalar, scalarFromBytes, prunedScalar, hprune]

variable {crate} [AddCommGroup Point] {base : Point} (hcrate : crate.Documented base)
include hcrate

/-- A multiple of a multiple of the base point, with the scalar of a key. -/
theorem mul_toCurve25519Scalar (key : ViewingKey) (n : Nat) :
    crate.mul (n • base) (crate.toCurve25519Scalar key) = n • prunedScalar (crate.sha512 key.1) • base := by
  have hscalar : crate.toCurve25519Scalar key • base = prunedScalar (crate.sha512 key.1) • base := by
    rw [toCurve25519Scalar_eq]
    exact (nsmul_eq_mod_nsmul _ hcrate.order_base).symm
  rw [hcrate.mul_eq, ← mul_nsmul', Nat.mul_comm, mul_nsmul', hscalar]

/-- A public key times a factor is a multiple of the base point. -/
theorem blinds_publicKey {factor : Nat} {key : ViewingKey} {blinded : BlindedKey} :
    crate.Blinds factor (crate.publicKey key) blinded ↔
      blinded = crate.compress ((factor * prunedScalar (crate.sha512 key.1)) • base) := by
  rw [EdwardsCrate.Blinds, EdwardsCrate.publicKey, hcrate.verifyingKey_eq]
  simp only [hcrate.decompress_compress, Option.some.injEq, exists_eq_left', hcrate.mul_eq, mul_nsmul']

/-- Both sides come to one key, each from the other's public key times a factor. -/
theorem ecdh_agrees {factor : Nat} {mine theirs : ViewingKey} {myBlinded theirBlinded : BlindedKey}
    (hmine : crate.Blinds factor (crate.publicKey mine) myBlinded)
    (htheirs : crate.Blinds factor (crate.publicKey theirs) theirBlinded) :
    crate.ecdh mine theirBlinded = crate.ecdh theirs myBlinded := by
  obtain rfl := (blinds_publicKey hcrate).mp hmine
  obtain rfl := (blinds_publicKey hcrate).mp htheirs
  simp only [EdwardsCrate.ecdh, EdwardsCrate.sharedKey, hcrate.decompress_compress, Option.map_some,
    mul_toCurve25519Scalar hcrate, ← mul_nsmul']
  rw [Nat.mul_right_comm]

end

/-! ## Derivations -/

section
variable {hmacSha512 : Bytes → Bytes → ByteArr 64}

/-- A node and the child that is asked for are in what HMAC is fed. -/
theorem feeds_inj {node node' : KeyNode} {i j : U32} {call : Bytes × Bytes} (h : node.Feeds i call)
    (h' : node'.Feeds j call) : node = node' ∧ i = j := by
  rw [KeyNode.feeds_iff] at h h'
  obtain ⟨hcode, hmessage⟩ := Prod.mk.inj (h.symm.trans h')
  obtain ⟨hkey, hindex⟩ := List.append_inj (List.cons.inj hmessage).2
    (by rw [node.chainKey.2, node'.chainKey.2])
  refine ⟨?_, ?_⟩
  · obtain ⟨key, code⟩ := node
    obtain ⟨key', code'⟩ := node'
    rw [KeyNode.mk.injEq]
    exact ⟨Subtype.ext hkey, Subtype.ext hcode⟩
  · have := congrArg (fromBeBytes 32) hindex
    rw [fromBeBytes_beBytes (by decide), fromBeBytes_beBytes (by decide)] at this
    rwa [BitVec.add_left_inj] at this

/-- The key of a child is the left half of what HMAC makes of the call. -/
theorem chainKey_deriveHardened {node : KeyNode} {segment : U32} {call : Bytes × Bytes}
    (h : node.Feeds segment call) :
    (node.deriveHardened hmacSha512 segment).chainKey.1 = (hmacSha512 call.1 call.2).1.take 32 :=
  congrArg (fun child => child.chainKey.1) (h hmacSha512)

/-- One key at the end of two derivations of a length: they are the same, or HMAC collides along them. -/
theorem derive_apart : ∀ {segments segments' : List U32} {node node' : KeyNode},
    segments.length = segments'.length →
    (segments.foldl (KeyNode.deriveHardened hmacSha512) node).chainKey =
      (segments'.foldl (KeyNode.deriveHardened hmacSha512) node').chainKey →
    (segments = segments' ∧ node.chainKey = node'.chainKey ∧ (segments ≠ [] → node = node')) ∨
      KeyNode.Collide hmacSha512 node node' segments segments'
  | [], segments', node, node', hlen, h => by
    obtain rfl := List.length_eq_zero_iff.mp hlen.symm
    exact .inl ⟨rfl, h, fun hne => absurd rfl hne⟩
  | i :: segments, [], node, node', hlen, h => by cases hlen
  | i :: segments, j :: segments', node, node', hlen, h => by
    rw [List.foldl_cons, List.foldl_cons] at h
    rcases derive_apart (Nat.succ.inj hlen) h with
      ⟨rfl, hkey, -⟩ | ⟨k, i', j', call, call', hi, hj, hfeeds, hfeeds', hne, heq⟩
    · have hfeeds : node.Feeds i _ := KeyNode.feeds_iff.mpr rfl
      have hfeeds' : node'.Feeds j _ := KeyNode.feeds_iff.mpr rfl
      by_cases hcall : (node.chainCode.1, node.preimage (i + hardenedOffset)) =
          (node'.chainCode.1, node'.preimage (j + hardenedOffset))
      · obtain ⟨rfl, rfl⟩ := feeds_inj hfeeds (hcall ▸ hfeeds')
        exact .inl ⟨rfl, rfl, fun _ => rfl⟩
      · refine .inr ⟨0, i, j, _, _, rfl, rfl, hfeeds, hfeeds', hcall, ?_⟩
        rw [← chainKey_deriveHardened hfeeds, ← chainKey_deriveHardened hfeeds', hkey]
    · refine .inr ⟨k + 1, i', j', call, call', ?_, ?_, ?_⟩
      · rwa [List.getElem?_cons_succ]
      · rwa [List.getElem?_cons_succ]
      · simp only [List.take_succ_cons, List.foldl_cons]
        exact ⟨hfeeds, hfeeds', hne, heq⟩

/-- Two accounts of a seed, and the two roles of one, share a key only where HMAC gives two inputs one left half
along their paths; and so for any two paths of a depth. -/
theorem accounts_apart (hmacSha512 : Bytes → Bytes → ByteArr 64) (seed : ByteArr 64) :
    let node := KeyNode.fromSeed hmacSha512 seed.1
    (∀ path path' : DerivationPath, path.len = path'.len →
      (node.derivePath hmacSha512 path).chainKey = (node.derivePath hmacSha512 path').chainKey →
      path.segments = path'.segments ∨
        KeyNode.Collide hmacSha512 node node path.segments path'.segments) ∧
    ∀ index index' : RailgunAccountIndex,
      ((node.derivePath hmacSha512 index.spendingPath).spendingKey =
          (node.derivePath hmacSha512 index'.viewingPath).viewingKey →
        KeyNode.Collide hmacSha512 node node index.spendingPath.segments index'.viewingPath.segments) ∧
      (index ≠ index' →
        ((node.derivePath hmacSha512 index.spendingPath).spendingKey =
            (node.derivePath hmacSha512 index'.spendingPath).spendingKey →
          KeyNode.Collide hmacSha512 node node index.spendingPath.segments index'.spendingPath.segments) ∧
        ((node.derivePath hmacSha512 index.viewingPath).viewingKey =
            (node.derivePath hmacSha512 index'.viewingPath).viewingKey →
          KeyNode.Collide hmacSha512 node node index.viewingPath.segments index'.viewingPath.segments)) := by
  intro node
  have hapart : ∀ path path' : DerivationPath, path.len = path'.len →
      (node.derivePath hmacSha512 path).chainKey = (node.derivePath hmacSha512 path').chainKey →
      path.segments = path'.segments ∨
        KeyNode.Collide hmacSha512 node node path.segments path'.segments := fun path path' hlen h => by
    have hlength : path.segments.length = path'.segments.length := by
      rw [DerivationPath.segments, DerivationPath.segments, List.length_take, List.length_take,
        path.length_array, path'.length_array, hlen]
    exact (derive_apart hlength h).imp_left And.left
  have hsegments : ∀ (purpose index : U32), (DerivationPath.fromSegments [purpose, 1984, 0, 0, index]
      (of_decide_eq_true rfl)).segments = [purpose, 1984, 0, 0, index] := fun _ _ => rfl
  refine ⟨hapart, fun index index' => ⟨fun h => ?_, fun hne => ⟨fun h => ?_, fun h => ?_⟩⟩⟩
  · refine (hapart index.spendingPath index'.viewingPath rfl h).resolve_left fun he => ?_
    rw [RailgunAccountIndex.spendingPath, RailgunAccountIndex.viewingPath, hsegments, hsegments] at he
    exact absurd (List.cons.inj he).1 (by decide)
  · refine (hapart index.spendingPath index'.spendingPath rfl h).resolve_left fun he => ?_
    rw [RailgunAccountIndex.spendingPath, RailgunAccountIndex.spendingPath, hsegments, hsegments] at he
    simp only [List.cons.injEq, and_true, true_and] at he
    exact hne he
  · refine (hapart index.viewingPath index'.viewingPath rfl h).resolve_left fun he => ?_
    rw [RailgunAccountIndex.viewingPath, RailgunAccountIndex.viewingPath, hsegments, hsegments] at he
    simp only [List.cons.injEq, and_true, true_and] at he
    exact hne he

end

/-! ## Payments -/

section
variable (hmacSha512 : Bytes → Bytes → ByteArr 64) (blake512 : Bytes → ByteArr 64) (tables : PoseidonTables)

/-- Every account has keys, and its master key is the one its notes are made out to. -/
theorem deriveRailgunKeys_ok (prims : Primitives) (hposeidon : prims.poseidon = hashFieldInputs tables)
    (seed : ByteArr 64) (index : RailgunAccountIndex) :
    ∃ keys, KeyNode.deriveRailgunKeys hmacSha512 blake512 tables seed index = .ok keys ∧
      (NoteDecryptor.fromKeys keys).master prims = .ok keys.masterPublicKey := by
  let node := KeyNode.fromSeed hmacSha512 seed.1
  let spendingKey := (node.derivePath hmacSha512 index.spendingPath).spendingKey
  let viewingKey := (node.derivePath hmacSha512 index.viewingPath).viewingKey
  let point := BabyJubJub.publicKey blake512 spendingKey
  obtain ⟨nullifying, hhash⟩ : ∃ hash, hashFieldInputs tables [fromBeBytes 256 viewingKey.1] = .ok hash :=
    hashFieldInputs_ok tables (by simp) (by simp)
  obtain ⟨master, hmaster⟩ : ∃ hash, hashFieldInputs tables [point.x, point.y, nullifying] = .ok hash :=
    hashFieldInputs_ok tables (by simp) (by simp)
  have hnullifying : nullifyingKey tables viewingKey = .ok nullifying := by rw [nullifyingKey, hhash, mapError_ok]
  refine ⟨⟨spendingKey, viewingKey, point, nullifying, master⟩, ?_, ?_⟩
  · show (do
      let nullifying ← nullifyingKey tables viewingKey
      let master ← (hashFieldInputs tables [point.x, point.y, nullifying]).mapError .poseidon
      return DerivedRailgunKeys.mk spendingKey viewingKey point nullifying master) = _
    rw [hnullifying, ok_bind, hmaster, mapError_ok]
    rfl
  · rw [NoteDecryptor.master, masterPublicKey, poseidonOf, hposeidon]
    exact (congrArg (Except.mapError CryptoError.poseidon) hmaster).trans (mapError_ok ..)

end

theorem toNat_asU256 (value : NoteValue) : value.asU256.toNat = value.toNat := by
  have hlt := value.isLt
  rw [NoteValue.asU256, BitVec.toNat_setWidth, Nat.mod_eq_of_lt (by omega)]

section
variable {Point : Type} [AddCommGroup Point] {crate : EdwardsCrate Point} {base : Point}
  (hcrate : crate.Documented base) {tables : PoseidonTables}
  {aead : SharedKey → ByteArr 16 → Bytes → Option Bytes}
  {sealed : SharedKey → ByteArr 16 → Bytes → Bytes × ByteArr 16}
  {keys : DerivedRailgunKeys} {address : RailgunAddress} (haddress : address.masterKey = keys.masterPublicKey ∧
    address.viewingPubkey = crate.publicKey keys.viewingKey)
  {sender : ViewingKey} {asset : AssetId} {value : NoteValue} {random : ByteArr 16}
include hcrate haddress

/-- A shield made out to an account's address is sealed under a key the account comes to. -/
theorem PaysShield.addressed {body : ShieldBody}
    (h : PaysShield crate (crate.primitives tables aead) sealed address sender asset value random body) :
    AddressedShield (crate.primitives tables aead) sealed (.fromKeys keys) body random.1 := by
  obtain ⟨shared, iv, word₀, word₁, rest, hshared, hbundle, hword₀, hword₁⟩ := h.bundle
  refine ⟨⟨shared, iv, word₀, word₁, rest, ?_, hbundle, hword₀, hword₁⟩⟩
  have hone : ∀ key, crate.Blinds 1 (crate.publicKey key) (crate.publicKey key) := fun key => by
    rw [blinds_publicKey hcrate, Nat.one_mul, EdwardsCrate.publicKey, hcrate.verifyingKey_eq]
  rw [deriveSharedKey, haddress.2] at hshared
  rw [h.shieldKey]
  refine (ecdh_agrees hcrate (hone _) (hone _)).trans ?_
  show crate.ecdh sender (crate.publicKey keys.viewingKey) = some shared
  cases hs : crate.ecdh sender (crate.publicKey keys.viewingKey) with
  | some shared' =>
    rw [show (crate.primitives tables aead).ecdh sender _ = some shared' from hs] at hshared
    rw [Except.ok.inj hshared]
  | none =>
    rw [show (crate.primitives tables aead).ecdh sender _ = none from hs] at hshared
    cases hshared

/-- So is a transact. -/
theorem PaysTransact.addressed {memo : Bytes} {hash : CommitmentHash} {body : TransactBody}
    (h : PaysTransact crate (crate.primitives tables aead) sealed address sender asset value random memo hash
      body) :
    AddressedTransact (crate.primitives tables aead) sealed (.fromKeys keys) body
      (transactPieces keys.masterPublicKey asset value random memo).flatten := by
  obtain ⟨factor, shared, hsender, hreceiver, hshared, hsealed⟩ := h.keys
  refine ⟨h.words, shared, ?_, ?_⟩
  · rw [haddress.2] at hreceiver
    refine (ecdh_agrees hcrate hreceiver hsender).trans ?_
    rw [deriveSharedKeyBlinded] at hshared
    cases hs : crate.ecdh sender body.blindedReceiverKey with
    | some shared' =>
      rw [show (crate.primitives tables aead).ecdh sender _ = some shared' from hs] at hshared
      rw [Except.ok.inj hshared]
    | none =>
      rw [show (crate.primitives tables aead).ecdh sender _ = none from hs] at hshared
      cases hshared
  · have hplain : (transactPieces keys.masterPublicKey asset value random memo).flatten =
        beBytes 32 address.masterKey ++ beBytes 32 asset.tokenHash ++ (random.1 ++ beBytes 16 value) ++ memo := by
      simp only [transactPieces, haddress.1, List.flatten_cons, List.flatten_nil, List.append_nil,
        List.append_assoc]
    rw [hplain, ← hsealed]
    exact ⟨rfl, rfl⟩

end

/-- Whoever takes an account's address from its text can pay it: with the keys agreed on through the address,
plain or blinded, what is sealed in a shield or a transact is found by the wallet of the account. -/
theorem payment_recovered {Point : Type} [AddCommGroup Point] {crate : EdwardsCrate Point} {base : Point}
    (hcrate : crate.Documented base) {ε : Type} (bech32 : Bech32Crate ε)
    (hmacSha512 : Bytes → Bytes → ByteArr 64) (blake512 : Bytes → ByteArr 64) (tables : PoseidonTables)
    (aead : SharedKey → ByteArr 16 → Bytes → Option Bytes)
    (sealed : SharedKey → ByteArr 16 → Bytes → Bytes × ByteArr 16)
    (hseals : Seals (crate.primitives tables aead) sealed) (seed : ByteArr 64) (index : RailgunAccountIndex)
    (chain : ChainId) :
    ∃ keys text address, KeyNode.deriveRailgunKeys hmacSha512 blake512 tables seed index = .ok keys ∧
      (keys.address crate chain).toString bech32 = some text ∧
      RailgunAddress.fromStr bech32 text = .ok address ∧
      address.masterKey = keys.masterPublicKey ∧ address.viewingPubkey = crate.publicKey keys.viewingKey ∧
      ∀ (sender : ViewingKey) (asset : AssetId) (value : NoteValue) (random : ByteArr 16)
        (position : NodePosition) (block : BlockNumber),
        (∀ leaf body,
          PaysShield crate (crate.primitives tables aead) sealed address sender asset value random body →
          ∃ note, (NoteDecryptor.fromKeys keys).decryptNode (crate.primitives tables aead)
              ⟨position, leaf, block, .shield body⟩ = .ok note ∧
            note.Of position asset value random "") ∧
        ∀ memo hash body,
          PaysTransact crate (crate.primitives tables aead) sealed address sender asset value random memo hash
            body →
          ∃ note, (NoteDecryptor.fromKeys keys).decryptNode (crate.primitives tables aead)
              ⟨position, hash, block, .transact body⟩ = .ok note ∧
            note.Of position asset value random (fromUtf8Lossy memo) := by
  have hposeidon : (crate.primitives tables aead).poseidon = hashFieldInputs tables := rfl
  obtain ⟨keys, hkeys, hmaster⟩ := deriveRailgunKeys_ok hmacSha512 blake512 tables _ hposeidon seed index
  refine ⟨keys, _, _, hkeys, RailgunAddress.toString_eq bech32 _, RailgunAddress.fromStr_shown bech32 _,
    rfl, rfl, fun sender asset value random position block => ⟨fun leaf body h => ?_, fun memo hash body h => ?_⟩⟩
  · obtain ⟨hash, hhash⟩ : ∃ hash, noteHash (crate.primitives tables aead) body.npk asset value = .ok hash :=
      poseidonOf_ok hposeidon _ (by simp) (by simp)
    obtain ⟨nullifier, blinded, hnote⟩ := assemble_total (.fromKeys keys) hposeidon h.npk hhash position "" .shield
    refine ⟨⟨position, value, asset, random, "", hash, body.npk, nullifier, blinded, .shield⟩, ?_,
      ⟨rfl, rfl, rfl, rfl, rfl⟩⟩
    rw [← h.token] at hnote ⊢
    have hvalue := BitVec.eq_of_toNat_eq (h.value.trans (toNat_asU256 value).symm)
    exact decryptShield_addressed hseals (h.addressed hcrate ⟨rfl, rfl⟩) hvalue hmaster hnote rfl
  · obtain ⟨npk, hnpk, hhash⟩ := h.hash
    obtain ⟨nullifier, blinded, hnote⟩ := assemble_total (.fromKeys keys) hposeidon hnpk hhash position
      (fromUtf8Lossy memo) .transact
    exact ⟨_, decryptTransact_addressed hseals (h.addressed hcrate ⟨rfl, rfl⟩) hmaster hnote rfl,
      ⟨rfl, rfl, rfl, rfl, rfl⟩⟩

/-! ### With the crates -/

theorem exists_word {bytes : Bytes} (h : 32 ≤ bytes.length) :
    ∃ (word : ByteArr 32) (rest : Bytes), bytes = word.1 ++ rest :=
  ⟨⟨bytes.take 32, by rw [List.length_take]; omega⟩, bytes.drop 32, (List.take_append_drop ..).symm⟩

theorem dalek_documented : dalek.Documented Ed25519.base where
  mul_eq _ _ := rfl
  decompress_compress point := by
    have hword : fromBeBytes 256 (beBytes 32 (Ed25519.compress point)) = Ed25519.compress point :=
      fromBeBytes_beBytes (by decide) _
    simp only [dalek, List.reverse_reverse, hword, Ed25519.decompress_compress]
  order_base := Ed25519.order_base
  verifyingKey_eq _ := rfl

theorem aesGcm_seals (tables : PoseidonTables) : Seals (dalek.primitives tables aesGcmOpen) aesGcmSeal where
  length _ _ message := Gcm.length_crypt _ _ message
  opens _ _ message := Gcm.decrypt_encrypt _ _ message

section
variable {Point : Type} [AddCommGroup Point] {crate : EdwardsCrate Point} {base : Point}
  (hcrate : crate.Documented base) {tables : PoseidonTables}
  {aead : SharedKey → ByteArr 16 → Bytes → Option Bytes}
  {sealed : SharedKey → ByteArr 16 → Bytes → Bytes × ByteArr 16}
  (hseals : Seals (crate.primitives tables aead) sealed) {address : RailgunAddress} {theirs : ViewingKey}
  (haddress : address.viewingPubkey = crate.publicKey theirs) (sender : ViewingKey) (asset : AssetId)
  (value : NoteValue) (random : ByteArr 16)
include hcrate haddress

/-- A sender agrees on a key with any account's public key times a factor. -/
theorem exists_shared (factor : Nat) : ∃ blinded shared, crate.Blinds factor address.viewingPubkey blinded ∧
    crate.ecdh sender blinded = some shared :=
  ⟨_, _, by rw [haddress]; exact (blinds_publicKey hcrate).mpr rfl,
    by rw [EdwardsCrate.ecdh, hcrate.decompress_compress]; rfl⟩

include hseals

/-- Any account can be paid with a shield. -/
theorem exists_paysShield : ∃ body,
    PaysShield crate (crate.primitives tables aead) sealed address sender asset value random body := by
  obtain ⟨npk, hnpk⟩ : ∃ npk, notePublicKey (crate.primitives tables aead) address.masterKey random = .ok npk :=
    poseidonOf_ok rfl _ (by simp) (by simp)
  obtain ⟨blinded, shared, hblinds, hshared⟩ := exists_shared hcrate haddress sender 1
  obtain rfl : blinded = address.viewingPubkey := by
    rw [haddress, blinds_publicKey hcrate, Nat.one_mul] at hblinds
    rw [hblinds, haddress, EdwardsCrate.publicKey, hcrate.verifyingKey_eq]
  have hkey : deriveSharedKey (crate.primitives tables aead) sender address.viewingPubkey = .ok shared := by
    rw [deriveSharedKey, show (crate.primitives tables aead).ecdh sender _ = some shared from hshared]
  let iv : ByteArr 16 := .replicate 16 0
  have hlen : (sealed shared iv random.1).1.length = 16 := (hseals.length ..).trans random.2
  exact ⟨⟨npk, asset, value.asU256,
    [⟨iv.1 ++ (sealed shared iv random.1).2.1,
        by rw [List.length_append, iv.2, (sealed shared iv random.1).2.2]⟩,
      ⟨(sealed shared iv random.1).1 ++ List.replicate 16 0,
        by rw [List.length_append, hlen, List.length_replicate]⟩],
    crate.publicKey sender⟩, rfl, toNat_asU256 value, hnpk, rfl, shared, iv, _, _, [], hkey, rfl, rfl,
    List.take_left' hlen⟩

/-- And with a transact, with the keys blinded by any factor, and a memo. -/
theorem exists_paysTransact (factor : Nat) (memo : Bytes) : ∃ hash body,
    PaysTransact crate (crate.primitives tables aead) sealed address sender asset value random memo hash body := by
  obtain ⟨npk, hnpk⟩ : ∃ npk, notePublicKey (crate.primitives tables aead) address.masterKey random = .ok npk :=
    poseidonOf_ok rfl _ (by simp) (by simp)
  obtain ⟨hash, hhash⟩ : ∃ hash, noteHash (crate.primitives tables aead) npk asset value = .ok hash :=
    poseidonOf_ok rfl _ (by simp) (by simp)
  obtain ⟨blinded, shared, hblinds, hshared⟩ := exists_shared hcrate haddress sender factor
  have hkey : deriveSharedKeyBlinded (crate.primitives tables aead) sender blinded = .ok shared := by
    rw [deriveSharedKeyBlinded, show (crate.primitives tables aead).ecdh sender _ = some shared from hshared]
  let iv : ByteArr 16 := .replicate 16 0
  let plain :=
    beBytes 32 address.masterKey ++ beBytes 32 asset.tokenHash ++ (random.1 ++ beBytes 16 value) ++ memo
  have hlen : 96 ≤ (sealed shared iv plain).1.length := by
    rw [hseals.length]
    simp only [plain, List.length_append, length_beBytes, random.2]
    omega
  obtain ⟨w₀, rest₀, h₀⟩ := exists_word (show 32 ≤ (sealed shared iv plain).1.length by omega)
  rw [h₀, List.length_append, w₀.2] at hlen
  obtain ⟨w₁, rest₁, rfl⟩ := exists_word (show 32 ≤ rest₀.length by omega)
  rw [List.length_append, w₁.2] at hlen
  obtain ⟨w₂, rest₂, rfl⟩ := exists_word (show 32 ≤ rest₁.length by omega)
  refine ⟨hash, ⟨⟨iv, (sealed shared iv plain).2, [w₀.1, w₁.1, w₂.1]⟩, rest₂, _, blinded, []⟩,
    ⟨npk, hnpk, hhash⟩, ⟨w₀, w₁, w₂, rfl⟩, factor, shared, (blinds_publicKey hcrate).mpr rfl, hblinds, hkey,
    Prod.ext ?_ rfl⟩
  rw [h₀]
  simp only [List.flatten_cons, List.flatten_nil, List.append_nil, List.append_assoc]

end

/-- With the crates as they are, the account of a seed is paid five units of a token in a shield, and seven
in a transact with the memo `hi`, after its address has been a text. -/
theorem payment_recovered_dalek : ∃ keys text address shield hash transact note note',
    KeyNode.deriveRailgunKeys hmacSha512 blake512 keyTables (.replicate 64 0) 0 = .ok keys ∧
    (keys.address dalek .all).toString RailgunAddress.bech32Codec = some text ∧
    RailgunAddress.fromStr RailgunAddress.bech32Codec text = .ok address ∧
    PaysShield dalek (dalek.primitives keyTables aesGcmOpen) aesGcmSeal address (.replicate 32 1)
      (.erc20 (.replicate 20 0)) 5 (.replicate 16 0) shield ∧
    (NoteDecryptor.fromKeys keys).decryptNode (dalek.primitives keyTables aesGcmOpen)
      ⟨⟨0, 7, by decide⟩, 0, 0, .shield shield⟩ = .ok note ∧ note.value = 5 ∧
    PaysTransact dalek (dalek.primitives keyTables aesGcmOpen) aesGcmSeal address (.replicate 32 1)
      (.erc20 (.replicate 20 0)) 7 (.replicate 16 0) [0x68, 0x69] hash transact ∧
    (NoteDecryptor.fromKeys keys).decryptNode (dalek.primitives keyTables aesGcmOpen)
      ⟨⟨0, 8, by decide⟩, hash, 0, .transact transact⟩ = .ok note' ∧ note'.value = 7 ∧ note'.memo = "hi" := by
  obtain ⟨keys, text, address, hkeys, htext, hparsed, -, hviewing, hpays⟩ :=
    payment_recovered dalek_documented RailgunAddress.bech32Codec hmacSha512 blake512 keyTables aesGcmOpen
      aesGcmSeal (aesGcm_seals keyTables) (.replicate 64 0) 0 .all
  obtain ⟨shield, hshield⟩ := exists_paysShield dalek_documented (aesGcm_seals keyTables) hviewing
    (.replicate 32 1) (.erc20 (.replicate 20 0)) 5 (.replicate 16 0)
  obtain ⟨hash, transact, htransact⟩ := exists_paysTransact dalek_documented (aesGcm_seals keyTables)
    hviewing (.replicate 32 1) (.erc20 (.replicate 20 0)) 7 (.replicate 16 0) 3 [0x68, 0x69]
  obtain ⟨note, hnote, hof⟩ := (hpays (.replicate 32 1) (.erc20 (.replicate 20 0)) 5 (.replicate 16 0)
    ⟨0, 7, by decide⟩ 0).1 0 shield hshield
  obtain ⟨note', hnote', hof'⟩ := (hpays (.replicate 32 1) (.erc20 (.replicate 20 0)) 7 (.replicate 16 0)
    ⟨0, 8, by decide⟩ 0).2 [0x68, 0x69] hash transact htransact
  exact ⟨keys, text, address, shield, hash, transact, note, note', hkeys, htext, hparsed, hshield, hnote,
    hof.value, htransact, hnote', hof'.value, hof'.memo.trans (by decide +kernel)⟩

end Railgun
