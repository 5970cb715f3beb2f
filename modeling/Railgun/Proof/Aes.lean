import Railgun.Impl.Aes

/-!
# Ciphertext framing

The loops of `decrypt_gcm` join the blocks and cut the plaintext as
`decryptWithSharedKey` does (`decryptGcm_eq`), so a cipher that keeps lengths
gives back as many blocks as there were, as long as they were
(`decryptGcm_iff`).
-/

namespace Railgun

open Outcome

/-! ## Cutting -/

/-- A plaintext as long as the blocks is cut into pieces as long as they are. -/
theorem splitBlocks_flatten : ∀ {blocks pieces : List Bytes},
    blocks.map List.length = pieces.map List.length → splitBlocks blocks pieces.flatten = .ok pieces
  | [], [], _ => rfl
  | block :: blocks, piece :: pieces, h => by
    obtain ⟨hlen, h⟩ := List.cons.inj h
    rw [splitBlocks, List.flatten_cons, if_pos (by rw [List.length_append]; omega), hlen,
      List.drop_left, List.take_left, splitBlocks_flatten h]
    rfl

/-- A plaintext as long as the blocks is some pieces as long as they are. -/
theorem exists_pieces : ∀ {blocks : List Bytes} {decrypted : Bytes},
    decrypted.length = blocks.flatten.length →
    ∃ pieces : List Bytes, pieces.flatten = decrypted ∧ blocks.map List.length = pieces.map List.length
  | [], decrypted, h => ⟨[], (List.eq_nil_of_length_eq_zero h).symm, rfl⟩
  | block :: blocks, decrypted, h => by
    rw [List.flatten_cons, List.length_append] at h
    have hrest : (decrypted.drop block.length).length = blocks.flatten.length := by
      rw [List.length_drop]
      omega
    obtain ⟨pieces, hpieces, hlen⟩ := exists_pieces hrest
    refine ⟨decrypted.take block.length :: pieces, ?_, ?_⟩
    · rw [List.flatten_cons, hpieces, List.take_append_drop]
    · rw [List.map_cons, List.map_cons, List.length_take, Nat.min_eq_left (by omega), hlen]

section
variable {usizeMax : Nat} {prims : Primitives}

/-! ## The loops -/

theorem addLen_of_le {a b : Nat} (h : a + b ≤ usizeMax) : addLen usizeMax a b = .ok (a + b) := if_pos h

/-- The first loop finds the length of the joined blocks. -/
theorem foldlM_addLen : ∀ {blocks : List Bytes} {n : Nat}, n + blocks.flatten.length ≤ usizeMax →
    blocks.foldlM (fun dataLen block => addLen usizeMax dataLen block.length) n =
      .ok (n + blocks.flatten.length)
  | [], _, _ => rfl
  | block :: blocks, n, h => by
    rw [List.flatten_cons, List.length_append, ← Nat.add_assoc] at h ⊢
    rw [List.foldlM_cons, addLen_of_le (Nat.le_of_add_right_le h), ok_bind, foldlM_addLen h]

/-- The second loop cuts what is left after the offset. -/
theorem foldlM_cutBlock {decrypted : Bytes} : ∀ {blocks : List Bytes} {cut : Cut},
    cut.offset + blocks.flatten.length ≤ usizeMax → cut.offset ≤ decrypted.length →
    (blocks.foldlM (cutBlock usizeMax decrypted) cut).map Cut.data =
      (splitBlocks blocks (decrypted.drop cut.offset)).map (cut.data ++ ·)
  | [], cut, _, _ => congrArg Except.ok (List.append_nil cut.data).symm
  | block :: blocks, cut, hmax, hle => by
    rw [List.flatten_cons, List.length_append, ← Nat.add_assoc] at hmax
    rw [List.foldlM_cons, cutBlock, addLen_of_le (Nat.le_of_add_right_le hmax), ok_bind, getRange,
      splitBlocks, List.length_drop]
    by_cases hfits : cut.offset + block.length ≤ decrypted.length
    · rw [if_pos ⟨Nat.le_add_right _ _, hfits⟩, if_pos (by omega), Nat.add_sub_cancel_left]
      refine (foldlM_cutBlock hmax hfits).trans ?_
      rw [List.drop_drop]
      cases splitBlocks blocks (decrypted.drop (cut.offset + block.length)) with
      | error e => rfl
      | ok pieces => exact congrArg Except.ok (List.append_assoc ..)
    · rw [if_neg fun h => hfits h.2, if_neg (by omega)]
      rfl

/-- The loops join the blocks and cut the plaintext back. -/
theorem decryptGcm_eq (ciphertext : Ciphertext) (key : SharedKey)
    (hmax : ciphertext.data.flatten.length + 16 ≤ usizeMax) :
    decryptGcm usizeMax prims ciphertext key = decryptWithSharedKey prims ciphertext key := by
  have hjoin : ciphertext.data.foldl (· ++ ·) [] = ciphertext.data.flatten :=
    (List.foldl_append_eq_append (f := id)).trans (by rw [List.map_id, List.nil_append])
  rw [decryptGcm, foldlM_addLen (by omega), ok_bind, addLen_of_le (by rw [ciphertext.tag.2]; omega),
    ok_bind, hjoin, decryptWithSharedKey]
  dsimp only
  cases prims.aead key ciphertext.iv (ciphertext.data.flatten ++ ciphertext.tag.1) with
  | none => rfl
  | some decrypted =>
    have hfits : 0 + ciphertext.data.flatten.length ≤ usizeMax := by omega
    refine (bind_pure_comp Cut.data _).trans ((foldlM_cutBlock hfits (Nat.zero_le _)).trans ?_)
    rw [List.drop_zero]
    show _ = splitBlocks ciphertext.data decrypted
    cases splitBlocks ciphertext.data decrypted <;> rfl

/-! ## Opening -/

/-- An opening takes the tag's 16 bytes off the message. -/
def Primitives.LengthPreserving (prims : Primitives) : Prop :=
  ∀ key iv message plain, prims.aead key iv message = some plain → plain.length + 16 = message.length

/-- The joined blocks and the tag are opened, exactly: the plaintext comes back in blocks of the
lengths there were, and the one error is that the tag does not match. -/
theorem decryptGcm_iff (hprims : prims.LengthPreserving) (ciphertext : Ciphertext) (key : SharedKey)
    (hmax : ciphertext.data.flatten.length + 16 < usizeMax) :
    (∀ data, decryptGcm usizeMax prims ciphertext key = .ok data ↔
      prims.aead key ciphertext.iv (ciphertext.data.flatten ++ ciphertext.tag.1) = some data.flatten ∧
      data.map List.length = ciphertext.data.map List.length) ∧
    ∀ e, decryptGcm usizeMax prims ciphertext key = .error e ↔
      e = .aes ∧ prims.aead key ciphertext.iv (ciphertext.data.flatten ++ ciphertext.tag.1) = none := by
  rw [decryptGcm_eq ciphertext key (Nat.le_of_lt hmax), decryptWithSharedKey]
  cases hopen : prims.aead key ciphertext.iv (ciphertext.data.flatten ++ ciphertext.tag.1) with
  | none => simp [eq_comm]
  | some decrypted =>
    have hlen : decrypted.length = ciphertext.data.flatten.length := by
      have := hprims _ _ _ _ hopen
      rw [List.length_append, ciphertext.tag.2] at this
      omega
    obtain ⟨pieces, hpieces, hmap⟩ := exists_pieces hlen
    have hsplit := splitBlocks_flatten hmap
    rw [hpieces] at hsplit
    refine ⟨fun data => ⟨fun hdata => ?_, fun ⟨hdata, hdatas⟩ => ?_⟩, fun e => ⟨fun herr => ?_, nofun⟩⟩
    · cases hsplit.symm.trans hdata
      exact ⟨congrArg some hpieces.symm, hmap.symm⟩
    · cases hdata
      exact splitBlocks_flatten hdatas.symm
    · cases hsplit.symm.trans herr

end

/-- Three blocks and an empty one, in the clear. -/
def helloBlocks : List Bytes := [
  [0x68, 0x65, 0x6c, 0x6c, 0x6f, 0x20, 0x77, 0x6f, 0x72, 0x6c, 0x64, 0x20, 0x6f, 0x6b, 0x21],
  [],
  [0x73, 0x65, 0x63, 0x6f, 0x6e, 0x64, 0x20, 0x62, 0x6c, 0x6f, 0x63, 0x6b, 0x2e, 0x2e, 0x2e],
  [0x74, 0x68, 0x69, 0x72, 0x64]]

/-- The same blocks, sealed under the key of sevens. -/
def helloCiphertext : Ciphertext where
  iv := .replicate 16 9
  tag := ⟨[0xf5, 0x61, 0x5b, 0xe4, 0x44, 0x1d, 0xb0, 0xb5, 0x6d, 0x80, 0x95, 0x2d, 0x4b, 0xc2, 0x93,
    0x81], rfl⟩
  data := [
    [0xaa, 0xef, 0xe1, 0x59, 0x00, 0x56, 0x43, 0x18, 0x25, 0x54, 0x2d, 0x99, 0xdc, 0x49, 0x0f],
    [],
    [0x1f, 0xb9, 0x35, 0xd9, 0xa0, 0xb2, 0x10, 0x5f, 0x64, 0xb0, 0x7b, 0x5a, 0xeb, 0xb1, 0x72],
    [0xa8, 0xf4, 0xeb, 0x19, 0xda]]

/-- A cipher that opens this ciphertext only. -/
def helloPrims : Primitives where
  poseidon _ := .ok 0
  ecdh _ _ := none
  aead key iv message :=
    if key = .replicate 32 7 ∧ iv = helloCiphertext.iv ∧
      message = helloCiphertext.data.flatten ++ helloCiphertext.tag.1
    then some helloBlocks.flatten else none

theorem helloPrims_aead (key : SharedKey) (iv : ByteArr 16) (message : Bytes) :
    helloPrims.aead key iv message =
      if key = .replicate 32 7 ∧ iv = helloCiphertext.iv ∧
        message = helloCiphertext.data.flatten ++ helloCiphertext.tag.1
      then some helloBlocks.flatten else none := rfl

/-- The blocks come back, the empty one too; under another key nothing does. -/
theorem decryptGcm_hello :
    decryptGcm (2 ^ 64 - 1) helloPrims helloCiphertext (.replicate 32 7) = .ok helloBlocks ∧
    decryptGcm (2 ^ 64 - 1) helloPrims helloCiphertext (.replicate 32 1) = .error .aes := by
  have hprims : helloPrims.LengthPreserving := by
    intro key iv message plain h
    rw [helloPrims_aead] at h
    obtain ⟨⟨-, -, rfl⟩, hplain⟩ := Option.ite_none_right_eq_some.mp h
    rw [← Option.some.inj hplain]
    rfl
  have hmax : helloCiphertext.data.flatten.length + 16 < 2 ^ 64 - 1 := by decide
  refine ⟨((decryptGcm_iff hprims _ _ hmax).1 _).mpr ⟨?_, rfl⟩,
    ((decryptGcm_iff hprims _ _ hmax).2 _).mpr ⟨rfl, ?_⟩⟩
  · rw [helloPrims_aead, if_pos ⟨rfl, rfl, rfl⟩]
  · rw [helloPrims_aead, if_neg fun h => absurd h.1 (by decide)]

end Railgun
