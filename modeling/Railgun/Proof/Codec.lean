import Mathlib.Tactic.Common
import Railgun.Impl.Codec

/-!
# The node codec is exact

Every reader of the codec reads its writer exactly, from the words up to the
whole node (`takeNode_reads`). From this alone: decoding inverts encoding and
encoding inverts decoding (`decodeNode_iff`), an encoding has one node
(`encodeNode_inj`), no record can be cut short or extended, and the hash read
off a record's fixed offset is its node's (`decodeHash_of_decodeNode`).
-/

namespace Railgun

open ByteCodec BigEndian

/-! ## Words and arrays -/

theorem takeArray_reads (n : Nat) : Reads (takeArray n) putArray := fun _ _ _ => by
  rw [takeArray, run_take_ok, putArray, starts_some]

theorem takeU8_reads : Reads takeU8 (fun x => some (beBytes 1 x)) := reads_word (by decide)
theorem takeU32_reads : Reads takeU32 putU32 := reads_word (by decide)
theorem takeU64_reads : Reads takeU64 putU64 := reads_word (by decide)
theorem takeU256_reads : Reads takeU256 putU256 := reads_word (by decide)

theorem beBytes_byte (b : Byte) : beBytes 1 b = [b] := by
  simp [beBytes, toBE]

/-! ## Blobs and lists -/

theorem blobLen_eq_some {len : Nat} {n : U32} : blobLen len = some n ↔ len = n.toNat := by
  rw [blobLen]
  split
  · rename_i h
    rw [Option.some.injEq, ← BitVec.toNat_inj, BitVec.toNat_ofNat, Nat.mod_eq_of_lt h]
  · rename_i h
    have := n.isLt
    simp only [reduceCtorEq, false_iff]
    omega

/-- A length is written as the word that is read back. -/
theorem starts_putLen {len : Nat} {bs rest : Bytes} :
    Starts (putLen len) bs rest ↔ ∃ n : U32, len = n.toNat ∧ Starts (putU32 n) bs rest := by
  simp only [← blobLen_eq_some, putLen]
  cases blobLen len <;> simp [Starts]

theorem takeBlob_reads : Reads takeBlob putBlob := fun bs x rest => by
  simp only [takeBlob, putBlob, run_bind_ok, run_pure_ok, takeU32_reads _ _ _, takeArray_reads _ _ _ _,
    starts_cat, starts_putLen, starts_some, putArray]
  constructor
  · rintro ⟨len, r, hlen, ⟨b, hb⟩, _, rfl, rfl, rfl⟩
    exact ⟨_, ⟨len, hb, hlen⟩, rfl⟩
  · rintro ⟨_, ⟨len, hl, hlen⟩, rfl⟩
    exact ⟨len, _, hlen, ⟨x, hl⟩, rest, rfl, rfl, rfl⟩

theorem takeBundle_reads : Reads takeBundle putBundle := fun bs xs rest => by
  simp only [takeBundle, putBundle, run_bind_ok, takeU32_reads _ _ _, (takeArray_reads 32).times,
    starts_cat, starts_putLen]
  constructor
  · rintro ⟨count, r, hc, hl, hs⟩
    exact ⟨r, ⟨count, hl, hc⟩, hs⟩
  · rintro ⟨r, ⟨count, hl, hc⟩, hs⟩
    exact ⟨count, r, hc, hl, hs⟩

/-! ## Records -/

theorem tryNew_ok {t l : U32} {p : NodePosition} :
    NodePosition.tryNew t l = .ok p ↔ t = p.treeNumber ∧ l = p.leafIndex := by
  rw [NodePosition.tryNew]
  split
  · rename_i h
    simp only [reduceCtorEq, false_iff]
    rintro ⟨-, rfl⟩
    exact absurd p.inTree (BitVec.not_lt.mpr h)
  · rw [Except.ok.injEq]
    exact ⟨fun h => h ▸ ⟨rfl, rfl⟩, fun ⟨ht, hl⟩ => NodePosition.ext ht hl⟩

theorem takePosition_reads : Reads takePosition putPosition := fun bs p rest => by
  simp only [takePosition, putPosition, run_bind_ok, takeU32_reads _ _ _, starts_cat]
  constructor
  · rintro ⟨t, r, ht, l, r', hl, h⟩
    cases hp : NodePosition.tryNew t l with
    | error e =>
      rw [hp] at h
      exact (run_throw_ok.mp h).elim
    | ok q =>
      rw [hp] at h
      obtain ⟨rfl, rfl⟩ := run_pure_ok.mp h
      obtain ⟨rfl, rfl⟩ := tryNew_ok.mp hp
      exact ⟨r, ht, hl⟩
  · rintro ⟨r, ht, hl⟩
    refine ⟨_, r, ht, _, rest, hl, ?_⟩
    rw [tryNew_ok.mpr ⟨rfl, rfl⟩]
    exact run_pure_ok.mpr ⟨rfl, rfl⟩

theorem takeAsset_reads : Reads takeAsset putAsset := fun bs x rest => by
  obtain ⟨address⟩ := x
  simp only [takeAsset, putAsset, run_bind_ok, takeU8_reads _ _ _, starts_cat, beBytes_byte]
  constructor
  · rintro ⟨tag, r, htag, h⟩
    split at h
    · rename_i he
      simp only [run_bind_ok, run_pure_ok, takeArray_reads _ _ _ _] at h
      obtain ⟨a, _, ha, he', rfl⟩ := h
      cases he'
      exact ⟨r, he ▸ htag, ha⟩
    · exact (run_throw_ok.mp h).elim
  · rintro ⟨r, htag, ha⟩
    refine ⟨tagErc20, r, htag, ?_⟩
    rw [if_pos rfl]
    simp only [run_bind_ok, run_pure_ok, takeArray_reads _ _ _ _]
    exact ⟨address, rest, ha, rfl, rfl⟩

theorem takeCiphertext_reads : Reads takeCiphertext putCiphertext := fun bs x rest => by
  obtain ⟨iv, tag, data⟩ := x
  simp only [takeCiphertext, putCiphertext, run_bind_ok, run_pure_ok, takeArray_reads _ _ _ _,
    takeU32_reads _ _ _, takeBlob_reads.times, starts_cat, starts_putLen, Ciphertext.mk.injEq]
  constructor
  · rintro ⟨_, r, hiv, _, r', htag, count, r'', hc, _, _, ⟨hl, hs⟩, ⟨rfl, rfl, rfl⟩, rfl⟩
    exact ⟨r, hiv, r', htag, r'', ⟨count, hl, hc⟩, hs⟩
  · rintro ⟨r, hiv, r', htag, r'', ⟨count, hl, hc⟩, hs⟩
    exact ⟨_, r, hiv, _, r', htag, count, r'', hc, _, _, ⟨hl, hs⟩, ⟨rfl, rfl, rfl⟩, rfl⟩

theorem takeShieldBody_reads : Reads takeShieldBody putShieldBody := fun bs x rest => by
  obtain ⟨npk, token, value, bundle, key⟩ := x
  simp only [takeShieldBody, putShieldBody, run_bind_ok, run_pure_ok, takeU256_reads _ _ _,
    takeAsset_reads _ _ _, takeBundle_reads _ _ _, takeArray_reads _ _ _ _, starts_cat,
    ShieldBody.mk.injEq]
  constructor
  · rintro ⟨_, r₁, h₁, _, r₂, h₂, _, r₃, h₃, _, r₄, h₄, _, _, h₅, ⟨rfl, rfl, rfl, rfl, rfl⟩, rfl⟩
    exact ⟨r₁, h₁, r₂, h₂, r₃, h₃, r₄, h₄, h₅⟩
  · rintro ⟨r₁, h₁, r₂, h₂, r₃, h₃, r₄, h₄, h₅⟩
    exact ⟨_, r₁, h₁, _, r₂, h₂, _, r₃, h₃, _, r₄, h₄, _, _, h₅, ⟨rfl, rfl, rfl, rfl, rfl⟩, rfl⟩

theorem takeTransactBody_reads : Reads takeTransactBody putTransactBody := fun bs x rest => by
  obtain ⟨ciphertext, memo, sender, receiver, annotation⟩ := x
  simp only [takeTransactBody, putTransactBody, run_bind_ok, run_pure_ok, takeCiphertext_reads _ _ _,
    takeBlob_reads _ _ _, takeArray_reads _ _ _ _, starts_cat, TransactBody.mk.injEq]
  constructor
  · rintro ⟨_, r₁, h₁, _, r₂, h₂, _, r₃, h₃, _, r₄, h₄, _, _, h₅, ⟨rfl, rfl, rfl, rfl, rfl⟩, rfl⟩
    exact ⟨r₁, h₁, r₂, h₂, r₃, h₃, r₄, h₄, h₅⟩
  · rintro ⟨r₁, h₁, r₂, h₂, r₃, h₃, r₄, h₄, h₅⟩
    exact ⟨_, r₁, h₁, _, r₂, h₂, _, r₃, h₃, _, r₄, h₄, _, _, h₅, ⟨rfl, rfl, rfl, rfl, rfl⟩, rfl⟩

theorem takeBody_reads : Reads takeBody putBody := fun bs x rest => by
  simp only [takeBody, run_bind_ok, takeU8_reads _ _ _, beBytes_byte]
  constructor
  · rintro ⟨tag, r, htag, h⟩
    -- One case per tag the reader knows.
    split at h
    · rename_i he
      simp only [run_bind_ok, run_pure_ok, takeShieldBody_reads _ _ _] at h
      obtain ⟨body, _, hb, rfl, rfl⟩ := h
      exact starts_cat.mpr ⟨r, he ▸ htag, hb⟩
    · split at h
      · rename_i he
        simp only [run_bind_ok, run_pure_ok, takeTransactBody_reads _ _ _] at h
        obtain ⟨body, _, hb, rfl, rfl⟩ := h
        exact starts_cat.mpr ⟨r, he ▸ htag, hb⟩
      · exact (run_throw_ok.mp h).elim
  · intro h
    cases x with
    | shield body =>
      obtain ⟨r, htag, hb⟩ := starts_cat.mp h
      refine ⟨tagShield, r, htag, ?_⟩
      rw [if_pos rfl]
      simp only [run_bind_ok, run_pure_ok, takeShieldBody_reads _ _ _]
      exact ⟨body, rest, hb, rfl, rfl⟩
    | transact body =>
      obtain ⟨r, htag, hb⟩ := starts_cat.mp h
      refine ⟨tagTransact, r, htag, ?_⟩
      rw [if_neg (by decide), if_pos rfl]
      simp only [run_bind_ok, run_pure_ok, takeTransactBody_reads _ _ _]
      exact ⟨body, rest, hb, rfl, rfl⟩

theorem takeNode_reads : Reads takeNode encodeNode := fun bs x rest => by
  obtain ⟨position, hash, block, body⟩ := x
  simp only [takeNode, encodeNode, run_bind_ok, run_pure_ok, takePosition_reads _ _ _,
    takeU256_reads _ _ _, takeU64_reads _ _ _, takeBody_reads _ _ _, starts_cat, Node.mk.injEq]
  constructor
  · rintro ⟨_, r₁, h₁, _, r₂, h₂, _, r₃, h₃, _, _, h₄, ⟨rfl, rfl, rfl, rfl⟩, rfl⟩
    exact ⟨r₁, h₁, r₂, h₂, r₃, h₃, h₄⟩
  · rintro ⟨r₁, h₁, r₂, h₂, r₃, h₃, h₄⟩
    exact ⟨_, r₁, h₁, _, r₂, h₂, _, r₃, h₃, _, _, h₄, ⟨rfl, rfl, rfl, rfl⟩, rfl⟩

/-! ## Whole records -/

/-- Decoding and encoding are inverse to each other. -/
theorem decodeNode_iff {bytes : Bytes} {node : Node} :
    decodeNode bytes = .ok node ↔ encodeNode node = some bytes :=
  takeNode_reads.decode_iff

/-- Nodes stored as the same bytes are the same. -/
theorem encodeNode_inj {m n : Node} {bytes : Bytes} (hm : encodeNode m = some bytes)
    (hn : encodeNode n = some bytes) : m = n :=
  takeNode_reads.put_inj hm hn

/-- A record starts with its position and its hash. -/
theorem decodeHash_of_encodeNode {node : Node} {bytes : Bytes} (h : encodeNode node = some bytes) :
    decodeHash bytes = .ok node.hash := by
  have hs : Starts (encodeNode node) bytes [] := ⟨bytes, h, (List.append_nil _).symm⟩
  simp only [encodeNode, starts_cat] at hs
  obtain ⟨r₁, h₁, r₂, h₂, -⟩ := hs
  have hrun : (do let _ ← takePosition; takeU256 : CodecReader CommitmentHash).run bytes =
      .ok (node.hash, r₂) :=
    run_bind_ok.mpr ⟨_, _, (takePosition_reads _ _ _).mpr h₁, (takeU256_reads _ _ _).mpr h₂⟩
  rw [decodeHash, StateT.run'_eq, hrun]
  rfl

/-- The lengths `blob_len` takes: those of the lists and blobs of a payload. -/
def NodeBody.LengthsFit : NodeBody → Prop
  | .shield body => body.encryptedBundle.length < 2 ^ 32
  | .transact body => body.ciphertext.data.length < 2 ^ 32 ∧
      (∀ block ∈ body.ciphertext.data, block.length < 2 ^ 32) ∧
      body.memo.length < 2 ^ 32 ∧ body.annotation.length < 2 ^ 32

theorem isSome_cat {o₁ o₂ : Option Bytes} : (cat o₁ o₂).isSome ↔ o₁.isSome ∧ o₂.isSome := by
  cases o₁ <;> cases o₂ <;> simp [cat]

theorem isSome_putAll {α : Type} {put : α → Option Bytes} :
    ∀ xs : List α, (putAll put xs).isSome ↔ ∀ x ∈ xs, (put x).isSome
  | [] => by simp [putAll]
  | x :: xs => by rw [putAll, isSome_cat, isSome_putAll xs, List.forall_mem_cons]

theorem isSome_putLen {len : Nat} : (putLen len).isSome ↔ len < 2 ^ 32 := by
  rw [putLen, blobLen]
  split
  · rename_i h
    exact iff_of_true rfl h
  · rename_i h
    exact iff_of_false nofun h

theorem isSome_putBlob {bytes : Bytes} : (putBlob bytes).isSome ↔ bytes.length < 2 ^ 32 := by
  rw [putBlob, isSome_cat, isSome_putLen]
  simp

/-- The nodes encoding does not panic on. -/
theorem isSome_encodeNode {node : Node} : (encodeNode node).isSome ↔ node.body.LengthsFit := by
  obtain ⟨position, hash, block, ⟨npk, ⟨address⟩, value, bundle, key⟩ |
    ⟨⟨iv, tag, data⟩, memo, sender, receiver, annotation⟩⟩ := node
  · simp [encodeNode, putBody, putShieldBody, putBundle, putPosition, putAsset, putU32, putU64,
      putU256, putArray, isSome_cat, isSome_putLen, isSome_putAll, NodeBody.LengthsFit]
  · simp [encodeNode, putBody, putTransactBody, putCiphertext, putPosition, putU32, putU64,
      putU256, putArray, isSome_cat, isSome_putLen, isSome_putAll, isSome_putBlob,
      NodeBody.LengthsFit, and_assoc]

/-- The codec is a bijection between the nodes that fit it and the byte
strings it accepts. -/
theorem nodeCodec_exact :
    (∀ node : Node, node.body.LengthsFit →
      ∃ bytes, encodeNode node = some bytes ∧ decodeNode bytes = .ok node) ∧
    (∀ bytes node, decodeNode bytes = .ok node → encodeNode node = some bytes) ∧
    (∀ m n bytes, encodeNode m = some bytes → encodeNode n = some bytes → m = n) ∧
    (∀ bytes node, decodeNode bytes = .ok node → ∀ c cs,
      decodeNode (bytes ++ c :: cs) = .error .trailingBytes) ∧
    (∀ bytes c cs node, decodeNode (bytes ++ c :: cs) = .ok node →
      ∃ e, decodeNode bytes = .error e) ∧
    (∀ bytes node, decodeNode bytes = .ok node → decodeHash bytes = .ok node.hash) := by
  refine ⟨fun node h => ?_, fun _ _ h => decodeNode_iff.mp h, fun _ _ _ => encodeNode_inj,
    fun _ _ h _ _ => takeNode_reads.extended (decodeNode_iff.mp h), fun bytes c cs node h => ?_,
    fun _ _ h => decodeHash_of_encodeNode (decodeNode_iff.mp h)⟩
  · obtain ⟨bytes, hb⟩ := Option.isSome_iff_exists.mp (isSome_encodeNode.mpr h)
    exact ⟨bytes, hb, decodeNode_iff.mpr hb⟩
  · cases hd : decodeNode bytes with
    | ok m => exact absurd hd (takeNode_reads.truncated (decodeNode_iff.mp h))
    | error e => exact ⟨e, rfl⟩

end Railgun
