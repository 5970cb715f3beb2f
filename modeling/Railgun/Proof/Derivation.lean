import Railgun.Proof.Codec
import Railgun.Proof.Grammar

/-!
# Hardened derivation

A step feeds HMAC one key and message and no other (`KeyNode.feeds_iff`). The
index in it wraps at 2^32, so it is the segment plus 2^31 exactly for segments
below 2^31 (`toNat_add_hardenedOffset`). Neither the parser nor the account index
bounds them, so a path may derive children that are not hardened (`hardened_iff`,
`not_hardened`).
-/

namespace Railgun

open BigEndian DerivationPath

namespace KeyNode

/-- What a step feeds HMAC: the chain code, and the message of the child 2^31
further, modulo 2^32. -/
theorem feeds_iff {node : KeyNode} {segment : U32} {call : Bytes × Bytes} :
    node.Feeds segment call ↔ call = (node.chainCode.1, node.preimage (segment + hardenedOffset)) := by
  refine ⟨fun h => ?_, fun h hmacSha512 => by rw [h]; rfl⟩
  by_contra hne
  -- An HMAC that tells this call from all others is fed another one.
  have hstep := h fun key message => if (key, message) = call then .replicate 64 1 else .replicate 64 0
  rw [deriveHardened, if_neg (Ne.symm hne), if_pos rfl] at hstep
  exact absurd (congrArg chainKey hstep) (by decide)

theorem childIndex_preimage (node : KeyNode) (index : U32) : childIndex (node.preimage index) = index := by
  have hlen : (0 :: node.chainKey.1).length = 33 := congrArg (· + 1) node.chainKey.2
  rw [childIndex, preimage, ← List.cons_append, ← hlen, List.drop_left]
  exact fromBeBytes_beBytes (by decide) index

/-- The index that a step feeds HMAC. -/
theorem Feeds.childIndex_eq {node : KeyNode} {segment : U32} {call : Bytes × Bytes}
    (h : node.Feeds segment call) : childIndex call.2 = segment + hardenedOffset := by
  rw [feeds_iff.mp h, childIndex_preimage]

end KeyNode

/-- The index of a step is the segment plus 2^31 if that does not wrap. -/
theorem toNat_add_hardenedOffset (segment : U32) :
    ((segment + hardenedOffset).toNat = segment.toNat + 2 ^ 31 ∧
      2 ^ 31 ≤ (segment + hardenedOffset).toNat) ↔ segment < hardenedOffset := by
  have hlt := segment.isLt
  have hoffset : hardenedOffset.toNat = 2 ^ 31 := rfl
  rw [BitVec.lt_def, BitVec.toNat_add, hoffset]
  omega

/-- A derivation is hardened if its segments are below 2^31, and only then. -/
theorem hardened_segments (hmacSha512 : Bytes → Bytes → ByteArr 64) : ∀ (segments : List U32) (node : KeyNode),
    node.DerivesHardened hmacSha512 segments (segments.foldl (KeyNode.deriveHardened hmacSha512) node) ↔
      ∀ segment ∈ segments, segment < hardenedOffset
  | [], node => iff_of_true (.nil node) nofun
  | segment :: segments, node => by
    rw [List.forall_mem_cons, List.foldl_cons]
    constructor
    · intro h
      cases h with
      | cons hfeeds hindex hle hrest =>
        rw [hfeeds.childIndex_eq] at hindex hle
        rw [← hfeeds hmacSha512, hardened_segments hmacSha512 segments] at hrest
        exact ⟨(toNat_add_hardenedOffset segment).mp ⟨hindex, hle⟩, hrest⟩
    · intro ⟨hlt, hrest⟩
      have hfeeds : node.Feeds segment _ := KeyNode.feeds_iff.mpr rfl
      obtain ⟨hindex, hle⟩ := (toNat_add_hardenedOffset segment).mpr hlt
      rw [← hfeeds.childIndex_eq] at hindex hle
      refine .cons hfeeds hindex hle ?_
      rw [← hfeeds hmacSha512]
      exact (hardened_segments hmacSha512 segments _).mpr hrest

/-- Every step of a path derives a hardened child exactly when its segments are
below 2^31; an account's paths, exactly when its index is. -/
theorem hardened_iff (hmacSha512 : Bytes → Bytes → ByteArr 64) (node : KeyNode) :
    (∀ path : DerivationPath, Hardened hmacSha512 node path ↔
      ∀ segment ∈ path.segments, segment < hardenedOffset) ∧
    ∀ index : RailgunAccountIndex,
      (Hardened hmacSha512 node index.spendingPath ↔ index < hardenedOffset) ∧
      (Hardened hmacSha512 node index.viewingPath ↔ index < hardenedOffset) := by
  have h : ∀ path : DerivationPath, Hardened hmacSha512 node path ↔
      ∀ segment ∈ path.segments, segment < hardenedOffset := fun path =>
    hardened_segments hmacSha512 path.segments node
  refine ⟨h, fun index => ⟨(h _).trans ?_, (h _).trans ?_⟩⟩
  · rw [RailgunAccountIndex.spendingPath, segments_fromSegments]
    simp [hardenedOffset]
  · rw [RailgunAccountIndex.viewingPath, segments_fromSegments]
    simp [hardenedOffset]

/-- The child of the segment 2^31 has the index 0. -/
theorem not_hardened : ¬ ∀ (hmac : Bytes → Bytes → ByteArr 64) (node : KeyNode) (s : String)
    (path : DerivationPath), fromStr s = .ok path → Hardened hmac node path := by
  intro h
  have hp : fromStr "m/2147483648'" = .ok (.fromSegments [0x80000000] (by decide)) :=
    fromStr_iff.mpr ⟨[.ofNumber 0x80000000], by decide, by decide +kernel, .inl (by decide +kernel)⟩
  have hhard := h (fun _ _ => .replicate 64 0) ⟨.replicate 32 0, .replicate 32 0⟩ _ _ hp
  have := (hardened_segments _ _ _).mp hhard 0x80000000 List.mem_cons_self
  exact absurd this (by decide)

end Railgun
