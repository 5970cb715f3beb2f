import Railgun.Impl.PoseidonT3
import Railgun.Proof.Merkle
import Railgun.Proof.Refinement

/-!
# The full walk of a reachable table

After any history of mutations, the walk of a tree appends one leaf for each
position below the tree's length: the hash of the first node put there, or the
empty leaf. It counts the empty ones, and never finds the tree overfull
(`treeFrontier_sees_stored`).
-/

namespace Railgun

open GapFill Outcome Height

/-- The hash a history stores at a position. -/
def storedHash (writes : List Write) (t : U32) (p : Nat) : Option CommitmentHash :=
  (firstNode t (BitVec.ofNat 32 p) writes).map Node.hash

/-- The leaf values of a tree's first positions. -/
def denseLeaves (writes : List Write) (t : U32) (n : Nat) : List U256 :=
  (List.range n).map fun p => (storedHash writes t p).getD railgunMerkleZero

/-- The positions of a tree that hold a node are the scan's. -/
theorem Forest.length_leaves (F : Forest) (t : U32) :
    (F.leaves t).length = (List.range (F.length t)).countP fun p => (F.node t p).isSome := by
  have hle := F.length_le t
  have hnone : (List.range' (F.length t) (65536 - F.length t)).countP
      (fun p => (F.node t p).isSome) = 0 := by
    refine List.countP_eq_zero.mpr fun p hp hs => ?_
    have := (F.isHeight_length t).lt p hs
    have := (List.mem_range'_1.mp hp).1
    omega
  have hrange : List.range 65536 =
      List.range (F.length t) ++ List.range' (F.length t) (65536 - F.length t) := by
    have happend := List.range'_append_1 (s := 0) (m := F.length t) (n := 65536 - F.length t)
    rw [Nat.zero_add, Nat.add_sub_cancel' hle] at happend
    rw [List.range_eq_range', List.range_eq_range', happend]
  rw [Forest.leaves, List.length_filterMap_eq_countP, hrange, List.countP_append, hnone, Nat.add_zero]

/-- The positions that hold none are the rest. -/
theorem Forest.length_sub_leaves (F : Forest) (t : U32) :
    (BitVec.ofNat 32 (F.length t) - BitVec.ofNat 32 (F.leaves t).length).toNat =
      (List.range (F.length t)).countP fun p => (F.node t p).isNone := by
  have hsplit := List.length_eq_countP_add_countP (l := List.range (F.length t))
    (fun p => (F.node t p).isSome)
  have hnone : (List.range (F.length t)).countP (fun p => decide ¬(F.node t p).isSome = true) =
      (List.range (F.length t)).countP fun p => (F.node t p).isNone :=
    List.countP_congr fun p _ => by simp
  have hle := F.length_le t
  rw [List.length_range, ← F.length_leaves, hnone] at hsplit
  have hl : (BitVec.ofNat 32 (F.length t)).toNat = F.length t := by
    rw [BitVec.toNat_ofNat, Nat.mod_eq_of_lt (by omega)]
  have hs : (BitVec.ofNat 32 (F.leaves t).length).toNat = (F.leaves t).length := by
    rw [BitVec.toNat_ofNat, Nat.mod_eq_of_lt (by omega)]
  rw [BitVec.toNat_sub_of_le (by rw [BitVec.le_def, hl, hs]; omega), hl, hs]
  omega

/-- A forest's leaf values are those of its history. -/
theorem leaf_run {writes : List Write} {t : U32} {p : Nat} (hp : p < 2 ^ 32) :
    ((Forest.empty.run writes).2.node t p).map Node.hash = storedHash writes t p := by
  have hnat : (BitVec.ofNat 32 p).toNat = p := by rw [BitVec.toNat_ofNat, Nat.mod_eq_of_lt hp]
  have hrun := Forest.run_node writes .empty t (BitVec.ofNat 32 p)
  rw [hnat] at hrun
  rw [hrun]
  rfl

theorem firstLeaves_run (tables : PoseidonTables) {writes : List Write} {t : U32} {n : Nat}
    (hn : n ≤ 65536) : (Forest.empty.run writes).2.firstLeaves tables t n =
      MerkleAccumulator.new.insertAll (denseLeaves writes t n) := by
  rw [Forest.firstLeaves, fill, denseLeaves, ← List.range_eq_range']
  refine congrArg _ (List.map_congr_left fun p hp => ?_)
  have := List.mem_range.mp hp
  rw [Forest.leaf, leaf_run (by omega)]

/-- Whatever was inserted, in whatever order, the walk of every tree returns
the accumulator of the tree's dense leaves, its length and the number of
positions that hold no node; and `validate` reports the same. -/
theorem treeFrontier_sees_stored (tables : PoseidonTables) {R : Type} [Reader R] [LawfulReader R]
    (reader : R) (writes : List Write)
    (hreads : view reader .commitments = (runWrites (WriteTxn.mk fun _ => ∅) writes).2.inner .commitments)
    (t : U32) :
    ∃ (accumulator : MerkleAccumulator (railgunMerkleConfig tables)) (n missing : U32),
      treeFrontier tables reader t = .ok (accumulator, n, missing) ∧
      Commitments.treeLength reader t = .ok n ∧
      IsHeight (fun p => p < 2 ^ 32 ∧ (storedHash writes t p).isSome) n.toNat ∧ n.toNat ≤ 2 ^ 16 ∧
      (∀ p : U32, Commitments.leafHash reader t p = .ok (storedHash writes t p.toNat)) ∧
      accumulator = (denseLeaves writes t n.toNat).foldl .insert .new ∧
      accumulator.len.toNat = n.toNat ∧
      missing.toNat = (List.range n.toNat).countP (fun p => (storedHash writes t p).isNone) ∧
      ∀ isValid, validate tables reader t isValid =
        .ok ⟨t, n, accumulator.root, missing,
          isValid t (if n = 0 then 0 else n - 1) accumulator.root⟩ := by
  let F := (Forest.empty.run writes).2
  have hF : Represents (view reader .commitments) F := represents_run hreads
  have hwalk := treeFrontier_spec tables hF t
  have hle := F.length_le t
  have hn : (BitVec.ofNat 32 (F.length t)).toNat = F.length t := by
    rw [BitVec.toNat_ofNat, Nat.mod_eq_of_lt (by omega)]
  refine ⟨_, _, _, hwalk, treeLength_spec hF t, ?_, by omega, fun p => ?_, ?_, ?_, ?_, fun isValid => ?_⟩
  · rw [hn]
    refine (F.isHeight_length t).congr fun p => ?_
    constructor
    · intro hp
      have := (F.isHeight_length t).lt p hp
      have hlt : p < 2 ^ 32 := by omega
      exact ⟨hlt, by rw [← leaf_run hlt]; simpa using hp⟩
    · rintro ⟨hlt, hp⟩
      rw [← leaf_run hlt] at hp
      simpa using hp
  · rw [leafHash_spec hF, leaf_run p.isLt]
  · rw [hn, Forest.accumulator, firstLeaves_run tables hle]
    rfl
  · have hlen : (denseLeaves writes t (F.length t)).length = F.length t := by
      rw [denseLeaves, List.length_map, List.length_range]
    rw [hn, Forest.accumulator, firstLeaves_run tables hle,
      MerkleAccumulator.len_new_insertAll (by omega), hlen]
  · rw [F.length_sub_leaves t, hn]
    refine List.countP_congr fun p hp => ?_
    have := List.mem_range.mp hp
    rw [← leaf_run (by omega)]
    simp [F]
  · rw [validate, walkUp, hwalk]
    rfl

/-- Positions 3 and 1 of a tree, in this order: two leaves stored, two missing. -/
theorem treeFrontier_sees_gaps :
    let writes := [.node (bareNode ⟨7, 3, by decide⟩ 30), .node (bareNode ⟨7, 1, by decide⟩ 10)]
    treeFrontier poseidonTables (ReadView.mk (runWrites (WriteTxn.mk fun _ => ∅) writes).2.inner) 7 =
      .ok ([railgunMerkleZero, 10, railgunMerkleZero, 30].foldl .insert .new, 4, 2) := by
  intro writes
  obtain ⟨accumulator, n, missing, hwalk, -, hn, -, -, hacc, -, hmissing, -⟩ :=
    treeFrontier_sees_stored poseidonTables (ReadView.mk (runWrites (WriteTxn.mk fun _ => ∅) writes).2.inner)
      writes rfl 7
  have hstored : ∀ p, p < 2 ^ 32 → (storedHash writes 7 p).isSome → p = 3 ∨ p = 1 := by
    intro p hp hs
    have hnat : (BitVec.ofNat 32 p).toNat = p := by rw [BitVec.toNat_ofNat, Nat.mod_eq_of_lt hp]
    simp only [storedHash, writes, firstNode, bareNode] at hs
    split at hs
    · rename_i h
      exact .inl (hnat.symm.trans (congrArg BitVec.toNat h.2.1.symm))
    · split at hs
      · rename_i h
        exact .inr (hnat.symm.trans (congrArg BitVec.toNat h.2.1.symm))
      · cases hs
  have hfour : n.toNat = 4 := hn.unique
    ⟨fun p hp => by have := hstored p hp.1 hp.2; omega, .inr (by decide)⟩
  obtain rfl : n = 4 := BitVec.eq_of_toNat_eq hfour
  obtain rfl : missing = 2 := BitVec.eq_of_toNat_eq (hmissing.trans (by decide))
  rw [hwalk, hacc, show denseLeaves writes 7 (4 : U32).toNat =
    [railgunMerkleZero, 10, railgunMerkleZero, 30] by decide]

end Railgun
