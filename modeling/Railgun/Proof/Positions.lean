import Railgun.Impl.Note
import Railgun.Impl.Subsquid
import Railgun.Proof.Refinement

/-!
# Positions from an indexer

What becomes of the tree and the position that a row reports: both are split
again from one index over all trees (`normalized_eq_some`), and the store counts
past them, but for the last tree number, whose successor wraps
(`placesSafely_iff`).
-/

namespace Railgun

/-- The index of a leaf over all trees. -/
def globalIndex (tree leaf : U32) : Nat := tree.toNat * 65536 + leaf.toNat

/-- A position has the index that was reported, and no other position has it. -/
theorem normalized_eq_some {tree leaf : U32} {position : NodePosition} :
    NodePosition.normalized tree leaf = some position ↔
      globalIndex position.treeNumber position.leafIndex = globalIndex tree leaf := by
  have hleaf := position.leaf_lt
  have htree := position.treeNumber.isLt
  rw [NodePosition.normalized, globalIndex, globalIndex]
  constructor
  · intro h
    obtain ⟨hlt, h⟩ := Option.ite_none_right_eq_some.mp h
    have hmod := Nat.mod_lt (tree.toNat * 65536 + leaf.toNat) (Nat.succ_pos 65535)
    rw [← Option.some.inj h, BitVec.toNat_ofNat, BitVec.toNat_ofNat, Nat.mod_eq_of_lt hlt,
      Nat.mod_eq_of_lt (Nat.lt_trans hmod (by decide)), Nat.div_add_mod']
  · intro h
    have hdiv : (tree.toNat * 65536 + leaf.toNat) / 65536 = position.treeNumber.toNat := by omega
    have hmod : (tree.toNat * 65536 + leaf.toNat) % 65536 = position.leafIndex.toNat := by omega
    rw [if_pos (hdiv ▸ htree), Option.some.injEq]
    exact NodePosition.ext (by rw [hdiv, BitVec.ofNat_toNat, BitVec.setWidth_eq])
      ((congrArg (BitVec.ofNat 32) hmod).trans (by rw [BitVec.ofNat_toNat, BitVec.setWidth_eq]))

/-- The documented panic is for indices from 2^48 on. -/
theorem exists_normalized {tree leaf : U32} (h : globalIndex tree leaf < 2 ^ 48) :
    ∃ position, NodePosition.normalized tree leaf = some position := by
  rw [globalIndex] at h
  have htree : (tree.toNat * 65536 + leaf.toNat) / 65536 < 2 ^ 32 := by omega
  exact ⟨_, if_pos htree⟩

/-- The successor of a number that is not the last. -/
theorem toNat_succ {x : U32} (h : x.toNat ≠ 2 ^ 32 - 1) : (x + 1).toNat = x.toNat + 1 := by
  have := x.isLt
  rw [BitVec.toNat_add]
  exact Nat.mod_eq_of_lt (show x.toNat + 1 < 2 ^ 32 by omega)

/-- The index that a blinded commitment hashes does not wrap. -/
theorem blindedCommitment_eq (prims : Primitives) (hash : CommitmentHash) (npk : U256) (tree leaf : U32) :
    blindedCommitment prims hash npk tree leaf =
      poseidonOf prims [hash, npk, BitVec.ofNat 256 (globalIndex tree leaf)] := by
  have htree := tree.isLt
  have hleaf := leaf.isLt
  have hindex : (tree.setWidth 128 * 65536 + leaf.setWidth 128 : U128).setWidth 256 =
      BitVec.ofNat 256 (globalIndex tree leaf) := by
    refine BitVec.eq_of_toNat_eq ?_
    have htree' : (tree.setWidth 128).toNat = tree.toNat := BitVec.toNat_setWidth_of_le (by decide)
    have hleaf' : (leaf.setWidth 128).toNat = leaf.toNat := BitVec.toNat_setWidth_of_le (by decide)
    have hmul : (tree.setWidth 128 * 65536 : U128).toNat = tree.toNat * 65536 := by
      rw [BitVec.toNat_mul, htree']
      exact Nat.mod_eq_of_lt (show tree.toNat * 65536 < 2 ^ 128 by omega)
    rw [BitVec.toNat_setWidth, BitVec.toNat_add, hmul, hleaf', BitVec.toNat_ofNat, globalIndex,
      Nat.mod_eq_of_lt (show tree.toNat * 65536 + leaf.toNat < 2 ^ 128 by omega)]
  rw [blindedCommitment, hindex]

/-- What a position is to the indexer that reports it as a tree and a leaf, and to the store. -/
structure PlacesSafely (treeNumber treePosition : U32) (position : NodePosition) : Prop where
  normalized : NodePosition.normalized treeNumber treePosition = some position
  mapped : ∀ row : CommitmentRow, row.treeNumber = treeNumber → row.treePosition = treePosition →
    mapCommitment row = some (row.kind.body.map fun body =>
      .commitment { position, hash := row.hash, block := row.blockNumber, body })
  leaf_lt : position.leafIndex.toNat < 65536
  index : globalIndex position.treeNumber position.leafIndex = globalIndex treeNumber treePosition
  /-- Rows share it exactly where they have the same index. -/
  shared : ∀ treeNumber' treePosition', NodePosition.normalized treeNumber' treePosition' = some position ↔
    globalIndex treeNumber' treePosition' = globalIndex treeNumber treePosition
  leaf_succ : (position.leafIndex + 1).toNat = position.leafIndex.toNat + 1
  tree_succ : (position.treeNumber + 1).toNat = position.treeNumber.toNat + 1
  /-- Whatever the table went through, the counters are past a node that is inserted there. -/
  counted : ∀ (txn txn' : WriteTxn) (writes : List Write) (node : Node), txn.inner .commitments = ∅ →
    node.position = position → CommitmentsMut.insertNode node (runWrites txn writes).2 = .ok () txn' →
    ∃ length count, Commitments.treeLength txn' position.treeNumber = .ok length ∧
      Commitments.treeCount txn' = .ok count ∧
      position.leafIndex.toNat + 1 ≤ length.toNat ∧ position.treeNumber.toNat + 1 ≤ count.toNat
  blinded : ∀ prims hash npk, blindedCommitment prims hash npk position.treeNumber position.leafIndex =
    poseidonOf prims [hash, npk, BitVec.ofNat 256 (globalIndex treeNumber treePosition)]

/-- A node that is inserted is below the counters, unless its tree has the last number. -/
theorem insertNode_counted {txn txn' : WriteTxn} {writes : List Write} {node : Node}
    (hempty : txn.inner .commitments = ∅) (htree : node.position.treeNumber.toNat ≠ 2 ^ 32 - 1)
    (h : CommitmentsMut.insertNode node (runWrites txn writes).2 = .ok () txn') :
    ∃ length count, Commitments.treeLength txn' node.position.treeNumber = .ok length ∧
      Commitments.treeCount txn' = .ok count ∧
      node.position.leafIndex.toNat + 1 ≤ length.toNat ∧
      node.position.treeNumber.toNat + 1 ≤ count.toNat := by
  obtain ⟨-, hF, -⟩ := runWrites_spec writes (w := txn) (represents_of_empty hempty)
  obtain ⟨hanswer, hF', -⟩ := write_spec hF (.node node)
  rw [answering_ok (m := (Write.node node).mutate) h] at hanswer hF'
  have hnode := Forest.insertNode_ok hanswer.symm
  obtain ⟨length, hlength, hheight⟩ := (readsAs hF').treeLength node.position.treeNumber
  obtain ⟨count, hcount, hheights⟩ := (readsAs hF').treeCount
  have hlast : node.position.treeNumber < BitVec.allOnes 32 := by
    have := node.position.treeNumber.isLt
    show node.position.treeNumber.toNat < 2 ^ 32 - 1
    omega
  have hsome := Option.isSome_iff_exists.mpr ⟨_, hnode⟩
  exact ⟨length, count, hlength, hcount, hheight.lt _ hsome, hheights.lt _ ⟨_, rfl, hlast, _, hsome⟩⟩

/-- A position from an indexer is placed safely exactly where its tree is not the last. -/
theorem placesSafely_iff (treeNumber treePosition : U32) :
    (globalIndex treeNumber treePosition < 2 ^ 48 →
      ∃ position, PlacesSafely treeNumber treePosition position) ↔
    globalIndex treeNumber treePosition / 65536 ≠ 2 ^ 32 - 1 := by
  constructor
  · intro h hlast
    obtain ⟨position, hposition⟩ := h (by omega)
    have hindex := hposition.index
    have hleaf := hposition.leaf_lt
    have hsucc := hposition.tree_succ
    have hbound := (position.treeNumber + 1).isLt
    rw [globalIndex] at hindex
    omega
  · intro htree hlt
    obtain ⟨position, hposition⟩ := exists_normalized hlt
    have hindex := normalized_eq_some.mp hposition
    have hleaf := position.leaf_lt
    have hlast : position.treeNumber.toNat ≠ 2 ^ 32 - 1 := by
      rw [globalIndex] at hindex
      omega
    refine ⟨position, hposition, fun row htree hleaf => ?_, hleaf, hindex, fun treeNumber' treePosition' => ?_,
      position.toNat_leafIndex_succ, toNat_succ hlast, fun txn txn' writes node hempty hnode h => ?_,
      fun prims hash npk => ?_⟩
    · rw [mapCommitment, htree, hleaf, hposition]
      rfl
    · rw [normalized_eq_some, hindex, eq_comm]
    · rw [← hnode] at hlast ⊢
      exact insertNode_counted hempty hlast h
    · rw [blindedCommitment_eq, hindex]

/-- The first leaf of the last tree is stored, and the count stays where it was. -/
theorem last_tree_unsafe : ¬ ∀ treeNumber treePosition : U32,
    globalIndex treeNumber treePosition < 2 ^ 48 →
      ∃ position, PlacesSafely treeNumber treePosition position := by
  intro h
  obtain ⟨position, hposition⟩ := h 0xffffffff 0 (by decide)
  have hlast : position.treeNumber = 0xffffffff := by
    have hindex : position.treeNumber.toNat * 65536 + position.leafIndex.toNat = 0xffffffff * 65536 :=
      hposition.index
    have hleaf := hposition.leaf_lt
    exact BitVec.eq_of_toNat_eq (show position.treeNumber.toNat = 0xffffffff by omega)
  have hempty : Represents (view (WriteTxn.mk fun _ => ∅) .commitments) Forest.empty := represents_empty
  obtain ⟨hn, txn, htxn, hreads⟩ :=
    (insertsAs hempty (show Admissible (bareNode position 0) from rfl)).fresh rfl
  obtain ⟨-, count, -, hcount, -, hle⟩ :=
    hposition.counted ⟨fun _ => ∅⟩ txn [] (bareNode position 0) rfl rfl htxn
  obtain ⟨count', hcount', hheight⟩ := hreads.treeCount
  rw [hcount] at hcount'
  cases hcount'
  have hzero : count.toNat = 0 := by
    have hbefore : Forest.empty.count = 0 :=
      Height.height_eq (Height.isHeight_empty fun p ⟨_, _, _, _, hsome⟩ => nomatch hsome)
    rw [hheight.unique (Forest.isHeight_count _), Forest.count_store, hbefore]
    show max 0 (position.treeNumber + 1).toNat = 0
    rw [hlast]
    rfl
  omega

end Railgun
