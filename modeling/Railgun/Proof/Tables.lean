import Railgun.Impl.Merkle
import Railgun.Proof.Store

/-!
# Typed reads and views

Every typed read of a lawful reader is a function of the tables it shows, and
every mutator changes those tables in the same way. So two stores that show
the same tables answer alike, call for call: this is where the three kinds of
reader and the two kinds of writer are identified once and for all.
-/

namespace Railgun

open OrdMap Outcome BigEndian

section
variable {R : Type} [Reader R] [LawfulReader R] (r : R)

theorem get_ok (table : TableId) (key : Bytes) :
    Reader.get r table key = .ok (view r table)[key]? := LawfulReader.get_eq r table key

theorem treeLength_eq (tree : U32) :
    Commitments.treeLength r tree = decodeU32 (view r .commitments)[lengthKey tree]? := by
  rw [Commitments.treeLength, get_ok]; rfl

theorem treeCount_eq :
    Commitments.treeCount r = decodeU32 (view r .commitments)[treeCountKey]? := by
  rw [Commitments.treeCount, get_ok]; rfl

theorem snapshot_eq (tree : U32) :
    Frontier.snapshot r tree = .ok (view r .frontier)[beBytes 4 tree]? := by
  rw [Frontier.snapshot, get_ok]

theorem isNullified_eq (tree : U32) (nullifier : Nullifier) :
    Commitments.isNullified r tree nullifier =
      .ok (view r .commitments)[nullifierKey tree nullifier]?.isSome := by
  rw [Commitments.isNullified, get_ok]; rfl

/-- The entries of a tree's commitments, in key order. -/
def commitmentEntries (tables : Tables) (tree : U32) : List Entry :=
  scan (tables .commitments) (commitmentKey tree 0) (commitmentKey tree (BitVec.allOnes 32))

/-- Commitment keys are ordered by tree, then by position. -/
theorem compare_commitmentKey (t t' p p' : U32) :
    compare (commitmentKey t p) (commitmentKey t' p') =
      (compare t.toNat t'.toNat).then (compare p.toNat p'.toNat) := by
  rw [commitmentKey, commitmentKey, List.compare_cons_cons, Std.ReflOrd.compare_self,
    Ordering.eq_then, compare_append (by simp), compare_beBytes (by decide),
    compare_beBytes (by decide)]

theorem commitmentKey_ordered (tree : U32) :
    compare (commitmentKey tree 0) (commitmentKey tree (BitVec.allOnes 32)) ≠ .gt := by
  rw [compare_commitmentKey, Std.ReflOrd.compare_self, Ordering.eq_then]
  decide

theorem nodes_ok (tree : U32) : ∃ nodes, Commitments.nodes r tree = .ok nodes ∧
    nodes.toList = (commitmentEntries (view r) tree).map fun e => Nodes.item (.ok e) := by
  obtain ⟨iter, hi, hr⟩ := LawfulReader.range_eq r .commitments _ _ (commitmentKey_ordered tree)
  refine ⟨⟨iter⟩, by rw [Commitments.nodes, hi]; rfl, ?_⟩
  rw [Nodes.toList, RangeIter.toList_eq, hr, List.map_map]
  rfl

theorem leafHashes_ok (tree : U32) : ∃ hashes, Commitments.leafHashes r tree = .ok hashes ∧
    hashes.toList = (commitmentEntries (view r) tree).map fun e => LeafHashes.item (.ok e) := by
  obtain ⟨iter, hi, hr⟩ := LawfulReader.range_eq r .commitments _ _ (commitmentKey_ordered tree)
  refine ⟨⟨iter⟩, by rw [Commitments.leafHashes, hi]; rfl, ?_⟩
  rw [LeafHashes.toList, RangeIter.toList_eq, hr, List.map_map]
  rfl

end

end Railgun
