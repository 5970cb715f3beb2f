import Railgun.Framework.HashTree
import Railgun.Proof.Merkle

/-!
# The accumulator computes the tree

After `n` leaves the accumulator holds, for each bit set in `n`, the finished
subtree of that level; what it holds elsewhere is stale and never read before
it is written again (`Summarizes`). A leaf climbs through them to the root of the
tree whose later leaves are empty (`summarizes_insert`), so the streaming root is
the root of the tree as it is defined by recursion, wherever the stream was
cut and resumed (`insert_computes_root`).
-/

namespace Railgun

open HashTree

namespace MerkleAccumulator

variable {C : MerkleConfig}

/-! ## Empty subtrees -/

theorem emptyRoot_succ (hash : U256 → U256 → U256) (z : U256) : ∀ l,
    emptyRoot hash (hash z z) l = emptyRoot hash z (l + 1)
  | 0 => rfl
  | l + 1 => by rw [emptyRoot, emptyRoot_succ hash z l]; rfl

theorem getD_zeroLevels : ∀ (n : Nat) (z : U256) (l : Nat), l < n →
    (zeroLevels C n z).getD l 0 = emptyRoot C.hash z l
  | n + 1, z, 0, _ => rfl
  | n + 1, z, l + 1, h => by
    rw [zeroLevels, List.getD_cons_succ, getD_zeroLevels n _ l (by omega), emptyRoot_succ]

theorem getD_zeros (acc : MerkleAccumulator C) {l : Nat} (h : l ≤ C.depth) :
    acc.zeros.getD l 0 = emptyRoot C.hash C.zero l := by
  rw [acc.zeros_eq]
  exact getD_zeroLevels _ _ _ (by omega)

/-! ## The climb -/

/-- The leaf values of a tree whose first leaves are given. -/
def leafAt (C : MerkleConfig) (leaves : List U256) (i : Nat) : U256 := leaves.getD i C.zero

/-- The accumulator of some first leaves. -/
structure Summarizes (acc : MerkleAccumulator C) (leaves : List U256) : Prop where
  nextIndex : acc.nextIndex.toNat = leaves.length
  frontier : Frontier C.hash (leafAt C leaves) C.depth leaves.length (acc.filledSubtrees.getD · 0)
  root : acc.root = HashTree.root C.hash C.depth (leafAt C leaves)

theorem getD_set {l : List U256} {i : Nat} (h : i < l.length) (a : U256) (j : Nat) :
    (l.set i a).getD j 0 = if j = i then a else l.getD j 0 := by
  rw [List.getD_eq_getElem?_getD, List.getElem?_set, List.getD_eq_getElem?_getD]
  by_cases hji : j = i
  · rw [if_pos hji.symm, if_pos h, if_pos hji]
    rfl
  · rw [if_neg (Ne.symm hji), if_neg hji]

theorem even_iff (x : U64) : x &&& 1 = 0 ↔ x.toNat % 2 = 0 := by
  rw [← BitVec.toNat_inj, BitVec.toNat_and]
  show x.toNat &&& 1 = 0 ↔ _
  rw [Nat.and_one_is_mod]

/-- Where a leaf has come to after so many levels: it is the subtree it lies
in, and is left behind at each level where it is on the left. -/
structure Climbed (f : Nat → U256) (acc : MerkleAccumulator C) (levels : Nat) (climb : Climb) :
    Prop where
  index : climb.index.toNat = acc.nextIndex.toNat / 2 ^ levels
  current : climb.current = node C.hash f levels (acc.nextIndex.toNat / 2 ^ levels)
  length : climb.filledSubtrees.length = C.depth
  filled : ∀ l, l < C.depth → climb.filledSubtrees.getD l 0 =
    if l < levels ∧ acc.nextIndex.toNat / 2 ^ l % 2 = 0
    then node C.hash f l (acc.nextIndex.toNat / 2 ^ l) else acc.filledSubtrees.getD l 0

/-- One level up. -/
theorem climbed_level {f : Nat → U256} {acc : MerkleAccumulator C} {level : Nat} {climb : Climb}
    (hlevel : level < C.depth) (hempty : ∀ i, acc.nextIndex.toNat < i → f i = C.zero)
    (hfrontier : Frontier C.hash f C.depth acc.nextIndex.toNat (acc.filledSubtrees.getD · 0))
    (h : Climbed f acc level climb) : Climbed f acc (level + 1) (climb.level (C := C) acc.zeros level) := by
  have hhalf : acc.nextIndex.toNat / 2 ^ level / 2 = acc.nextIndex.toNat / 2 ^ (level + 1) := by
    rw [Nat.div_div_eq_div_mul, Nat.pow_succ]
  have hindex : (climb.index >>> 1).toNat = acc.nextIndex.toNat / 2 ^ (level + 1) := by
    rw [BitVec.toNat_ushiftRight, Nat.shiftRight_eq_div_pow, h.index, Nat.pow_one, hhalf]
  rw [Climb.level]
  split
  -- A left child: everything to its right is empty.
  · rename_i heven
    rw [even_iff, h.index] at heven
    have hright : acc.zeros.getD level 0 =
        node C.hash f level (acc.nextIndex.toNat / 2 ^ level + 1) := by
      rw [acc.getD_zeros (Nat.le_of_lt hlevel)]
      refine (node_empty (n := acc.nextIndex.toNat + 1) (fun i hi => hempty i hi) ?_).symm
      rw [Nat.mul_comm]
      exact Nat.lt_mul_div_succ _ (Nat.two_pow_pos level)
    refine ⟨hindex, ?_, by rw [List.length_set, h.length], fun l hl => ?_⟩
    · rw [h.current, hright]
      exact (node_of_even heven).trans (by rw [hhalf])
    · rw [getD_set (by rw [h.length]; exact hlevel)]
      by_cases hl' : l = level
      · subst hl'
        rw [if_pos rfl, if_pos ⟨Nat.lt_succ_self l, heven⟩, h.current]
      · rw [if_neg hl', h.filled l hl]
        exact if_congr (and_congr_left' (by omega)) rfl rfl
  -- A right child: its sibling is finished.
  · rename_i hodd
    rw [even_iff, h.index] at hodd
    have hone : acc.nextIndex.toNat / 2 ^ level % 2 = 1 := by
      generalize acc.nextIndex.toNat / 2 ^ level = k at hodd
      omega
    have hleft := h.filled level hlevel
    rw [if_neg fun hlt => Nat.lt_irrefl _ hlt.1] at hleft
    refine ⟨hindex, ?_, h.length, fun l hl => ?_⟩
    · rw [hleft, h.current]
      rw [show acc.filledSubtrees.getD level 0 = _ from hfrontier level hlevel hone]
      exact (node_of_odd hone).trans (by rw [hhalf])
    · rw [h.filled l hl]
      refine if_congr ?_ rfl rfl
      by_cases hl' : l = level
      · subst hl'
        exact iff_of_false (fun hlt => Nat.lt_irrefl _ hlt.1) (fun hlt => hodd hlt.2)
      · exact and_congr_left' (by omega)

theorem climbed_climb {f : Nat → U256} {acc : MerkleAccumulator C}
    (hempty : ∀ i, acc.nextIndex.toNat < i → f i = C.zero)
    (hfrontier : Frontier C.hash f C.depth acc.nextIndex.toNat (acc.filledSubtrees.getD · 0)) :
    ∀ levels : Nat, levels ≤ C.depth →
    Climbed f acc levels (acc.climb (f acc.nextIndex.toNat) levels)
  | 0, _ => by
    refine ⟨?_, ?_, acc.depth_eq, fun l _ => ?_⟩
    · rw [Nat.pow_zero, Nat.div_one]
      rfl
    · rw [Nat.pow_zero, Nat.div_one, node_zero]
      rfl
    · rw [if_neg fun h => Nat.not_lt_zero l h.1]
      rfl
  | levels + 1, h => by
    have ih := climbed_climb hempty hfrontier levels (by omega)
    rw [climb, List.range_succ, List.foldl_append]
    exact climbed_level h hempty hfrontier ih

/-! ## Appending -/

theorem leafAt_append (leaves : List U256) (leaf : U256) (i : Nat) :
    leafAt C (leaves ++ [leaf]) i =
      if i < leaves.length then leafAt C leaves i else if i = leaves.length then leaf else C.zero := by
  simp only [leafAt, List.getD_eq_getElem?_getD]
  split
  · rename_i h
    rw [List.getElem?_append_left h]
  · rename_i h
    rw [List.getElem?_append_right (by omega)]
    split
    · rename_i he
      rw [he, Nat.sub_self]
      rfl
    · rename_i hne
      rw [List.getElem?_eq_none (by rw [List.length_singleton]; omega)]
      rfl

theorem summarizes_new : Summarizes (new : MerkleAccumulator C) [] where
  nextIndex := rfl
  frontier := fun l _ h => by rw [List.length_nil, Nat.zero_div] at h; cases h
  root := by
    have hz := getD_zeros (new : MerkleAccumulator C) (Nat.le_refl C.depth)
    have hroot : (new : MerkleAccumulator C).root = new.zeros.getD C.depth 0 := rfl
    rw [hroot, hz, ← root_empty]
    exact root_congr fun i _ => rfl

/-- A leaf appended to a tree that has room for it. -/
theorem summarizes_insert {acc : MerkleAccumulator C} {leaves : List U256} (h : Summarizes acc leaves)
    (hdepth : C.depth < 64) (hroom : leaves.length < 2 ^ C.depth) (leaf : U256) :
    Summarizes (acc.insert leaf) (leaves ++ [leaf]) := by
  have hat : leafAt C (leaves ++ [leaf]) acc.nextIndex.toNat = leaf := by
    rw [leafAt_append, h.nextIndex, if_neg (Nat.lt_irrefl _), if_pos rfl]
  have hempty : ∀ i, acc.nextIndex.toNat < i → leafAt C (leaves ++ [leaf]) i = C.zero := fun i hi => by
    rw [h.nextIndex] at hi
    rw [leafAt_append, if_neg (by omega), if_neg (by omega)]
  have hfrontier : Frontier C.hash (leafAt C (leaves ++ [leaf])) C.depth acc.nextIndex.toNat
      (acc.filledSubtrees.getD · 0) := by
    rw [h.nextIndex]
    exact h.frontier.congr fun i hi => by rw [leafAt_append, if_pos hi]
  have hclimb := climbed_climb hempty hfrontier C.depth (Nat.le_refl _)
  rw [hat] at hclimb
  have hlt : leaves.length < 2 ^ 64 :=
    Nat.lt_of_lt_of_le hroom (Nat.pow_le_pow_right (by decide) (Nat.le_of_lt hdepth))
  have hpow : 2 ^ C.depth < 2 ^ 64 := Nat.pow_lt_pow_right (by decide) hdepth
  refine ⟨?_, ?_, ?_⟩
  · show (acc.nextIndex + 1).toNat = _
    rw [BitVec.toNat_add, h.nextIndex, List.length_append, List.length_singleton]
    exact Nat.mod_eq_of_lt (show leaves.length + 1 < 2 ^ 64 by omega)
  · rw [List.length_append, List.length_singleton, ← h.nextIndex]
    refine hfrontier.append fun l hl => (hclimb.filled l hl).trans ?_
    exact if_congr (and_iff_right hl) rfl rfl
  · refine hclimb.current.trans ?_
    rw [h.nextIndex, Nat.div_eq_of_lt hroom, node_top]

theorem summarizes_insertAll (hdepth : C.depth < 64) : ∀ (leaves : List U256)
    {acc : MerkleAccumulator C} {before : List U256}, Summarizes acc before →
    (before ++ leaves).length ≤ 2 ^ C.depth → Summarizes (acc.insertAll leaves) (before ++ leaves)
  | [], acc, before, h, _ => by rwa [List.append_nil]
  | leaf :: leaves, acc, before, h, hroom => by
    rw [List.append_cons] at hroom ⊢
    rw [insertAll_cons]
    refine summarizes_insertAll hdepth leaves (summarizes_insert h hdepth ?_ leaf) hroom
    rw [List.length_append, List.length_append, List.length_singleton] at hroom
    omega

/-! ## Cuts -/

/-- Appends some leaves, then saves the accumulator and resumes from what was saved. -/
def resume (acc : MerkleAccumulator C) (leaves : List U256) :
    Except MerkleError (MerkleAccumulator C) :=
  fromState (leaves.foldl insert acc).state

theorem foldlM_resume : ∀ (chunks : List (List U256)) (acc : MerkleAccumulator C),
    chunks.foldlM resume acc = .ok (acc.insertAll chunks.flatten)
  | [], acc => rfl
  | leaves :: chunks, acc => by
    rw [List.foldlM_cons, resume, fromState_state, List.flatten_cons, insertAll_append]
    exact foldlM_resume chunks (acc.insertAll leaves)

/-- The streaming root of a tree's first leaves is the tree's root, up to the
full tree, in one go or cut and resumed anywhere. -/
theorem insert_computes_root (C : MerkleConfig) (hdepth : C.depth < 32) (leaves : List U256)
    (hroom : leaves.length ≤ 2 ^ C.depth) :
    let acc : MerkleAccumulator C := leaves.foldl insert new
    acc.len.toNat = leaves.length ∧
    acc.root = HashTree.root C.hash C.depth (fun i => leaves.getD i C.zero) ∧
    (∀ level, level < C.depth → leaves.length.testBit level →
      acc.filledSubtrees.getD level 0 = HashTree.node C.hash (fun i => leaves.getD i C.zero) level
        (leaves.length / 2 ^ level - 1)) ∧
    ∀ (chunks : List (List U256)) (last : List U256), chunks.flatten ++ last = leaves →
      ∃ resumed : MerkleAccumulator C, chunks.foldlM resume new = .ok resumed ∧
        last.foldl insert resumed = acc := by
  have h := summarizes_insertAll (by omega) leaves (summarizes_new (C := C)) hroom
  refine ⟨h.nextIndex, h.root, fun level hl hbit => h.frontier level hl ?_, fun chunks last hcut => ?_⟩
  · rw [Nat.testBit_eq_decide_div_mod_eq, decide_eq_true_iff] at hbit
    exact hbit
  · refine ⟨_, foldlM_resume chunks new, ?_⟩
    rw [← hcut]
    exact (insertAll_append new chunks.flatten last).symm

/-- The full tree of depth 2, under a hash that keeps its arguments apart. -/
theorem insert_computes_full_root :
    let C : MerkleConfig := ⟨2, fun a b => 100 * a + b, 7⟩
    (([1, 2, 3, 4] : List U256).foldl insert (new : MerkleAccumulator C)).root = 10504 := by
  intro C
  exact (insert_computes_root C (by decide) [1, 2, 3, 4] (by decide)).2.1.trans (by decide)

end MerkleAccumulator

end Railgun
