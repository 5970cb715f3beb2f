import Railgun.Impl.PoseidonT3
import Railgun.Proof.Accumulator
import Railgun.Proof.Walk
import Railgun.Spec.Windows

/-!
# What a root says of the stored leaves

The hash of a pair takes each word modulo the scalar field (`hash_eq`). Where
Poseidon has no collision between two trees, their roots are equal exactly when
their leaves are equal modulo the field (`root_eq_iff`). So a root certifies
the stored words except where others stand for the same field elements
(`root_certifies_iff`): a stored hash and the same hash plus the order of the
field have one root (`root_certifies_less`).
-/

namespace Railgun

open HashTree MerkleAccumulator

/-- The hash of a pair of field elements. -/
def pairHash (tables : PoseidonTables) (a b : Fr) : Fr :=
  match poseidonHash tables [a, b] with
  | .ok hash => hash
  | .error _ => 0

theorem scalarField_lt : scalarField < 2 ^ 256 := by decide

theorem hash_eq (tables : PoseidonTables) (left right : U256) :
    (railgunMerkleConfig tables).hash left right =
      BitVec.ofNat 256 (pairHash tables (fieldOf left) (fieldOf right)).val := by
  simp only [railgunMerkleConfig]
  rw [hashFieldInputs, if_neg (by simp [maxPoseidonInputs]), pairHash,
    show [left, right].map (fun input => Fin.ofNat scalarField input.toNat) =
      [fieldOf left, fieldOf right] from rfl]
  cases poseidonHash tables [fieldOf left, fieldOf right] <;> rfl

theorem fieldOf_ofNat (x : Fr) : fieldOf (BitVec.ofNat 256 x.val) = x := by
  refine Fin.ext ?_
  show (BitVec.ofNat 256 x.val).toNat % scalarField = x.val
  rw [BitVec.toNat_ofNat, Nat.mod_eq_of_lt (Nat.lt_trans x.isLt scalarField_lt),
    Nat.mod_eq_of_lt x.isLt]

theorem fieldOf_hash (tables : PoseidonTables) (left right : U256) :
    fieldOf ((railgunMerkleConfig tables).hash left right) =
      pairHash tables (fieldOf left) (fieldOf right) := by
  rw [hash_eq, fieldOf_ofNat]

theorem hash_congr (tables : PoseidonTables) {a a' b b' : U256} (ha : SameField a a')
    (hb : SameField b b') :
    (railgunMerkleConfig tables).hash a b = (railgunMerkleConfig tables).hash a' b' := by
  rw [hash_eq, hash_eq, ha, hb]

theorem SameField.hash (tables : PoseidonTables) {a a' b b' : U256} (ha : SameField a a')
    (hb : SameField b b') :
    SameField ((railgunMerkleConfig tables).hash a b) ((railgunMerkleConfig tables).hash a' b') :=
  congrArg fieldOf (hash_congr tables ha hb)

/-- Leaf values that are the same in the field have one root: every leaf is hashed. -/
theorem root_same (tables : PoseidonTables) {f g : Nat → U256} (h : ∀ i, i < 2 ^ 16 → SameField (f i) (g i)) :
    root (railgunMerkleConfig tables).hash railgunTreeDepth f =
      root (railgunMerkleConfig tables).hash railgunTreeDepth g := by
  have hleft : ∀ i, i < 2 ^ 15 → SameField _ _ := fun i hi => h i (Nat.lt_trans hi (by decide))
  have hright : ∀ i, i < 2 ^ 15 → SameField _ _ :=
    fun i hi => h (2 ^ 15 + i) (show 2 ^ 15 + i < 2 ^ 16 by omega)
  exact hash_congr tables (root_respects (.hash tables) hleft) (root_respects (.hash tables) hright)

/-- So have two accumulators. -/
theorem accumulator_same (tables : PoseidonTables) {leaves leaves' : List U256}
    (hlen : leaves.length ≤ 2 ^ 16) (hlen' : leaves'.length ≤ 2 ^ 16)
    (h : ∀ i, SameField (leafAt (railgunMerkleConfig tables) leaves i)
      (leafAt (railgunMerkleConfig tables) leaves' i)) :
    ((new : MerkleAccumulator (railgunMerkleConfig tables)).insertAll leaves).root =
      ((new : MerkleAccumulator (railgunMerkleConfig tables)).insertAll leaves').root := by
  have hroot : ∀ {l : List U256}, l.length ≤ 2 ^ 16 →
      ((new : MerkleAccumulator (railgunMerkleConfig tables)).insertAll l).root =
        root (railgunMerkleConfig tables).hash railgunTreeDepth (leafAt (railgunMerkleConfig tables) l) :=
    fun {l} hl => (summarizes_insertAll (show 16 < 64 by decide) l summarizes_new
      (by rwa [List.nil_append])).root
  rw [hroot hlen, hroot hlen']
  exact root_same tables fun i _ => h i

/-- The subtree of a tree of leaf values. -/
def subtree (tables : PoseidonTables) (leaves : List U256) (level k : Nat) : U256 :=
  node (railgunMerkleConfig tables).hash (leafAt (railgunMerkleConfig tables) leaves) level k

/-- No collision of Poseidon between two trees: wherever the two pairs at one
place have one hash, they are one pair of field elements. -/
def CollisionFree (tables : PoseidonTables) (leaves leaves' : List U256) : Prop :=
  ∀ level k, level < railgunTreeDepth →
    pairHash tables (fieldOf (subtree tables leaves level (2 * k)))
        (fieldOf (subtree tables leaves level (2 * k + 1))) =
      pairHash tables (fieldOf (subtree tables leaves' level (2 * k)))
        (fieldOf (subtree tables leaves' level (2 * k + 1))) →
    SameField (subtree tables leaves level (2 * k)) (subtree tables leaves' level (2 * k)) ∧
    SameField (subtree tables leaves level (2 * k + 1)) (subtree tables leaves' level (2 * k + 1))

/-- The root of the tree of some leaf values. -/
def rootOf (tables : PoseidonTables) (leaves : List U256) : U256 :=
  root (railgunMerkleConfig tables).hash railgunTreeDepth (leafAt (railgunMerkleConfig tables) leaves)

theorem subtree_succ (tables : PoseidonTables) (leaves : List U256) (level k : Nat) :
    subtree tables leaves (level + 1) k = BitVec.ofNat 256
      (pairHash tables (fieldOf (subtree tables leaves level (2 * k)))
        (fieldOf (subtree tables leaves level (2 * k + 1)))).val := by
  rw [subtree, node_succ, hash_eq]
  rfl

theorem ofNat_val_inj {x y : Fr} (h : BitVec.ofNat 256 x.val = BitVec.ofNat 256 y.val) : x = y := by
  rw [← fieldOf_ofNat x, h, fieldOf_ofNat]

/-- Two full lists of leaves have one root exactly when they are the same
modulo the field, if nothing in between collides. -/
theorem root_eq_iff (tables : PoseidonTables) {leaves leaves' : List U256}
    (hlen : leaves.length = 2 ^ 16) (hlen' : leaves'.length = 2 ^ 16)
    (hfree : CollisionFree tables leaves leaves') :
    rootOf tables leaves = rootOf tables leaves' ↔ leaves.map fieldOf = leaves'.map fieldOf := by
  have hat : leaves.map fieldOf = leaves'.map fieldOf ↔ ∀ i, i < 2 ^ 16 →
      SameField (leafAt (railgunMerkleConfig tables) leaves i)
        (leafAt (railgunMerkleConfig tables) leaves' i) := by
    have hget : ∀ (l : List U256) i (hi : i < l.length),
        leafAt (railgunMerkleConfig tables) l i = l[i] := fun l i hi => by
      rw [leafAt, List.getD_eq_getElem?_getD, List.getElem?_eq_getElem hi]
      rfl
    rw [List.ext_getElem_iff]
    simp only [List.length_map, hlen, hlen', true_and, List.getElem_map]
    refine forall_congr' fun i => ?_
    constructor
    · intro h hi
      rw [SameField, hget leaves i (by omega), hget leaves' i (by omega)]
      exact h hi hi
    · intro h hi _
      have := h hi
      rwa [SameField, hget leaves i (by omega), hget leaves' i (by omega)] at this
  rw [hat]
  constructor
  · intro h i hi
    have hdet := leaves_of_root (d := railgunTreeDepth) (k := 0) (r := SameField)
      (f := leafAt (railgunMerkleConfig tables) leaves)
      (g := leafAt (railgunMerkleConfig tables) leaves')
      (fun l k hl he => hfree l k hl (ofNat_val_inj (by
        rw [← subtree_succ, ← subtree_succ]
        exact he)))
      (fun l k he => by
        rw [node_succ, node_succ, SameField, fieldOf_hash, fieldOf_hash] at he
        rw [node_succ, node_succ, hash_eq, hash_eq, he])
      (by rw [node_top, node_top]; exact congrArg fieldOf h) i hi
    simpa only [Nat.zero_mul, Nat.zero_add] using hdet
  · exact root_same tables

/-! ## Stores -/

/-- The leaf hashes of a tree, padded with the empty leaf to its capacity. -/
def paddedLeaves (writes : List Write) (t : U32) : List U256 := denseLeaves writes t (2 ^ 16)

/-- Words that differ, though only by multiples of the order of the field. -/
def Ambiguous (leaves leaves' : List U256) : Prop :=
  leaves ≠ leaves' ∧ leaves.map fieldOf = leaves'.map fieldOf

theorem leafAt_denseLeaves {C : MerkleConfig} {writes : List Write} {t : U32} {n i : Nat} (hi : i < n) :
    leafAt C (denseLeaves writes t n) i = (storedHash writes t i).getD railgunMerkleZero := by
  rw [leafAt, denseLeaves, List.getD_eq_getElem?_getD, List.getElem?_map, List.getElem?_range hi]
  rfl

theorem length_paddedLeaves (writes : List Write) (t : U32) :
    (paddedLeaves writes t).length = 2 ^ 16 := by
  rw [paddedLeaves, denseLeaves, List.length_map, List.length_range]

section
variable (tables : PoseidonTables)

/-- The walk's root is that of the padded leaves. -/
theorem root_accumulator (writes : List Write) (t : U32) :
    ((Forest.empty.run writes).2.accumulator tables t).root = rootOf tables (paddedLeaves writes t) := by
  have hle := (Forest.empty.run writes).2.length_le t
  have hlen : ∀ n, (denseLeaves writes t n).length = n := fun n => by
    rw [denseLeaves, List.length_map, List.length_range]
  have h := summarizes_insertAll (C := railgunMerkleConfig tables) (show 16 < 64 by decide)
    (denseLeaves writes t ((Forest.empty.run writes).2.length t)) summarizes_new
    (by rw [List.nil_append, hlen]; exact hle)
  rw [Forest.accumulator, firstLeaves_run tables hle, h.root]
  refine root_congr fun i hi => ?_
  have hi : i < 2 ^ 16 := hi
  rw [paddedLeaves, leafAt_denseLeaves hi, List.nil_append]
  by_cases hlt : i < (Forest.empty.run writes).2.length t
  · exact leafAt_denseLeaves hlt
  · have hnone : storedHash writes t i = none := by
      rw [← leaf_run (by omega), Option.map_eq_none_iff, ← Option.not_isSome_iff_eq_none]
      exact fun hs => hlt (((Forest.empty.run writes).2.isHeight_length t).lt i hs)
    rw [hnone, leafAt, List.getD_eq_getElem?_getD, List.getElem?_eq_none (by rw [hlen]; omega)]
    rfl

theorem walk_root {R : Type} [Reader R] [LawfulReader R] (reader : R) (writes : List Write)
    (hreads : view reader .commitments = (runWrites (WriteTxn.mk fun _ => ∅) writes).2.inner .commitments)
    (t : U32) : ∃ acc n missing, treeFrontier tables reader t = .ok (acc, n, missing) ∧
      acc.root = rootOf tables (paddedLeaves writes t) :=
  ⟨_, _, _, treeFrontier_spec tables (represents_run hreads) t, root_accumulator tables writes t⟩

variable {tables}

theorem storedHash_mem {writes : List Write} {t : U32} {p : Nat} {hash : CommitmentHash}
    (h : storedHash writes t p = some hash) : ∃ n, .node n ∈ writes ∧ n.hash = hash := by
  obtain ⟨n, hn, rfl⟩ := Option.map_eq_some_iff.mp h
  exact ⟨n, Forest.firstNode_mem hn, rfl⟩

/-- Words below the order of the field stand for themselves. -/
theorem not_ambiguous_of_reduced {writes writes' : List Write} {t : U32}
    (h : ∀ n, .node n ∈ writes ++ writes' → n.hash.toNat < scalarField) :
    ¬ Ambiguous (paddedLeaves writes t) (paddedLeaves writes' t) := by
  have hlt : ∀ ws : List Write, (∀ n, .node n ∈ ws → n.hash.toNat < scalarField) →
      ∀ p, ((storedHash ws t p).getD railgunMerkleZero).toNat < scalarField := by
    intro ws hws p
    cases hs : storedHash ws t p with
    | none => exact (by decide : railgunMerkleZero.toNat < scalarField)
    | some hash =>
      obtain ⟨n, hn, rfl⟩ := storedHash_mem hs
      exact hws n hn
  have hinj : ∀ a b : U256, a.toNat < scalarField → b.toNat < scalarField → fieldOf a = fieldOf b →
      a = b := fun a b ha hb hab => by
    have hval : a.toNat % scalarField = b.toNat % scalarField := congrArg Fin.val hab
    rw [Nat.mod_eq_of_lt ha, Nat.mod_eq_of_lt hb] at hval
    exact BitVec.eq_of_toNat_eq hval
  rintro ⟨hne, hsame⟩
  rw [paddedLeaves, paddedLeaves] at hne hsame
  generalize 2 ^ 16 = m at hne hsame
  rw [denseLeaves, denseLeaves, List.map_map, List.map_map, List.map_inj_left] at hsame
  refine hne (List.map_congr_left fun p hp => hinj _ _ ?_ ?_ (hsame p hp))
  · exact hlt writes (fun n hn => h n (List.mem_append_left _ hn)) p
  · exact hlt writes' (fun n hn => h n (List.mem_append_right _ hn)) p

/-- Two stores whose trees have one root hold the same hashes, and so does a
store that validates against the other's root, exactly when they do not hold
different words for the same field elements; as they do not when every hash is
below the order of the field. -/
theorem root_certifies_iff (tables : PoseidonTables) {R R' : Type} [Reader R] [LawfulReader R]
    [Reader R'] [LawfulReader R'] (reader : R) (reader' : R') (writes writes' : List Write)
    (hreads : view reader .commitments = (runWrites (WriteTxn.mk fun _ => ∅) writes).2.inner .commitments)
    (hreads' : view reader' .commitments =
      (runWrites (WriteTxn.mk fun _ => ∅) writes').2.inner .commitments) (t : U32)
    (hfree : CollisionFree tables (paddedLeaves writes t) (paddedLeaves writes' t)) :
    ((∀ acc n missing acc' n' missing', treeFrontier tables reader t = .ok (acc, n, missing) →
        treeFrontier tables reader' t = .ok (acc', n', missing') → acc.root = acc'.root →
        paddedLeaves writes t = paddedLeaves writes' t) ↔
      ¬ Ambiguous (paddedLeaves writes t) (paddedLeaves writes' t)) ∧
    ((∀ acc' n' missing' integrity, treeFrontier tables reader' t = .ok (acc', n', missing') →
        validate tables reader t (fun _ _ root => root = acc'.root) = .ok integrity →
        integrity.valid = true → paddedLeaves writes t = paddedLeaves writes' t) ↔
      ¬ Ambiguous (paddedLeaves writes t) (paddedLeaves writes' t)) ∧
    ((∀ n, .node n ∈ writes ++ writes' → n.hash.toNat < scalarField) →
      ¬ Ambiguous (paddedLeaves writes t) (paddedLeaves writes' t)) := by
  obtain ⟨acc, n, missing, hwalk, hroot⟩ := walk_root tables reader writes hreads t
  obtain ⟨acc', n', missing', hwalk', hroot'⟩ := walk_root tables reader' writes' hreads' t
  have hiff := root_eq_iff tables (length_paddedLeaves writes t) (length_paddedLeaves writes' t) hfree
  rw [← hroot, ← hroot'] at hiff
  have hproperty : (acc.root = acc'.root → paddedLeaves writes t = paddedLeaves writes' t) ↔
      ¬ Ambiguous (paddedLeaves writes t) (paddedLeaves writes' t) := by
    rw [hiff, Ambiguous, not_and', not_not]
  refine ⟨?_, ?_, not_ambiguous_of_reduced⟩
  · rw [← hproperty]
    constructor
    · exact fun h => h acc n missing acc' n' missing' hwalk hwalk'
    · intro h acc₁ n₁ missing₁ acc₂ n₂ missing₂ h₁ h₂
      obtain ⟨rfl, -⟩ := Prod.mk.inj (Except.ok.inj (hwalk.symm.trans h₁))
      obtain ⟨rfl, -⟩ := Prod.mk.inj (Except.ok.inj (hwalk'.symm.trans h₂))
      exact h
  · have hvalidate : validate tables reader t (fun _ _ root => root = acc'.root) =
        .ok ⟨t, n, acc.root, missing, acc.root = acc'.root⟩ := by
      rw [validate, walkUp, hwalk]
      rfl
    rw [← hproperty]
    constructor
    · exact fun h he => h acc' n' missing' _ hwalk' hvalidate (decide_eq_true he)
    · intro h acc₂ n₂ missing₂ integrity h₂ hv hvalid
      obtain ⟨rfl, -⟩ := Prod.mk.inj (Except.ok.inj (hwalk'.symm.trans h₂))
      obtain rfl := Except.ok.inj (hvalidate.symm.trans hv)
      exact h (of_decide_eq_true hvalid)

theorem storedHash_single {n : Node} (hn : Admissible n) (t : U32) (p : Nat) :
    storedHash [.node n] t p =
      if n.position.treeNumber = t ∧ n.position.leafIndex = BitVec.ofNat 32 p then some n.hash
      else none := by
  rw [storedHash, firstNode]
  by_cases h : n.position.treeNumber = t ∧ n.position.leafIndex = BitVec.ofNat 32 p
  · rw [if_pos ⟨h.1, h.2, hn⟩, if_pos h]
    rfl
  · rw [if_neg fun h' => h ⟨h'.1, h'.2.1⟩, if_neg h]
    rfl

/-- Trees of the same field elements have no collisions between them. -/
theorem collisionFree_of_same {leaves leaves' : List U256}
    (h : ∀ i, SameField (leafAt (railgunMerkleConfig tables) leaves i)
      (leafAt (railgunMerkleConfig tables) leaves' i)) : CollisionFree tables leaves leaves' := by
  have hsub : ∀ level k, SameField (subtree tables leaves level k) (subtree tables leaves' level k) :=
    fun level k => root_respects (.hash tables) fun i _ => h _
  exact fun level k _ _ => ⟨hsub level _, hsub level _⟩

/-- One leaf at the first position, of a hash and of the hash plus the order of
the field. -/
def lowLeaf : Write := .node (bareNode ⟨0, 0, zero_lt_capacity⟩ 1)

def highLeaf : Write := .node (bareNode ⟨0, 0, zero_lt_capacity⟩ (BitVec.ofNat 256 (1 + scalarField)))

theorem stored_same (p : Nat) :
    SameField ((storedHash [lowLeaf] 0 p).getD railgunMerkleZero)
      ((storedHash [highLeaf] 0 p).getD railgunMerkleZero) := by
  rw [lowLeaf, highLeaf, storedHash_single (by decide), storedHash_single (by decide)]
  by_cases hp : (0 : U32) = BitVec.ofNat 32 p
  · rw [if_pos ⟨rfl, hp⟩, if_pos ⟨rfl, hp⟩]
    decide
  · rw [if_neg fun h => hp h.2, if_neg fun h => hp h.2]
    rfl

theorem padded_collisionFree :
    CollisionFree tables (paddedLeaves [lowLeaf] 0) (paddedLeaves [highLeaf] 0) := by
  refine collisionFree_of_same fun i => ?_
  by_cases hi : i < 2 ^ 16
  · rw [paddedLeaves, paddedLeaves, leafAt_denseLeaves hi, leafAt_denseLeaves hi]
    exact stored_same i
  · have hnone : ∀ write, leafAt (railgunMerkleConfig tables) (paddedLeaves [write] 0) i =
        railgunMerkleZero := fun write => by
      rw [leafAt, List.getD_eq_getElem?_getD,
        List.getElem?_eq_none (by rw [length_paddedLeaves]; omega)]
      rfl
    rw [hnone, hnone]
    rfl

theorem padded_ambiguous : Ambiguous (paddedLeaves [lowLeaf] 0) (paddedLeaves [highLeaf] 0) := by
  refine ⟨fun h => ?_, ?_⟩
  · have hfirst := congrArg (leafAt (railgunMerkleConfig poseidonTables) · 0) h
    simp only [paddedLeaves] at hfirst
    rw [leafAt_denseLeaves (by decide), leafAt_denseLeaves (by decide)] at hfirst
    revert hfirst
    decide
  · rw [paddedLeaves, paddedLeaves]
    generalize 2 ^ 16 = m
    rw [denseLeaves, denseLeaves, List.map_map, List.map_map]
    exact List.map_congr_left fun p _ => stored_same p

end

/-- The parameters of the code: one leaf hash and the same plus the order of the
field give one root. -/
theorem root_certifies_one :
    let reader (write : Write) : WriteTxn := (runWrites (WriteTxn.mk fun _ => ∅) [write]).2
    ¬ ∀ acc n missing acc' n' missing',
      treeFrontier poseidonTables (reader lowLeaf) 0 = .ok (acc, n, missing) →
      treeFrontier poseidonTables (reader highLeaf) 0 = .ok (acc', n', missing') →
      acc.root = acc'.root → paddedLeaves [lowLeaf] 0 = paddedLeaves [highLeaf] 0 := by
  intro reader h
  exact (root_certifies_iff poseidonTables (reader lowLeaf) (reader highLeaf) [lowLeaf] [highLeaf]
    rfl rfl 0 padded_collisionFree).1.mp h padded_ambiguous

/-- A root is not that of one sequence of words alone, though nothing collides. -/
theorem root_certifies_less :
    ¬ ∀ (tables : PoseidonTables) (txn txn' : WriteTxn) (writes writes' : List Write) (t : U32),
      txn = (runWrites (WriteTxn.mk fun _ => ∅) writes).2 →
      txn' = (runWrites (WriteTxn.mk fun _ => ∅) writes').2 →
      CollisionFree tables (paddedLeaves writes t) (paddedLeaves writes' t) →
      ∀ acc n missing acc' n' missing', treeFrontier tables txn t = .ok (acc, n, missing) →
        treeFrontier tables txn' t = .ok (acc', n', missing') → acc.root = acc'.root →
        paddedLeaves writes t = paddedLeaves writes' t := by
  intro h
  obtain ⟨acc, n, missing, hwalk, hroot⟩ := walk_root poseidonTables
    (runWrites (WriteTxn.mk fun _ => ∅) [lowLeaf]).2 [lowLeaf] rfl 0
  obtain ⟨acc', n', missing', hwalk', hroot'⟩ := walk_root poseidonTables
    (runWrites (WriteTxn.mk fun _ => ∅) [highLeaf]).2 [highLeaf] rfl 0
  have hsame := (root_eq_iff poseidonTables (length_paddedLeaves ..)
    (length_paddedLeaves ..) padded_collisionFree).mpr padded_ambiguous.2
  exact padded_ambiguous.1 (h poseidonTables _ _ [lowLeaf] [highLeaf] 0 rfl rfl padded_collisionFree
    acc n missing acc' n' missing' hwalk hwalk' (hroot.trans (hsame.trans hroot'.symm)))

end Railgun
