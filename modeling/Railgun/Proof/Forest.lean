import Railgun.Proof.Codec
import Railgun.Proof.Tables
import Railgun.Spec.Forest

/-!
# The commitments table is a forest

A forest says what is stored at each typed key but the counters', which are kept
apart (`Forest.record`): a table represents the forest if it stores exactly that,
with the counters that are right for it (`Represents`), and one where they lag
behind still records it (`Records`). The keys of the five namespaces never meet
(`Key.bytes_inj`), so a write under one key changes one record. Every mutator then
does to the table what its counterpart does to the forest, and raises the counters
(`insertNode_spec`), on any store that reads and writes.
-/

namespace Railgun

open OrdMap Outcome BigEndian Height

/-! ## Typed keys -/

/-- A key of the commitments table, by namespace. -/
inductive Key
  | commitment (tree position : U32)
  | nullifier (tree : U32) (nullifier : Nullifier)
  | length (tree : U32)
  | treeCount
  | syncedBlock
  deriving DecidableEq

def Key.bytes : Key → Bytes
  | .commitment tree position => commitmentKey tree position
  | .nullifier tree x => nullifierKey tree x
  | .length tree => lengthKey tree
  | .treeCount => treeCountKey
  | .syncedBlock => syncedBlockKey

theorem commitmentKey_inj {t t' p p' : U32} (h : commitmentKey t p = commitmentKey t' p') :
    t = t' ∧ p = p' := by
  have := List.append_inj (List.cons.inj h).2 (by simp)
  exact ⟨beBytes_inj (by decide) this.1, beBytes_inj (by decide) this.2⟩

theorem nullifierKey_inj {t t' : U32} {x x' : Nullifier} (h : nullifierKey t x = nullifierKey t' x') :
    t = t' ∧ x = x' := by
  have := List.append_inj (List.cons.inj h).2 (by simp)
  exact ⟨beBytes_inj (by decide) this.1, Subtype.ext this.2⟩

theorem lengthKey_inj {t t' : U32} (h : lengthKey t = lengthKey t') : t = t' :=
  beBytes_inj (by decide) (List.cons.inj h).2

/-- The byte of a key's namespace. -/
def Key.tag : Key → Byte
  | .commitment _ _ => 0x63
  | .nullifier _ _ => 0x6e
  | .length _ => 0x6d
  | .treeCount => 0x67
  | .syncedBlock => 0x73

theorem Key.head?_bytes (k : Key) : k.bytes.head? = some k.tag := by cases k <;> rfl

/-- Keys of different namespaces start with different bytes; those of one
namespace spell different numbers. -/
theorem Key.bytes_inj {a b : Key} (h : a.bytes = b.bytes) : a = b := by
  have htag : a.tag = b.tag := by
    have := a.head?_bytes
    rw [h, b.head?_bytes] at this
    exact (Option.some.inj this).symm
  cases a <;> cases b <;> simp [Key.tag] at htag
  case commitment.commitment => obtain ⟨rfl, rfl⟩ := commitmentKey_inj h; rfl
  case nullifier.nullifier => obtain ⟨rfl, rfl⟩ := nullifierKey_inj h; rfl
  case length.length => obtain rfl := lengthKey_inj h; rfl
  all_goals rfl

/-! ## Records -/

/-- A stored counter: nothing for zero. -/
def counterBytes (n : Nat) : Option Bytes :=
  if n = 0 then none else some (beBytes 4 (BitVec.ofNat 32 n))

/-- The counters a table keeps: the length of each tree, and the tree count. -/
@[ext] structure Counters where
  length : U32 → Nat
  count : Nat
  length_lt : ∀ t, length t < 2 ^ 32
  count_lt : count < 2 ^ 32

/-- The counters that are right for a forest. -/
noncomputable def Forest.counters (F : Forest) : Counters where
  length := F.length
  count := F.count
  length_lt t := by have := F.length_le t; omega
  count_lt := F.count_lt

@[simp] theorem Forest.counters_length (F : Forest) : F.counters.length = F.length := rfl

@[simp] theorem Forest.counters_count (F : Forest) : F.counters.count = F.count := rfl

/-- What a forest and counters store at a key. -/
def Forest.record (F : Forest) (k : Counters) : Key → Option Bytes
  | .commitment t p => (F.node t p.toNat).bind encodeNode
  | .nullifier t x => if F.nullified t x then some [] else none
  | .length t => counterBytes (k.length t)
  | .treeCount => counterBytes k.count
  | .syncedBlock => F.synced.map (beBytes 8)

/-- The table stores the forest and the counters, and nothing else. -/
abbrev Records (table : Table) (F : Forest) (k : Counters) : Prop := Stores Key.bytes table (F.record k)

/-- And the counters are right. -/
abbrev Represents (table : Table) (F : Forest) : Prop := Records table F F.counters

theorem decodeU32_counterBytes (n : Nat) : decodeU32 (counterBytes n) = .ok (BitVec.ofNat 32 n) := by
  rw [counterBytes]
  split
  · rename_i h
    rw [h]; rfl
  · rw [decodeU32, length_beBytes, if_pos rfl, fromBeBytes_beBytes (by decide)]

/-- A counter that is not zero is stored as it is. -/
theorem counterBytes_toNat {x : U32} (h : 0 < x.toNat) : counterBytes x.toNat = some (beBytes 4 x) := by
  rw [counterBytes, if_neg (by omega), BitVec.ofNat_toNat, BitVec.setWidth_eq]

/-- A node the forest holds is stored as its encoding. -/
theorem Forest.record_of_node {F : Forest} {k : Counters} {t p : U32} {n : Node}
    (h : F.node t p.toNat = some n) : F.record k (.commitment t p) = encodeNode n := by
  rw [record, h]; rfl

theorem represents_empty : Represents ∅ Forest.empty := by
  have hl : ∀ t, Forest.empty.length t = 0 := fun t => height_eq (isHeight_empty fun _ => nofun)
  have hc : Forest.empty.count = 0 := height_eq (isHeight_empty fun _ ⟨_, _, _, _, h⟩ => nomatch h)
  refine ⟨fun k => ?_, fun k v h => by simp at h⟩
  rw [Std.ExtTreeMap.getElem?_empty]
  cases k with
  | commitment t p => rfl
  | nullifier t x => rfl
  | length t => rw [Forest.record, Forest.counters_length, hl]; rfl
  | treeCount => rw [Forest.record, Forest.counters_count, hc]; rfl
  | syncedBlock => rfl

theorem represents_of_empty {table : Table} (h : table = ∅) : Represents table Forest.empty := by
  rw [h]
  exact represents_empty

/-- A stored counter is compared as its number. -/
theorem counter_lt {m : Nat} (hm : m < 2 ^ 32) {x : U32} : BitVec.ofNat 32 m < x ↔ m < x.toNat := by
  rw [BitVec.lt_def, BitVec.toNat_ofNat, Nat.mod_eq_of_lt hm]

theorem node_of_view {R : Type} [Reader R] [LawfulReader R] {r : R} {t p : U32} {node : Option Node}
    (h : (view r .commitments)[commitmentKey t p]? = node.bind encodeNode)
    (hn : ∀ n, node = some n → Admissible n) : Commitments.node r t p = .ok node := by
  rw [Commitments.node, get_ok, h]
  cases node with
  | none => rfl
  | some n =>
    obtain ⟨encoded, he⟩ := Option.isSome_iff_exists.mp (hn n rfl)
    simp only [Option.bind_some, he, ok_bind, decodeNode_iff.mpr he, mapError_ok]
    rfl

section
variable {R : Type} [Reader R] [LawfulReader R] {r : R} {record : Key → Option Bytes}
  (h : Stores Key.bytes (view r .commitments) record)
include h

theorem get_of_stores (k : Key) : Reader.get r .commitments k.bytes = .ok (record k) :=
  (get_ok r _ _).trans (congrArg Except.ok (h.get k))

theorem treeLength_of_stores (tree : U32) :
    Commitments.treeLength r tree = decodeU32 (record (.length tree)) :=
  (treeLength_eq r tree).trans (congrArg decodeU32 (h.get (.length tree)))

theorem node_of_stores {t p : U32} (node : Option Node)
    (hr : record (.commitment t p) = node.bind encodeNode) (hn : ∀ n, node = some n → Admissible n) :
    Commitments.node r t p = .ok node := node_of_view ((h.get (.commitment t p)).trans hr) hn

theorem treeCount_of_stores : Commitments.treeCount r = decodeU32 (record .treeCount) :=
  (treeCount_eq r).trans (congrArg decodeU32 (h.get .treeCount))

end

/-! ## Mutators -/

theorem reading_ok {σ ε α : Type} {f : σ → Except ε α} {s : σ} {x : α} (h : f s = .ok x) :
    reading f s = .ok x s := by
  rw [reading, h]

theorem reading_keeps {σ ε α : Type} {I : σ → Prop} (f : σ → Except ε α) : Keeps I (reading f) :=
  fun s h => by
    rw [reading]
    cases f s <;> exact h

theorem mapError_keeps {σ ε ε' α : Type} {I : σ → Prop} {f : ε → ε'} {m : EStateM ε σ α}
    (h : Keeps I m) : Keeps I (mapError f m) := fun s hs => by
  have := h s hs
  rw [mapError]
  cases hm : m s <;> rw [hm] at this <;> exact this

section
variable {W : Type} [Reader W] [Writer W] [LawfulWriter W]

/-- The tables but one are as they were. -/
def SameElsewhere (table : TableId) (w w' : W) : Prop :=
  ∀ table', table' ≠ table → view w' table' = view w table'

/-- A put under a typed key, if at all, changes that key's record only. -/
theorem putIf_ok {w : W} {record : Key → Option Bytes}
    (h : Stores Key.bytes (view w .commitments) record) (c : Prop) [Decidable c] (k : Key)
    (value : Bytes) : ∃ w',
      (if c then Writer.put .commitments k.bytes value else pure () : EStateM DatabaseError W Unit) w =
        .ok () w' ∧
      Stores Key.bytes (view w' .commitments)
        (fun k' => if c ∧ k' = k then some value else record k') ∧ SameElsewhere .commitments w w' := by
  by_cases hc : c
  · obtain ⟨w', hw, hv⟩ := LawfulWriter.put_eq w .commitments k.bytes value
    refine ⟨w', by rw [if_pos hc, hw], ?_, fun table ht => ?_⟩
    · simp only [hc, true_and, hv, modify_self]
      exact h.insert Key.bytes_inj k value
    · rw [hv, modify_of_ne _ ht]
  · exact ⟨w, by rw [if_neg hc]; rfl, by simpa only [hc, false_and, if_false] using h,
      fun _ _ => rfl⟩

theorem put_ok {w : W} {record : Key → Option Bytes}
    (h : Stores Key.bytes (view w .commitments) record) (k : Key) (value : Bytes) : ∃ w',
      (Writer.put .commitments k.bytes value : EStateM DatabaseError W Unit) w = .ok () w' ∧
      Stores Key.bytes (view w' .commitments) (fun k' => if k' = k then some value else record k') ∧
      SameElsewhere .commitments w w' := by
  simpa using putIf_ok h True k value

/-- Counters raised to cover a new node, where others are too low for it: a batch keeps the counters it
raises, and shows those of its base where it has none. -/
def Counters.raise (k shown : Counters) (n : Node) : Counters where
  length t :=
    if t = n.position.treeNumber ∧ shown.length t < n.position.leafIndex.toNat + 1
    then n.position.leafIndex.toNat + 1 else k.length t
  count :=
    if shown.count < (n.position.treeNumber + 1).toNat then (n.position.treeNumber + 1).toNat else k.count
  length_lt t := by
    have := k.length_lt t
    have := n.position.leaf_lt
    split <;> omega
  count_lt := by
    have := k.count_lt
    have := (n.position.treeNumber + 1).isLt
    split <;> omega

/-- The node's own tree is as long as it takes. -/
theorem Counters.length_raise (k : Counters) (n : Node) (t : U32) : (k.raise k n).length t =
    if t = n.position.treeNumber then max (k.length t) (n.position.leafIndex.toNat + 1) else k.length t := by
  simp only [raise]
  by_cases ht : t = n.position.treeNumber
  · simp only [ht, true_and, if_true]
    split <;> omega
  · simp only [ht, false_and, if_false]

theorem Counters.count_raise (k : Counters) (n : Node) :
    (k.raise k n).count = max k.count (n.position.treeNumber + 1).toNat := by
  simp only [raise]
  split <;> omega

theorem counters_store (F : Forest) (n : Node) (hn : Admissible n) :
    (F.store n hn).counters = F.counters.raise F.counters n :=
  Counters.ext (funext fun t => (F.length_store n hn t).trans (F.counters.length_raise n t).symm)
    ((F.count_store n hn).trans (F.counters.count_raise n).symm)

/-- The records after the three puts of a new node are those of the forest
with the node in its place, and of the counters raised to cover it. -/
theorem record_store {F : Forest} (k shown : Counters) {n : Node} (hn : Admissible n) {encoded : Bytes}
    (he : encodeNode n = some encoded) (key : Key) :
    (F.store n hn).record (k.raise shown n) key =
      if shown.count < (n.position.treeNumber + 1).toNat ∧ key = .treeCount then
        some (beBytes 4 (n.position.treeNumber + 1))
      else if shown.length n.position.treeNumber < (n.position.leafIndex + 1).toNat ∧
          key = .length n.position.treeNumber then
        some (beBytes 4 (n.position.leafIndex + 1))
      else if key = .commitment n.position.treeNumber n.position.leafIndex then some encoded
      else F.record k key := by
  cases key with
  | commitment t p =>
    simp only [Forest.record, Forest.store, reduceCtorEq, and_false, if_false, Key.commitment.injEq,
      BitVec.toNat_inj]
    split
    · exact he
    · rfl
  | nullifier t x =>
    simp only [reduceCtorEq, and_false, if_false]
    rfl
  | length t =>
    simp only [Forest.record, Counters.raise, reduceCtorEq, and_false, if_false, Key.length.injEq,
      ← n.position.toNat_leafIndex_succ]
    by_cases ht : t = n.position.treeNumber
    · simp only [ht, and_true, true_and]
      split
      · exact counterBytes_toNat (by omega)
      · rfl
    · simp only [ht, and_false, false_and, if_false]
  | treeCount =>
    simp only [Forest.record, Counters.raise, reduceCtorEq, and_true, and_false, if_false]
    split
    · exact counterBytes_toNat (by omega)
    · rfl
  | syncedBlock =>
    simp only [reduceCtorEq, and_false, if_false]
    rfl

section
variable {w : W} {F : Forest} {k : Counters} (hF : Records (view w .commitments) F k)
include hF

/-- A node in a free place is put there, and the counters that are too low for it are raised. -/
theorem insertNode_puts {n : Node} {encoded : Bytes} (he : encodeNode n = some encoded)
    (hat : F.nodeAt n = none) : CommitmentsMut.insertNode n w =
      (Writer.put .commitments (Key.commitment n.position.treeNumber n.position.leafIndex).bytes encoded >>=
        fun _ => (if k.length n.position.treeNumber < (n.position.leafIndex + 1).toNat then
          Writer.put .commitments (Key.length n.position.treeNumber).bytes (beBytes 4 (n.position.leafIndex + 1))
          else pure ()) >>=
        fun _ => if k.count < (n.position.treeNumber + 1).toNat then
          Writer.put .commitments Key.treeCount.bytes (beBytes 4 (n.position.treeNumber + 1))
          else pure () : EStateM DatabaseError W Unit) w := by
  have hget : Reader.get w .commitments (commitmentKey n.position.treeNumber n.position.leafIndex) =
      .ok ((F.nodeAt n).bind encodeNode) := get_of_stores hF (.commitment _ _)
  obtain ⟨w₁, hw₁, hr₁, -⟩ := put_ok hF (.commitment n.position.treeNumber n.position.leafIndex) encoded
  have hlen : Commitments.treeLength w₁ n.position.treeNumber =
      .ok (BitVec.ofNat 32 (k.length n.position.treeNumber)) :=
    (treeLength_of_stores hr₁ _).trans (decodeU32_counterBytes _)
  have hcount : Commitments.treeCount w₁ = .ok (BitVec.ofNat 32 k.count) :=
    (treeCount_of_stores hr₁).trans (decodeU32_counterBytes _)
  unfold CommitmentsMut.insertNode
  simp only [he, run_bind_of_ok (reading_ok (f := (Reader.get · .commitments _)) hget), hat, Option.bind_none]
  refine (run_bind_of_ok hw₁).trans ((run_bind_of_ok hw₁).trans ?_).symm
  rw [run_bind_of_ok (reading_ok (f := (Commitments.treeLength · _)) hlen),
    run_bind_of_ok (reading_ok (f := (Commitments.treeCount ·)) hcount),
    CommitmentsMut.raise, CommitmentsMut.raise]
  simp only [counter_lt (k.length_lt _), counter_lt k.count_lt]
  rfl

/-- Inserting a node does to the table what it does to the forest, and raises the counters. -/
theorem insertNode_spec {n : Node} (hn : Admissible n) :
    match F.nodeAt n with
    | some m =>
      CommitmentsMut.insertNode n w =
        if m = n then .ok () w
        else .error (.commitmentConflict n.position.treeNumber n.position.leafIndex) w
    | none => ∃ w', CommitmentsMut.insertNode n w = .ok () w' ∧
        Records (view w' .commitments) (F.store n hn) (k.raise k n) ∧ SameElsewhere .commitments w w' := by
  obtain ⟨encoded, he⟩ := Option.isSome_iff_exists.mp hn
  cases hat : F.nodeAt n with
  | some m =>
    have hget : Reader.get w .commitments (commitmentKey n.position.treeNumber n.position.leafIndex) =
        .ok ((F.nodeAt n).bind encodeNode) := get_of_stores hF (.commitment _ _)
    obtain ⟨existing, hm⟩ := Option.isSome_iff_exists.mp (F.admissible hat)
    have heq : existing = encoded ↔ m = n :=
      ⟨fun h => encodeNode_inj hm (h ▸ he), fun h => Option.some.inj (hm.symm.trans (h ▸ he))⟩
    unfold CommitmentsMut.insertNode
    simp only [he, run_bind_of_ok (reading_ok (f := (Reader.get · .commitments _)) hget), hat, Option.bind_some,
      hm, heq]
    split <;> rfl
  | none =>
    obtain ⟨w₁, hw₁, hr₁, hs₁⟩ :=
      put_ok hF (.commitment n.position.treeNumber n.position.leafIndex) encoded
    obtain ⟨w₂, hw₂, hr₂, hs₂⟩ := putIf_ok hr₁
      (k.length n.position.treeNumber < (n.position.leafIndex + 1).toNat)
      (.length n.position.treeNumber) (beBytes 4 (n.position.leafIndex + 1))
    obtain ⟨w₃, hw₃, hr₃, hs₃⟩ := putIf_ok hr₂ (k.count < (n.position.treeNumber + 1).toNat)
      .treeCount (beBytes 4 (n.position.treeNumber + 1))
    refine ⟨w₃, ?_, hr₃.congr fun key => (record_store k k hn he key).symm, fun table h =>
      (hs₃ table h).trans ((hs₂ table h).trans (hs₁ table h))⟩
    exact (insertNode_puts hF he hat).trans
      ((run_bind_of_ok hw₁).trans ((run_bind_of_ok hw₂).trans hw₃))

theorem insertNullifier_spec (x : Nullified) : ∃ w', CommitmentsMut.insertNullifier x w = .ok () w' ∧
    Records (view w' .commitments) (F.insertNullifier x) k ∧ SameElsewhere .commitments w w' := by
  obtain ⟨w', hw, hr, hs⟩ := put_ok hF (.nullifier x.treeNumber x.nullifier) []
  refine ⟨w', hw, hr.congr fun key => ?_, hs⟩
  cases key with
  | nullifier t y =>
    simp only [Forest.record, Forest.insertNullifier, Key.nullifier.injEq]
    split <;> simp
  | _ => rfl

theorem setSyncedBlock_spec (block : BlockNumber) : ∃ w', CommitmentsMut.setSyncedBlock block w = .ok () w' ∧
    Records (view w' .commitments) (F.setSyncedBlock block) k ∧ SameElsewhere .commitments w w' := by
  obtain ⟨w', hw, hr, hs⟩ := put_ok hF .syncedBlock (beBytes 8 block)
  refine ⟨w', hw, hr.congr fun key => ?_, hs⟩
  cases key <;> rfl

end

end

/-! ## Reads -/

theorem isLE_compare_then {a b : Nat} {o : Ordering} :
    ((compare a b).then o).isLE ↔ a < b ∨ a = b ∧ o.isLE := by
  rcases Nat.lt_trichotomy a b with h | h | h
  · rw [Nat.compare_eq_lt.mpr h]
    simp [h]
  · rw [Nat.compare_eq_eq.mpr h, Ordering.eq_then]
    simp [h]
  · rw [Nat.compare_eq_gt.mpr h]
    simp only [Ordering.then, Ordering.isLE, Bool.false_eq_true, false_iff]
    omega

/-- A key of another namespace comes after every commitment key. -/
theorem compare_bytes_commitmentKey {k : Key} (h : compare k.tag (0x63 : Byte) = .gt) (t p : U32) :
    compare k.bytes (commitmentKey t p) = .gt := by
  rw [← List.cons_head?_tail k.head?_bytes, commitmentKey, List.compare_cons_cons, h]
  rfl

/-- The keys between the first and the last of a tree are those of its commitments. -/
theorem within_commitment {t : U32} {k : Key} :
    within (commitmentKey t 0) (commitmentKey t (BitVec.allOnes 32)) k.bytes = true ↔
      ∃ p, k = .commitment t p := by
  rw [within, Bool.and_eq_true]
  cases k with
  | commitment t' p =>
    simp only [Key.bytes, compare_commitmentKey, isLE_compare_then, Key.commitment.injEq]
    constructor
    · rintro ⟨h₁, h₂⟩
      exact ⟨p, BitVec.eq_of_toNat_eq (by omega), rfl⟩
    · rintro ⟨_, rfl, rfl⟩
      exact ⟨.inr ⟨rfl, Nat.isLE_compare.mpr (Nat.zero_le _)⟩,
        .inr ⟨rfl, Nat.isLE_compare.mpr (Nat.le_of_lt_succ p.isLt)⟩⟩
  | _ =>
    rw [compare_bytes_commitmentKey (by simp only [Key.tag]; decide)]
    simp [Ordering.isLE]

/-- The entry a node is stored as. -/
def leafEntry (n : Node) : Entry :=
  (commitmentKey n.position.treeNumber n.position.leafIndex, (encodeNode n).getD [])

theorem positionFromKey_commitmentKey (t p : U32) : positionFromKey (commitmentKey t p) = .ok p := by
  have h : ((commitmentKey t p).drop 5).take 4 = beBytes 4 p := by
    rw [commitmentKey, List.drop_succ_cons, List.drop_left' (by simp), List.take_of_length_le (by simp)]
  rw [positionFromKey, h]
  simp only [length_beBytes, if_true, fromBeBytes_beBytes (show 2 ^ 32 ≤ 256 ^ 4 by decide)]

theorem nodesItem_leafEntry {n : Node} (h : (encodeNode n).isSome) :
    Nodes.item (.ok (leafEntry n)) = .ok n := by
  obtain ⟨encoded, he⟩ := Option.isSome_iff_exists.mp h
  show (decodeNode ((encodeNode n).getD [])).mapError DatabaseError.codec = .ok n
  rw [he, Option.getD_some, decodeNode_iff.mpr he, mapError_ok]

theorem leafHashesItem_leafEntry {n : Node} (h : (encodeNode n).isSome) :
    LeafHashes.item (.ok (leafEntry n)) = .ok (n.position.leafIndex, n.hash) := by
  obtain ⟨encoded, he⟩ := Option.isSome_iff_exists.mp h
  rw [leafEntry, he, LeafHashes.item, ok_bind]
  simp only [positionFromKey_commitmentKey, ok_bind, Option.getD_some, decodeHash_of_encodeNode he,
    mapError_ok]
  rfl

/-- The scan of a tree's commitments lists its leaves, in position order. -/
theorem commitmentEntries_eq {tables : Tables} {F : Forest} {k : Counters}
    (hF : Records (tables .commitments) F k) (t : U32) :
    commitmentEntries tables t = (F.leaves t).map leafEntry := by
  refine sorted_ext (sorted_scan _ _ _) ?_ fun e => ?_
  · refine List.pairwise_map.mpr ((F.leaves_ascending t).imp_of_mem fun {m n} hm hn hlt => ?_)
    rw [leafEntry, leafEntry, compare_commitmentKey, (F.placed (Forest.mem_leaves.mp hm)).1,
      (F.placed (Forest.mem_leaves.mp hn)).1, Std.ReflOrd.compare_self, Ordering.eq_then]
    exact Nat.compare_eq_lt.mpr hlt
  · rw [commitmentEntries, mem_scan, List.mem_map]
    constructor
    · rintro ⟨hv, hw⟩
      obtain ⟨k, hk⟩ := hF.only e.1 e.2 hv
      rw [← hk] at hv hw
      obtain ⟨p, rfl⟩ := within_commitment.mp hw
      rw [hF.get, Forest.record] at hv
      obtain ⟨n, hn, he⟩ := Option.bind_eq_some_iff.mp hv
      obtain ⟨ht, hp⟩ := F.placed hn
      refine ⟨n, Forest.mem_leaves.mpr (by rw [hp, hn]), Prod.ext ?_ ?_⟩
      · rw [leafEntry, ht, BitVec.eq_of_toNat_eq hp]
        exact hk
      · rw [leafEntry, he]; rfl
    · rintro ⟨n, hn, rfl⟩
      have hn := Forest.mem_leaves.mp hn
      obtain ⟨encoded, he⟩ := Option.isSome_iff_exists.mp (F.admissible hn)
      refine ⟨?_, ?_⟩
      · rw [leafEntry, (F.placed hn).1, he]
        exact (hF.get (.commitment t n.position.leafIndex)).trans (by rw [F.record_of_node hn, he]; rfl)
      · rw [leafEntry, (F.placed hn).1]
        exact within_commitment.mpr ⟨_, rfl⟩

section
variable {R : Type} [Reader R] [LawfulReader R] {r : R} {F : Forest} {k : Counters}
  (hF : Records (view r .commitments) F k)
include hF

theorem node_spec (t p : U32) : Commitments.node r t p = .ok (F.node t p.toNat) :=
  node_of_stores hF _ rfl fun _ h => F.admissible h

theorem leafHash_spec (t p : U32) :
    Commitments.leafHash r t p = .ok ((F.node t p.toNat).map Node.hash) := by
  have hget : Reader.get r .commitments (commitmentKey t p) = .ok ((F.node t p.toNat).bind encodeNode) :=
    get_of_stores hF (.commitment t p)
  rw [Commitments.leafHash, hget]
  cases hn : F.node t p.toNat with
  | none => rfl
  | some n =>
    obtain ⟨encoded, he⟩ := Option.isSome_iff_exists.mp (F.admissible hn)
    simp only [Option.bind_some, he, ok_bind, decodeHash_of_encodeNode he, mapError_ok]
    rfl

theorem nodes_spec (t : U32) : ∃ nodes, Commitments.nodes r t = .ok nodes ∧
    nodes.toList = (F.leaves t).map .ok := by
  obtain ⟨nodes, hn, hl⟩ := nodes_ok r t
  refine ⟨nodes, hn, ?_⟩
  rw [hl, commitmentEntries_eq hF, List.map_map]
  exact List.map_congr_left fun n hm =>
    nodesItem_leafEntry (F.admissible (Forest.mem_leaves.mp hm))

theorem leafHashes_spec (t : U32) : ∃ hashes, Commitments.leafHashes r t = .ok hashes ∧
    hashes.toList = (F.leaves t).map fun n => .ok (n.position.leafIndex, n.hash) := by
  obtain ⟨hashes, hh, hl⟩ := leafHashes_ok r t
  refine ⟨hashes, hh, ?_⟩
  rw [hl, commitmentEntries_eq hF, List.map_map]
  exact List.map_congr_left fun n hm =>
    leafHashesItem_leafEntry (F.admissible (Forest.mem_leaves.mp hm))

theorem treeLength_records (t : U32) : Commitments.treeLength r t = .ok (BitVec.ofNat 32 (k.length t)) :=
  (treeLength_of_stores hF t).trans (decodeU32_counterBytes _)

theorem treeCount_records : Commitments.treeCount r = .ok (BitVec.ofNat 32 k.count) :=
  (treeCount_of_stores hF).trans (decodeU32_counterBytes _)

theorem isNullified_spec (t : U32) (x : Nullifier) :
    Commitments.isNullified r t x = .ok (F.nullified t x) := by
  rw [Commitments.isNullified]
  have hget : Reader.get r .commitments (nullifierKey t x) = .ok (if F.nullified t x then some [] else none) :=
    get_of_stores hF (.nullifier t x)
  rw [hget]
  cases F.nullified t x <;> rfl

theorem syncedBlock_spec : Commitments.syncedBlock r = .ok F.synced := by
  have hget : Reader.get r .commitments syncedBlockKey = .ok (F.synced.map (beBytes 8)) :=
    get_of_stores hF .syncedBlock
  rw [Commitments.syncedBlock, hget]
  cases F.synced with
  | none => rfl
  | some b =>
    simp only [Option.map_some, ok_bind, length_beBytes, if_true,
      fromBeBytes_beBytes (show 2 ^ 64 ≤ 256 ^ 8 by decide)]
    rfl

end

section
variable {R : Type} [Reader R] [LawfulReader R] {r : R} {F : Forest} (hF : Represents (view r .commitments) F)
include hF

theorem treeLength_spec (t : U32) : Commitments.treeLength r t = .ok (BitVec.ofNat 32 (F.length t)) :=
  treeLength_records hF t

theorem treeCount_spec : Commitments.treeCount r = .ok (BitVec.ofNat 32 F.count) := treeCount_records hF

end

end Railgun
