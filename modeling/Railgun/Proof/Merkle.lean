import Railgun.Proof.Forest

/-!
# The full walk

The walk folds the leaf scan into an accumulator, one entry at a time, and
pads the gaps (`entries_spec`). On a table that represents a forest it appends
the tree's leaf values in position order, with the empty leaf where nothing is
stored, up to the tree's length (`treeFrontier_spec`). What the accumulator
holds is determined by the values appended, so two accumulators that were
given the same ones are one (`insertAll_append`).
-/

namespace Railgun

open GapFill Outcome

/-! ## The accumulator -/

namespace MerkleAccumulator

variable {C : MerkleConfig}

/-- Appends leaves, one after the other. -/
def insertAll (acc : MerkleAccumulator C) (leaves : List U256) : MerkleAccumulator C :=
  leaves.foldl insert acc

@[simp] theorem insertAll_nil (acc : MerkleAccumulator C) : acc.insertAll [] = acc := rfl

@[simp] theorem insertAll_cons (acc : MerkleAccumulator C) (leaf : U256) (leaves : List U256) :
    acc.insertAll (leaf :: leaves) = (acc.insert leaf).insertAll leaves := rfl

theorem insertAll_append (acc : MerkleAccumulator C) (l l' : List U256) :
    acc.insertAll (l ++ l') = (acc.insertAll l).insertAll l' := List.foldl_append ..

theorem nextIndex_insertAll : ∀ (l : List U256) (acc : MerkleAccumulator C),
    (acc.insertAll l).nextIndex = acc.nextIndex + BitVec.ofNat 64 l.length
  | [], acc => by simp
  | leaf :: l, acc => by
    rw [insertAll_cons, nextIndex_insertAll l, List.length_cons, Nat.add_comm, BitVec.ofNat_add,
      ← BitVec.add_assoc]
    rfl

theorem len_new_insertAll {l : List U256} (h : l.length < 2 ^ 64) :
    ((new : MerkleAccumulator C).insertAll l).len.toNat = l.length := by
  rw [len, nextIndex_insertAll]
  simpa [new] using h

/-- An accumulator is its persisted state. -/
theorem fromState_state (acc : MerkleAccumulator C) : fromState acc.state = .ok acc := by
  rw [fromState, dif_pos (show acc.state.filledSubtrees.length = C.depth from acc.depth_eq)]
  exact congrArg Except.ok (MerkleAccumulator.ext acc.zeros_eq.symm rfl rfl rfl)

end MerkleAccumulator

open MerkleAccumulator

/-! ## The walk -/

section
variable {tables : PoseidonTables}

theorem pad_iterate : ∀ (n : Nat) (walk : Walk tables), Walk.pad^[n] walk =
    { accumulator := walk.accumulator.insertAll (List.replicate n railgunMerkleZero)
      missing := walk.missing + BitVec.ofNat 32 n
      expected := walk.expected + BitVec.ofNat 32 n }
  | 0, walk => by simp
  | n + 1, walk => by
    rw [Function.iterate_succ_apply, pad_iterate n, List.replicate_succ, insertAll_cons]
    simp only [Walk.pad, Nat.add_comm n, BitVec.ofNat_add, ← BitVec.add_assoc]
    rfl

/-- The padding loop makes up for every position before `position`. -/
theorem padTo_eq (walk : Walk tables) (position : U32) :
    walk.padTo position = Walk.pad^[position.toNat - walk.expected.toNat] walk := by
  refine repeatWhile_eq_iterate (m := fun w : Walk tables => position.toNat - w.expected.toNat) (fun w => ?_)
    (fun w hw => ?_) (Nat.le_refl _)
  · rw [decide_eq_true_iff, BitVec.lt_def]
    omega
  · have hlt := position.isLt
    have he : (Walk.pad w).expected.toNat = w.expected.toNat + 1 := by
      have hone : (1 : U32).toNat = 1 := rfl
      simp only [Walk.pad, BitVec.toNat_add, hone]
      omega
    rw [he]
    omega

/-- A leaf scan entry, by its number. -/
def sparse (e : U32 × U256) : Nat × U256 := (e.1.toNat, e.2)

/-- The entries of a scan, in order, from where the walk has come to: their
values are appended, with the empty leaf in the gaps, which are counted. -/
theorem entries_spec {b : Nat} (hb : b < 2 ^ 32) : ∀ (l : List (U32 × U256)) (walk : Walk tables),
    Within (l.map sparse) walk.expected.toNat b →
    ∃ walk', (l.map .ok).foldlM Walk.entry walk = .ok walk' ∧
      walk'.accumulator = walk.accumulator.insertAll
        (densify railgunMerkleZero walk.expected.toNat (l.map sparse)) ∧
      walk'.missing + BitVec.ofNat 32 l.length = walk.missing +
        BitVec.ofNat 32 (densify railgunMerkleZero walk.expected.toNat (l.map sparse)).length ∧
      walk'.expected.toNat = walk.expected.toNat +
        (densify railgunMerkleZero walk.expected.toNat (l.map sparse)).length
  | [], walk, _ => ⟨walk, rfl, rfl, rfl, rfl⟩
  | (position, hash) :: l, walk, ⟨hp, hl⟩ => by
    obtain ⟨hpl, hp⟩ := List.pairwise_cons.mp hp
    obtain ⟨hap, hpb⟩ := hl _ List.mem_cons_self
    simp only [sparse] at hap hpb hpl
    let walk₁ : Walk tables := { walk.padTo position with
      accumulator := (walk.padTo position).accumulator.insert hash
      expected := (walk.padTo position).expected + 1 }
    have he : walk₁.expected.toNat = position.toNat + 1 := by
      have hone : (1 : U32).toNat = 1 := rfl
      simp only [walk₁, padTo_eq, pad_iterate, BitVec.toNat_add, BitVec.toNat_ofNat, hone]
      omega
    obtain ⟨walk', hw, ha, hm, hx⟩ := entries_spec hb l walk₁ (he ▸ ⟨hp, fun e hm =>
      ⟨hpl e hm, (hl e (List.mem_cons_of_mem _ hm)).2⟩⟩)
    rw [he] at ha hm hx
    refine ⟨walk', ?_, ?_, ?_, ?_⟩
    · rw [List.map_cons, List.foldlM_cons]
      exact hw
    · rw [ha, List.map_cons, sparse, densify, insertAll_append, insertAll_cons]
      simp only [walk₁, padTo_eq, pad_iterate]
    · rw [List.map_cons, sparse, densify, List.length_append, List.length_replicate,
        List.length_cons, List.length_cons]
      simp only [walk₁, padTo_eq, pad_iterate] at hm
      rw [BitVec.ofNat_add, ← BitVec.add_assoc, hm]
      simp only [BitVec.ofNat_add]
      ac_rfl
    · rw [hx, List.map_cons, sparse, densify, List.length_append, List.length_replicate,
        List.length_cons]
      simp only
      omega

end

/-! ## Trees -/

/-- The value of a leaf: the stored node's hash, or the empty leaf. -/
def Forest.leaf (F : Forest) (t : U32) (p : Nat) : U256 :=
  ((F.node t p).map Node.hash).getD railgunMerkleZero

/-- The accumulator of a tree's first leaves. -/
def Forest.firstLeaves (F : Forest) (tables : PoseidonTables) (t : U32) (a : Nat) :
    MerkleAccumulator (railgunMerkleConfig tables) :=
  new.insertAll (fill (F.leaf t) 0 a)

/-- The accumulator of all its leaves. -/
noncomputable def Forest.accumulator (F : Forest) (tables : PoseidonTables) (t : U32) :
    MerkleAccumulator (railgunMerkleConfig tables) :=
  F.firstLeaves tables t (F.length t)

/-- The leaf scan of a tree spells its leaf values. -/
theorem spells_leaves (F : Forest) (t : U32) :
    Spells railgunMerkleZero
      ((F.leaves t).map fun n => (n.position.leafIndex.toNat, n.hash)) (F.leaf t) 0 (F.length t) := by
  intro q _ _
  cases hn : F.node t q with
  | none =>
    refine .inr ⟨fun v hv => ?_, by rw [Forest.leaf, hn]; rfl⟩
    obtain ⟨n, hm, he⟩ := List.mem_map.mp hv
    obtain ⟨rfl, -⟩ := Prod.mk.inj he
    rw [Forest.mem_leaves.mp hm] at hn
    cases hn
  | some n =>
    refine .inl (List.mem_map.mpr ⟨n, Forest.mem_leaves.mpr ?_, ?_⟩)
    · rw [(F.placed hn).2, hn]
    · rw [(F.placed hn).2, Forest.leaf, hn]
      rfl

theorem within_leaves (F : Forest) (t : U32) :
    Within ((F.leaves t).map fun n => (n.position.leafIndex.toNat, n.hash)) 0 (F.length t) := by
  refine ⟨List.pairwise_map.mpr (F.leaves_ascending t), fun e he => ?_⟩
  obtain ⟨n, hm, rfl⟩ := List.mem_map.mp he
  refine ⟨Nat.zero_le _, (F.isHeight_length t).lt _ ?_⟩
  rw [Forest.mem_leaves.mp hm]
  rfl

section
variable {R : Type} [Reader R] [LawfulReader R] {r : R} {F : Forest} (tables : PoseidonTables)

/-- The full walk of a tree of the right length: its accumulator, its length, and the
number of positions below it that hold no node. -/
theorem treeFrontier_records {k : Counters} (hF : Records (view r .commitments) F k)
    (hk : k.length = F.length) (t : U32) : treeFrontier tables r t =
    .ok (F.accumulator tables t, BitVec.ofNat 32 (F.length t),
      BitVec.ofNat 32 (F.length t) - BitVec.ofNat 32 (F.leaves t).length) := by
  have hlen := F.length_le t
  obtain ⟨hashes, hh, hl⟩ := leafHashes_spec hF t
  have hitems : hashes.toList = ((F.leaves t).map fun n => (n.position.leafIndex, n.hash)).map .ok := by
    rw [hl, List.map_map]
    rfl
  have hsparse : ((F.leaves t).map fun n => (n.position.leafIndex, n.hash)).map sparse =
      (F.leaves t).map fun n => (n.position.leafIndex.toNat, n.hash) := by
    rw [List.map_map]
    rfl
  obtain ⟨walk, hw, ha, hm, hx⟩ := entries_spec (b := F.length t) (by omega)
    ((F.leaves t).map fun n => (n.position.leafIndex, n.hash))
    ({ accumulator := new, missing := 0, expected := 0 } : Walk tables)
    (by rw [hsparse]; exact within_leaves F t)
  rw [hsparse] at ha hm hx
  simp only [Nat.zero_add, show (0 : U32).toNat = 0 from rfl] at ha hm hx
  have hfill := densify_eq_fill (Nat.zero_le _) (within_leaves F t) (spells_leaves F t)
  have hle := length_densify_le (z := railgunMerkleZero) (Nat.zero_le _) (within_leaves F t)
  rw [Nat.zero_add] at hfill hle
  have hnat : (BitVec.ofNat 32 (F.length t)).toNat = F.length t := by
    rw [BitVec.toNat_ofNat, Nat.mod_eq_of_lt (by omega)]
  have hcap : BitVec.ofNat 32 (F.length t) ≤ (1 : U32) <<< railgunTreeDepth := by
    rw [BitVec.le_def, hnat]
    exact hlen
  have hacc : F.accumulator tables t = walk.accumulator.insertAll
      (List.replicate (F.length t - (densify railgunMerkleZero 0
        ((F.leaves t).map fun n => (n.position.leafIndex.toNat, n.hash))).length)
        railgunMerkleZero) := by
    rw [ha, ← insertAll_append, hfill, Forest.accumulator, Forest.firstLeaves]
  have hmissing : BitVec.ofNat 32 (F.length t) - BitVec.ofNat 32 (F.leaves t).length =
      walk.missing + BitVec.ofNat 32 (F.length t - (densify railgunMerkleZero 0
        ((F.leaves t).map fun n => (n.position.leafIndex.toNat, n.hash))).length) := by
    rw [List.length_map, show (0 : U32) = 0#32 from rfl, BitVec.zero_add] at hm
    rw [eq_comm, BitVec.eq_sub_iff_add_eq, BitVec.add_assoc, BitVec.add_comm (BitVec.ofNat 32 (_ - _)),
      ← BitVec.add_assoc, hm, ← BitVec.ofNat_add, Nat.add_sub_cancel' hle]
  rw [treeFrontier, hacc, hmissing]
  simp only [treeLength_records hF, hk, hh, mapError_ok, ok_bind, (ensure_eq_ok (u := ())).mpr hcap, hitems,
    hw, padTo_eq, pad_iterate, hnat, hx]
  rfl

theorem treeFrontier_spec (hF : Represents (view r .commitments) F) (t : U32) :
    treeFrontier tables r t = .ok (F.accumulator tables t, BitVec.ofNat 32 (F.length t),
      BitVec.ofNat 32 (F.length t) - BitVec.ofNat 32 (F.leaves t).length) :=
  treeFrontier_records tables hF rfl t

end

end Railgun
