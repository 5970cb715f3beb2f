import Railgun.Proof.Forest

/-!
# The commitments table refines the forest

One mutation does to the table what it does to the forest, whatever it
returns (`write_spec`); so does a sequence of them (`runWrites_spec`). Read
back, the table is the forest (`readsAs`), and the forest is what its history
says: the first node put at a position, the nullifiers inserted, the last
watermark (`run_node`, `run_nullified`, `run_synced`).
`commitments_refine_forest` puts these together for an empty table.
-/

namespace Railgun

open OrdMap Outcome Height

/-! ## Mutations -/

section
variable {W : Type} [Reader W] [Writer W]

theorem insertNode_unencodable {n : Node} (h : encodeNode n = none) (w : W) :
    CommitmentsMut.insertNode n w = .error (.panicked "stored blob length fits in u32") w := by
  unfold CommitmentsMut.insertNode
  simp only [h]
  rfl

theorem answering_ok {ε σ α : Type} {m : EStateM ε σ α} {s s' : σ} {a : α} (h : m s = .ok a s') :
    answering m s = (.ok a, s') := by
  rw [answering, h]

theorem answering_error {ε σ α : Type} {m : EStateM ε σ α} {s s' : σ} {e : ε}
    (h : m s = .error e s') : answering m s = (.error e, s') := by
  rw [answering, h]

/-- The counters after a mutation: raised if it puts a node in a free place. -/
def Counters.write (k : Counters) (F : Forest) : Write → Counters
  | .node n => if Admissible n ∧ F.nodeAt n = none then k.raise k n else k
  | _ => k

def Counters.run (k : Counters) (F : Forest) : List Write → Counters
  | [] => k
  | write :: writes => (k.write F write).run (F.write write).2 writes

/-- Right counters stay right. -/
theorem counters_write (F : Forest) (write : Write) : F.counters.write F write = (F.write write).2.counters := by
  cases write with
  | node n =>
    rw [Counters.write, Forest.write, Forest.insertNode]
    by_cases hn : Admissible n
    · rw [dif_pos hn]
      cases hat : F.nodeAt n with
      | none => rw [if_pos ⟨hn, rfl⟩, counters_store]
      | some m => by_cases hm : m = n <;> simp [hm]
    · rw [dif_neg hn, if_neg fun h => hn h.1]
  | _ => rfl

theorem counters_run : ∀ (writes : List Write) (F : Forest),
    F.counters.run F writes = (F.run writes).2.counters
  | [], _ => rfl
  | write :: writes, F => by
    rw [Counters.run, counters_write]
    exact counters_run writes (F.write write).2

/-- So do right lengths, whatever the tree count. -/
theorem length_write {k : Counters} {F : Forest} (hk : k.length = F.length) (write : Write) :
    (k.write F write).length = (F.write write).2.length := by
  refine Eq.trans ?_ (congrArg Counters.length (counters_write F write))
  cases write with
  | node n =>
    rw [Counters.write, Counters.write]
    split
    · exact funext fun t => by rw [Counters.length_raise, Counters.length_raise, hk]; rfl
    · exact hk
  | _ => exact hk

theorem length_run : ∀ (writes : List Write) {k : Counters} {F : Forest}, k.length = F.length →
    (k.run F writes).length = (F.run writes).2.length
  | [], _, _, hk => hk
  | write :: writes, _, F, hk => length_run writes (F := (F.write write).2) (length_write hk write)

variable [LawfulWriter W] {w : W} {F : Forest} {k : Counters}

theorem insertNode_answers (hF : Records (view w .commitments) F k) (n : Node) :
    (answering (CommitmentsMut.insertNode n) w).1 = (F.insertNode n).1 ∧
      Records (view (answering (CommitmentsMut.insertNode n) w).2 .commitments) (F.insertNode n).2
        (k.write F (.node n)) ∧
      SameElsewhere .commitments w (answering (CommitmentsMut.insertNode n) w).2 := by
  rw [Forest.insertNode, Counters.write]
  by_cases hn : Admissible n
  · have hs := insertNode_spec hF hn
    rw [dif_pos hn]
    cases hat : F.nodeAt n with
    | none =>
      simp only [hat] at hs
      obtain ⟨w', hw, hr, hse⟩ := hs
      rw [answering_ok hw, if_pos ⟨hn, rfl⟩]
      exact ⟨rfl, hr, hse⟩
    | some m =>
      simp only [hat] at hs
      rw [if_neg (by simp)]
      by_cases hm : m = n
      · rw [answering_ok (hs.trans (if_pos hm))]
        simp only [if_pos hm]
        exact ⟨trivial, hF, fun _ _ => rfl⟩
      · rw [answering_error (hs.trans (if_neg hm))]
        simp only [if_neg hm]
        exact ⟨trivial, hF, fun _ _ => rfl⟩
  · rw [dif_neg hn, if_neg fun h => hn h.1,
      answering_error (insertNode_unencodable (Option.not_isSome_iff_eq_none.mp hn) w)]
    exact ⟨rfl, hF, fun _ _ => rfl⟩

/-- A mutation of the table is the forest's, with the same answer. -/
theorem write_records (hF : Records (view w .commitments) F k) (write : Write) :
    (answering write.mutate w).1 = (F.write write).1 ∧
      Records (view (answering write.mutate w).2 .commitments) (F.write write).2 (k.write F write) ∧
      SameElsewhere .commitments w (answering write.mutate w).2 := by
  cases write with
  | node n => exact insertNode_answers hF n
  | nullifier x =>
    obtain ⟨w', hw, hr, hs⟩ := insertNullifier_spec hF x
    rw [Write.mutate, answering_ok hw]
    exact ⟨rfl, hr, hs⟩
  | synced block =>
    obtain ⟨w', hw, hr, hs⟩ := setSyncedBlock_spec hF block
    rw [Write.mutate, answering_ok hw]
    exact ⟨rfl, hr, hs⟩

theorem write_spec (hF : Represents (view w .commitments) F) (write : Write) :
    (answering write.mutate w).1 = (F.write write).1 ∧
      Represents (view (answering write.mutate w).2 .commitments) (F.write write).2 ∧
      SameElsewhere .commitments w (answering write.mutate w).2 := by
  have h := write_records hF write
  rwa [counters_write] at h

end

/-- And so is a sequence of them. -/
theorem runWrites_spec {W : Type} [Reader W] [Writer W] [LawfulWriter W] :
    ∀ (writes : List Write) {w : W} {F : Forest}, Represents (view w .commitments) F →
    (runWrites w writes).1 = (F.run writes).1 ∧
      Represents (view (runWrites w writes).2 .commitments) (F.run writes).2 ∧
      SameElsewhere .commitments w (runWrites w writes).2
  | [], w, F, hF => ⟨rfl, hF, fun _ _ => rfl⟩
  | write :: writes, w, F, hF => by
    obtain ⟨ha, hr, hs⟩ := write_spec hF write
    obtain ⟨has, hrs, hss⟩ := runWrites_spec writes hr
    exact ⟨congrArg₂ List.cons ha has, hrs, fun table ht => (hss table ht).trans (hs table ht)⟩

/-- A table reached by mutations alone holds the forest of their history. -/
theorem represents_run {R : Type} [Reader R] [LawfulReader R] {reader : R} {writes : List Write}
    (hreads : view reader .commitments = (runWrites (WriteTxn.mk fun _ => ∅) writes).2.inner .commitments) :
    Represents (view reader .commitments) (Forest.empty.run writes).2 := by
  rw [hreads]
  exact (runWrites_spec writes (w := (⟨fun _ => ∅⟩ : WriteTxn)) represents_empty).2.1

/-! ## Histories -/

namespace Forest

theorem nodeAt_eq (F : Forest) {n : Node} {t p : U32} (ht : n.position.treeNumber = t)
    (hp : n.position.leafIndex = p) : F.nodeAt n = F.node t p.toNat := by
  rw [nodeAt, ht, hp]

/-- A write leaves a node where it is, and fills a free place only with a node
of that place. -/
theorem write_node (F : Forest) (write : Write) (t p : U32) :
    (F.write write).2.node t p.toNat = (F.node t p.toNat).or (firstNode t p [write]) := by
  cases write with
  | nullifier x => exact (Option.or_none).symm
  | synced block => exact (Option.or_none).symm
  | node n =>
    rw [write, insertNode]
    by_cases hn : Admissible n
    · rw [dif_pos hn]
      by_cases hat : n.position.treeNumber = t ∧ n.position.leafIndex = p
      · rw [F.nodeAt_eq hat.1 hat.2]
        cases hm : F.node t p.toNat with
        | none => simp [store, firstNode, hat, hn]
        | some m => by_cases h : m = n <;> simp [h, hm]
      · have hfirst : firstNode t p [.node n] = none :=
          (if_neg fun h => hat ⟨h.1, h.2.1⟩).trans rfl
        rw [hfirst, Option.or_none]
        cases F.nodeAt n with
        | none =>
          refine if_neg fun h => hat ⟨h.1.symm, BitVec.eq_of_toNat_eq h.2.symm⟩
        | some m => by_cases h : m = n <;> simp [h]
    · rw [dif_neg hn]
      simp [firstNode, hn]

theorem firstNode_cons (t p : U32) (write : Write) (writes : List Write) :
    firstNode t p (write :: writes) = (firstNode t p [write]).or (firstNode t p writes) := by
  cases write with
  | node n => rw [firstNode, firstNode]; split <;> rfl
  | _ => rfl

theorem run_node : ∀ (writes : List Write) (F : Forest) (t p : U32),
    (F.run writes).2.node t p.toNat = (F.node t p.toNat).or (firstNode t p writes)
  | [], F, t, p => Option.or_none.symm
  | write :: writes, F, t, p => by
    have ih := run_node writes (F.write write).2 t p
    rw [F.write_node write] at ih
    rw [firstNode_cons, ← Option.or_assoc]
    exact ih

theorem firstNode_mem {t p : U32} {n : Node} : ∀ {writes : List Write},
    firstNode t p writes = some n → .node n ∈ writes
  | .node m :: writes, h => by
    rw [firstNode] at h
    split at h
    · rw [Option.some.inj h]
      exact List.mem_cons_self
    · exact List.mem_cons_of_mem _ (firstNode_mem h)
  | .nullifier x :: writes, h => List.mem_cons_of_mem _ (firstNode_mem (show firstNode t p writes = some n from h))
  | .synced b :: writes, h => List.mem_cons_of_mem _ (firstNode_mem (show firstNode t p writes = some n from h))

/-- A node after some mutations was there before or is one of them. -/
theorem run_node_cases {F : Forest} {writes : List Write} {t : U32} {q : Nat} {n : Node}
    (h : (F.run writes).2.node t q = some n) :
    F.node t q = some n ∨ .node n ∈ writes := by
  obtain ⟨ht, hq⟩ := (F.run writes).2.placed h
  rw [← hq, run_node writes F] at h
  rw [← hq]
  rcases Option.or_eq_some_iff.mp h with h | ⟨-, h⟩
  · exact .inl h
  · exact .inr (firstNode_mem h)

/-- An accepted node is the one its place holds. -/
theorem insertNode_free {F : Forest} {n : Node} (hn : Admissible n) (h : F.nodeAt n = none) :
    F.insertNode n = (.ok (), F.store n hn) := by
  rw [insertNode, dif_pos hn, h]

theorem insertNode_same {F : Forest} {n : Node} (hn : Admissible n) (h : F.nodeAt n = some n) :
    F.insertNode n = (.ok (), F) := by
  rw [insertNode, dif_pos hn, h]
  exact if_pos rfl

theorem insertNode_ok {F : Forest} {n : Node} (h : (F.insertNode n).1 = .ok ()) :
    (F.insertNode n).2.nodeAt n = some n := by
  rw [insertNode] at h ⊢
  split at h
  · rename_i hn
    rw [dif_pos hn]
    cases hat : F.nodeAt n with
    | none => simp [nodeAt, store]
    | some m =>
      simp only [hat] at h
      by_cases hm : m = n
      · simp [hm, hat]
      · simp [hm] at h
  · cases h

theorem insertNode_nullified (F : Forest) (n : Node) :
    (F.insertNode n).2.nullified = F.nullified ∧ (F.insertNode n).2.synced = F.synced := by
  rw [insertNode]
  split
  · cases F.nodeAt n with
    | none => exact ⟨rfl, rfl⟩
    | some m => by_cases h : m = n <;> simp [h]
  · exact ⟨rfl, rfl⟩

theorem run_nullified : ∀ (writes : List Write) (F : Forest) (t : U32) (x : Nullifier),
    (F.run writes).2.nullified t x = true ↔
      F.nullified t x = true ∨ .nullifier ⟨t, x⟩ ∈ writes
  | [], F, t, x => by simp [run]
  | write :: writes, F, t, x => by
    have ih := run_nullified writes (F.write write).2 t x
    rw [List.mem_cons, ← or_assoc]
    refine ih.trans (or_congr_left ?_)
    cases write with
    | node n => simp [Forest.write, (F.insertNode_nullified n).1]
    | nullifier y =>
      obtain ⟨t', y⟩ := y
      simp only [Forest.write, insertNullifier, Write.nullifier.injEq, Nullified.mk.injEq]
      split
      · rename_i h
        simp [h]
      · rename_i h
        simp [h]
    | synced block => simp [Forest.write, setSyncedBlock]

/-- A mutation takes nothing out. -/
theorem within_write (F : Forest) (write : Write) : F.Within (F.write write).2 where
  node {t p n} h := by
    rw [← (F.placed h).2, write_node, (F.placed h).2, h]
    rfl
  nullified {t x} h := by
    cases write with
    | node n => rw [Forest.write, (F.insertNode_nullified n).1, h]
    | nullifier y => simp [Forest.write, insertNullifier, h]
    | synced block => exact h

theorem within_run : ∀ (writes : List Write) (F : Forest), F.Within (F.run writes).2
  | [], F => .refl F
  | write :: writes, F => (F.within_write write).trans (within_run writes (F.write write).2)

theorem run_synced : ∀ (writes : List Write) (F : Forest),
    (F.run writes).2.synced = (lastSynced writes).or F.synced
  | [], F => rfl
  | write :: writes, F => by
    refine (run_synced writes (F.write write).2).trans ?_
    cases write with
    | node n => rw [Forest.write, (F.insertNode_nullified n).2]; rfl
    | nullifier x => rfl
    | synced block => rw [lastSynced, Option.or_assoc]; rfl

end Forest

/-! ## Frames -/

/-- The keys a mutation may write. -/
def Write.Touches : Write → Key → Prop
  | .node n, k => k = .commitment n.position.treeNumber n.position.leafIndex ∨
      k = .length n.position.treeNumber ∨ k = .treeCount
  | .nullifier x, k => k = .nullifier x.treeNumber x.nullifier
  | .synced _, k => k = .syncedBlock

theorem Forest.record_write (F : Forest) (k : Counters) {write : Write} {key : Key}
    (hkey : ¬ write.Touches key) : (F.write write).2.record (k.write F write) key = F.record k key := by
  cases write with
  | node n =>
    obtain ⟨hc, hl, ht⟩ : key ≠ .commitment n.position.treeNumber n.position.leafIndex ∧
        key ≠ .length n.position.treeNumber ∧ key ≠ .treeCount := by
      simpa [Write.Touches] using hkey
    rw [Forest.write, insertNode, Counters.write]
    split
    · rename_i hn
      cases F.nodeAt n with
      | none =>
        obtain ⟨encoded, he⟩ := Option.isSome_iff_exists.mp hn
        rw [if_pos ⟨hn, rfl⟩]
        refine (record_store k k hn he key).trans ?_
        simp [hc, hl, ht]
      | some m => by_cases h : m = n <;> simp [h]
    · rename_i hn
      rw [if_neg fun h => hn h.1]
  | nullifier x =>
    cases key with
    | nullifier t y =>
      have : ¬ (t = x.treeNumber ∧ y = x.nullifier) := fun h => hkey (by rw [Write.Touches, h.1, h.2])
      simp [Forest.write, insertNullifier, record, this]
    | _ => rfl
  | synced block =>
    cases key with
    | syncedBlock => exact absurd rfl hkey
    | _ => rfl

/-! ## The refinement -/

/-- Every typed read answers as the forest. -/
structure ReadsAs {R : Type} [Reader R] (r : R) (F : Forest) : Prop where
  node : ∀ t p, Commitments.node r t p = .ok (F.node t p.toNat)
  leafHash : ∀ t p, Commitments.leafHash r t p = .ok ((F.node t p.toNat).map Node.hash)
  /-- Both scans list the tree's nodes, once each, in ascending position. -/
  scans : ∀ t, ∃ nodes hashes, ∃ leaves : List Node,
    Commitments.nodes r t = .ok nodes ∧ Commitments.leafHashes r t = .ok hashes ∧
    nodes.toList = leaves.map .ok ∧
    hashes.toList = leaves.map (fun n => .ok (n.position.leafIndex, n.hash)) ∧
    leaves.Pairwise (fun m n => m.position.leafIndex < n.position.leafIndex) ∧
    ∀ n, n ∈ leaves ↔ F.node t n.position.leafIndex.toNat = some n
  treeLength : ∀ t, ∃ length, Commitments.treeLength r t = .ok length ∧
    IsHeight (fun p => (F.node t p).isSome) length.toNat
  treeCount : ∃ count, Commitments.treeCount r = .ok count ∧ IsHeight F.HasTree count.toNat
  isNullified : ∀ t x, Commitments.isNullified r t x = .ok (F.nullified t x)
  syncedBlock : Commitments.syncedBlock r = .ok F.synced

theorem readsAs {R : Type} [Reader R] [LawfulReader R] {r : R} {F : Forest}
    (hF : Represents (view r .commitments) F) : ReadsAs r F where
  node := node_spec hF
  leafHash := leafHash_spec hF
  scans t := by
    obtain ⟨nodes, hn, hnl⟩ := nodes_spec hF t
    obtain ⟨hashes, hh, hhl⟩ := leafHashes_spec hF t
    exact ⟨nodes, hashes, F.leaves t, hn, hh, hnl, hhl, F.leaves_ascending t, fun n => F.mem_leaves⟩
  treeLength t := by
    refine ⟨_, treeLength_spec hF t, ?_⟩
    have := F.length_le t
    rw [BitVec.toNat_ofNat, Nat.mod_eq_of_lt (by omega)]
    exact F.isHeight_length t
  treeCount := by
    refine ⟨_, treeCount_spec hF, ?_⟩
    rw [BitVec.toNat_ofNat, Nat.mod_eq_of_lt F.count_lt]
    exact F.isHeight_count
  isNullified := isNullified_spec hF
  syncedBlock := syncedBlock_spec hF

/-- An insertion answers by what is stored at the node's place. -/
structure InsertsAs {W : Type} [Reader W] [Writer W] (w : W) (F : Forest) (n : Node) : Prop where
  same : F.nodeAt n = some n → CommitmentsMut.insertNode n w = .ok () w
  conflict : ∀ m, F.nodeAt n = some m → m ≠ n → CommitmentsMut.insertNode n w =
    .error (.commitmentConflict n.position.treeNumber n.position.leafIndex) w
  fresh : F.nodeAt n = none → ∃ (h : Admissible n) (w' : W),
    CommitmentsMut.insertNode n w = .ok () w' ∧ ReadsAs w' (F.store n h)

theorem insertsAs {W : Type} [Reader W] [Writer W] [LawfulWriter W] {w : W} {F : Forest}
    (hF : Represents (view w .commitments) F) {n : Node} (hn : Admissible n) : InsertsAs w F n := by
  have hs := insertNode_spec hF hn
  refine ⟨fun h => ?_, fun m h hm => ?_, fun h => ?_⟩ <;> rw [h] at hs
  · exact hs.trans (if_pos rfl)
  · exact hs.trans (if_neg hm)
  · obtain ⟨w', hw, hr, -⟩ := hs
    rw [← counters_store F n hn] at hr
    exact ⟨hn, w', hw, readsAs hr⟩

/-- Any sequence of mutations, with repeats and in any order, leaves a table
that reads and writes as the forest of its history; a mutation shows at the
keys it names and nowhere else. -/
theorem commitments_refine_forest (txn : WriteTxn) (hempty : txn.inner .commitments = ∅)
    (writes : List Write) (hw : ∀ write ∈ writes, write.InRange) :
    let txn' := (runWrites txn writes).2
    let F := (Forest.empty.run writes).2
    (runWrites txn writes).1 = (Forest.empty.run writes).1 ∧
    (∀ t p : U32, F.node t p.toNat = firstNode t p writes) ∧
    (∀ t x, F.nullified t x = true ↔ .nullifier ⟨t, x⟩ ∈ writes) ∧
    F.synced = lastSynced writes ∧
    ReadsAs txn' F ∧
    (∀ n, Admissible n → InsertsAs txn' F n) ∧
    (∀ t p, (F.node t p).isSome → t < BitVec.allOnes 32) ∧
    (∀ (write : Write) (key : Key), ¬ write.Touches key →
      Reader.get (answering write.mutate txn').2 .commitments key.bytes =
        Reader.get txn' .commitments key.bytes) ∧
    ∀ table, table ≠ .commitments → txn'.inner table = txn.inner table := by
  obtain ⟨ha, hr, hs⟩ := runWrites_spec writes (w := txn) (represents_of_empty hempty)
  refine ⟨ha, fun t p => ?_, fun t x => ?_, ?_, readsAs hr, fun n => insertsAs hr,
    fun t p hp => ?_, fun write key hk => ?_, hs⟩
  · exact (Forest.run_node writes .empty t p).trans rfl
  · simpa [Forest.empty] using Forest.run_nullified writes .empty t x
  · exact (Forest.run_synced writes .empty).trans Option.or_none
  · obtain ⟨n, hn⟩ := Option.isSome_iff_exists.mp hp
    rw [← (Forest.placed _ hn).1]
    exact hw _ ((Forest.run_node_cases hn).resolve_left (by simp [Forest.empty]))
  · obtain ⟨-, hr', -⟩ := write_records hr write
    rw [get_of_stores hr', get_of_stores hr, Forest.record_write _ _ hk]

/-- The second of two nodes for one place is refused, and the first stays. -/
theorem commitments_refine_forest_conflict :
    let first := bareNode ⟨0, 2, by decide⟩ 1
    let ran := runWrites (WriteTxn.mk fun _ => ∅) [.node first, .node (bareNode ⟨0, 2, by decide⟩ 2)]
    ran.1 = [.ok (), .error (.commitmentConflict 0 2)] ∧
      Commitments.node ran.2 0 2 = .ok (some first) := by
  intro first ran
  obtain ⟨ha, hn, -, -, hr, -⟩ := commitments_refine_forest ⟨fun _ => ∅⟩ rfl
    [.node first, .node (bareNode ⟨0, 2, by decide⟩ 2)] (by decide)
  exact ⟨ha.trans (by decide), (hr.node 0 2).trans (congrArg Except.ok ((hn 0 2).trans (by decide)))⟩

end Railgun
