import Railgun.Proof.Frontier
import Railgun.Proof.Refinement

/-!
# Committing a window

A window is a sequence of mutations that either are all accepted or leave the
database as it was (`commitWindow_accepted`, `commitWindow_rejected`). What an
accepted window leaves is the forest of its mutations and, in every tree, a
snapshot of some of its first leaves, up to a relation (`Tracks`), as long as the
window leaves out nothing that is stored beyond the snapshot it extends (`Sees`).
Up to equality, that is `Folded`.
-/

namespace Railgun

open OrdMap GapFill Outcome BigEndian MerkleAccumulator

/-! ## Accepted mutations -/

namespace Forest

/-- Every mutation succeeds. -/
def Accepts (F : Forest) (writes : List Write) : Prop := ∀ a ∈ (F.run writes).1, a = .ok ()

theorem accepts_cons {F : Forest} {write : Write} {writes : List Write} :
    F.Accepts (write :: writes) ↔ (F.write write).1 = .ok () ∧ (F.write write).2.Accepts writes :=
  List.forall_mem_cons

theorem run_append : ∀ (writes writes' : List Write) (F : Forest),
    (F.run (writes ++ writes')).1 = (F.run writes).1 ++ ((F.run writes).2.run writes').1 ∧
      (F.run (writes ++ writes')).2 = ((F.run writes).2.run writes').2
  | [], _, _ => ⟨rfl, rfl⟩
  | write :: writes, writes', F => by
    obtain ⟨h₁, h₂⟩ := run_append writes writes' (F.write write).2
    exact ⟨congrArg (List.cons _) h₁, h₂⟩

theorem accepts_append {F : Forest} {writes writes' : List Write} :
    F.Accepts (writes ++ writes') ↔ F.Accepts writes ∧ (F.run writes).2.Accepts writes' := by
  rw [Accepts, (run_append writes writes' F).1]
  exact List.forall_mem_append

theorem accepts_nullifiers : ∀ (nullifiers : List Nullified) (F : Forest),
    F.Accepts (nullifiers.map .nullifier)
  | [], _ => nofun
  | x :: nullifiers, F => accepts_cons.mpr ⟨rfl, accepts_nullifiers nullifiers (F.insertNullifier x)⟩

theorem nodeAt_run {F : Forest} {writes : List Write} {n m : Node}
    (h : F.nodeAt n = some m) : (F.run writes).2.nodeAt n = some m := by
  rw [nodeAt, run_node writes F]
  rw [nodeAt] at h
  rw [h]
  rfl

theorem run_accepts : ∀ {writes : List Write} {F : Forest}, F.Accepts writes →
    ∀ n, .node n ∈ writes → (F.run writes).2.nodeAt n = some n
  | write :: writes, F, ha, n, hn => by
    obtain ⟨ha, has⟩ := accepts_cons.mp ha
    rcases List.mem_cons.mp hn with rfl | hn
    · exact nodeAt_run (F := (F.insertNode n).2) (insertNode_ok ha)
    · exact run_accepts has n hn

/-- Mutations leave the nodes that are there. -/
theorem run_node_some {F : Forest} {writes : List Write} {t : U32} {q : Nat} {n : Node}
    (h : F.node t q = some n) :
    (F.run writes).2.node t q = some n := by
  obtain ⟨ht, hq⟩ := F.placed h
  rw [← hq] at h ⊢
  rw [run_node writes F, h]
  rfl

end Forest

theorem Counters.run_append : ∀ (writes writes' : List Write) (k : Counters) (F : Forest),
    k.run F (writes ++ writes') = (k.run F writes).run (F.run writes).2 writes'
  | [], _, _, _ => rfl
  | write :: writes, writes', k, F => run_append writes writes' (k.write F write) (F.write write).2

/-- Mutations one after the other, up to the first that fails. -/
theorem forM_mutate_spec {W : Type} [Reader W] [Writer W] [LawfulWriter W] {α : Type}
    (f : α → Write) : ∀ (l : List α) {w : W} {F : Forest} {k : Counters}, Records (view w .commitments) F k →
    (F.Accepts (l.map f) → ∃ w',
      (l.forM fun a => mapError SyncError.database (f a).mutate) w = .ok () w' ∧
      Records (view w' .commitments) (F.run (l.map f)).2 (k.run F (l.map f)) ∧
      SameElsewhere .commitments w w') ∧
    (¬ F.Accepts (l.map f) → ∃ e w',
      (l.forM fun a => mapError SyncError.database (f a).mutate) w = .error e w')
  | [], w, F, k, hF => ⟨fun _ => ⟨w, rfl, hF, fun _ _ => rfl⟩, fun h => absurd nofun h⟩
  | a :: l, w, F, k, hF => by
    obtain ⟨ha, hr, hs⟩ := write_records hF (f a)
    rw [List.map_cons, Forest.accepts_cons]
    cases hm : (f a).mutate w with
    | ok u w₁ =>
      rw [answering_ok hm] at ha hr hs
      obtain ⟨hok, hno⟩ := forM_mutate_spec f l hr
      have hbind : ((a :: l).forM fun a => mapError SyncError.database (f a).mutate) w =
          (l.forM fun a => mapError SyncError.database (f a).mutate) w₁ :=
        run_bind_of_ok (mapError_ok_state hm)
      refine ⟨fun h => ?_, fun h => ?_⟩
      · obtain ⟨w', hw, hr', hs'⟩ := hok h.2
        exact ⟨w', hbind.trans hw, hr', fun table ht => (hs' table ht).trans (hs table ht)⟩
      · obtain ⟨e, w', hw⟩ := hno fun h' => h ⟨ha.symm, h'⟩
        exact ⟨e, w', hbind.trans hw⟩
    | error e w₁ =>
      rw [answering_error hm] at ha
      refine ⟨fun h => absurd (ha.trans h.1) nofun, fun _ => ⟨.database e, w₁, ?_⟩⟩
      exact run_bind_of_error (mapError_error_state hm)

/-! ## Snapshots of a window's trees -/

/-- The tables hold a forest, with the right lengths, and snapshots of some first
words of its trees: they are its leaves, up to `R`. -/
structure Tracks (R : U256 → U256 → Prop) (tables : PoseidonTables) (serde : Serde MerkleAccumulatorState)
    (T : Tables) (F : Forest) (k : Counters) (words : U32 → List U256) : Prop where
  records : Records (T .commitments) F k
  length : k.length = F.length
  snapshots : Stores (beBytes 4) (T .frontier) fun t => snapshotOf tables serde (words t)
  length_le : ∀ t, (words t).length ≤ F.length t
  like : ∀ {t q w}, (words t)[q]? = some w → R (F.leaf t q) w

/-- The database's tables: a forest, and snapshots of the first leaves of its trees. -/
structure Folded (tables : PoseidonTables) (serde : Serde MerkleAccumulatorState) (T : Tables)
    (F : Forest) (next : U32 → Nat) : Prop where
  represents : Represents (T .commitments) F
  snapshots : Stores (beBytes 4) (T .frontier) fun t => F.snapshotAt tables serde t (next t)
  next_le : ∀ t, next t ≤ F.length t

/-- In every tree, a window has a leaf below the snapshot, or it has every
stored leaf (but for empty ones, up to `R`) from the snapshot to its own last leaf. -/
def Sees (R : U256 → U256 → Prop) (F : Forest) (next : U32 → Nat) (commitments : List Node) : Prop := ∀ t,
  (∃ n ∈ commitments, n.position.treeNumber = t ∧ n.position.leafIndex.toNat < next t) ∨
  ∀ m, F.node t m.position.leafIndex.toNat = some m → next t ≤ m.position.leafIndex.toNat →
    (∃ n ∈ commitments, n.position.treeNumber = t ∧ m.position.leafIndex ≤ n.position.leafIndex) →
    m ∈ commitments ∨ R m.hash railgunMerkleZero

/-- What the forest before and after an accepted window have to do with each other. -/
structure Extends (F F₁ : Forest) (commitments : List Node) : Prop where
  kept : ∀ {t q n}, F.node t q = some n → F₁.node t q = some n
  stored : ∀ n ∈ commitments, F₁.nodeAt n = some n
  only : ∀ {t q n}, F₁.node t q = some n → F.node t q = some n ∨ n ∈ commitments

section
variable {F F₁ : Forest} {commitments : List Node} {t : U32} {a : Nat}

/-- The leaves a window has for a tree, by number. -/
theorem mem_sparse {leaves : Map U32 U256} {q : Nat} {v : U256} :
    (q, v) ∈ leaves.toList.map sparse ↔ ∃ p : U32, p.toNat = q ∧ leaves[p]? = some v := by
  rw [List.mem_map]
  constructor
  · rintro ⟨⟨p, v'⟩, hm, he⟩
    obtain ⟨rfl, rfl⟩ := Prod.mk.inj he
    exact ⟨p, rfl, Std.ExtTreeMap.mem_toList_iff_getElem?_eq_some.mp hm⟩
  · rintro ⟨p, rfl, hp⟩
    exact ⟨(p, v), Std.ExtTreeMap.mem_toList_iff_getElem?_eq_some.mpr hp, rfl⟩

theorem sparse_ascending (leaves : Map U32 U256) :
    (leaves.toList.map sparse).Pairwise fun e f => e.1 < f.1 := by
  refine List.pairwise_map.mpr (List.Pairwise.imp (fun {e f} h => ?_)
    (Std.ExtTreeMap.ordered_keys_toList (t := leaves)))
  exact BitVec.lt_def.mp ((compareOfLessAndEq_eq_lt (x := e.1) (y := f.1)).mp h)

theorem leaf_eq_of_node {t : U32} {q : Nat} {n : Node} (h : F.node t q = some n) :
    F.leaf t q = n.hash := by
  rw [Forest.leaf, h]
  rfl

theorem leaf_eq_of_none {t : U32} {q : Nat} (h : F.node t q = none) :
    F.leaf t q = railgunMerkleZero := by
  rw [Forest.leaf, h]
  rfl

/-- The window's leaves of a tree, and the nodes they come from. -/
theorem mem_group {byTree : Map U32 (Map U32 U256)} (hg : Grouped commitments byTree)
    {leaves : Map U32 U256} (ht : byTree[t]? = some leaves) {q : Nat} {v : U256}
    (h : (q, v) ∈ leaves.toList.map sparse) : ∃ n ∈ commitments,
      n.position.treeNumber = t ∧ n.position.leafIndex.toNat = q ∧ n.hash = v := by
  obtain ⟨p, rfl, hp⟩ := mem_sparse.mp h
  obtain ⟨n, hn, ht', hp', hv⟩ := hg.sound (t := t) (p := p) (h := v) (by rw [lookLeaf, ht]; exact hp)
  exact ⟨n, hn, ht', by rw [hp'], hv⟩

theorem group_mem {byTree : Map U32 (Map U32 U256)} (hg : Grouped commitments byTree)
    {leaves : Map U32 U256} (ht : byTree[t]? = some leaves) {n : Node} (hn : n ∈ commitments)
    (hnt : n.position.treeNumber = t) :
    ∃ v, (n.position.leafIndex.toNat, v) ∈ leaves.toList.map sparse := by
  have h := hg.complete n hn
  rw [lookLeaf, hnt, ht] at h
  obtain ⟨v, hv⟩ := Option.isSome_iff_exists.mp h
  exact ⟨v, mem_sparse.mpr ⟨_, rfl, hv⟩⟩

/-- The window's leaves of a tree take its snapshot on. -/
theorem advances_of_sees {R : U256 → U256 → Prop} (hR : ∀ a, R a a) (hx : Extends F F₁ commitments)
    {words : U32 → List U256} (hlike : ∀ {q w}, (words t)[q]? = some w → R (F.leaf t q) w)
    (hsees : Sees R F (fun t => (words t).length) commitments) {byTree : Map U32 (Map U32 U256)}
    (hg : Grouped commitments byTree) {leaves : Map U32 U256} (ht : byTree[t]? = some leaves) :
    Advances R F₁ t (words t) (leaves.toList.map sparse) where
  ascending := sparse_ascending leaves
  nonempty h := by
    obtain ⟨p, hp⟩ := hg.nonempty ht
    rw [lookLeaf, ht] at hp
    obtain ⟨v, hv⟩ := Option.isSome_iff_exists.mp hp
    have := mem_sparse.mpr ⟨p, rfl, hv⟩
    rw [h] at this
    cases this
  stored e he := by
    obtain ⟨n, hn, hnt, hnp, hv⟩ := mem_group hg ht he
    have hat := hx.stored n hn
    rw [Forest.nodeAt, hnt, hnp] at hat
    rw [leaf_eq_of_node hat, hv]
  inside e he := by
    obtain ⟨n, hn, hnt, hnp, -⟩ := mem_group hg ht he
    have hat := hx.stored n hn
    rw [Forest.nodeAt, hnt, hnp] at hat
    exact Forest.lt_length hat
  below hl q w hw := by
    have hq := (List.getElem?_eq_some_iff.mp hw).1
    suffices hleaf : F₁.leaf t q = F.leaf t q by
      rw [hleaf]
      exact hlike hw
    cases h : F.node t q with
    | some m => rw [leaf_eq_of_node h, leaf_eq_of_node (hx.kept h)]
    | none =>
      cases h₁ : F₁.node t q with
      | none => rw [leaf_eq_of_none h, leaf_eq_of_none h₁]
      | some m =>
        rcases hx.only h₁ with h' | hm
        · rw [h] at h'
          cases h'
        · obtain ⟨hmt, hmq⟩ := F₁.placed h₁
          obtain ⟨v, hv⟩ := group_mem hg ht hm hmt
          have : (words t).length ≤ m.position.leafIndex.toNat := hl _ hv
          omega
  sees hl q hq hlast hnot := by
    cases h₁ : F₁.node t q with
    | none =>
      rw [leaf_eq_of_none h₁]
      exact hR _
    | some m =>
      obtain ⟨hmt, hmq⟩ := F₁.placed h₁
      have hout : m ∉ commitments := fun hm => by
        obtain ⟨v, hv⟩ := group_mem hg ht hm hmt
        exact hnot v (hmq ▸ hv)
      have hF := (hx.only h₁).resolve_right hout
      rcases hsees t with ⟨n, hn, hnt, hlt⟩ | hall
      · obtain ⟨v, hv⟩ := group_mem hg ht hn hnt
        exact absurd hlt (Nat.not_lt.mpr (hl _ hv))
      · obtain ⟨e, he, hqe⟩ := hlast
        obtain ⟨n, hn, hnt, hnp, -⟩ := mem_group hg ht he
        rw [leaf_eq_of_node h₁]
        exact (hall m (by rw [hmq]; exact hF) (by simp only; omega)
          ⟨n, hn, hnt, by rw [BitVec.le_def]; omega⟩).resolve_left hout

end

/-! ## The loop over trees -/

section
variable {tables : PoseidonTables} {serde : Serde MerkleAccumulatorState} {F F₁ : Forest} {k : Counters}
  {words : U32 → List U256}

/-- Each tree's snapshot is advanced, and no other changes. -/
theorem advanceTrees_spec (hJ : serde.RoundTrips) (hk : k.length = F₁.length)
    (hwords : ∀ t, (words t).length ≤ 65536) :
    ∀ {l : List (U32 × Map U32 U256)} {txn : WriteTxn} {snap : U32 → Option Bytes},
    l.Pairwise (fun e f => e.1 ≠ f.1) → Records (view txn .commitments) F₁ k →
    Stores (beBytes 4) (view txn .frontier) snap →
    (∀ e ∈ l, snap e.1 = snapshotOf tables serde (words e.1)) →
    ∃ txn' snap', (l.forM fun e => advanceFrontier tables serde e.1 e.2) txn = .ok () txn' ∧
      SameElsewhere .frontier txn txn' ∧ Stores (beBytes 4) (view txn' .frontier) snap' ∧
      (∀ e ∈ l, snap' e.1 = (serde.toVec
        (accumulate tables (advanced F₁ e.1 (words e.1) (e.2.toList.map sparse))).state).toOption) ∧
      ∀ t, (∀ e ∈ l, e.1 ≠ t) → snap' t = snap t
  | [], txn, snap, _, _, hs, _ => ⟨txn, snap, rfl, fun _ _ => rfl, hs, nofun, fun _ _ => rfl⟩
  | e :: l, txn, snap, hd, hF, hs, hsnap => by
    obtain ⟨hne, hd⟩ := List.pairwise_cons.mp hd
    obtain ⟨txn₁, hrun, hs₁, hsame⟩ := advanceFrontier_spec (hwords e.1) hF hk (sparse_ascending e.2) hJ hs
      (hsnap e List.mem_cons_self)
    obtain ⟨txn', snap', hrun', hsame', hs', hin, hout⟩ := advanceTrees_spec hJ hk hwords hd
      (by rw [hsame _ (by decide)]; exact hF) hs₁
      fun f hf => (if_neg (hne f hf).symm).trans (hsnap f (List.mem_cons_of_mem _ hf))
    refine ⟨txn', snap', (run_bind_of_ok hrun).trans hrun',
      fun table ht => (hsame' table ht).trans (hsame table ht), hs', fun f hf => ?_, fun t ht => ?_⟩
    · rcases List.mem_cons.mp hf with rfl | hf
      · rw [hout _ fun g hg => (hne g hg).symm, if_pos rfl]
      · exact hin f hf
    · rw [hout t fun f hf => ht f (List.mem_cons_of_mem _ hf),
        if_neg fun h => ht e List.mem_cons_self h.symm]

/-- The words of a tree's snapshot after a window. -/
noncomputable def wordsAfter (F₁ : Forest) (words : U32 → List U256) (commitments : List Node) (t : U32) :
    List U256 :=
  match (groupByTree commitments)[t]? with
  | some leaves => advanced F₁ t (words t) (leaves.toList.map sparse)
  | none => words t

/-- What a window makes of a tree's snapshot. -/
noncomputable def snapshotAfter (tables : PoseidonTables) (serde : Serde MerkleAccumulatorState)
    (F₁ : Forest) (words : U32 → List U256) (commitments : List Node) (t : U32) : Option Bytes :=
  match (groupByTree commitments)[t]? with
  | some leaves => (serde.toVec
      (accumulate tables (advanced F₁ t (words t) (leaves.toList.map sparse))).state).toOption
  | none => snapshotOf tables serde (words t)

theorem advanceFrontiers_spec (hJ : serde.RoundTrips) (hk : k.length = F₁.length)
    (hwords : ∀ t, (words t).length ≤ 65536) (commitments : List Node) {txn : WriteTxn}
    (hF : Records (view txn .commitments) F₁ k)
    (hs : Stores (beBytes 4) (view txn .frontier) fun t => snapshotOf tables serde (words t)) :
    ∃ txn', advanceFrontiers tables serde commitments txn = .ok () txn' ∧
      SameElsewhere .frontier txn txn' ∧
      Stores (beBytes 4) (view txn' .frontier) (snapshotAfter tables serde F₁ words commitments) := by
  have hmem : ∀ e : U32 × Map U32 U256, e ∈ (groupByTree commitments).toList ↔
      (groupByTree commitments)[e.1]? = some e.2 := fun e =>
    Std.ExtTreeMap.mem_toList_iff_getElem?_eq_some
  obtain ⟨txn', snap', hrun, hframe, hs', hin, hout⟩ := advanceTrees_spec hJ hk hwords
    (List.Pairwise.imp (fun h he => h (by rw [he]; exact Std.ReflOrd.compare_self))
      (Std.ExtTreeMap.distinct_keys_toList (t := groupByTree commitments))) hF hs
    (fun _ _ => rfl)
  refine ⟨txn', hrun, hframe, hs'.congr fun t => ?_⟩
  rw [snapshotAfter]
  cases h : (groupByTree commitments)[t]? with
  | none =>
    refine hout t fun e he het => ?_
    rw [← het, (hmem e).mp he] at h
    cases h
  | some leaves => exact hin (t, leaves) ((hmem _).mpr h)

variable (tables serde) in
/-- Snapshots of first leaves stay such if the window sees what is stored, and
become such of all leaves if it has all that lies past them. -/
theorem snapshotAfter_eq {R : U256 → U256 → Prop} (hR : ∀ a, R a a)
    (hle : ∀ t, (words t).length ≤ F.length t) (hlike : ∀ {t q w}, (words t)[q]? = some w → R (F.leaf t q) w)
    {commitments : List Node} (hx : Extends F F₁ commitments)
    (hsees : Sees R F (fun t => (words t).length) commitments) (t : U32) :
    snapshotAfter tables serde F₁ words commitments t =
      snapshotOf tables serde (wordsAfter F₁ words commitments t) ∧
    (wordsAfter F₁ words commitments t).length ≤ F₁.length t ∧
    (∀ {q w}, (wordsAfter F₁ words commitments t)[q]? = some w → R (F₁.leaf t q) w) ∧
    ((∀ q n, F.node t q = some n → q < (words t).length ∨ n ∈ commitments) →
      (wordsAfter F₁ words commitments t).length = F₁.length t) := by
  have hg := grouped commitments
  simp only [snapshotAfter, wordsAfter]
  generalize groupByTree commitments = byTree at hg ⊢
  cases h : byTree[t]? with
  | some leaves =>
    have hadv := advances_of_sees hR hx hlike hsees hg h
    refine ⟨(snapshotOf_advanced hadv).symm, length_advanced_le hadv, like_advanced hadv hR, fun ht => ?_⟩
    refine length_advanced hadv (Nat.le_trans (hle t)
      ((F.isHeight_length t).mono (F₁.isHeight_length t) fun q hq => ?_)) fun q n hn => ?_
    · obtain ⟨n, hn⟩ := Option.isSome_iff_exists.mp hq
      rw [hx.kept hn]
      rfl
    · rcases (hx.only hn).imp_left (ht q n) with (hlt | hm) | hm
      · exact .inl hlt
      all_goals
        obtain ⟨hnt, rfl⟩ := F₁.placed hn
        exact .inr (group_mem hg h hm hnt)
  | none =>
    -- Nothing is new in a tree the window does not touch.
    have hsame : F₁.node t = F.node t := by
      funext q
      cases hF : F.node t q with
      | some m => exact hx.kept hF
      | none =>
        cases h₁ : F₁.node t q with
        | none => rfl
        | some m =>
          rcases hx.only h₁ with h' | hm
          · rw [hF] at h'
            cases h'
          · have hc := hg.complete m hm
            rw [(F₁.placed h₁).1, lookLeaf, h] at hc
            cases hc
    have hlen : F₁.length t = F.length t := by rw [Forest.length, hsame]; rfl
    refine ⟨rfl, by rw [hlen]; exact hle t, fun hw => by rw [Forest.leaf, hsame]; exact hlike hw, fun ht => ?_⟩
    rw [hlen]
    refine Nat.le_antisymm (hle t) ?_
    rcases (F.isHeight_length t).top with h0 | htop
    · omega
    · obtain ⟨n, hn⟩ := Option.isSome_iff_exists.mp htop
      rcases ht _ n hn with hlt | hm
      · exact Nat.le_of_pred_lt hlt
      · have hc := hg.complete n hm
        rw [(F.placed hn).1, lookLeaf, h] at hc
        cases hc

theorem represents_new : Represents (Database.empty.engine .commitments) Forest.empty :=
  represents_of_empty rfl

/-- A new file holds the empty forest, and no snapshot. -/
theorem folded_empty (tables : PoseidonTables) (serde : Serde MerkleAccumulatorState) :
    Folded tables serde Database.empty.engine Forest.empty Forest.empty.length := by
  have hl : ∀ t, Forest.empty.length t = 0 := fun t =>
    Height.height_eq (Height.isHeight_empty fun _ => nofun)
  refine ⟨represents_new, ⟨fun t => ?_, fun k v h => ?_⟩, fun t => Nat.le_refl _⟩
  · rw [show Database.empty.engine .frontier = ∅ from rfl, hl]
    rfl
  · rw [show Database.empty.engine .frontier = ∅ from rfl] at h
    simp at h

/-- Snapshots of first leaves are of their words. -/
theorem Folded.tracks {T : Tables} {next : U32 → Nat} (h : Folded tables serde T F next) :
    Tracks Eq tables serde T F F.counters fun t => fill (F.leaf t) 0 (next t) where
  records := h.represents
  length := rfl
  snapshots := h.snapshots.congr fun t => snapshotAt_eq F t (next t)
  length_le t := by
    rw [length_fill]
    exact h.next_le t
  like hw := by
    rw [getElem?_fill, Nat.zero_add] at hw
    split at hw
    · exact Option.some.inj hw
    · cases hw

theorem Tracks.folded {T : Tables} (h : Tracks Eq tables serde T F F.counters words) :
    Folded tables serde T F fun t => (words t).length where
  represents := h.records
  snapshots := h.snapshots.congr fun t => by
    have hfill : words t = fill (F.leaf t) 0 (words t).length := by
      refine List.ext_getElem? fun q => ?_
      rw [getElem?_fill, Nat.zero_add, Nat.sub_zero]
      split
      · rename_i hq
        rw [List.getElem?_eq_getElem hq]
        exact congrArg some (h.like (List.getElem?_eq_getElem hq)).symm
      · rename_i hq
        exact List.getElem?_eq_none (by omega)
    rw [snapshotAt_eq, ← hfill]
  next_le := h.length_le

/-! ## The transaction -/

/-- The mutations of a window, its watermark aside. -/
def windowWrites (commitments : List Node) (nullifiers : List Nullified) : List Write :=
  commitments.map .node ++ nullifiers.map .nullifier

variable {commitments : List Node} {nullifiers : List Nullified}

theorem mem_windowWrites {n : Node} :
    .node n ∈ windowWrites commitments nullifiers ↔ n ∈ commitments := by
  simp [windowWrites]

theorem extends_of_accepts (ha : F.Accepts (windowWrites commitments nullifiers)) :
    Extends F (F.run (windowWrites commitments nullifiers)).2 commitments where
  kept := Forest.run_node_some
  stored n hn := Forest.run_accepts ha n (mem_windowWrites.mpr hn)
  only h := (Forest.run_node_cases h).imp_right mem_windowWrites.mp

/-- The forest a window leaves. -/
def Forest.window (F : Forest) (commitments : List Node) (nullifiers : List Nullified)
    (through : BlockNumber) : Forest :=
  (F.run (windowWrites commitments nullifiers)).2.setSyncedBlock through

theorem Forest.within_window (F : Forest) (commitments : List Node) (nullifiers : List Nullified)
    (through : BlockNumber) : F.Within (F.window commitments nullifiers through) :=
  ⟨(F.within_run _).node, (F.within_run _).nullified⟩

/-- Advancing snapshots leaves the commitments alone. -/
theorem advanceFrontiers_keeps (tables : PoseidonTables) (serde : Serde MerkleAccumulatorState)
    (commitments : List Node) (table : Table) :
    Keeps (fun txn : WriteTxn => txn.inner .commitments = table)
      (advanceFrontiers tables serde commitments) := by
  refine .forM (fun e => ?_) _
  refine .bind (.bind (mapError_keeps (reading_keeps _)) fun snapshot => ?_) fun accumulator => ?_
  · cases snapshot with
    | none => exact .pure _
    | some bytes => exact .bind (reading_keeps _) fun _ => reading_keeps _
  refine .bind ?_ fun _ => .bind (reading_keeps _) fun bytes => mapError_keeps fun txn h => h
  rw [appendOrRebuild]
  exact .ite (.bind (mapError_keeps (reading_keeps _)) fun _ => .pure _) (.pure _)

variable {db : Database} (hJ : serde.RoundTrips) (through : BlockNumber)

section
variable (tables serde)

/-- A window with a node that is refused changes nothing. -/
theorem commitWindow_rejected (hF : Records (db.engine .commitments) F k)
    (ha : ¬ F.Accepts (windowWrites commitments nullifiers)) :
    ∃ e, commitWindow tables serde db commitments nullifiers through = (.error e, db) := by
  have hno : ¬ F.Accepts (commitments.map .node) := fun h =>
    ha (Forest.accepts_append.mpr ⟨h, Forest.accepts_nullifiers _ _⟩)
  obtain ⟨e, txn, hrun⟩ :=
    (forM_mutate_spec Write.node commitments (w := WriteTxn.mk db.engine) hF).2 hno
  have hwin : windowTxn tables serde commitments nullifiers through ⟨db.engine⟩ = .error e txn :=
    run_bind_of_error hrun
  exact ⟨e, by rw [commitWindow, Database.write, hwin]⟩

/-- The mutations of an accepted window, up to the snapshots. -/
theorem windowTxn_accepted (hF : Records (db.engine .commitments) F k)
    (ha : F.Accepts (windowWrites commitments nullifiers)) : ∃ txn : WriteTxn,
      windowTxn tables serde commitments nullifiers through ⟨db.engine⟩ =
        (advanceFrontiers tables serde commitments >>= fun _ =>
          mapError .database (CommitmentsMut.setSyncedBlock through)) txn ∧
      Records (view txn .commitments) (F.run (windowWrites commitments nullifiers)).2
        (k.run F (windowWrites commitments nullifiers)) ∧
      SameElsewhere .commitments (WriteTxn.mk db.engine) txn := by
  obtain ⟨txn₁, h₁, hF₁, hs₁⟩ := (forM_mutate_spec Write.node commitments
    (w := WriteTxn.mk db.engine) hF).1 (Forest.accepts_append.mp ha).1
  obtain ⟨txn₂, h₂, hF₂, hs₂⟩ := (forM_mutate_spec Write.nullifier nullifiers hF₁).1
    (Forest.accepts_nullifiers _ _)
  rw [← (Forest.run_append (commitments.map .node) (nullifiers.map .nullifier) F).2,
    ← Counters.run_append] at hF₂
  exact ⟨txn₂, (run_bind_of_ok h₁).trans (run_bind_of_ok h₂), hF₂,
    fun table ht => (hs₂ table ht).trans (hs₁ table ht)⟩

/-- Whatever the snapshots are, a window fails and changes nothing, or leaves the
forest of its mutations. -/
theorem commitWindow_grows (commitments : List Node) (nullifiers : List Nullified)
    (through : BlockNumber) (hF : Represents (db.engine .commitments) F) :
    (∃ e, commitWindow tables serde db commitments nullifiers through = (.error e, db)) ∨
    ∃ db', commitWindow tables serde db commitments nullifiers through = (.ok (), db') ∧
      Represents (db'.engine .commitments) (F.window commitments nullifiers through) := by
  by_cases ha : F.Accepts (windowWrites commitments nullifiers)
  swap
  · exact .inl (commitWindow_rejected tables serde through hF ha)
  obtain ⟨txn₂, hwin, hF₂, -⟩ := windowTxn_accepted tables serde through hF ha
  cases h₃ : advanceFrontiers tables serde commitments txn₂ with
  | error e txn₃ =>
    exact .inl ⟨e, by rw [commitWindow, Database.write, hwin, run_bind_of_error h₃]⟩
  | ok u txn₃ =>
    have hkeep := (advanceFrontiers_keeps tables serde commitments _).ok h₃ rfl
    have hF₃ : Represents (view txn₃ .commitments)
        (F.run (windowWrites commitments nullifiers)).2 := by
      show Records (txn₃.inner .commitments) _ _
      rw [hkeep, ← counters_run]
      exact hF₂
    obtain ⟨txn₄, h₄, hF₄, -⟩ := setSyncedBlock_spec hF₃ through
    refine .inr ⟨⟨txn₄.inner⟩, ?_, hF₄⟩
    rw [commitWindow, Database.write, hwin, run_bind_of_ok h₃, mapError_ok_state h₄]

end

section
variable {R : U256 → U256 → Prop} (hdb : Tracks R tables serde db.engine F k words)
  (ha : F.Accepts (windowWrites commitments nullifiers))
include hJ hdb ha

/-- A window whose nodes are all accepted leaves the forest of its mutations,
and the snapshots it makes. -/
theorem commitWindow_accepted :
    ∃ db', commitWindow tables serde db commitments nullifiers through = (.ok (), db') ∧
      Records (db'.engine .commitments) (F.window commitments nullifiers through)
        (k.run F (windowWrites commitments nullifiers)) ∧
      Stores (beBytes 4) (db'.engine .frontier) (snapshotAfter tables serde
        (F.run (windowWrites commitments nullifiers)).2 words commitments) ∧
      ∀ table, table ≠ .commitments → table ≠ .frontier → db'.engine table = db.engine table := by
  obtain ⟨txn₂, hwin, hF₂, hs₂⟩ := windowTxn_accepted tables serde through hdb.records ha
  have hfront : view txn₂ .frontier = db.engine .frontier := hs₂ _ (by decide)
  obtain ⟨txn₃, h₃, hs₃, hsnap⟩ := advanceFrontiers_spec hJ (length_run _ hdb.length)
    (fun t => Nat.le_trans (hdb.length_le t) (F.length_le t)) commitments hF₂
    (by rw [hfront]; exact hdb.snapshots)
  obtain ⟨txn₄, h₄, hF₄, hs₄⟩ := setSyncedBlock_spec
    (by rw [hs₃ _ (by decide)]; exact hF₂ : Records (view txn₃ .commitments) _ _) through
  refine ⟨⟨txn₄.inner⟩, ?_, hF₄, ?_, fun table hc hf => ?_⟩
  · rw [commitWindow, Database.write, hwin, run_bind_of_ok h₃, mapError_ok_state h₄]
  · have hview : txn₄.inner .frontier = view txn₃ .frontier := hs₄ _ (by decide)
    show Stores (beBytes 4) (txn₄.inner .frontier) _
    rw [hview]
    exact hsnap
  · exact (hs₄ table hc).trans ((hs₃ table hf).trans (hs₂ table hc))

/-- If the window sees what is stored, the snapshots are of first leaves again. -/
theorem commitWindow_tracks (hR : ∀ a, R a a)
    (hsees : Sees R F (fun t => (words t).length) commitments) :
    ∃ db' words', commitWindow tables serde db commitments nullifiers through = (.ok (), db') ∧
      Tracks R tables serde db'.engine (F.window commitments nullifiers through)
        (k.run F (windowWrites commitments nullifiers)) words' ∧
      (∀ t, (∀ q n, F.node t q = some n → q < (words t).length ∨ n ∈ commitments) →
        (words' t).length = (F.window commitments nullifiers through).length t) ∧
      ∀ table, table ≠ .commitments → table ≠ .frontier → db'.engine table = db.engine table := by
  obtain ⟨db', hw, hF, hs, hother⟩ := commitWindow_accepted hJ through hdb ha
  have hafter := snapshotAfter_eq tables serde hR hdb.length_le hdb.like
    (extends_of_accepts ha) hsees
  exact ⟨db', _, hw, ⟨hF, length_run _ hdb.length, hs.congr fun t => (hafter t).1, fun t => (hafter t).2.1,
    fun {t} => (hafter t).2.2.1⟩, fun t => (hafter t).2.2.2, hother⟩

end

include hJ

theorem commitWindow_folded {next : U32 → Nat} (hdb : Folded tables serde db.engine F next)
    (ha : F.Accepts (windowWrites commitments nullifiers)) (hsees : Sees Eq F next commitments) :
    ∃ db' next', commitWindow tables serde db commitments nullifiers through = (.ok (), db') ∧
      Folded tables serde db'.engine (F.window commitments nullifiers through) next' ∧
      (∀ t, (∀ q n, F.node t q = some n → q < next t ∨ n ∈ commitments) →
        next' t = (F.window commitments nullifiers through).length t) ∧
      ∀ table, table ≠ .commitments → table ≠ .frontier → db'.engine table = db.engine table := by
  have hlen : ∀ t, (fill (F.leaf t) 0 (next t)).length = next t := fun t => length_fill _ _ _
  obtain ⟨db', words', hw, hF, hfull, hother⟩ := commitWindow_tracks hJ through hdb.tracks ha Eq.refl
    (by simpa only [hlen] using hsees)
  simp only [hlen] at hfull
  rw [counters_run] at hF
  exact ⟨db', _, hw, hF.folded, hfull, hother⟩

end

end Railgun
