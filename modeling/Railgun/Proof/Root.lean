import Railgun.Proof.Binding
import Railgun.Proof.Json
import Railgun.Proof.Spine
import Railgun.Proof.Window
import Railgun.Spec.Windows

/-!
# Roots over sequences of windows

While every snapshot is of a tree's first leaves, as the hash takes them, the root
read off a current one is the root of the tree (`merkleRoot_tracks`). Windows on an empty database
keep every snapshot current, in every mix of appended leaves, gaps, backfills
and rolled back windows (`frontier_current`). Windows on leaves without a
snapshot do so if each sees what is stored (`legacy_root`); one that leaves a
stored leaf out makes a snapshot that is current and wrong (`legacy_root_wrong`).
-/

namespace Railgun

open OrdMap GapFill Outcome BigEndian MerkleAccumulator

/-- The first leaf of the first tree, and the second. -/
def firstLeaf : Node := bareNode ⟨0, 0, zero_lt_capacity⟩ 1
def secondLeaf : Node := bareNode ⟨0, 1, by decide⟩ 2

theorem firstLeaf_admissible : Admissible firstLeaf := by decide
theorem secondLeaf_admissible : Admissible secondLeaf := by decide

section
variable {tables : PoseidonTables} {serde : Serde MerkleAccumulatorState}

/-! ## Reads -/

section
variable {R : Type} [Reader R] [LawfulReader R] {r : R} {F : Forest} {k : Counters}

section
variable (hF : Records (view r .commitments) F k) (hk : k.length = F.length)
include hF hk

theorem walkUp_spec (t : U32) : walkUp tables r t =
    .ok ((F.accumulator tables t).root, BitVec.ofNat 32 (F.length t),
      BitVec.ofNat 32 (F.length t) - BitVec.ofNat 32 (F.leaves t).length) := by
  rw [walkUp, treeFrontier_records tables hF hk, ok_bind]
  rfl

omit hF hk in
theorem setWidth_length (F : Forest) (t : U32) :
    ((BitVec.ofNat 32 (F.length t)).setWidth 64).toNat = F.length t := by
  have := F.length_le t
  rw [BitVec.toNat_setWidth, BitVec.toNat_ofNat]
  omega

/-- The snapshot's root, if it has as many leaves as the tree. -/
theorem merkleRoot_current (tables : PoseidonTables) {t : U32} {bytes : Bytes}
    {state : MerkleAccumulatorState} (hsnap : Frontier.snapshot r t = .ok (some bytes))
    (hfrom : serde.fromSlice bytes = .ok state) (hnext : state.nextIndex.toNat = F.length t) :
    merkleRoot tables serde r t = .ok state.root := by
  have hcurrent : state.nextIndex = (BitVec.ofNat 32 (F.length t)).setWidth 64 :=
    BitVec.eq_of_toNat_eq (hnext.trans (setWidth_length F t).symm)
  unfold merkleRoot
  simp only [treeLength_records hF, hk, hsnap, mapError_ok, ok_bind, hfrom, if_pos hcurrent]
  rfl

/-- The root of the full walk otherwise. -/
theorem merkleRoot_stale {t : U32} {bytes : Bytes}
    {state : MerkleAccumulatorState} (hsnap : Frontier.snapshot r t = .ok (some bytes))
    (hfrom : serde.fromSlice bytes = .ok state) (hnext : state.nextIndex.toNat ≠ F.length t) :
    merkleRoot tables serde r t = .ok (F.accumulator tables t).root := by
  have hstale : state.nextIndex ≠ (BitVec.ofNat 32 (F.length t)).setWidth 64 := fun h =>
    hnext ((congrArg BitVec.toNat h).trans (setWidth_length F t))
  unfold merkleRoot
  simp only [treeLength_records hF, hk, hsnap, mapError_ok, ok_bind, hfrom, if_neg hstale, walkUp_spec hF hk]
  rfl

theorem merkleRoot_none {t : U32} (hsnap : Frontier.snapshot r t = .ok none) :
    merkleRoot tables serde r t = .ok (F.accumulator tables t).root := by
  unfold merkleRoot
  simp only [treeLength_records hF, hk, hsnap, mapError_ok, ok_bind, walkUp_spec hF hk]
  rfl

theorem validate_spec (t : U32) (isValid : U32 → U32 → U256 → Bool) : ∃ integrity,
    validate tables r t isValid = .ok integrity ∧ integrity.root = (F.accumulator tables t).root := by
  rw [validate, walkUp_spec hF hk, ok_bind]
  exact ⟨_, rfl, rfl⟩

end

variable {words : U32 → List U256}

theorem Tracks.mono {Q Q' : U256 → U256 → Prop} (hQ : ∀ {a b}, Q a b → Q' a b) {T : Tables}
    (h : Tracks Q tables serde T F k words) : Tracks Q' tables serde T F k words :=
  ⟨h.records, h.length, h.snapshots, h.length_le, fun hw => hQ (h.like hw)⟩

/-- Words that are all of a tree's leaves have its root. -/
theorem root_of_like {t : U32} (hlen : (words t).length = F.length t)
    (hlike : ∀ {q w}, (words t)[q]? = some w → SameField (F.leaf t q) w) :
    (accumulate tables (words t)).root = (F.accumulator tables t).root := by
  have hle := F.length_le t
  refine (accumulator_same tables (by rw [length_fill]; omega) (by omega) fun i => ?_).symm
  rw [leafAt, leafAt, List.getD_eq_getElem?_getD, List.getD_eq_getElem?_getD, getElem?_fill, Nat.zero_add,
    Nat.sub_zero]
  split
  · rename_i hi
    rw [← hlen] at hi
    rw [List.getElem?_eq_getElem hi]
    exact hlike (List.getElem?_eq_getElem hi)
  · rename_i hi
    rw [List.getElem?_eq_none (by omega)]
    rfl

/-- A snapshot of first leaves is current only if it is of all of them. -/
theorem merkleRoot_tracks (hJ : serde.RoundTrips) (h : Tracks SameField tables serde (view r) F k words)
    (t : U32) : merkleRoot tables serde r t = .ok (F.accumulator tables t).root := by
  have hsnap := snapshot_of_stores h.snapshots t
  have hlen := len_accumulate tables (Nat.le_trans (h.length_le t) (F.length_le t))
  rw [snapshotOf] at hsnap
  by_cases h0 : words t = []
  · exact merkleRoot_none h.records h.length (hsnap.trans (by rw [if_pos h0]))
  · obtain ⟨bytes, hto, hfrom⟩ := hJ (accumulate tables (words t)).state
    rw [if_neg h0, hto] at hsnap
    by_cases hfull : (words t).length = F.length t
    · rw [merkleRoot_current h.records h.length tables hsnap hfrom (hlen.trans hfull)]
      exact congrArg Except.ok (root_of_like hfull h.like)
    · exact merkleRoot_stale h.records h.length hsnap hfrom fun he => hfull (hlen.symm.trans he)

theorem Folded.same {T : Tables} {next : U32 → Nat} (h : Folded tables serde T F next) :
    Tracks SameField tables serde T F F.counters fun t => fill (F.leaf t) 0 (next t) :=
  h.tracks.mono (congrArg fieldOf)

theorem merkleRoot_folded (hJ : serde.RoundTrips) {next : U32 → Nat}
    (h : Folded tables serde (view r) F next) (t : U32) :
    merkleRoot tables serde r t = .ok (F.accumulator tables t).root := merkleRoot_tracks hJ h.same t

end

/-! ## Windows on an empty database -/

/-- Every leaf of the forest is below a full snapshot. -/
theorem sees_of_full (F : Forest) (commitments : List Node) : Sees Eq F F.length commitments :=
  fun t => .inr fun m hm hle => by
    have := Forest.lt_length hm
    omega

section
variable (hJ : serde.RoundTrips)
include hJ

/-- A window on full snapshots leaves full snapshots: of its own forest, or of
the forest as it was. -/
theorem commitCall_full {db : Database} {F : Forest} (hdb : Folded tables serde db.engine F F.length)
    (call : WindowCall) :
    (F.Accepts (windowWrites call.commitments call.nullifiers) ∧ ∃ db',
      commitCall tables serde db call = (.ok (), db') ∧
      Folded tables serde db'.engine (F.window call.commitments call.nullifiers call.through)
        (F.window call.commitments call.nullifiers call.through).length ∧
      ∀ table, table ≠ .commitments → table ≠ .frontier → db'.engine table = db.engine table) ∨
    ∃ e, commitCall tables serde db call = (.error e, db) := by
  by_cases ha : F.Accepts (windowWrites call.commitments call.nullifiers)
  · obtain ⟨db', next', hw, hF, hfull, hother⟩ := commitWindow_folded hJ call.through hdb ha
      (sees_of_full F call.commitments)
    rw [funext fun t => hfull t fun q n hn => .inl (Forest.lt_length hn)] at hF
    exact .inl ⟨ha, db', hw, hF, hother⟩
  · exact .inr (commitWindow_rejected tables serde call.through hdb.represents ha)

theorem commitCalls_full : ∀ (calls : List WindowCall) {db : Database} {F : Forest},
    Folded tables serde db.engine F F.length →
    ∃ F' : Forest, Folded tables serde (commitCalls tables serde db calls).engine F' F'.length
  | [], _, F, hdb => ⟨F, hdb⟩
  | call :: calls, db, F, hdb => by
    rw [commitCalls, List.foldl_cons]
    rcases commitCall_full hJ hdb call with ⟨-, db', hw, hF, -⟩ | ⟨e, hw⟩
    · rw [hw]
      exact commitCalls_full calls hF
    · rw [hw]
      exact commitCalls_full calls hdb

/-- After any sequence of windows on an empty database, a tree that has leaves
has the snapshot that a full walk rebuilds, a tree that has none has none, and
the root is the one `validate` recomputes. -/
theorem frontier_current (calls : List WindowCall) (t : U32) :
    let db := commitCalls tables serde Database.empty calls
    ∃ accumulator length missing,
      treeFrontier tables db.read t = .ok (accumulator, length, missing) ∧
      Commitments.treeLength db.read t = .ok length ∧
      (length = 0 → Frontier.snapshot db.read t = .ok none) ∧
      (length ≠ 0 → ∃ bytes, Frontier.snapshot db.read t = .ok (some bytes) ∧
        serde.toVec accumulator.state = .ok bytes ∧ serde.fromSlice bytes = .ok accumulator.state ∧
        accumulator.state.nextIndex = length.setWidth 64) ∧
      merkleRoot tables serde db.read t = .ok accumulator.root ∧
      ∀ isValid, ∃ integrity, validate tables db.read t isValid = .ok integrity ∧
        integrity.root = accumulator.root := by
  intro db
  obtain ⟨F, hF⟩ := commitCalls_full hJ calls (folded_empty tables serde)
  have hview : Folded tables serde (view db.read) F F.length := hF
  have hle := F.length_le t
  have hlen : (BitVec.ofNat 32 (F.length t)).toNat = F.length t := by
    rw [BitVec.toNat_ofNat, Nat.mod_eq_of_lt (by omega)]
  have hsnap := snapshot_of_stores hview.snapshots t
  rw [Forest.snapshotAt] at hsnap
  refine ⟨_, _, _, treeFrontier_spec tables hview.represents t, treeLength_spec hview.represents t,
    fun h => ?_, fun h => ?_, merkleRoot_folded hJ hview t, validate_spec hview.represents rfl t⟩
  · rw [hsnap, if_pos (by rw [← hlen, h]; rfl)]
  · obtain ⟨bytes, hto, hfrom⟩ := hJ (F.accumulator tables t).state
    have h0 : F.length t ≠ 0 := fun h0 => h (BitVec.eq_of_toNat_eq (by rw [hlen, h0]; rfl))
    refine ⟨bytes, ?_, hto, hfrom, BitVec.eq_of_toNat_eq ?_⟩
    · rw [hsnap, if_neg h0, ← Forest.accumulator, hto]
      rfl
    · have hfill : (fill (F.leaf t) 0 (F.length t)).length = F.length t := length_fill _ _ _
      exact (len_accumulate tables (hfill.trans_le hle)).trans (hfill.trans (setWidth_length F t).symm)

/-- A window of one leaf, in a free place. -/
theorem commitCall_free {db : Database} {F : Forest} (hdb : Folded tables serde db.engine F F.length)
    {n : Node} (hn : Admissible n) (hfree : F.nodeAt n = none) (through : BlockNumber) : ∃ db',
    commitCall tables serde db ⟨[n], [], through⟩ = (.ok (), db') ∧
    Folded tables serde db'.engine ((F.store n hn).setSyncedBlock through) (F.store n hn).length := by
  have hinsert := Forest.insertNode_free hn hfree
  have hforest : F.window [n] [] through = (F.store n hn).setSyncedBlock through :=
    congrArg (fun r : Except DatabaseError Unit × Forest => r.2.setSyncedBlock through) hinsert
  have ha : F.Accepts (windowWrites [n] []) :=
    Forest.accepts_cons.mpr ⟨congrArg Prod.fst hinsert, nofun⟩
  rcases commitCall_full hJ hdb ⟨[n], [], through⟩ with ⟨-, db', hw, hF, -⟩ | ⟨e, hw⟩
  · rw [hforest] at hF
    exact ⟨db', hw, hF⟩
  · obtain ⟨db', -, hok, -⟩ := commitWindow_folded hJ through hdb ha (sees_of_full F [n])
    cases hw.symm.trans hok

omit hJ

/-- The window of the second leaf, and its tree. -/
def secondWindow : WindowCall := ⟨[secondLeaf], [], 0⟩
def secondForest : Forest := (Forest.empty.store secondLeaf secondLeaf_admissible).setSyncedBlock 0

theorem length_secondForest : secondForest.length 0 = 2 := by
  have h0 : Forest.empty.length 0 = 0 := Height.height_eq (Height.isHeight_empty fun _ => nofun)
  have h1 : secondForest.length 0 = (Forest.empty.store secondLeaf secondLeaf_admissible).length 0 := rfl
  rw [h1, Forest.length_store, h0]
  rfl

theorem folded_secondWindow : ∃ db,
    commitCall poseidonTables snapshotSerde Database.empty secondWindow = (.ok (), db) ∧
    Folded poseidonTables snapshotSerde db.engine secondForest secondForest.length :=
  commitCall_free snapshotSerde_roundTrips (folded_empty _ _) secondLeaf_admissible rfl 0

theorem length_backfilled : Commitments.treeLength
    (commitCalls poseidonTables snapshotSerde Database.empty [secondWindow, ⟨[firstLeaf], [], 1⟩]).read 0 =
      .ok 2 := by
  obtain ⟨db, hw, hF⟩ := folded_secondWindow
  obtain ⟨db', hw', hF'⟩ := commitCall_free snapshotSerde_roundTrips hF firstLeaf_admissible rfl 1
  have hdb : commitCalls poseidonTables snapshotSerde Database.empty [secondWindow, ⟨[firstLeaf], [], 1⟩] =
      db' := by
    simp only [commitCalls, List.foldl_cons, List.foldl_nil, hw, hw']
  have hlen : ((secondForest.store firstLeaf firstLeaf_admissible).setSyncedBlock 1).length 0 = 2 := by
    refine (Forest.length_store secondForest firstLeaf firstLeaf_admissible 0).trans ?_
    rw [length_secondForest]
    rfl
  rw [hdb, treeLength_spec (r := db'.read) hF'.represents, hlen]
  rfl

/-- The second leaf in a window before the first: a gap, filled later. -/
theorem frontier_current_backfill :
    let db := commitCalls poseidonTables snapshotSerde Database.empty [secondWindow, ⟨[firstLeaf], [], 1⟩]
    ∃ accumulator missing,
      treeFrontier poseidonTables db.read 0 = .ok (accumulator, 2, missing) ∧
      Commitments.treeLength db.read 0 = .ok 2 ∧
      Frontier.snapshot db.read 0 = .ok (some (stateJson accumulator.state)) ∧
      accumulator.state.nextIndex = 2 ∧
      merkleRoot poseidonTables snapshotSerde db.read 0 = .ok accumulator.root := by
  intro db
  obtain ⟨accumulator, length, missing, hfrontier, hlength, -, hsnap, hroot, -⟩ :=
    frontier_current snapshotSerde_roundTrips [secondWindow, ⟨[firstLeaf], [], 1⟩] 0
  obtain rfl : length = 2 := Except.ok.inj (hlength.symm.trans length_backfilled)
  obtain ⟨bytes, hbytes, hto, -, hnext⟩ := hsnap (by decide)
  rw [← Except.ok.inj hto] at hbytes
  exact ⟨accumulator, missing, hfrontier, hlength, hbytes, hnext, hroot⟩

include hJ

/-! ## Windows on leaves without a snapshot -/

section
variable {R : Type} [Reader R] [LawfulReader R] {r : R} {F : Forest} {k : Counters} {words : U32 → List U256}
  {Q : U256 → U256 → Prop} (h : Tracks Q tables serde (view r) F k words)
include h

theorem snapshotLength_tracks (t : U32) : snapshotLength serde r t = (words t).length := by
  have hle := Nat.le_trans (h.length_le t) (F.length_le t)
  rw [snapshotLength, snapshot_of_stores h.snapshots, snapshotOf]
  by_cases h0 : words t = []
  · rw [if_pos h0, h0]
    rfl
  · obtain ⟨bytes, hto, hfrom⟩ := hJ (accumulate tables (words t)).state
    rw [if_neg h0, hto]
    simp only [Except.toOption, hfrom]
    exact len_accumulate tables hle

/-- What a window sees of the store is what it sees of the forest. -/
theorem sees_of_stored {commitments : List Node} (hs : SeesStored serde r commitments) :
    Sees SameField F (fun t => (words t).length) commitments := fun t => by
  have hlen := snapshotLength_tracks hJ h t
  simp only [← hlen]
  exact (hs t).imp_right fun hall m hm => hall m ((node_spec h.records t _).trans (by rw [hm]))

end

/-- A window that sees what is stored keeps snapshots of first leaves. -/
theorem commitCall_tracks {db : Database} {F : Forest} {k : Counters} {words : U32 → List U256}
    (hdb : Tracks SameField tables serde db.engine F k words) {call : WindowCall}
    (hs : SeesStored serde db.read call.commitments) : ∃ F' k' words', F.Within F' ∧
    Tracks SameField tables serde (commitCall tables serde db call).2.engine F' k' words' := by
  by_cases ha : F.Accepts (windowWrites call.commitments call.nullifiers)
  · obtain ⟨db', words', hw, hF, -⟩ := commitWindow_tracks hJ call.through hdb ha (fun _ => rfl)
      (sees_of_stored hJ (r := db.read) hdb hs)
    exact ⟨_, _, words', F.within_window _ _ _, by rw [commitCall, hw]; exact hF⟩
  · obtain ⟨e, hw⟩ := commitWindow_rejected tables serde call.through hdb.records ha
    exact ⟨F, k, words, .refl F, by rw [commitCall, hw]; exact hdb⟩

theorem commitCalls_tracks : ∀ {calls : List WindowCall} {db : Database} {F : Forest} {k : Counters}
    {words : U32 → List U256}, Tracks SameField tables serde db.engine F k words →
    AllSee tables serde db calls →
    ∃ F' k' words', Tracks SameField tables serde (commitCalls tables serde db calls).engine F' k' words'
  | [], _, F, k, words, hdb, _ => ⟨F, k, words, hdb⟩
  | call :: calls, db, F, k, words, hdb, hsee => by
    obtain ⟨F', k', words', -, hF⟩ := commitCall_tracks hJ hdb hsee.1
    rw [commitCalls, List.foldl_cons]
    exact commitCalls_tracks hF hsee.2

/-- On a database whose trees have no snapshot, or one of their first leaves,
windows that see what is stored keep every root right. -/
theorem legacy_root {db : Database} {F : Forest} {next : U32 → Nat}
    (hdb : Folded tables serde db.engine F next) (calls : List WindowCall)
    (hsee : AllSee tables serde db calls) (t : U32) :
    let db' := commitCalls tables serde db calls
    ∃ accumulator length missing,
      treeFrontier tables db'.read t = .ok (accumulator, length, missing) ∧
      merkleRoot tables serde db'.read t = .ok accumulator.root := by
  obtain ⟨F', k', words', hF⟩ := commitCalls_tracks hJ hdb.same hsee
  exact ⟨_, _, _, treeFrontier_records tables hF.records hF.length t, merkleRoot_tracks hJ hF t⟩

end

end

/-! ## The leaf that is left out -/

theorem nextIndex_gapped : gappedAccumulator.state.nextIndex.toNat = 2 :=
  len_new_insertAll (C := railgunTree) (l := [railgunMerkleZero, 2]) (by decide)

theorem snapshotSerde_gapped :
    snapshotSerde.fromSlice (stateJson gappedAccumulator.state) = .ok gappedAccumulator.state :=
  stateOfJson_stateJson gappedAccumulator.state

/-- A tree of the two leaves, with a snapshot that has only the second. -/
theorem stale_root {R : Type} [Reader R] [LawfulReader R] {r : R} {F : Forest}
    (hF : Represents (view r .commitments) F) (hlen : F.length 0 = 2) (h₀ : F.leaf 0 0 = 1)
    (h₁ : F.leaf 0 1 = 2)
    (hsnap : Frontier.snapshot r 0 = .ok (some (stateJson gappedAccumulator.state))) :
    ∃ accumulator length missing,
      treeFrontier poseidonTables r 0 = .ok (accumulator, length, missing) ∧
      merkleRoot poseidonTables snapshotSerde r 0 ≠ .ok accumulator.root := by
  have hacc : F.accumulator poseidonTables 0 = new.insertAll [1, 2] := by
    rw [Forest.accumulator, Forest.firstLeaves, hlen, fill_succ (by decide), fill_succ (by decide),
      fill_self, h₀, h₁]
  have hroot := merkleRoot_current hF rfl poseidonTables hsnap snapshotSerde_gapped
    (nextIndex_gapped.trans hlen.symm)
  refine ⟨_, _, _, treeFrontier_spec poseidonTables hF 0, fun h => roots_differ ?_⟩
  rw [hacc, hroot] at h
  exact Except.ok.inj h

/-- The window of the second leaf, on a tree without a snapshot. -/
theorem snapshotAfter_secondLeaf (F₁ : Forest) :
    snapshotAfter poseidonTables snapshotSerde F₁ (fun _ => []) [secondLeaf] 0 =
      some (stateJson gappedAccumulator.state) := by
  obtain ⟨leaves, hl, hlist⟩ : ∃ leaves, (groupByTree [secondLeaf])[(0 : U32)]? = some leaves ∧
      leaves.toList = [(1, 2)] := ⟨_, rfl, rfl⟩
  have hadvanced : advanced F₁ 0 [] (leaves.toList.map sparse) = [railgunMerkleZero, 2] := by
    rw [hlist, advanced, if_neg (by decide)]
    rfl
  simp only [snapshotAfter, hl, hadvanced]
  rfl

/-! ## A legacy leaf -/

/-- The forest of the first leaf, and with the second put in. -/
def firstForest : Forest := Forest.empty.store firstLeaf firstLeaf_admissible
def pairForest : Forest := firstForest.store secondLeaf secondLeaf_admissible

theorem length_pairForest : pairForest.length 0 = 2 := by
  have h0 : Forest.empty.length 0 = 0 := Height.height_eq (Height.isHeight_empty fun _ => nofun)
  rw [pairForest, Forest.length_store, firstForest, Forest.length_store, h0]
  rfl

/-- A database that holds the first leaf and no snapshot. -/
def legacyDatabase : Database :=
  (Database.empty.write (CommitmentsMut.insertNode firstLeaf)).2

theorem legacyDatabase_folded :
    Folded poseidonTables snapshotSerde legacyDatabase.engine firstForest fun _ => 0 := by
  obtain ⟨txn, hw, hr, hs⟩ : ∃ txn : WriteTxn,
      CommitmentsMut.insertNode firstLeaf (WriteTxn.mk Database.empty.engine) = .ok () txn ∧
      Represents (view txn .commitments) firstForest ∧
      SameElsewhere .commitments (WriteTxn.mk Database.empty.engine) txn := by
    have h := insertNode_spec (w := WriteTxn.mk Database.empty.engine) represents_new firstLeaf_admissible
    rwa [← counters_store _ _ firstLeaf_admissible] at h
  have hdb : legacyDatabase = ⟨txn.inner⟩ := by
    rw [legacyDatabase, Database.write, hw]
  rw [hdb]
  refine ⟨hr, ?_, fun _ => Nat.zero_le _⟩
  have hfront : txn.inner .frontier = ∅ := hs .frontier (by decide)
  show Stores (beBytes 4) (txn.inner .frontier) _
  rw [hfront]
  exact ⟨fun _ => rfl, fun k v h => by simp at h⟩

theorem commitCall_secondWindow {db : Database} {F F' : Forest}
    (hdb : Folded poseidonTables snapshotSerde db.engine F fun _ => 0)
    (hF' : F.insertNode secondLeaf = (.ok (), F')) : ∃ db',
    commitCall poseidonTables snapshotSerde db secondWindow = (.ok (), db') ∧
    Represents (db'.engine .commitments) (F'.setSyncedBlock 0) ∧
    Frontier.snapshot db'.read 0 = .ok (some (stateJson gappedAccumulator.state)) := by
  have ha : F.Accepts (windowWrites secondWindow.commitments secondWindow.nullifiers) :=
    Forest.accepts_cons.mpr ⟨congrArg Prod.fst hF', nofun⟩
  have htracks : Tracks Eq poseidonTables snapshotSerde db.engine F F.counters fun _ => [] := by
    simpa only [fill_self] using hdb.tracks
  obtain ⟨db', hw, hr, hs, -⟩ :=
    commitWindow_accepted snapshotSerde_roundTrips secondWindow.through htracks ha
  rw [counters_run] at hr
  have hforest : F.window secondWindow.commitments secondWindow.nullifiers secondWindow.through =
      F'.setSyncedBlock 0 :=
    congrArg (fun r : Except DatabaseError Unit × Forest => r.2.setSyncedBlock 0) hF'
  have hr : Represents (db'.engine .commitments)
      (F.window secondWindow.commitments secondWindow.nullifiers secondWindow.through) := hr
  rw [hforest] at hr
  refine ⟨db', hw, hr, ?_⟩
  rw [snapshot_of_stores (r := db'.read) hs]
  exact congrArg Except.ok (snapshotAfter_secondLeaf _)

theorem firstForest_insertNode : firstForest.insertNode secondLeaf = (.ok (), pairForest) :=
  Forest.insertNode_free secondLeaf_admissible rfl

/-- A window that carries the legacy leaf again. -/
theorem legacy_root_resent :
    let db := commitCalls poseidonTables snapshotSerde legacyDatabase [⟨[firstLeaf, secondLeaf], [], 0⟩]
    ∃ accumulator length missing,
      treeFrontier poseidonTables db.read 0 = .ok (accumulator, length, missing) ∧
      merkleRoot poseidonTables snapshotSerde db.read 0 = .ok accumulator.root := by
  refine legacy_root snapshotSerde_roundTrips legacyDatabase_folded [⟨[firstLeaf, secondLeaf], [], 0⟩]
    ⟨fun t => .inr fun m hm _ _ => .inl ?_, trivial⟩ 0
  have hm := (node_spec (r := legacyDatabase.read) legacyDatabase_folded.represents _ _).symm.trans hm
  have hm : (if t = 0 ∧ m.position.leafIndex.toNat = 0 then some firstLeaf else none) = some m :=
    Except.ok.inj hm
  split at hm
  · rw [← Option.some.inj hm]
    exact List.mem_cons_self
  · cases hm

/-- A window on a legacy leaf that it does not carry: the root is wrong. -/
theorem legacy_root_wrong : ¬ ∀ (db : Database) (F : Forest) (next : U32 → Nat)
    (calls : List WindowCall) (t : U32), Folded poseidonTables snapshotSerde db.engine F next →
    AllSucceed poseidonTables snapshotSerde db calls →
    ∀ accumulator length missing,
      treeFrontier poseidonTables (commitCalls poseidonTables snapshotSerde db calls).read t =
        .ok (accumulator, length, missing) →
      merkleRoot poseidonTables snapshotSerde
        (commitCalls poseidonTables snapshotSerde db calls).read t = .ok accumulator.root := by
  intro hall
  obtain ⟨db, hw, hF, hsnap⟩ := commitCall_secondWindow legacyDatabase_folded firstForest_insertNode
  have hdb : commitCalls poseidonTables snapshotSerde legacyDatabase [secondWindow] = db :=
    congrArg Prod.snd hw
  obtain ⟨accumulator, length, missing, hfrontier, hroot⟩ :=
    stale_root (r := db.read) hF length_pairForest rfl rfl hsnap
  refine hroot ?_
  rw [← hdb] at hfrontier ⊢
  exact hall legacyDatabase firstForest (fun _ => 0) [secondWindow] 0 legacyDatabase_folded
    ⟨congrArg Prod.fst hw, trivial⟩ accumulator length missing hfrontier

end Railgun
