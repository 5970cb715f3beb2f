import Railgun.Proof.Root
import Railgun.Proof.World

/-!
# Roots in any interleaving

A node inserted at or past its tree's snapshot leaves the snapshot one of the
tree's first leaves, as the hash takes them (`Tracks.write`); so does a batch laid
over a snapshot of the database, or landed, that puts no length back and keeps the
leaves there (`Tracks.laid`), whatever its tree count. So in every run that keeps
its snapshots, every reader's root is the root of its tree (`root_of_run`). A node
inserted into a gap below the snapshot does not: the snapshot stays current if the
tree gets no longer.
-/

namespace Railgun

open OrdMap Outcome BigEndian GapFill

section
variable {tables : PoseidonTables} {serde : Serde MerkleAccumulatorState}

/-! ## Growing past the snapshots -/

section
variable {T : Tables} {F : Forest} {k : Counters} {words : U32 → List U256}

/-- Snapshots stay of first leaves when those leaves stay. -/
theorem Tracks.grow (h : Tracks SameField tables serde T F k words) {T' : Tables} {F' : Forest} {k' : Counters}
    (hr : Records (T' .commitments) F' k') (hk : k'.length = F'.length) (hsnap : T' .frontier = T .frontier)
    (hle : ∀ t, F.length t ≤ F'.length t)
    (hleaf : ∀ t q, q < (words t).length → SameField (F'.leaf t q) (F.leaf t q)) :
    Tracks SameField tables serde T' F' k' words where
  records := hr
  length := hk
  snapshots := hsnap ▸ h.snapshots
  length_le t := Nat.le_trans (h.length_le t) (hle t)
  like hw := (hleaf _ _ (List.getElem?_eq_some_iff.mp hw).1).trans (h.like hw)

variable (hJ : serde.RoundTrips)
include hJ

/-- Where a node keeps the leaf, below a snapshot, its hash is the leaf's. -/
theorem same_of_keeps {R : Type} [Reader R] [LawfulReader R] {r : R}
    (h : Tracks SameField tables serde (view r) F k words) {n : Node} (hn : KeepsLeaf serde r n)
    (hlt : n.position.leafIndex.toNat < (words n.position.treeNumber).length) :
    SameField n.hash (F.leaf n.position.treeNumber n.position.leafIndex.toNat) := by
  rcases hn _ (leafHash_spec h.records _ _) with hle | hsame
  · rw [snapshotLength_tracks hJ h] at hle
    omega
  · exact hsame

/-- A mutation that keeps the snapshots. -/
theorem Tracks.write {W : Type} [Reader W] [Writer W] [LawfulWriter W] {w : W}
    (h : Tracks SameField tables serde (view w) F k words) {write : Write}
    (hk : KeepsSnapshot serde w write) :
    Tracks SameField tables serde (view (answering write.mutate w).2) (F.write write).2 (k.write F write)
      words := by
  obtain ⟨-, hr, hs⟩ := write_records h.records write
  have hwithin := F.within_write write
  refine h.grow hr (length_write h.length write) (hs .frontier (by decide)) hwithin.length_le fun t q hq => ?_
  cases hF : F.node t q with
  | some n => rw [leaf_eq_of_node hF, leaf_eq_of_node (hwithin.node hF)]; rfl
  | none =>
    cases hF' : (F.write write).2.node t q with
    | none => rw [leaf_eq_of_none hF, leaf_eq_of_none hF']; rfl
    | some n =>
      -- A node that is new is the one inserted.
      obtain rfl : Write.node n = write := by
        rcases Forest.run_node_cases (show (F.run [write]).2.node t q = some n from hF') with hn | hn
        · rw [hF] at hn
          cases hn
        · exact List.mem_singleton.mp hn
      obtain ⟨rfl, rfl⟩ := Forest.placed _ hF'
      rw [leaf_eq_of_node hF']
      refine same_of_keeps hJ h (hk (Forest.admissible _ hF') ?_) hq
      rw [leafHash_spec h.records, hF]
      rfl

section
variable {base : ReadView} (h : Tracks SameField tables serde base.txn F k words) {batch : WriteBatch} {N : Forest}
  {l : Counters} (hs : Stages batch N l)
include h hs

/-- Landing, in terms of the forests. -/
theorem lands_iff : Lands serde base batch ↔ (∀ t, k.length t ≤ (l.or k).length t) ∧
    ∀ {t p n}, N.node t p = some n → p < (l.or k).length t ∧
      (p < (words t).length → SameField n.hash (F.leaf t p)) := by
  have hview : Tracks SameField tables serde (view base) F k words := h
  have hr := hs.records h.records
  have hmod : ∀ {m : Nat}, m < 2 ^ 32 → (BitVec.ofNat 32 m).toNat = m := fun hm => by
    rw [BitVec.toNat_ofNat, Nat.mod_eq_of_lt hm]
  have hor := (l.or k).length_lt
  constructor
  · intro hlands
    have hlength := fun t => hlands.length t _ _ (treeLength_records (r := base) h.records t)
      (treeLength_records (r := batch.overlay base) hr t)
    refine ⟨fun t => ?_, fun {t p n} hn => ?_⟩
    · have hle := (hlength t).1
      rwa [BitVec.le_def, hmod (k.length_lt t), hmod (hor t)] at hle
    · obtain ⟨rfl, rfl⟩ := N.placed hn
      have halone := (node_spec (r := batch.alone) hs.alone _ _).trans (congrArg Except.ok hn)
      have hlt := (hlength _).2 _ n halone
      rw [BitVec.lt_def, hmod (hor _)] at hlt
      exact ⟨hlt, same_of_keeps hJ hview (hlands.leaf _ _ n halone)⟩
  · rintro ⟨hle, hnode⟩
    have halone : ∀ {t p n}, Commitments.node batch.alone t p = .ok (some n) → N.node t p.toNat = some n :=
      fun hn => Except.ok.inj ((node_spec (r := batch.alone) hs.alone _ _).symm.trans hn)
    refine ⟨fun t length length' hk hl => ?_, fun t p n hn stored hst => ?_⟩
    · obtain rfl := Except.ok.inj ((treeLength_records (r := base) h.records t).symm.trans hk)
      obtain rfl := Except.ok.inj ((treeLength_records (r := batch.overlay base) hr t).symm.trans hl)
      simp only [BitVec.le_def, BitVec.lt_def, hmod (k.length_lt t), hmod (hor t)]
      exact ⟨hle t, fun p n hn => (hnode (halone hn)).1⟩
    · have hn := halone hn
      obtain ⟨rfl, hp⟩ := N.placed hn
      rw [← hp] at hn
      rw [snapshotLength_tracks hJ hview, Except.ok.inj (hst.symm.trans (leafHash_spec (r := base) h.records _ _))]
      exact or_iff_not_imp_left.mpr fun hlt => (hnode hn).2 (by omega)

/-- A batch that may be laid over a snapshot of the database, or landed, keeps the snapshots. -/
theorem Tracks.laid (hl : ∀ t, l.length t ≤ N.length t) (hlands : Lands serde base batch) :
    Tracks SameField tables serde (batch.overlay base).tables (N.join F) (l.or k) words := by
  obtain ⟨hle, hnode⟩ := (lands_iff hJ h hs).mp hlands
  refine h.grow (hs.records h.records) (funext fun t => ?_) ?_ (fun t => ?_) fun t q hq => ?_
  · -- The length is the batch's or the base's, and neither is higher.
    have hN : N.length t ≤ (l.or k).length t := by
      rcases (N.isHeight_length t).top with h0 | htop
      · omega
      · obtain ⟨n, hn⟩ := Option.isSome_iff_exists.mp htop
        have := (hnode hn).1
        omega
    have hcase : (l.or k).length t = if l.length t = 0 then k.length t else l.length t := rfl
    have := hl t
    have := hle t
    rw [Forest.length_join, ← congrFun h.length t]
    split at hcase <;> omega
  · show applyAll (base.txn .frontier) (batch.staged .frontier) = _
    rw [hs.elsewhere (by decide)]
    rfl
  · rw [Forest.length_join]
    exact Nat.le_max_right _ _
  · cases hn : N.node t q with
    | none =>
      have hjoin : (N.join F).node t q = F.node t q := by simp only [Forest.join, hn, Option.none_or]
      rw [Forest.leaf, Forest.leaf, hjoin]
      rfl
    | some n =>
      have hjoin : (N.join F).node t q = some n := by simp only [Forest.join, hn, Option.some_or]
      rw [leaf_eq_of_node hjoin]
      exact (hnode hn).2 hq

end

end

/-! ## Roots -/

/-- The tables hold the forest, and snapshots of first leaves of its trees. -/
def Snapshots (tables : PoseidonTables) (serde : Serde MerkleAccumulatorState) (T : Tables)
    (F : Forest) : Prop := ∃ k words, Tracks SameField tables serde T F k words

/-- An overlay shows a forest and snapshots of first leaves; its batch has raised no length too far. -/
def StagesSnapshots (tables : PoseidonTables) (serde : Serde MerkleAccumulatorState) (overlay : Overlay) : Prop :=
  ∃ N l, Stages overlay.batch N l ∧ (∀ t, l.length t ≤ N.length t) ∧
    ∃ S, Snapshots tables serde overlay.tables S

theorem growing_snapshots : Growing (fun _ _ => True) (Snapshots tables serde)
    (fun overlay _ => StagesSnapshots tables serde overlay) where
  refl _ := trivial
  trans _ _ := trivial
  mono h _ := h
  fresh hB _ := ⟨_, _, stages_new, fun _ => Nat.zero_le _, _, hB⟩

/-- A batch raises its lengths no further than its nodes go. -/
theorem length_stage_le {N : Forest} {l : Counters} (h : ∀ t, l.length t ≤ N.length t) (shown : Counters)
    (S : Forest) (write : Write) (t : U32) : (l.stage shown S write).length t ≤ (N.stage S write).length t := by
  cases write with
  | node n =>
    rw [Counters.stage, Forest.stage]
    by_cases hn : Admissible n ∧ S.nodeAt n = none
    · rw [if_pos hn, dif_pos hn, Forest.length_store]
      have := h t
      by_cases ht : t = n.position.treeNumber
      · simp only [Counters.raise, ht, true_and, if_true] at this ⊢
        split <;> omega
      · simpa only [Counters.raise, ht, false_and, if_false] using this
    · rw [if_neg hn, dif_neg hn]
      exact h t
  | _ => exact h t

section
variable (hJ : serde.RoundTrips)
include hJ

theorem snapshots_carries {w : World} {action : Action} (hm : w.SnapshotsKept serde action) :
    Carries tables serde (fun _ _ => True) (Snapshots tables serde)
      (fun overlay _ => StagesSnapshots tables serde overlay) w action := by
  cases action with
  | window call =>
    rintro htxn F ⟨k, words, hF⟩
    obtain ⟨F', k', words', -, hF'⟩ := commitCall_tracks hJ hF (hm htxn)
    exact ⟨F', trivial, k', words', hF'⟩
  | write write =>
    rintro txn ht F ⟨k, words, hF⟩
    exact ⟨_, trivial, _, words, Tracks.write hJ (w := txn) hF (hm txn ht)⟩
  | overlay i v =>
    rintro overlay ho view hv B - - ⟨k, words, hB⟩ ⟨N, l, hs, hl, -⟩
    exact ⟨N, l, hs, hl, _, _, words, hB.laid hJ hs hl (hm overlay ho view hv)⟩
  | stageWrite i write =>
    rintro overlay ho - ⟨N, l, hs, hl, S, k, words, hS⟩
    exact ⟨_, _, hs.write hS.records write, length_stage_le hl k S write, _, _, words,
      Tracks.write hJ (w := overlay) hS (hm overlay ho)⟩
  | apply i =>
    rintro htxn overlay ho F ⟨k, words, hF⟩ ⟨N, l, hs, hl, -⟩
    refine ⟨N.join F, trivial, l.or k, words, ?_⟩
    rw [apply_eq]
    exact (show Tracks SameField tables serde w.db.read.txn F k words from hF).laid hJ hs hl (hm htxn overlay ho)
  | _ => trivial

theorem rootsRight_of_snapshots {R : Type} [Reader R] [LawfulReader R] {r : R} {F : Forest}
    (h : Snapshots tables serde (view r) F) : RootsRight tables serde r := fun t => by
  obtain ⟨k, words, h⟩ := h
  exact ⟨_, _, _, treeFrontier_records tables h.records h.length t, merkleRoot_tracks hJ h t⟩

/-- In every run from an empty database that keeps its snapshots, the root is
right for every reader: of the database, in the open transaction, of the
snapshots that are held, and through every overlay. -/
theorem root_of_run (actions : List Action)
    (hkept : (World.on Database.empty).AllMeet tables serde (World.SnapshotsKept serde) actions) :
    let w := (World.on Database.empty).run tables serde actions
    RootsRight tables serde w.db.read ∧
    (∀ txn ∈ w.txn, RootsRight tables serde txn) ∧
    (∀ view ∈ w.views, RootsRight tables serde view) ∧
    ∀ overlay ∈ w.overlays, RootsRight tables serde overlay := by
  have hempty : Sound (fun _ _ => True) (Snapshots tables serde)
      (fun overlay _ => StagesSnapshots tables serde overlay) (World.on Database.empty) Forest.empty :=
    ⟨⟨_, _, (folded_empty tables serde).same⟩, nofun, nofun, nofun⟩
  obtain ⟨F, -, hF⟩ := sound_run growing_snapshots (snapshots_carries hJ) hempty hkept
  refine ⟨rootsRight_of_snapshots hJ (r := Database.read _) hF.db, fun txn ht => ?_, fun view hv => ?_,
    fun overlay ho => ?_⟩
  · obtain ⟨G, -, hG⟩ := hF.txn txn ht
    exact rootsRight_of_snapshots hJ hG
  · obtain ⟨B, -, hB⟩ := hF.views view hv
    exact rootsRight_of_snapshots hJ (r := view) hB
  · obtain ⟨-, -, -, -, S, hS⟩ := hF.overlays overlay ho
    exact rootsRight_of_snapshots hJ (r := overlay) hS

end

end

/-! ## A leaf past a snapshot -/

/-- A node staged past every snapshot of a database. -/
theorem staged_ahead {serde : Serde MerkleAccumulatorState} (hJ : serde.RoundTrips)
    {tables : PoseidonTables} {db : Database} {F : Forest} {k : Counters} {words : U32 → List U256}
    (h : Tracks SameField tables serde db.engine F k words) {n : Node} (hn : Admissible n)
    (hfree : F.nodeAt n = none) (hnext : (words n.position.treeNumber).length ≤ n.position.leafIndex.toNat) :
    let overlay := WriteBatch.new.overlay db.read
    let staged := (answering (Write.node n).mutate overlay).2
    KeepsSnapshot serde overlay (.node n) ∧
      (∃ k', Tracks SameField tables serde staged.tables (F.store n hn) k' words) ∧
      Lands serde db.read staged.batch ∧
      ∃ k', Tracks SameField tables serde (db.apply staged.batch).2.engine
        ((Forest.empty.store n hn).join F) k' words := by
  intro overlay staged
  have hover : Tracks SameField tables serde (view overlay) F k words := h
  have hkeeps : KeepsSnapshot serde overlay (.node n) := fun _ _ stored _ => .inl (by
    rwa [snapshotLength_tracks hJ hover])
  have hshows := Tracks.write hJ hover hkeeps
  rw [Forest.write, Forest.insertNode_free hn hfree] at hshows
  have hstages := stages_new.write (show Records (overlay.tables .commitments) F k from h.records) (.node n)
  rw [Forest.stage, Counters.stage, dif_pos ⟨hn, hfree⟩, if_pos ⟨hn, hfree⟩] at hstages
  have hlands : Lands serde db.read staged.batch := by
    refine (lands_iff hJ h hstages).mpr ⟨fun t => ?_, fun {t p m} hm => ?_⟩
    · simp only [Counters.or, Counters.raise, Counters.zero]
      split <;> split <;> omega
    · simp only [Forest.store, Forest.empty] at hm
      split at hm
      · rename_i hat
        obtain ⟨rfl, rfl⟩ := hat
        refine ⟨?_, fun hlt => by omega⟩
        simp only [Counters.or, Counters.raise, Counters.zero, true_and]
        split <;> split <;> omega
      · cases hm
  refine ⟨hkeeps, ⟨_, hshows⟩, hlands, (Counters.zero.raise k n).or k, ?_⟩
  rw [apply_eq]
  refine (show Tracks SameField tables serde db.read.txn F k words from h).laid hJ hstages (fun t => ?_) hlands
  rw [Forest.length_store]
  simp only [Counters.raise, Counters.zero]
  split <;> split <;> simp_all

/-- The third leaf of the first tree, and the fourth. -/
def thirdLeaf : Node := bareNode ⟨0, 2, by decide⟩ 3
def fourthLeaf : Node := bareNode ⟨0, 3, by decide⟩ 4

theorem thirdLeaf_admissible : Admissible thirdLeaf := by decide
theorem fourthLeaf_admissible : Admissible fourthLeaf := by decide

/-- The third leaf over the tree of the second. -/
def thirdForest : Forest := (Forest.empty.store thirdLeaf thirdLeaf_admissible).join secondForest

theorem length_thirdForest : thirdForest.length 0 = 3 := by
  have h0 : Forest.empty.length 0 = 0 := Height.height_eq (Height.isHeight_empty fun _ => nofun)
  rw [thirdForest, Forest.length_join, Forest.length_store, length_secondForest, h0]
  rfl

/-- The window of the third leaf and the fourth. -/
def fourthWindow : WindowCall := ⟨[thirdLeaf, fourthLeaf], [], 1⟩

/-- A window, a leaf staged past its snapshot and landed once it is laid over another,
and a window that carries that leaf and the next. -/
def aheadRun : List Action :=
  [.window secondWindow, .read, .stage 0, .stageWrite 0 (.node thirdLeaf), .read, .overlay 0 1, .apply 0,
    .window fourthWindow]

/-- The world after the first actions of the run. -/
def aheadWorld (k : Nat) : World :=
  (World.on Database.empty).run poseidonTables snapshotSerde (aheadRun.take k)

/-- The last window, on a forest of the second leaf and the third. -/
theorem tracks_fourthWindow {db : Database} {k : Counters} {words : U32 → List U256}
    (h : Tracks SameField poseidonTables snapshotSerde db.engine thirdForest k words)
    (hwords : ∀ t, (words t).length = secondForest.length t) :
    SeesStored snapshotSerde db.read fourthWindow.commitments ∧ ∃ db' F k' words',
    commitCall poseidonTables snapshotSerde db fourthWindow = (.ok (), db') ∧
    Tracks SameField poseidonTables snapshotSerde db'.engine F k' words' ∧ (words' 0).length = 4 ∧
    F.length 0 = 4 := by
  have hnode : ∀ {t q n}, thirdForest.node t q = some n →
      q < (words t).length ∨ n ∈ [thirdLeaf, fourthLeaf] := fun {t q n} hn => by
    rw [hwords]
    rcases Option.or_eq_some_iff.mp hn with h | ⟨-, h⟩
    · simp only [Forest.store] at h
      split at h
      · cases h
        exact .inr List.mem_cons_self
      · cases h
    · exact .inl (Forest.lt_length h)
  have hsees : SeesStored snapshotSerde db.read [thirdLeaf, fourthLeaf] := fun t => .inr fun m hm hle _ => by
    rw [snapshotLength_tracks snapshotSerde_roundTrips (r := db.read) h] at hle
    have hm := Except.ok.inj ((node_spec (r := db.read) h.records _ _).symm.trans hm)
    exact .inl ((hnode hm).resolve_left (by omega))
  refine ⟨hsees, ?_⟩
  have hthird := Forest.insertNode_same (F := thirdForest) thirdLeaf_admissible rfl
  have hfourth := Forest.insertNode_free (F := thirdForest) fourthLeaf_admissible rfl
  have hrun : thirdForest.run (windowWrites [thirdLeaf, fourthLeaf] []) =
      ([.ok (), .ok ()], thirdForest.store fourthLeaf fourthLeaf_admissible) := by
    simp only [windowWrites, List.map_cons, List.map_nil, List.append_nil, Forest.run, Forest.write,
      hthird, hfourth]
  have ha : thirdForest.Accepts (windowWrites [thirdLeaf, fourthLeaf] []) := by
    rw [Forest.Accepts, hrun]
    simp
  obtain ⟨db', words', hw, hF, hfull, -⟩ := commitWindow_tracks snapshotSerde_roundTrips 1 h ha (fun _ => rfl)
    (sees_of_stored snapshotSerde_roundTrips (r := db.read) h hsees)
  have hlen : (thirdForest.window [thirdLeaf, fourthLeaf] [] 1).length 0 = 4 := by
    have h1 : (thirdForest.window [thirdLeaf, fourthLeaf] [] 1).length 0 =
        (thirdForest.store fourthLeaf fourthLeaf_admissible).length 0 :=
      congrArg (fun r : List (Except DatabaseError Unit) × Forest => r.2.length 0) hrun
    rw [h1, Forest.length_store, length_thirdForest]
    rfl
  exact ⟨db', _, _, words', hw, hF, (hfull 0 fun q n => hnode).trans hlen, hlen⟩

/-- How long the first tree's snapshot is, and how long the tree. -/
theorem lengths_tracks {R : Type} [Reader R] [LawfulReader R] {r : R} {F : Forest} {k : Counters}
    {words : U32 → List U256} {a b : Nat} (h : Tracks SameField poseidonTables snapshotSerde (view r) F k words)
    (ha : (words 0).length = a) (hb : F.length 0 = b) : snapshotLength snapshotSerde r 0 = a ∧
      Commitments.treeLength r 0 = .ok (BitVec.ofNat 32 b) := by
  subst ha hb
  exact ⟨snapshotLength_tracks snapshotSerde_roundTrips h 0,
    (treeLength_records h.records 0).trans (by rw [congrFun h.length])⟩

/-- The worlds of the run, and that each action keeps the snapshots. -/
theorem aheadRun_worlds : ∃ db overlay db',
    aheadWorld 1 = World.on db ∧ aheadWorld 4 = ⟨db, none, [db.read], [overlay]⟩ ∧
    aheadWorld 8 = ⟨db', none, [db.read, db.read], []⟩ ∧
    (World.on Database.empty).AllMeet poseidonTables snapshotSerde (World.SnapshotsKept snapshotSerde) aheadRun ∧
    (snapshotLength snapshotSerde db.read 0 = 2 ∧ Commitments.treeLength db.read 0 = .ok 2) ∧
    (snapshotLength snapshotSerde overlay 0 = 2 ∧ Commitments.treeLength overlay 0 = .ok 3) ∧
    snapshotLength snapshotSerde db'.read 0 = 4 ∧ Commitments.treeLength db'.read 0 = .ok 4 := by
  obtain ⟨db, hw, hdb⟩ := folded_secondWindow
  have hwords : ∀ t, (fill (secondForest.leaf t) 0 (secondForest.length t)).length = secondForest.length t :=
    fun t => length_fill _ _ _
  have hword := (hwords 0).trans length_secondForest
  obtain ⟨hkeeps, ⟨k₄, hshows⟩, hlands, k₇, happlied⟩ := staged_ahead snapshotSerde_roundTrips hdb.same
    thirdLeaf_admissible rfl (show _ ≤ 2 from hword.le)
  obtain ⟨hsees, db', F, k₈, words, hw', hdb', hnext, hlen⟩ := tracks_fourthWindow happlied hwords
  generalize hoverlay : (answering (Write.node thirdLeaf).mutate
    (WriteBatch.new.overlay db.read)).2 = overlay at hshows hlands happlied hsees hw'
  have hwindow : (World.on Database.empty).step poseidonTables snapshotSerde (.window secondWindow) =
      World.on db := by
    simp [World.step, World.on, hw]
  have hread : (World.on db).step poseidonTables snapshotSerde .read = ⟨db, none, [db.read], []⟩ := rfl
  have hstage : (World.mk db none [db.read] []).step poseidonTables snapshotSerde (.stage 0) =
      ⟨db, none, [db.read], [WriteBatch.new.overlay db.read]⟩ := rfl
  have hwrite : (World.mk db none [db.read] [WriteBatch.new.overlay db.read]).step poseidonTables
      snapshotSerde (.stageWrite 0 (.node thirdLeaf)) = ⟨db, none, [db.read], [overlay]⟩ := by
    rw [← hoverlay]
    rfl
  have hread' : (World.mk db none [db.read] [overlay]).step poseidonTables snapshotSerde .read =
      ⟨db, none, [db.read, db.read], [overlay]⟩ := rfl
  have hlaid : (World.mk db none [db.read, db.read] [overlay]).step poseidonTables snapshotSerde
      (.overlay 0 1) = ⟨db, none, [db.read, db.read], [overlay.batch.overlay db.read]⟩ := rfl
  have happly : (World.mk db none [db.read, db.read] [overlay.batch.overlay db.read]).step poseidonTables
      snapshotSerde (.apply 0) = ⟨(db.apply overlay.batch).2, none, [db.read, db.read], []⟩ := rfl
  have hcarried : (World.mk (db.apply overlay.batch).2 none [db.read, db.read] []).step poseidonTables
      snapshotSerde (.window fourthWindow) = ⟨db', none, [db.read, db.read], []⟩ := by
    simp [World.step, hw']
  refine ⟨db, overlay, db', hwindow, ?_, ?_, ?_, lengths_tracks (r := db.read) hdb.same hword length_secondForest,
    lengths_tracks (r := overlay) hshows hword ?_, lengths_tracks (r := db'.read) hdb' hnext hlen⟩
  · simp only [aheadWorld, aheadRun, List.take_succ_cons, List.take_zero, World.run, List.foldl_cons,
      List.foldl_nil, hwindow, hread, hstage, hwrite]
  · simp only [aheadWorld, aheadRun, List.take_succ_cons, List.take_zero, World.run, List.foldl_cons,
      List.foldl_nil, hwindow, hread, hstage, hwrite, hread', hlaid, happly, hcarried]
  · simp only [aheadRun, World.AllMeet, hwindow, hread, hstage, hwrite, hread', hlaid, happly]
    refine ⟨fun _ t => .inr fun m hm => ?_, trivial, trivial, fun o ho => ?_, trivial, fun o ho v hv => ?_,
      fun _ o ho => ?_, fun _ => hsees, trivial⟩
    · cases (node_spec (r := Database.empty.read) represents_new t _).symm.trans hm
    · obtain rfl := Option.some.inj ho
      exact hkeeps
    · obtain rfl := Option.some.inj ho
      obtain rfl := Option.some.inj hv
      exact hlands
    · obtain rfl := Option.some.inj ho
      exact hlands
  · rw [Forest.length_store, length_secondForest]
    rfl

/-- Off the snapshot of the window, past it through the overlay, and off the
snapshot of the next window once the batch is landed. -/
theorem root_of_run_staged :
    (snapshotLength snapshotSerde (aheadWorld 1).db.read 0 = 2 ∧
      Commitments.treeLength (aheadWorld 1).db.read 0 = .ok 2 ∧
      RootsRight poseidonTables snapshotSerde (aheadWorld 1).db.read) ∧
    (∃ overlay ∈ (aheadWorld 4).overlays, snapshotLength snapshotSerde overlay 0 = 2 ∧
      Commitments.treeLength overlay 0 = .ok 3 ∧ RootsRight poseidonTables snapshotSerde overlay) ∧
    snapshotLength snapshotSerde (aheadWorld 8).db.read 0 = 4 ∧
      Commitments.treeLength (aheadWorld 8).db.read 0 = .ok 4 ∧
      RootsRight poseidonTables snapshotSerde (aheadWorld 8).db.read := by
  obtain ⟨db, overlay, db', hone, hfour, height, hkept, ⟨hn₁, hl₁⟩, ⟨hn₄, hl₄⟩, hn₈, hl₈⟩ := aheadRun_worlds
  have hroot : ∀ k, RootsRight poseidonTables snapshotSerde (aheadWorld k).db.read ∧
      ∀ overlay ∈ (aheadWorld k).overlays, RootsRight poseidonTables snapshotSerde overlay := fun k => by
    rw [← List.take_append_drop k aheadRun] at hkept
    obtain ⟨h, -, -, ho⟩ := root_of_run snapshotSerde_roundTrips (aheadRun.take k)
      (allMeet_append _ _ hkept).1
    exact ⟨h, ho⟩
  have h₁ := hroot 1
  have h₄ := hroot 4
  have h₈ := hroot 8
  rw [hone] at h₁ ⊢
  rw [hfour] at h₄ ⊢
  rw [height] at h₈ ⊢
  exact ⟨⟨hn₁, hl₁, h₁.1⟩, ⟨overlay, List.mem_cons_self, hn₄, hl₄, h₄.2 _ List.mem_cons_self⟩,
    hn₈, hl₈, h₈.1⟩

/-! ## A leaf in a gap -/

/-- The second leaf in a window, and then the first in a transaction. -/
def gapRun : List Action := [.window secondWindow, .begin, .write (.node firstLeaf), .commit]

/-- The tree of the second leaf, and then of the first. -/
def filledForest : Forest := secondForest.store firstLeaf firstLeaf_admissible

theorem length_filledForest : filledForest.length 0 = 2 := by
  have h0 : Forest.empty.length 0 = 0 := Height.height_eq (Height.isHeight_empty fun _ => nofun)
  have h1 : secondForest.length 0 = (Forest.empty.store secondLeaf secondLeaf_admissible).length 0 := rfl
  rw [filledForest, Forest.length_store, h1, Forest.length_store, h0]
  rfl

theorem secondForest_insertNode : secondForest.insertNode firstLeaf = (.ok (), filledForest) :=
  Forest.insertNode_free firstLeaf_admissible rfl

/-- A leaf that fills a gap below the snapshot: the root is stale. -/
theorem root_of_run_stale : ¬ ∀ (actions : List Action) (t : U32),
    let w := (World.on Database.empty).run poseidonTables snapshotSerde actions
    ∀ accumulator length missing,
      treeFrontier poseidonTables w.db.read t = .ok (accumulator, length, missing) →
      merkleRoot poseidonTables snapshotSerde w.db.read t = .ok accumulator.root := by
  intro hall
  have hempty : Folded poseidonTables snapshotSerde Database.empty.engine Forest.empty fun _ => 0 := by
    have hl : Forest.empty.length = fun _ => 0 :=
      funext fun t => Height.height_eq (Height.isHeight_empty fun _ => nofun)
    exact hl ▸ folded_empty poseidonTables snapshotSerde
  obtain ⟨db, hw, hF, hsnap⟩ := commitCall_secondWindow hempty
    (Forest.insertNode_free secondLeaf_admissible rfl)
  obtain ⟨-, hr, hs⟩ := write_spec (w := WriteTxn.mk db.engine) hF (.node firstLeaf)
  generalize htxn : (answering (Write.node firstLeaf).mutate (WriteTxn.mk db.engine)).2 = txn at hr hs
  have hfilled : ((secondForest.write (.node firstLeaf)).2) = filledForest :=
    congrArg Prod.snd secondForest_insertNode
  rw [show (Forest.empty.store secondLeaf secondLeaf_admissible).setSyncedBlock 0 = secondForest from
    rfl, hfilled] at hr
  have hrun : ((World.on Database.empty).run poseidonTables snapshotSerde gapRun).db = ⟨txn.inner⟩ := by
    have hdb : (commitCall poseidonTables snapshotSerde Database.empty secondWindow).2 = db :=
      congrArg Prod.snd hw
    rw [← htxn, ← hdb]
    rfl
  have hsnap' : Frontier.snapshot (Database.mk txn.inner).read 0 =
      .ok (some (stateJson gappedAccumulator.state)) := by
    have hview : view txn .frontier = db.engine .frontier := hs .frontier (by decide)
    rw [snapshot_eq] at hsnap ⊢
    rw [← hsnap]
    exact congrArg (fun table : Table => Except.ok table[beBytes 4 (0 : U32)]?) hview
  obtain ⟨accumulator, length, missing, hfrontier, hroot⟩ :=
    stale_root (r := (Database.mk txn.inner).read) hr length_filledForest rfl rfl hsnap'
  refine hroot ?_
  have := hall gapRun 0 accumulator length missing
  rw [hrun] at this
  exact this hfrontier

end Railgun
