import Railgun.Impl.PoseidonT3
import Railgun.Proof.Batch
import Railgun.Proof.Json
import Railgun.Proof.Window

/-!
# What holds in any interleaving

A property of tables and the forest in them holds of every store under way, in
every run, if each action carries it over to the tables it writes
(`sound_step`, `sound_run`). The tables represent a forest in every run whose
landed batches fit (`run_holds`): counters are heights, and nothing that
is committed is lost (`apply_loses_nothing`).
-/

namespace Railgun

open OrdMap Outcome Height

section
variable {tables : PoseidonTables} {serde : Serde MerkleAccumulatorState}

/-! ## A property of every store -/

/-- What a property `P` of tables and the forest in them, a property `Q` of overlays over a database that holds
a forest, and a preorder of forests have to do with each other. -/
structure Growing (le : Forest → Forest → Prop) (P : Tables → Forest → Prop) (Q : Overlay → Forest → Prop) :
    Prop where
  refl : ∀ F, le F F
  trans : ∀ {F G H}, le F G → le G H → le F H
  mono : ∀ {overlay F F'}, Q overlay F → le F F' → Q overlay F'
  fresh : ∀ {view : ReadView} {B F}, P view.txn B → le B F → Q (WriteBatch.new.overlay view) F

/-- Every store under way has its property; the database holds `F`. -/
structure Sound (le : Forest → Forest → Prop) (P : Tables → Forest → Prop) (Q : Overlay → Forest → Prop)
    (w : World) (F : Forest) : Prop where
  db : P w.db.engine F
  txn : ∀ txn ∈ w.txn, ∃ G, le F G ∧ P txn.inner G
  views : ∀ view ∈ w.views, ∃ B, le B F ∧ P view.txn B
  overlays : ∀ overlay ∈ w.overlays, Q overlay F

/-- The action carries the properties over to what it writes. -/
def Carries (tables : PoseidonTables) (serde : Serde MerkleAccumulatorState) (le : Forest → Forest → Prop)
    (P : Tables → Forest → Prop) (Q : Overlay → Forest → Prop) (w : World) : Action → Prop
  | .window call => w.txn = none → ∀ F, P w.db.engine F →
    ∃ F', le F F' ∧ P (commitCall tables serde w.db call).2.engine F'
  | .write write => ∀ txn ∈ w.txn, ∀ F, P txn.inner F →
    ∃ F', le F F' ∧ P (answering write.mutate txn).2.inner F'
  | .overlay i v => ∀ overlay ∈ w.overlays[i]?, ∀ view ∈ w.views[v]?, ∀ B F, le B F → P view.txn B →
    Q overlay F → Q (overlay.batch.overlay view) F
  | .stageWrite i write => ∀ overlay ∈ w.overlays[i]?, ∀ F, Q overlay F →
    Q (answering write.mutate overlay).2 F
  | .apply i => w.txn = none → ∀ overlay ∈ w.overlays[i]?, ∀ F, P w.db.engine F → Q overlay F →
    ∃ F', le F F' ∧ P (w.db.apply overlay.batch).2.engine F'
  | _ => True

section
variable {le : Forest → Forest → Prop} {P : Tables → Forest → Prop} {Q : Overlay → Forest → Prop} {w : World}
  {F : Forest} (hP : Growing le P Q)
include hP

/-- The database grows, and with it what the snapshots and overlays are sound over. -/
theorem Sound.grow (h : Sound le P Q w F) {F' : Forest} (hF : le F F') :
    (∀ view ∈ w.views, ∃ B, le B F' ∧ P view.txn B) ∧ ∀ overlay ∈ w.overlays, Q overlay F' := by
  refine ⟨fun view hv => ?_, fun overlay ho => hP.mono (h.overlays overlay ho) hF⟩
  obtain ⟨B, hB, hPB⟩ := h.views view hv
  exact ⟨B, hP.trans hB hF, hPB⟩

omit hP in
/-- One overlay is changed. -/
theorem Sound.modify (h : Sound le P Q w F) {i : Nat} {f : Overlay → Overlay}
    (hf : ∀ overlay ∈ w.overlays[i]?, Q overlay F → Q (f overlay) F) :
    Sound le P Q { w with overlays := w.overlays.modify i f } F := by
  refine ⟨h.db, h.txn, h.views, fun o ho => ?_⟩
  obtain ⟨j, hj⟩ := List.mem_iff_getElem?.mp ho
  rw [List.getElem?_modify] at hj
  obtain ⟨overlay, hoverlay, rfl⟩ := Option.map_eq_some_iff.mp hj
  have hQ := h.overlays overlay (List.mem_of_getElem? hoverlay)
  by_cases hij : i = j
  · rw [if_pos hij]
    exact hf overlay (hij ▸ hoverlay) hQ
  · rw [if_neg hij]
    exact hQ

theorem sound_step (h : Sound le P Q w F) {action : Action} (hc : Carries tables serde le P Q w action) :
    ∃ F', le F F' ∧ Sound le P Q (w.step tables serde action) F' := by
  have hrefl := hP.refl F
  cases action with
  | window call =>
    rw [World.step]
    split
    · rename_i htxn
      have htxn : w.txn = none := Option.isNone_iff_eq_none.mp htxn
      obtain ⟨F', hF, hdb⟩ := hc htxn F h.db
      obtain ⟨hviews, hoverlays⟩ := h.grow hP hF
      exact ⟨F', hF, hdb, (fun txn ht => nomatch htxn ▸ ht), hviews, hoverlays⟩
    · exact ⟨F, hrefl, h⟩
  | begin =>
    rw [World.step]
    split
    · refine ⟨F, hrefl, h.db, fun txn ht => ?_, h.views, h.overlays⟩
      cases ht
      exact ⟨F, hrefl, h.db⟩
    · exact ⟨F, hrefl, h⟩
  | write write =>
    refine ⟨F, hrefl, h.db, fun txn ht => ?_, h.views, h.overlays⟩
    obtain ⟨txn₀, ht₀, rfl⟩ := Option.map_eq_some_iff.mp ht
    obtain ⟨G, hG, hPG⟩ := h.txn txn₀ ht₀
    obtain ⟨G', hG', hPG'⟩ := hc txn₀ ht₀ G hPG
    exact ⟨G', hP.trans hG hG', hPG'⟩
  | commit =>
    rw [World.step]
    cases htxn : w.txn with
    | none => exact ⟨F, hrefl, h⟩
    | some txn =>
      obtain ⟨G, hG, hPG⟩ := h.txn txn htxn
      obtain ⟨hviews, hoverlays⟩ := h.grow hP hG
      exact ⟨G, hG, hPG, nofun, hviews, hoverlays⟩
  | rollback => exact ⟨F, hrefl, h.db, nofun, h.views, h.overlays⟩
  | read =>
    refine ⟨F, hrefl, h.db, h.txn, fun view hv => ?_, h.overlays⟩
    rcases List.mem_append.mp hv with hv | hv
    · exact h.views view hv
    · obtain rfl := List.mem_singleton.mp hv
      exact ⟨F, hrefl, h.db⟩
  | stage v =>
    rw [World.step]
    cases hv : w.views[v]? with
    | none => exact ⟨F, hrefl, h⟩
    | some view =>
      obtain ⟨B, hB, hPB⟩ := h.views view (List.mem_of_getElem? hv)
      refine ⟨F, hrefl, h.db, h.txn, h.views, fun o ho => ?_⟩
      rcases List.mem_append.mp ho with ho | ho
      · exact h.overlays o ho
      · obtain rfl := List.mem_singleton.mp ho
        exact hP.fresh hPB hB
  | overlay i v =>
    rw [World.step]
    cases hv : w.views[v]? with
    | none => exact ⟨F, hrefl, h⟩
    | some view =>
      obtain ⟨B, hB, hPB⟩ := h.views view (List.mem_of_getElem? hv)
      exact ⟨F, hrefl, h.modify fun overlay ho => hc overlay ho view hv B F hB hPB⟩
  | stageWrite i write => exact ⟨F, hrefl, h.modify fun overlay ho => hc overlay ho F⟩
  | apply i =>
    rw [World.step]
    split
    · rename_i overlay htxn hi
      obtain ⟨F', hF, hdb⟩ := hc htxn overlay hi F h.db (h.overlays overlay (List.mem_of_getElem? hi))
      obtain ⟨hviews, hoverlays⟩ := h.grow hP hF
      exact ⟨F', hF, hdb, (fun txn ht => nomatch htxn ▸ ht), hviews,
        fun o ho => hoverlays o (List.mem_of_mem_eraseIdx ho)⟩
    · exact ⟨F, hrefl, h⟩
  | discard i =>
    exact ⟨F, hrefl, h.db, h.txn, h.views, fun o ho => h.overlays o (List.mem_of_mem_eraseIdx ho)⟩

/-- What every action carries over holds in every run. -/
theorem sound_run {meets : World → Action → Prop}
    (hc : ∀ {w action}, meets w action → Carries tables serde le P Q w action) :
    ∀ {actions : List Action} {w : World} {F : Forest}, Sound le P Q w F →
    w.AllMeet tables serde meets actions →
    ∃ F', le F F' ∧ Sound le P Q (w.run tables serde actions) F'
  | [], w, F, h, _ => ⟨F, hP.refl F, h⟩
  | action :: actions, w, F, h, hm => by
    obtain ⟨F₁, hF₁, h₁⟩ := sound_step hP h (hc hm.1)
    obtain ⟨F', hF', h'⟩ := sound_run hc h₁ hm.2
    exact ⟨F', hP.trans hF₁ hF', h'⟩

end

theorem allMeet_and {meets : World → Action → Prop} {always : Action → Prop} :
    ∀ {actions : List Action} {w : World}, w.AllMeet tables serde meets actions →
    (∀ action ∈ actions, always action) →
    w.AllMeet tables serde (fun w action => meets w action ∧ always action) actions
  | [], _, _, _ => trivial
  | action :: _, _, h, ha =>
    ⟨⟨h.1, ha action List.mem_cons_self⟩,
      allMeet_and h.2 fun a h => ha a (List.mem_cons_of_mem _ h)⟩

theorem allMeet_append {meets : World → Action → Prop} :
    ∀ (before after : List Action) {w : World}, w.AllMeet tables serde meets (before ++ after) →
    w.AllMeet tables serde meets before ∧ (w.run tables serde before).AllMeet tables serde meets after
  | [], _, _, h => ⟨trivial, h⟩
  | action :: before, after, w, h => by
    obtain ⟨hb, ha⟩ := allMeet_append before after h.2
    exact ⟨⟨h.1, hb⟩, ha⟩

/-! ## Counters and commitments -/

/-- No node is in the last tree. -/
def Forest.InRange (F : Forest) : Prop := ∀ {t p n}, F.node t p = some n → t < BitVec.allOnes 32

/-- The table represents the forest, which has no node in the last tree. -/
structure Holds (T : Tables) (F : Forest) : Prop where
  represents : Represents (T .commitments) F
  inRange : F.InRange

/-- A batch under way over a database that holds `F`: it stages `N`, and its overlay shows `S`. -/
structure Pending (overlay : Overlay) (F N S : Forest) (k l : Counters) : Prop where
  stages : Stages overlay.batch N k
  shows : Records (overlay.tables .commitments) S l
  lag : k.Lag l N.counters F.counters
  inRange : N.InRange

theorem holds_empty : Holds Database.empty.engine Forest.empty := ⟨represents_new, nofun⟩

theorem inRange_run {F : Forest} (writes : List Write) (hF : F.InRange) (hw : ∀ write ∈ writes, write.InRange) :
    (F.run writes).2.InRange := fun {t p n} h => by
  rcases Forest.run_node_cases h with h | hn
  · exact hF h
  · rw [← ((F.run writes).2.placed h).1]
    exact hw _ hn

theorem inRange_stage {N : Forest} (hN : N.InRange) (S : Forest) {write : Write} (hw : write.InRange) :
    (N.stage S write).InRange := fun {t p m} hm => by
  cases write with
  | node n =>
    rw [Forest.stage] at hm
    split at hm
    · simp only [Forest.store] at hm
      split at hm
      · rename_i he
        rw [he.1]
        exact hw
      · exact hN hm
    · exact hN hm
  | _ => exact hN hm

theorem holds_write {W : Type} [Reader W] [Writer W] [LawfulWriter W] (store : W) {F : Forest}
    (hF : Holds (view store) F) {write : Write} (hw : write.InRange) :
    Holds (view (answering write.mutate store).2) (F.write write).2 :=
  ⟨(write_spec hF.represents write).2.1, inRange_run [write] hF.inRange (by simpa)⟩

section
variable {overlay : Overlay} {B F N S : Forest} {k l : Counters}

theorem Pending.write (h : Pending overlay F N S k l) {write : Write} (hw : write.InRange) :
    Pending (answering write.mutate overlay).2 F (N.stage S write) (S.write write).2 (k.stage l S write)
      (l.write S write) :=
  ⟨h.stages.write h.shows write, (write_records (w := overlay) h.shows write).2.1, h.lag.write write,
    inRange_stage h.inRange S hw⟩

/-- A batch may be laid over any snapshot. -/
theorem Pending.relaid (h : Pending overlay F N S k l) {view : ReadView} (hB : Holds view.txn B)
    (hBF : B.Within F) :
    Pending (overlay.batch.overlay view) F N (N.join B) k (k.or B.counters) :=
  ⟨h.stages, h.stages.records hB.represents, h.lag.rebase hBF, h.inRange⟩

/-- A batch that fits leaves its forest over the database's. -/
theorem Pending.landed (h : Pending overlay F N S k l) {db : Database} (hF : Holds db.engine F)
    (hfits : Fits db overlay.batch) :
    F.Within (N.join F) ∧ Holds (db.apply overlay.batch).2.engine (N.join F) := by
  obtain ⟨hwithin, hlanded⟩ := represents_landed h.stages hF.represents h.lag hfits
  refine ⟨hwithin, hlanded, fun hm => ?_⟩
  rcases Option.or_eq_some_iff.mp hm with hm | ⟨-, hm⟩
  · exact h.inRange hm
  · exact hF.inRange hm

theorem pending_new {view : ReadView} (hB : Holds view.txn B) (hBF : B.Within F) :
    Pending (WriteBatch.new.overlay view) F .empty (Forest.empty.join B) .zero (Counters.zero.or B.counters) :=
  ⟨stages_new, stages_new.records hB.represents, lag_new hBF, nofun⟩

end

/-- Some forests and counters are those of a batch under way. -/
def IsPending (overlay : Overlay) (F : Forest) : Prop := ∃ N S k l, Pending overlay F N S k l

theorem growing_holds : Growing Forest.Within Holds IsPending where
  refl := .refl
  trans := .trans
  mono := fun ⟨N, S, k, l, h⟩ hF => ⟨N, S, k, l, h.stages, h.shows, h.lag.grow hF, h.inRange⟩
  fresh hB hBF := ⟨_, _, _, _, pending_new hB hBF⟩

theorem holds_carries {w : World} {action : Action}
    (hm : w.AppliesFit action ∧ action.InRange) :
    Carries tables serde Forest.Within Holds IsPending w action := by
  obtain ⟨hfits, hin⟩ := hm
  cases action with
  | window call =>
    intro _ F hF
    rcases commitWindow_grows tables serde call.commitments call.nullifiers call.through
      hF.represents with ⟨e, hw⟩ | ⟨db', hw, hF'⟩
    · exact ⟨F, .refl F, by rw [commitCall, hw]; exact hF⟩
    · refine ⟨_, F.within_window _ _ _, by rw [commitCall, hw]; exact hF', ?_⟩
      refine inRange_run (windowWrites call.commitments call.nullifiers) hF.inRange fun write hw => ?_
      rcases List.mem_append.mp hw with hw | hw
      · obtain ⟨n, hn, rfl⟩ := List.mem_map.mp hw
        exact hin n hn
      · obtain ⟨x, -, rfl⟩ := List.mem_map.mp hw
        trivial
  | write write => exact fun txn _ F hF => ⟨_, F.within_write write, holds_write txn hF hin⟩
  | overlay i v =>
    exact fun overlay _ view _ B F hBF hB ⟨N, S, k, l, h⟩ => ⟨_, _, _, _, h.relaid hB hBF⟩
  | stageWrite i write => exact fun overlay _ F ⟨N, S, k, l, h⟩ => ⟨_, _, _, _, h.write hin⟩
  | apply i =>
    rintro htxn overlay ho F hF ⟨N, S, k, l, h⟩
    exact ⟨_, h.landed hF (hfits htxn overlay ho)⟩
  | _ => trivial

/-- In every run whose landed batches fit, every store represents a forest. -/
theorem run_holds {w : World} {F : Forest} (h : Sound Forest.Within Holds IsPending w F)
    {actions : List Action} (hin : ∀ action ∈ actions, action.InRange)
    (hfit : w.AllMeet tables serde World.AppliesFit actions) :
    ∃ F', F.Within F' ∧ Sound Forest.Within Holds IsPending (w.run tables serde actions) F' :=
  sound_run growing_holds holds_carries h (allMeet_and hfit hin)

theorem counted_of_holds {R : Type} [Reader R] [LawfulReader R] {r : R} {F : Forest}
    (hF : Holds (view r) F) : Counted r := by
  have hnode : ∀ {t q : U32}, (∃ n, Commitments.node r t q = .ok (some n)) ↔
      (F.node t q.toNat).isSome := fun {t q} => by
    rw [node_spec hF.represents, Option.isSome_iff_exists]
    exact exists_congr fun n => ⟨Except.ok.inj, congrArg Except.ok⟩
  refine ⟨fun t => ?_, ?_⟩
  · obtain ⟨length, hl, hh⟩ := (readsAs hF.represents).treeLength t
    refine ⟨length, hl, hh.congr fun p => ⟨fun hp => ?_, ?_⟩⟩
    · obtain ⟨n, hn⟩ := Option.isSome_iff_exists.mp hp
      obtain ⟨-, rfl⟩ := F.placed hn
      exact ⟨n.position.leafIndex, (hnode.mpr hp).imp fun m hm => ⟨rfl, hm⟩⟩
    · rintro ⟨q, n, rfl, hn⟩
      exact hnode.mp ⟨n, hn⟩
  · obtain ⟨count, hc, hh⟩ := (readsAs hF.represents).treeCount
    refine ⟨count, hc, hh.congr fun k => ⟨?_, ?_⟩⟩
    · rintro ⟨t, rfl, -, p, hp⟩
      obtain ⟨n, hn⟩ := Option.isSome_iff_exists.mp hp
      obtain ⟨-, rfl⟩ := F.placed hn
      exact ⟨t, n.position.leafIndex, (hnode.mpr hp).imp fun m hm => ⟨rfl, hm⟩⟩
    · rintro ⟨t, q, n, rfl, hn⟩
      have hsome := hnode.mp ⟨n, hn⟩
      obtain ⟨m, hm⟩ := Option.isSome_iff_exists.mp hsome
      exact ⟨t, rfl, hF.inRange hm, _, hsome⟩

theorem sound_holds_empty : Sound Forest.Within Holds IsPending (World.on Database.empty) Forest.empty :=
  ⟨holds_empty, nofun, nofun, nofun⟩

/-- In every run from an empty database whose landed batches fit, counters are
heights, and what is committed at one time is committed ever after. -/
theorem apply_loses_nothing (before after : List Action)
    (hin : ∀ action ∈ before ++ after, action.InRange)
    (hfit : (World.on Database.empty).AllMeet tables serde World.AppliesFit (before ++ after)) :
    let w := (World.on Database.empty).run tables serde before
    let w' := w.run tables serde after
    Counted w'.db.read ∧
    (∀ t p n, Commitments.node w.db.read t p = .ok (some n) →
      Commitments.node w'.db.read t p = .ok (some n)) ∧
    ∀ t x, Commitments.isNullified w.db.read t x = .ok true →
      Commitments.isNullified w'.db.read t x = .ok true := by
  obtain ⟨hb, ha⟩ := allMeet_append before after hfit
  obtain ⟨F, -, hF⟩ := run_holds sound_holds_empty
    (fun a h => hin a (List.mem_append_left _ h)) hb
  obtain ⟨F', hFF', hF'⟩ := run_holds hF (fun a h => hin a (List.mem_append_right _ h)) ha
  refine ⟨counted_of_holds hF'.db, fun t p n hn => ?_, fun t x hx => ?_⟩
  · rw [node_spec (r := Database.read _) hF.db.represents] at hn
    rw [node_spec (r := Database.read _) hF'.db.represents, hFF'.node (Except.ok.inj hn)]
  · rw [isNullified_spec (r := Database.read _) hF.db.represents] at hx
    rw [isNullified_spec (r := Database.read _) hF'.db.represents, hFF'.nullified (Except.ok.inj hx)]

/-- A batch of one leaf, staged before a transaction commits another. -/
def overtaken (staged committed : Node) : List Action :=
  [.read, .stage 0, .stageWrite 0 (.node staged), .begin, .write (.node committed), .commit]

end

/-- A batch of one leaf fits after a leaf before it in its tree. -/
theorem fits_overtaken {staged committed : Node} (hs : Admissible staged) (hc : Admissible committed)
    (ht : committed.position.treeNumber = staged.position.treeNumber)
    (hlt : committed.position.leafIndex < staged.position.leafIndex) :
    Fits ⟨(answering (Write.node committed).mutate (WriteTxn.mk Database.empty.engine)).2.inner⟩
      (answering (Write.node staged).mutate (WriteBatch.new.overlay Database.empty.read)).2.batch := by
  have hlt := BitVec.lt_def.mp hlt
  have hlast := (staged.position.treeNumber + 1).isLt
  have hl : ∀ t, Forest.empty.counters.length t = 0 := fun t => height_eq (isHeight_empty fun _ => nofun)
  have hcount : Forest.empty.counters.count = 0 :=
    height_eq (isHeight_empty fun _ ⟨_, _, _, _, h⟩ => nomatch h)
  have hF := (write_spec (w := WriteTxn.mk Database.empty.engine) represents_new
    (.node committed)).2.1
  rw [Forest.write, Forest.insertNode_free hc rfl] at hF
  have hnew : Records ((WriteBatch.new.overlay Database.empty.read).tables .commitments) Forest.empty
      Forest.empty.counters := represents_new
  have hbatch := stages_new.write hnew (.node staged)
  rw [Forest.stage, Counters.stage, dif_pos ⟨hs, rfl⟩, if_pos ⟨hs, rfl⟩] at hbatch
  refine (fits_iff hbatch hF).mpr ⟨fun {t p n m} hn hm => ?_, fun t => ?_, ?_⟩
  · simp only [Forest.store, Forest.empty] at hn hm
    split at hn <;> split at hm <;> simp_all
  · rw [Forest.length_store, ht]
    simp only [Counters.raise, hl]
    have h0 : Forest.empty.length t = 0 := hl t
    split <;> simp_all
    omega
  · rw [Forest.count_store, ht]
    have h0 : Forest.empty.count = 0 := hcount
    simp only [Counters.raise, hcount, h0, Nat.zero_max]
    split
    · exact .inr (Nat.le_refl _)
    · exact .inl rfl

/-- Landed where a tree has grown less than the batch knows, it fits, laid over what is there or not. -/
theorem apply_loses_nothing_ahead :
    let before := overtaken (bareNode ⟨0, 3, by decide⟩ 1) (bareNode ⟨0, 1, by decide⟩ 2) ++
      [.read, .overlay 0 1]
    Counted (((World.on Database.empty).run poseidonTables snapshotSerde before).run poseidonTables
      snapshotSerde [.apply 0]).db.read := by
  intro before
  refine (apply_loses_nothing before [.apply 0] (by decide) ?_).1
  refine ⟨trivial, trivial, trivial, trivial, trivial, trivial, trivial, trivial, fun _ overlay ho => ?_, trivial⟩
  obtain rfl := Option.some.inj ho
  exact fits_overtaken (by decide) (by decide) rfl (by decide)

/-- Landed where it has grown more, the tree's length falls behind. -/
theorem apply_loses_length : ¬ ∀ before after : List Action,
    (∀ action ∈ before ++ after, action.InRange) →
    let w := (World.on Database.empty).run poseidonTables snapshotSerde before
    let w' := w.run poseidonTables snapshotSerde after
    Counted w'.db.read ∧ ∀ t p n, Commitments.node w.db.read t p = .ok (some n) →
      Commitments.node w'.db.read t p = .ok (some n) := by
  intro h
  obtain ⟨hcounted, -⟩ := h (overtaken (bareNode ⟨0, 3, by decide⟩ 1) (bareNode ⟨0, 10, by decide⟩ 2))
    [.apply 0] (by decide)
  obtain ⟨length, hl, hh⟩ := hcounted.length 0
  have h4 : length = 4 := Except.ok.inj (hl.symm.trans (by decide +kernel))
  have := hh.lt 10 ⟨10, bareNode ⟨0, 10, by decide⟩ 2, rfl, by decide +kernel⟩
  rw [h4] at this
  exact absurd this (by decide)

section
variable {tables : PoseidonTables} {serde : Serde MerkleAccumulatorState}

/-- After such a run, landing a batch keeps counters and commitments right
exactly if it fits. -/
theorem apply_iff_fits (actions : List Action) (hin : ∀ action ∈ actions, action.InRange)
    (hfit : (World.on Database.empty).AllMeet tables serde World.AppliesFit actions)
    {overlay : Overlay}
    (ho : overlay ∈ ((World.on Database.empty).run tables serde actions).overlays) :
    let db := ((World.on Database.empty).run tables serde actions).db
    let db' := (db.apply overlay.batch).2
    (Counted db'.read ∧ ∀ t p n, Commitments.node db.read t p = .ok (some n) →
      Commitments.node db'.read t p = .ok (some n)) ↔ Fits db overlay.batch := by
  obtain ⟨F, -, hF⟩ := run_holds sound_holds_empty hin hfit
  obtain ⟨N, S, k, l, hpending⟩ := hF.overlays overlay ho
  refine ⟨fun h => fits_of_counted hpending.stages hF.db.represents h.1 h.2, fun h => ?_⟩
  obtain ⟨hwithin, hF'⟩ := hpending.landed hF.db h
  refine ⟨counted_of_holds hF', fun t p n hn => ?_⟩
  rw [node_spec (r := Database.read _) hF.db.represents] at hn
  rw [node_spec (r := Database.read _) hF'.represents, hwithin.node (Except.ok.inj hn)]

end

end Railgun
