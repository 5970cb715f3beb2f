import Railgun.Proof.Resumption

/-!
# Overlapping runs

Runs that share a database may overtake one another, and move its watermark
back. But each starts from a block below which everything is stored, and
nothing stored is lost, so what a run commits is what was missing up to its own
watermark (`honest_step`). The watermark never claims more than what is stored
(`watermark_honest`).
-/

namespace Railgun

/-! ## One step -/

/-- What the watermark claims is there. -/
def Honest (chain : Chain) (floor : BlockNumber) (F : Forest) : Prop :=
  ∀ event, chain.Between floor.toNat (nextBlock floor F.synced) event → F.Has event

/-- What a run has left behind is there. -/
def Behind (source : EventSource) (chain : Chain) (run : Syncer × BlockNumber) (F : Forest)
    (phase : Phase) : Prop :=
  ∃ m, OnCourse source run.1 run.2 m phase ∧
    ∀ event, chain.Between run.1.floor.toNat m event → F.Has event

section
variable {tables : PoseidonTables} {serde : Serde MerkleAccumulatorState} {source : EventSource}
  {chain : Chain}

theorem toNat_first_le (syncer : Syncer) (watermark : Option BlockNumber) :
    (syncer.first watermark).toNat ≤ nextBlock syncer.floor watermark := by
  cases watermark with
  | none => exact Nat.le_refl _
  | some block =>
    rw [Syncer.first, toNat_saturatingAdd]
    exact Nat.min_le_left _ _

theorem Behind.mono {run : Syncer × BlockNumber} {F G : Forest} {phase : Phase} (h : F.Within G)
    (hbehind : Behind source chain run F phase) : Behind source chain run G phase := by
  obtain ⟨m, hcourse, hhas⟩ := hbehind
  exact ⟨m, hcourse, fun event he => h.has (hhas event he)⟩

/-- A commit that succeeds leaves what its run has left behind, and its window. -/
theorem committed_has (hyields : source.Yields chain) {syncer : Syncer} {target : BlockNumber} {m : Nat}
    {window : Window} {summary : SyncSummary} {F : Forest}
    (hcourse : OnCourse source syncer target m (.committing window summary))
    (ha : F.Accepts (windowWrites window.commitments window.nullifiers)) {floor : Nat}
    (hhas : ∀ event, chain.Between floor m event → F.Has event) (event : SyncEvent)
    (he : chain.Between floor (window.stop.toNat + 1) event) :
    (F.window window.commitments window.nullifiers window.stop).Has event := by
  rw [has_window ha, hcourse.window_has hyields, hcourse.covers.1]
  exact (he.split m).imp_left (hhas event)

/-- A step of a run loses nothing, and leaves a watermark that claims no more than is there. -/
theorem honest_step (hyields : source.Yields chain) {run : Syncer × BlockNumber}
    {state state' : Phase × Database} {windows : List (BlockNumber × BlockNumber)} {F : Forest}
    (hstep : run.1.Step tables serde source run.2 state windows state')
    (hF : Represents (state.2.engine .commitments) F) (hhonest : Honest chain run.1.floor F)
    (hbehind : Behind source chain run F state.1) :
    ∃ F', Represents (state'.2.engine .commitments) F' ∧ F.Within F' ∧ Honest chain run.1.floor F' ∧
      Behind source chain run F' state'.1 := by
  obtain ⟨m, hcourse, hhas⟩ := hbehind
  cases hstep with
  | begin db =>
    refine ⟨F, hF, .refl F, hhonest, (run.1.first F.synced).toNat, ?_, fun event he => ?_⟩
    · rw [begin_eq (syncedBlock_spec (r := db.read) hF)]
      exact onCourse_nextWindow _ _
    · exact hhonest event (he.mono (Nat.le_refl _) (toNat_first_le run.1 F.synced))
  | page db h => exact ⟨F, hF, .refl F, hhonest, m, hcourse.page h, hhas⟩
  | fail e db => exact ⟨F, hF, .refl F, hhonest, m, .error e, hhas⟩
  | @commit window summary db =>
    rw [Syncer.commit]
    rcases commitWindow_grows tables serde window.commitments window.nullifiers window.stop hF with
      ⟨e, he⟩ | ⟨db', hok, hF'⟩
    · rw [he]
      exact ⟨F, hF, .refl F, hhonest, m, .error e, hhas⟩
    have ha : F.Accepts (windowWrites window.commitments window.nullifiers) := by
      by_contra ha
      obtain ⟨e, he⟩ := commitWindow_rejected tables serde window.stop hF ha
      rw [hok] at he
      cases he
    have hupto := committed_has hyields hcourse ha hhas
    rw [hok]
    refine ⟨_, hF', F.within_window _ _ _, hupto,
      (BlockNumber.saturatingAdd window.stop 1).toNat, onCourse_nextWindow _ _, fun event he => ?_⟩
    refine hupto event (he.mono (Nat.le_refl _) ?_)
    rw [toNat_saturatingAdd]
    exact Nat.min_le_left _ _

/-! ## Interleavings -/

variable {ι : Type} [DecidableEq ι] {runs : ι → Syncer × BlockNumber} {floor : BlockNumber}

/-- The forest of the database, past which no run and no watermark is. -/
structure Overlapping (source : EventSource) (chain : Chain) (runs : ι → Syncer × BlockNumber)
    (floor : BlockNumber) (state : (ι → Phase) × Database) (F : Forest) : Prop where
  represents : Represents (state.2.engine .commitments) F
  honest : Honest chain floor F
  behind : ∀ i, Behind source chain (runs i) F (state.1 i)

theorem overlapping_step (hyields : source.Yields chain) (hfloor : ∀ i, (runs i).1.floor = floor)
    {state state' : (ι → Phase) × Database} {F : Forest}
    (h : Overlapping source chain runs floor state F)
    (hstep : Interleaved tables serde source runs state state') :
    ∃ F', F.Within F' ∧ Overlapping source chain runs floor state' F' := by
  obtain ⟨i, phase, ⟨windows, hstep⟩, hphases⟩ := hstep
  obtain ⟨F', hF', hwithin, hhonest, hbehind⟩ := honest_step hyields hstep h.represents
    (by rw [hfloor]; exact h.honest) (h.behind i)
  rw [hfloor] at hhonest
  refine ⟨F', hwithin, hF', hhonest, fun j => ?_⟩
  rw [hphases]
  by_cases hj : j = i
  · subst hj
    rw [Function.update_self]
    exact hbehind
  · rw [Function.update_of_ne hj]
    exact (h.behind j).mono hwithin

theorem overlapping_run (hyields : source.Yields chain) (hfloor : ∀ i, (runs i).1.floor = floor)
    {state state' : (ι → Phase) × Database} {F : Forest}
    (h : Overlapping source chain runs floor state F)
    (hsteps : Relation.ReflTransGen (Interleaved tables serde source runs) state state') :
    ∃ F', F.Within F' ∧ Overlapping source chain runs floor state' F' := by
  induction hsteps with
  | refl => exact ⟨F, .refl F, h⟩
  | tail _ hstep ih =>
    obtain ⟨F', hwithin, h'⟩ := ih
    obtain ⟨F'', hwithin', h''⟩ := overlapping_step hyields hfloor h' hstep
    exact ⟨F'', hwithin.trans hwithin', h''⟩

omit [DecidableEq ι] in
/-- Before any run has started. -/
theorem overlapping_new : Overlapping source chain runs floor (fun _ => .start, Database.empty) .empty where
  represents := represents_new
  honest _ he := absurd he Chain.not_between_self
  behind i := ⟨(runs i).1.floor.toNat, .start, fun _ he => absurd he Chain.not_between_self⟩

/-- Runs from one floor over one source, step by step in any order: whenever the
database has a watermark, the events up to it are stored; and whatever is stored
stays. -/
theorem watermark_honest (hyields : source.Yields chain) (hfloor : ∀ i, (runs i).1.floor = floor)
    {state : (ι → Phase) × Database}
    (hsteps : Relation.ReflTransGen (Interleaved tables serde source runs)
      (fun _ => .start, Database.empty) state) :
    (∃ watermark, Commitments.syncedBlock state.2.read = .ok watermark ∧
      ∀ synced, watermark = some synced → ∀ event,
        chain.Between floor.toNat (synced.toNat + 1) event → state.2.Stores event) ∧
    ∀ state', Relation.ReflTransGen (Interleaved tables serde source runs) state state' →
      (∀ t p n, Commitments.node state.2.read t p = .ok (some n) →
        Commitments.node state'.2.read t p = .ok (some n)) ∧
      ∀ t x, Commitments.isNullified state.2.read t x = .ok true →
        Commitments.isNullified state'.2.read t x = .ok true := by
  obtain ⟨F, -, h⟩ := overlapping_run hyields hfloor overlapping_new hsteps
  refine ⟨⟨F.synced, syncedBlock_spec (r := state.2.read) h.represents, ?_⟩, fun state' hsteps' => ?_⟩
  · rintro synced hsynced event he
    refine (stores_iff h.represents event).mpr (h.honest event ?_)
    rw [hsynced]
    exact he
  · obtain ⟨F', hwithin, h'⟩ := overlapping_run hyields hfloor h hsteps'
    have hread := readsAs (r := state.2.read) h.represents
    have hread' := readsAs (r := state'.2.read) h'.represents
    refine ⟨fun t p n hn => ?_, fun t x hx => ?_⟩
    · rw [hread.node, Except.ok.injEq] at hn
      rw [hread'.node, hwithin.node hn]
    · rw [hread.isNullified, Except.ok.injEq] at hx
      rw [hread'.isNullified, hwithin.nullified hx]

variable (runs) in
/-- A run takes its steps while the others wait. -/
theorem interleaved_run (i : ι) (phases : ι → Phase) {db : Database}
    {windows : List (BlockNumber × BlockNumber)} {state : Phase × Database}
    (h : (runs i).1.Run tables serde source (runs i).2 (phases i, db) windows state) :
    Relation.ReflTransGen (Interleaved tables serde source runs) (phases, db)
      (Function.update phases i state.1, state.2) := by
  generalize hs : (phases i, db) = start at h
  induction h generalizing phases db with
  | done =>
    subst hs
    rw [Function.update_eq_self]
  | @step _ state _ windows _ hstep _ ih =>
    subst hs
    have hnext : Interleaved tables serde source runs (phases, db)
        (Function.update phases i state.1, state.2) := ⟨i, state.1, ⟨windows, hstep⟩, rfl⟩
    have hrest := ih (Function.update phases i state.1) (by rw [Function.update_self])
    rw [Function.update_idem] at hrest
    exact .head hnext hrest

end

/-- Two runs, one of them to an earlier block. -/
def overtakenRuns : Bool → Syncer × BlockNumber
  | false => (.new 0, 9)
  | true => (.new 0, 5)

/-- The run to the earlier block starts first and commits last. -/
theorem watermark_honest_overtaken : ∃ state state',
    Relation.ReflTransGen (Interleaved poseidonTables snapshotSerde (.whole leafChain) overtakenRuns)
      (fun _ => .start, Database.empty) state ∧
    Commitments.syncedBlock state.2.read = .ok (some 9) ∧
    Relation.ReflTransGen (Interleaved poseidonTables snapshotSerde (.whole leafChain) overtakenRuns)
      state state' ∧
    Commitments.syncedBlock state'.2.read = .ok (some 5) ∧
    state'.2.Stores (.commitment firstLeaf) := by
  have hserves := whole_serves leafChain
  have hcovers : (Syncer.new 0).Covers 5 0 5 := ⟨by decide, by decide, by decide⟩
  have hbegin : (Syncer.new 0).Run poseidonTables snapshotSerde (.whole leafChain) 5
      (.start, Database.empty) [] (.fetching ⟨0, 5, [], []⟩ .commitments none ⟨0, 0, 0⟩, Database.empty) :=
    .step (.begin Database.empty) (.done _)
  obtain ⟨summary, db₁, hrun₁, F₁, hF₁, hsynced₁, hhas₁⟩ := run_whole snapshotSerde_roundTrips hserves
    (show (0 : BlockNumber) ≤ 9 by decide) (by decide) (by decide) (folded_empty poseidonTables snapshotSerde)
    (show (Syncer.new 0).first none = 0 from rfl) ⟨nofun, nofun⟩ fun _ => leafChain_has
  obtain ⟨summary₂, db₂, hrun₂, F₂, hF₂, hsynced₂, -⟩ := run_window snapshotSerde_roundTrips hserves
    hcovers ⟨0, 0, 0⟩ hF₁ (within_leafChain hhas₁) fun _ => leafChain_has
  have hsteps₁ := (interleaved_run overtakenRuns true (fun _ => .start) hbegin).trans
    (interleaved_run overtakenRuns false _ hrun₁)
  have hsteps₂ := interleaved_run overtakenRuns true (Function.update (Function.update (fun _ => .start) true
    (.fetching ⟨0, 5, [], []⟩ .commitments none ⟨0, 0, 0⟩)) false (.returned (.ok summary))) hrun₂
  have hread₂ : Commitments.syncedBlock db₂.read = .ok (some 5) :=
    (syncedBlock_spec (r := db₂.read) hF₂.represents).trans (congrArg Except.ok hsynced₂)
  refine ⟨_, _, hsteps₁, ?_, hsteps₂, hread₂, ?_⟩
  · exact (syncedBlock_spec (r := db₁.read) hF₁.represents).trans (congrArg Except.ok hsynced₁)
  · obtain ⟨⟨watermark, hw, hstored⟩, -⟩ := watermark_honest hserves.yields
      (show ∀ i, (overtakenRuns i).1.floor = 0 from fun i => by cases i <;> rfl) (hsteps₁.trans hsteps₂)
    obtain rfl := Except.ok.inj (hread₂.symm.trans hw)
    exact hstored 5 rfl _ ⟨.commitments, 4, List.mem_singleton.mpr rfl, by decide, by decide⟩

end Railgun
