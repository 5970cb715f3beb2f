import Railgun.Proof.Chain

/-!
# Resuming a sync

Runs one after the other, each stopped anywhere, store the events up to the
watermark with a snapshot of every leaf of every tree, and nothing else
(`CaughtUp`): each starts at the block after the watermark, and its windows
follow one another from there without a gap (`aligned_run`). So the database
that they leave is determined by its watermark (`CaughtUp.unique`), and one
window over all blocks leaves the same (`sync_outcome`).
-/

namespace Railgun

/-! ## Windows in a row -/

theorem tiles_append {limit : Nat} : ∀ {windows windows' : List (BlockNumber × BlockNumber)} {start : Nat},
    Tiles limit start windows → Tiles limit (tilesEnd start windows) windows' →
    Tiles limit start (windows ++ windows')
  | [], _, _, _, h' => h'
  | (_, _) :: _, _, _, ⟨hfirst, hle, hspan, hrest⟩, h' => ⟨hfirst, hle, hspan, tiles_append hrest h'⟩

theorem tilesEnd_append : ∀ (windows windows' : List (BlockNumber × BlockNumber)) (start : Nat),
    tilesEnd start (windows ++ windows') = tilesEnd (tilesEnd start windows) windows'
  | [], _, _ => rfl
  | (_, last) :: windows, windows', _ => tilesEnd_append windows windows' (last.toNat + 1)

theorem le_tilesEnd {limit : Nat} : ∀ {windows : List (BlockNumber × BlockNumber)} {start : Nat},
    Tiles limit start windows → start ≤ tilesEnd start windows
  | [], _, _ => Nat.le_refl _
  | (_, _) :: _, _, ⟨hfirst, hle, _, hrest⟩ => by
    have := le_tilesEnd hrest
    rw [tilesEnd]
    omega

section
variable {tables : PoseidonTables} {serde : Serde MerkleAccumulatorState} {source : EventSource}
  {syncer : Syncer} {target : BlockNumber}

/-- On course from the block after the watermark. -/
def Aligned (source : EventSource) (syncer : Syncer) (target : BlockNumber) (m : Nat)
    (state : Phase × Database) : Prop :=
  OnCourse source syncer target m state.1 ∧ (state.1 = .start →
    ∃ watermark, Commitments.syncedBlock state.2.read = .ok watermark ∧ nextBlock syncer.floor watermark = m)

theorem aligned_start {db : Database} {watermark : Option BlockNumber}
    (h : Commitments.syncedBlock db.read = .ok watermark) :
    Aligned source syncer target (nextBlock syncer.floor watermark) (.start, db) :=
  ⟨.start, fun _ => ⟨watermark, h, rfl⟩⟩

theorem onCourse_after {m : Nat} {start : BlockNumber} (summary : SyncSummary)
    (h : start.toNat = m ∨ target.toNat < start.toNat ∧ target.toNat < m) :
    OnCourse source syncer target m (syncer.nextWindow target start summary) := by
  rcases h with rfl | ⟨hlt, hm⟩
  · exact onCourse_nextWindow start summary
  · rcases nextWindow_cases syncer target start summary with ⟨hle, -⟩ | ⟨-, hreturn⟩
    · omega
    · rw [hreturn]
      exact .ok hm

theorem nextWindow_ne_start (start : BlockNumber) (summary : SyncSummary) :
    syncer.nextWindow target start summary ≠ .start := by
  rw [Syncer.nextWindow]
  split <;> intro h <;> cases h

/-- The read of the watermark, from the last block too. -/
theorem onCourse_begin (htarget : target.toNat < 2 ^ 64 - 1) {db : Database}
    {watermark : Option BlockNumber} (h : Commitments.syncedBlock db.read = .ok watermark) :
    OnCourse source syncer target (nextBlock syncer.floor watermark) (syncer.begin db target) := by
  rw [begin_eq h]
  refine onCourse_after _ ?_
  cases watermark with
  | none => exact .inl rfl
  | some block =>
    have hnext := toNat_saturatingAdd block 1
    have hone : (1 : U64).toNat = 1 := rfl
    rw [Syncer.first, nextBlock]
    omega

/-- Every step goes on where the last window ended. -/
theorem aligned_step (htarget : target.toNat < 2 ^ 64 - 1) {m : Nat} {state state' : Phase × Database}
    {windows : List (BlockNumber × BlockNumber)}
    (h : syncer.Step tables serde source target state windows state')
    (hs : Aligned source syncer target m state) :
    Aligned source syncer target (tilesEnd m windows) state' ∧
      Tiles syncer.blockWindow.toNat m windows ∧ tilesEnd m windows ≤ max m (target.toNat + 1) := by
  obtain ⟨hcourse, hstart⟩ := hs
  cases h with
  | begin db =>
    obtain ⟨watermark, hw, rfl⟩ := hstart rfl
    refine ⟨⟨onCourse_begin htarget hw, fun h => ?_⟩, trivial, Nat.le_max_left _ _⟩
    rw [begin_eq hw] at h
    exact absurd h (nextWindow_ne_start _ _)
  | @page window stream cursor summary page db h =>
    refine ⟨⟨hcourse.page h, fun h => ?_⟩, trivial, Nat.le_max_left _ _⟩
    cases hc : page.cursor with
    | some next =>
      rw [receive_more hc] at h
      cases h
    | none =>
      rw [receive_last hc] at h
      cases stream <;> cases h
  | fail e db => exact ⟨⟨.error e, fun h => by cases h⟩, trivial, Nat.le_max_left _ _⟩
  | @commit window summary db =>
    obtain ⟨rfl, hcovers⟩ := hcourse.covers
    have hle := hcovers.start_le
    have hstop := hcovers.stop_le
    refine ⟨?_, ⟨rfl, hle, hcovers.span, trivial⟩, Nat.le_trans (Nat.succ_le_succ hstop) (Nat.le_max_right _ _)⟩
    rw [Syncer.commit]
    cases hw : commitWindow tables serde db window.commitments window.nullifiers window.stop with
    | mk result db' =>
      cases result with
      | error e => exact ⟨.error e, fun h => by cases h⟩
      | ok u =>
        refine ⟨onCourse_after _ (.inl ?_), fun h => absurd h (nextWindow_ne_start _ _)⟩
        have hnext := toNat_saturatingAdd window.stop 1
        have hone : (1 : U64).toNat = 1 := rfl
        show _ = window.stop.toNat + 1
        omega

theorem aligned_run (htarget : target.toNat < 2 ^ 64 - 1) {state state' : Phase × Database}
    {windows : List (BlockNumber × BlockNumber)}
    (h : syncer.Run tables serde source target state windows state') :
    ∀ {m : Nat}, Aligned source syncer target m state →
    Aligned source syncer target (tilesEnd m windows) state' ∧
      Tiles syncer.blockWindow.toNat m windows ∧ tilesEnd m windows ≤ max m (target.toNat + 1) := by
  induction h with
  | done => exact fun hs => ⟨hs, trivial, Nat.le_max_left _ _⟩
  | step hstep _ ih =>
    intro m hs
    obtain ⟨hs', htiles, hend⟩ := aligned_step htarget hstep hs
    obtain ⟨hs'', htiles', hend'⟩ := ih hs'
    rw [tilesEnd_append]
    exact ⟨hs'', tiles_append htiles htiles', by omega⟩

end

/-! ## What is stored -/

section
variable {tables : PoseidonTables} {serde : Serde MerkleAccumulatorState} {source : EventSource}
  {chain : Chain} {floor target : BlockNumber}

/-- The database of a forest of the events up to its watermark, none past
`target`, and of full snapshots. -/
structure CaughtUp (tables : PoseidonTables) (serde : Serde MerkleAccumulatorState) (chain : Chain)
    (floor target : BlockNumber) (db : Database) (F : Forest) : Prop where
  folded : Folded tables serde db.engine F F.length
  has : ∀ event, F.Has event ↔ chain.Between floor.toNat (nextBlock floor F.synced) event
  synced_le : ∀ block, F.synced = some block → floor.toNat ≤ block.toNat ∧ block.toNat ≤ target.toNat
  rest : ∀ table, table ≠ .commitments → table ≠ .frontier →
    db.engine table = Database.empty.engine table

theorem caughtUp_new : CaughtUp tables serde chain floor target Database.empty Forest.empty where
  folded := folded_empty tables serde
  has event := iff_of_false (empty_has event) Chain.not_between_self
  synced_le := nofun
  rest _ _ _ := rfl

theorem CaughtUp.floor_le {db : Database} {F : Forest}
    (h : CaughtUp tables serde chain floor target db F) : floor.toNat ≤ nextBlock floor F.synced := by
  cases hs : F.synced with
  | none => exact Nat.le_refl _
  | some block => exact Nat.le_succ_of_le (h.synced_le block hs).1

/-- The watermark determines the database. -/
theorem CaughtUp.unique {db db' : Database} {F F' : Forest}
    (h : CaughtUp tables serde chain floor target db F)
    (h' : CaughtUp tables serde chain floor target db' F') (hsynced : F.synced = F'.synced) :
    db = db' := by
  obtain rfl : F = F' := Forest.ext_has (fun event => by rw [h.has, h'.has, hsynced]) hsynced
  obtain ⟨engine⟩ := db
  obtain ⟨engine'⟩ := db'
  refine congrArg Database.mk (funext fun table => ?_)
  cases table with
  | commitments => exact h.folded.represents.unique h'.folded.represents
  | frontier => exact h.folded.snapshots.unique h'.folded.snapshots
  | decoded => exact (h.rest .decoded (by decide) (by decide)).trans (h'.rest .decoded (by decide) (by decide)).symm
  | metadata =>
    exact (h.rest .metadata (by decide) (by decide)).trans (h'.rest .metadata (by decide) (by decide)).symm

section
variable (hJ : serde.RoundTrips)
include hJ

/-- A window from the block after the watermark. -/
theorem CaughtUp.window {db : Database} {F : Forest} {window : Window}
    (h : CaughtUp tables serde chain floor target db F)
    (hstart : window.start.toNat = nextBlock floor F.synced) (hle : window.start.toNat ≤ window.stop.toNat)
    (hstop : window.stop.toNat ≤ target.toNat)
    (hhas : ∀ event, window.Has event ↔
      chain.Between window.start.toNat (window.stop.toNat + 1) event) :
    (∃ e, commitWindow tables serde db window.commitments window.nullifiers window.stop = (.error e, db)) ∨
    ∃ db', commitWindow tables serde db window.commitments window.nullifiers window.stop = (.ok (), db') ∧
      CaughtUp tables serde chain floor target db'
        (F.window window.commitments window.nullifiers window.stop) := by
  rcases commitCall_full hJ h.folded ⟨window.commitments, window.nullifiers, window.stop⟩ with
    ⟨ha, db', hw, hF, hother⟩ | herror
  · have hfloor : floor.toNat ≤ window.start.toNat := hstart ▸ h.floor_le
    refine .inr ⟨db', hw, hF, fun event => ?_, fun block hb => ?_, fun table hc hf =>
      (hother table hc hf).trans (h.rest table hc hf)⟩
    · rw [has_window ha, h.has, hhas, ← hstart]
      exact Chain.between_join hfloor (Nat.le_succ_of_le hle)
    · rw [← Option.some.inj hb]
      exact ⟨Nat.le_trans hfloor hle, hstop⟩
  · exact .inl herror

/-- Every step leaves what it stored, and goes on from there. -/
theorem caughtUp_step (hyields : source.Yields chain) (htarget : target.toNat < 2 ^ 64 - 1)
    {syncer : Syncer} {target' : BlockNumber} (hle : target'.toNat ≤ target.toNat)
    {state state' : Phase × Database} {windows : List (BlockNumber × BlockNumber)}
    (hstep : syncer.Step tables serde source target' state windows state')
    (h : ∃ F, CaughtUp tables serde chain floor target state.2 F ∧
      Aligned source syncer target' (nextBlock floor F.synced) state) :
    ∃ F, CaughtUp tables serde chain floor target state'.2 F ∧
      Aligned source syncer target' (nextBlock floor F.synced) state' := by
  obtain ⟨F, hF, hs⟩ := h
  have hs' := (aligned_step (Nat.lt_of_le_of_lt hle htarget) hstep hs).1
  cases hstep with
  | begin db => exact ⟨F, hF, hs'⟩
  | page db h => exact ⟨F, hF, hs'⟩
  | fail e db => exact ⟨F, hF, hs'⟩
  | @commit window summary db =>
    obtain ⟨hstart, hcovers⟩ := hs.1.covers
    rw [Syncer.commit] at hs' ⊢
    rcases hF.window hJ hstart hcovers.start_le (Nat.le_trans hcovers.stop_le hle)
      (hs.1.window_has hyields) with ⟨e, hw⟩ | ⟨db', hw, hF'⟩
    · rw [hw]
      exact ⟨F, hF, .error e, fun h => by cases h⟩
    · rw [hw] at hs' ⊢
      exact ⟨_, hF', hs'⟩

theorem caughtUp_run (hyields : source.Yields chain) (htarget : target.toNat < 2 ^ 64 - 1)
    {syncer : Syncer} {target' : BlockNumber} (hfloor : syncer.floor = floor)
    (hle : target'.toNat ≤ target.toNat) {db : Database} {F : Forest}
    (hF : CaughtUp tables serde chain floor target db F) {state' : Phase × Database}
    {windows : List (BlockNumber × BlockNumber)}
    (hrun : syncer.Run tables serde source target' (.start, db) windows state') :
    ∃ F, CaughtUp tables serde chain floor target state'.2 F ∧
      Aligned source syncer target' (nextBlock floor F.synced) state' := by
  refine run_keeps (I := fun state => ∃ F, CaughtUp tables serde chain floor target state.2 F ∧
    Aligned source syncer target' (nextBlock floor F.synced) state)
    (caughtUp_step hJ hyields htarget hle) hrun ⟨F, hF, ?_⟩
  rw [← hfloor]
  exact aligned_start (syncedBlock_spec (r := db.read) hF.folded.represents)

/-- Whatever runs came before. -/
theorem caughtUp_history (hyields : source.Yields chain) (htarget : target.toNat < 2 ^ 64 - 1)
    {db : Database} (h : Syncer.History tables serde source floor target db) :
    ∃ F, CaughtUp tables serde chain floor target db F := by
  induction h with
  | new => exact ⟨_, caughtUp_new⟩
  | run _ hfloor hle hrun ih =>
    obtain ⟨F, hF⟩ := ih
    obtain ⟨F', hF', -⟩ := caughtUp_run hJ hyields htarget hfloor hle hF hrun
    exact ⟨F', hF'⟩

/-- And a run to `target` that succeeds has synced to it. -/
theorem caughtUp_last (hyields : source.Yields chain) (hle : floor ≤ target)
    (htarget : target.toNat < 2 ^ 64 - 1) {db db' : Database}
    (h : Syncer.History tables serde source floor target db) {syncer : Syncer}
    (hfloor : syncer.floor = floor) {windows : List (BlockNumber × BlockNumber)} {summary : SyncSummary}
    (hrun : syncer.Run tables serde source target (.start, db) windows (.returned (.ok summary), db')) :
    ∃ F, CaughtUp tables serde chain floor target db' F ∧ F.synced = some target := by
  obtain ⟨F, hF⟩ := caughtUp_history hJ hyields htarget h
  obtain ⟨F', hF', hcourse, -⟩ := caughtUp_run hJ hyields htarget hfloor (Nat.le_refl _) hF hrun
  refine ⟨F', hF', ?_⟩
  have hpast : target.toNat < nextBlock floor F'.synced := by
    cases hcourse with
    | ok h => exact h
  cases hs : F'.synced with
  | none =>
    rw [hs] at hpast
    exact absurd hpast (Nat.not_lt.mpr hle)
  | some block =>
    rw [hs] at hpast
    have := (hF'.synced_le block hs).2
    exact congrArg some (BitVec.eq_of_toNat_eq (Nat.le_antisymm this (Nat.le_of_lt_succ hpast)))

/-! ## One window -/

omit hJ in
/-- The windows of a run tile its blocks. -/
theorem sweeps_run {syncer : Syncer} {target : BlockNumber} (htarget : target.toNat < 2 ^ 64 - 1)
    {db db' : Database} {watermark : Option BlockNumber} {windows : List (BlockNumber × BlockNumber)}
    {phase : Phase} (hw : Commitments.syncedBlock db.read = .ok watermark)
    (hrun : syncer.Run tables serde source target (.start, db) windows (phase, db')) :
    syncer.Sweeps target watermark windows phase := by
  obtain ⟨⟨hcourse, -⟩, htiles, hend⟩ := aligned_run htarget hrun (aligned_start hw)
  refine ⟨htiles, hend, ?_⟩
  rintro summary rfl
  have hpast : target.toNat < tilesEnd (nextBlock syncer.floor watermark) windows := by
    cases hcourse with
    | ok h => exact h
  have := le_tilesEnd htiles
  omega

omit hJ in
theorem nextWindow_whole {one : Syncer} (hle : floor ≤ target)
    (hspan : target.toNat < floor.toNat + one.blockWindow.toNat) (summary : SyncSummary) :
    one.nextWindow target floor summary = .fetching ⟨floor, target, [], []⟩ .commitments none summary := by
  have hpos : 0 < one.blockWindow.toNat := one.window_pos
  have hone : (1 : U64).toNat = 1 := rfl
  have hstop := toNat_saturatingAdd floor (one.blockWindow - 1)
  rw [BitVec.toNat_sub_of_le (show (1 : U64).toNat ≤ _ by omega)] at hstop
  rw [Syncer.nextWindow, if_pos hle]
  simp only
  split
  · rename_i h
    have h : (BlockNumber.saturatingAdd floor (one.blockWindow - 1)).toNat ≤ target.toNat := h
    have hlt := target.isLt
    have he : BlockNumber.saturatingAdd floor (one.blockWindow - 1) = target :=
      BitVec.eq_of_toNat_eq (by omega)
    rw [he]
  · rfl

/-- A run over one window, to its end. -/
theorem run_whole (hserves : source.Serves chain) (hle : floor ≤ target)
    (htarget : target.toNat < 2 ^ 64 - 1) {one : Syncer}
    (hspan : target.toNat < floor.toNat + one.blockWindow.toNat) {db : Database} {F G : Forest}
    (hdb : Folded tables serde db.engine F F.length) (hfirst : one.first F.synced = floor)
    (hwithin : F.Within G)
    (hin : ∀ event, chain.Between floor.toNat (target.toNat + 1) event → G.Has event) :
    ∃ summary db', one.Run tables serde source target (.start, db) [(floor, target)]
        (.returned (.ok summary), db') ∧
      ∃ F' : Forest, Folded tables serde db'.engine F' F'.length ∧ F'.synced = some target ∧
        ∀ event, F'.Has event ↔ F.Has event ∨ chain.Between floor.toNat (target.toNat + 1) event := by
  have hcovers : one.Covers target floor target := ⟨hle, Nat.le_refl _, by omega⟩
  have hbegin : one.Step tables serde source target (.start, db) [] (one.begin db target, db) := .begin db
  rw [begin_eq (syncedBlock_spec (r := db.read) hdb.represents), hfirst, nextWindow_whole hle hspan] at hbegin
  obtain ⟨summary, db', hrun, hF'⟩ := run_window hJ hserves hcovers _ hdb hwithin hin
  have hreturn : one.nextWindow target (BlockNumber.saturatingAdd target 1) summary =
      .returned (.ok summary) := by
    have hnext := toNat_saturatingAdd target 1
    have hone : (1 : U64).toNat = 1 := rfl
    rcases nextWindow_cases one target (BlockNumber.saturatingAdd target 1) summary with
      ⟨hge, -⟩ | ⟨-, hreturn⟩
    · omega
    · exact hreturn
  rw [hreturn] at hrun
  exact ⟨summary, db', .step hbegin hrun, hF'⟩

/-- However a sync was cut into runs, windows and pages, and wherever these were
stopped: once a run to `target` has succeeded, the database is the one that a
single window leaves in an empty one. And every run's windows tile its blocks. -/
theorem sync_outcome (hserves : source.Serves chain) (hle : floor ≤ target)
    (htarget : target.toNat < 2 ^ 64 - 1) {db db' : Database}
    (hhistory : Syncer.History tables serde source floor target db) {last : Syncer}
    (hfloor : last.floor = floor) {windows : List (BlockNumber × BlockNumber)} {summary : SyncSummary}
    (hlast : last.Run tables serde source target (.start, db) windows (.returned (.ok summary), db'))
    {one : Syncer} (hone : one.floor = floor)
    (hspan : target.toNat < floor.toNat + one.blockWindow.toNat) :
    (∃ summary₁, one.Run tables serde source target (.start, Database.empty) [(floor, target)]
      (.returned (.ok summary₁), db')) ∧
    (∀ windows₁ summary₁ db₁, one.Run tables serde source target (.start, Database.empty) windows₁
      (.returned (.ok summary₁), db₁) → db₁ = db') ∧
    ∀ (syncer : Syncer) (target' : BlockNumber) db watermark windows phase db',
      target'.toNat < 2 ^ 64 - 1 → Commitments.syncedBlock db.read = .ok watermark →
      syncer.Run tables serde source target' (.start, db) windows (phase, db') →
      syncer.Sweeps target' watermark windows phase := by
  obtain ⟨F, hF, hsynced⟩ := caughtUp_last hJ hserves.yields hle htarget hhistory hfloor hlast
  have hunique : ∀ windows₁ summary₁ db₁, one.Run tables serde source target (.start, Database.empty)
      windows₁ (.returned (.ok summary₁), db₁) → db₁ = db' := fun windows₁ summary₁ db₁ hrun => by
    obtain ⟨F₁, hF₁, hsynced₁⟩ := caughtUp_last hJ hserves.yields hle htarget .new hone hrun
    exact hF₁.unique hF (hsynced₁.trans hsynced.symm)
  obtain ⟨summary₁, db₁, hrun, -⟩ := run_whole hJ hserves hle htarget hspan (G := F)
    (folded_empty tables serde) hone ⟨nofun, nofun⟩
    fun event h => (hF.has event).mpr (by rw [hsynced]; exact h)
  obtain rfl := hunique _ _ _ hrun
  exact ⟨⟨summary₁, hrun⟩, hunique, fun _ _ _ _ _ _ _ ht hw hrun => sweeps_run ht hw hrun⟩

end

end

/-- A leaf synced in two runs, and in one. -/
theorem sync_outcome_resumed : ∃ summary₁ db₁ summary₂ db₂ summary,
    (Syncer.new 0).Run poseidonTables snapshotSerde (.whole leafChain) 5 (.start, Database.empty) [(0, 5)]
      (.returned (.ok summary₁), db₁) ∧
    (Syncer.new 0).Run poseidonTables snapshotSerde (.whole leafChain) 9 (.start, db₁) [(6, 9)]
      (.returned (.ok summary₂), db₂) ∧
    (Syncer.new 0).Run poseidonTables snapshotSerde (.whole leafChain) 9 (.start, Database.empty) [(0, 9)]
      (.returned (.ok summary), db₂) := by
  have hserves := whole_serves leafChain
  have hspan : ∀ {floor target : BlockNumber}, target.toNat ≤ 9 →
      target.toNat < floor.toNat + (Syncer.new 0).blockWindow.toNat := fun h => by
    have : (Syncer.new 0).blockWindow.toNat = 100000 := rfl
    omega
  obtain ⟨summary₁, db₁, hrun₁, F₁, hF₁, hsynced₁, hhas₁⟩ := run_whole snapshotSerde_roundTrips hserves
    (show (0 : BlockNumber) ≤ 5 by decide) (by decide) (hspan (by decide))
    (folded_empty poseidonTables snapshotSerde) rfl ⟨nofun, nofun⟩ fun _ => leafChain_has
  obtain ⟨summary₂, db₂, hrun₂, -⟩ := run_whole snapshotSerde_roundTrips hserves
    (show (6 : BlockNumber) ≤ 9 by decide) (by decide) (hspan (by decide)) hF₁
    (by rw [hsynced₁]; rfl) (within_leafChain hhas₁) fun _ => leafChain_has
  obtain ⟨⟨summary, hrun⟩, -⟩ := sync_outcome snapshotSerde_roundTrips hserves
    (show (0 : BlockNumber) ≤ 9 by decide) (by decide) (.run .new rfl (by decide) hrun₁) rfl hrun₂ rfl
    (hspan (by decide))
  exact ⟨summary₁, db₁, summary₂, db₂, summary, hrun₁, hrun₂, hrun⟩

end Railgun
