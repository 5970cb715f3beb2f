import Railgun.Proof.Client
import Railgun.Proof.Resumption
import Railgun.Proof.Termination
import Railgun.Spec.World

/-!
# Runs over a network

Step by step, a run over an honest network is one of the syncer over the archive
(`step_running`), so what runs leave is what the archive's rows map to, up to the
watermark (`sessions_store`), and nothing else about the runs or the network
shows (`sessions_unique`). A network that delivers within the retry budget brings
every run to the head (`reaches_head`).
-/

namespace Railgun

open Retry Outcome

/-! ## Runs -/

section
variable {σ : Type} {tables : PoseidonTables} {serde : Serde MerkleAccumulatorState} {network : Network σ}
  {wire : Wire} {client : SubsquidClient} {syncer : Syncer} {archive : Archive}

/-- A step of a run to a target is one of the syncer's, over the archive. -/
theorem step_running (hhonest : network.Honest wire archive) {target : BlockNumber} {phase : Phase}
    {db : Database} {s : σ} {session : Session σ}
    (h : Session.step tables serde network wire client syncer ⟨.running target phase, db, s⟩ = some session) :
    ∃ phase' windows, session.phase = .running target phase' ∧
      syncer.Step tables serde (client.source.eventSource archive.indexer) target (phase, db) windows
        (phase', session.db) := by
  cases phase with
  | start =>
    obtain rfl := Option.some.inj h
    exact ⟨_, _, rfl, .begin db⟩
  | fetching window stream cursor summary =>
    rw [Session.step] at h
    cases hpage : client.fetchPage network wire stream window.start window.stop cursor s with
    | ok page s' =>
      cases page with
      | none =>
        simp only [hpage] at h
        cases h
      | some page =>
        simp only [hpage] at h
        obtain rfl := Option.some.inj h
        exact ⟨_, _, rfl, .page db (fetchPage_refines hhonest hpage)⟩
    | error e s' =>
      simp only [hpage] at h
      obtain rfl := Option.some.inj h
      exact ⟨_, _, rfl, .fail e db⟩
  | committing window summary =>
    obtain rfl := Option.some.inj h
    exact ⟨_, _, rfl, .commit db⟩
  | returned result => cases h

/-- So is a whole run. -/
theorem run_running (hhonest : network.Honest wire archive) {target : BlockNumber} {session session' : Session σ}
    (h : Session.Run tables serde network wire client syncer session session') :
    ∀ {phase : Phase}, session.phase = .running target phase →
    ∃ phase' windows, session'.phase = .running target phase' ∧
      syncer.Run tables serde (client.source.eventSource archive.indexer) target (phase, session.db) windows
        (phase', session'.db) := by
  induction h using Relation.ReflTransGen.head_induction_on with
  | refl => exact fun {phase} hphase => ⟨phase, [], hphase, .done _⟩
  | @head session₀ session₁ hstep _ ih =>
    intro phase hphase
    obtain ⟨_, db, s⟩ := session₀
    obtain rfl : _ = HeadPhase.running target phase := hphase
    obtain ⟨phase', windows, hphase', hstep'⟩ := step_running hhonest hstep
    obtain ⟨phase'', windows', hphase'', hrun⟩ := ih hphase'
    exact ⟨phase'', windows ++ windows', hphase'', .step hstep' hrun⟩

/-- A run that has returned stays as it is. -/
theorem run_stopped {session session' : Session σ}
    (h : Session.Run tables serde network wire client syncer session session')
    (hstop : session.step tables serde network wire client syncer = none) : session' = session := by
  rcases Relation.ReflTransGen.cases_head h with rfl | ⟨session₁, hstep, -⟩
  · rfl
  · rw [hstop] at hstep
    cases hstep

/-- What `run_to_head` does after it has asked for the head. -/
theorem run_asking {db : Database} {s : σ} {session : Session σ}
    (h : Session.Run tables serde network wire client syncer ⟨.asking, db, s⟩ session) :
    session = ⟨.asking, db, s⟩ ∨
    (∃ e s', client.latestBlock network wire s = .error e s' ∧ session = ⟨.returned (.error e), db, s'⟩) ∨
    ∃ target s', client.latestBlock network wire s = .ok (some target) s' ∧
      Session.Run tables serde network wire client syncer ⟨.running target .start, db, s'⟩ session := by
  rcases Relation.ReflTransGen.cases_head h with rfl | ⟨session₁, hstep, hrun⟩
  · exact .inl rfl
  · rw [Session.step] at hstep
    cases hask : client.latestBlock network wire s with
    | ok target s' =>
      cases target with
      | none =>
        simp only [hask] at hstep
        cases hstep
      | some target =>
        simp only [hask] at hstep
        obtain rfl := Option.some.inj hstep
        exact .inr (.inr ⟨target, s', rfl, hrun⟩)
    | error e s' =>
      simp only [hask] at hstep
      obtain rfl := Option.some.inj hstep
      exact .inr (.inl ⟨e, s', rfl, run_stopped hrun rfl⟩)

/-- What `run_to_head_if_unsynced` does after it has looked at the watermark. -/
theorem run_checking {db : Database} {s : σ} {session : Session σ}
    (h : Session.Run tables serde network wire client syncer ⟨.checking, db, s⟩ session) :
    session = ⟨.checking, db, s⟩ ∨
      Session.Run tables serde network wire client syncer ⟨.check db, db, s⟩ session := by
  rcases Relation.ReflTransGen.cases_head h with rfl | ⟨session₁, hstep, hrun⟩
  · exact .inl rfl
  · obtain rfl := Option.some.inj hstep
    exact .inr hrun

theorem check_of_synced {db : Database} {block : BlockNumber}
    (h : Commitments.syncedBlock db.read = .ok (some block)) :
    HeadPhase.check db = .returned (.ok ⟨0, 0, block⟩) := by
  rw [HeadPhase.check, Commitments.isSynced, h]
  rfl

theorem check_of_unsynced {db : Database} (h : Commitments.syncedBlock db.read = .ok none) :
    HeadPhase.check db = .asking := by
  rw [HeadPhase.check, Commitments.isSynced, h]
  rfl

section
variable (hJ : serde.RoundTrips) (hhonest : network.Honest wire archive)
  (hhead : archive.head.toNat < 2 ^ 64 - 1) {floor : BlockNumber} (hfloor : syncer.floor = floor)
  {db : Database} {F : Forest} (hF : CaughtUp tables serde archive.chain floor archive.head db F)
include hJ hhonest hhead hfloor hF

/-- A run to a target leaves what is stored caught up, and is on its course. -/
theorem caughtUp_running {target : BlockNumber} (hle : target ≤ archive.head) {s : σ} {session : Session σ}
    (h : Session.Run tables serde network wire client syncer ⟨.running target .start, db, s⟩ session) :
    ∃ phase, session.phase = .running target phase ∧
      ∃ F, CaughtUp tables serde archive.chain floor archive.head session.db F ∧
        Aligned (client.source.eventSource archive.indexer) syncer target (nextBlock floor F.synced)
          (phase, session.db) := by
  obtain ⟨phase, windows, hphase, hrun⟩ := run_running hhonest h rfl
  exact ⟨phase, hphase, caughtUp_run hJ (archive_yields client.source archive) hhead hfloor hle hF hrun⟩

theorem caughtUp_asking {s : σ} {session : Session σ}
    (h : Session.Run tables serde network wire client syncer ⟨.asking, db, s⟩ session) :
    ∃ F, CaughtUp tables serde archive.chain floor archive.head session.db F := by
  rcases run_asking h with rfl | ⟨e, s', -, rfl⟩ | ⟨target, s', hask, hrun⟩
  · exact ⟨F, hF⟩
  · exact ⟨F, hF⟩
  · obtain ⟨-, -, F', hF', -⟩ := caughtUp_running hJ hhonest hhead hfloor hF (head_le hhonest hask) hrun
    exact ⟨F', hF'⟩

theorem caughtUp_session {phase : HeadPhase} (hstart : phase.Starts archive.head) {s : σ}
    {session : Session σ}
    (h : Session.Run tables serde network wire client syncer ⟨phase, db, s⟩ session) :
    ∃ F, CaughtUp tables serde archive.chain floor archive.head session.db F := by
  cases hstart with
  | asking => exact caughtUp_asking hJ hhonest hhead hfloor hF h
  | running hle =>
    obtain ⟨-, -, F', hF', -⟩ := caughtUp_running hJ hhonest hhead hfloor hF hle h
    exact ⟨F', hF'⟩
  | checking =>
    rcases run_checking h with rfl | hrun
    · exact ⟨F, hF⟩
    have hsynced := syncedBlock_spec (r := db.read) hF.folded.represents
    cases hs : F.synced with
    | some block =>
      rw [hs] at hsynced
      rw [check_of_synced hsynced] at hrun
      rw [run_stopped hrun rfl]
      exact ⟨F, hF⟩
    | none =>
      rw [hs] at hsynced
      rw [check_of_unsynced hsynced] at hrun
      exact caughtUp_asking hJ hhonest hhead hfloor hF hrun

end

section
variable (hJ : serde.RoundTrips) (hhonest : network.Honest wire archive)
  (hhead : archive.head.toNat < 2 ^ 64 - 1) {floor : BlockNumber} {db : Database}
include hJ hhonest hhead

theorem caughtUp_sessions (h : Sessions tables serde network wire floor archive.head db) :
    ∃ F, CaughtUp tables serde archive.chain floor archive.head db F := by
  induction h with
  | new => exact ⟨_, caughtUp_new⟩
  | run _ hfloor hstart hrun ih =>
    obtain ⟨F, hF⟩ := ih
    exact caughtUp_session hJ hhonest hhead hfloor hF hstart hrun

end

/-- Past `target`, and with nothing past it, what is stored is synced to it. -/
theorem CaughtUp.synced_eq {chain : Chain} {floor target : BlockNumber} {db : Database} {F : Forest}
    (hF : CaughtUp tables serde chain floor target db F) (hpast : target.toNat < nextBlock floor F.synced) :
    F.synced = if floor ≤ target then some target else none := by
  cases hs : F.synced with
  | none =>
    rw [hs] at hpast
    exact (if_neg (Nat.not_le.mpr hpast)).symm
  | some block =>
    rw [hs] at hpast
    obtain ⟨hlo, hhi⟩ := hF.synced_le block hs
    have hle : floor ≤ target := Nat.le_trans hlo hhi
    rw [if_pos hle]
    exact congrArg some (BitVec.eq_of_toNat_eq (Nat.le_antisymm hhi (Nat.le_of_lt_succ hpast)))

/-- A run to a head that is before the floor returns at once. -/
theorem run_before_floor {floor target : BlockNumber} {db : Database} (hfloor : syncer.floor = floor)
    (hlt : target < floor) (hw : Commitments.syncedBlock db.read = .ok none) {s : σ} {session : Session σ}
    (h : Session.Run tables serde network wire client syncer ⟨.running target .start, db, s⟩ session)
    {summary : SyncSummary} (hresult : session.phase.result? = some (.ok summary)) :
    session.db = db ∧ summary = ⟨0, 0, 0⟩ := by
  rcases Relation.ReflTransGen.cases_head h with rfl | ⟨session₁, hstep, hrun⟩
  · cases hresult
  obtain rfl := Option.some.inj hstep
  have hbegin : syncer.begin db target = .returned (.ok ⟨0, 0, 0⟩) := by
    rw [begin_eq hw]
    rcases nextWindow_cases syncer target (syncer.first none) ⟨0, 0, 0⟩ with ⟨hle, -⟩ | ⟨-, hreturn⟩
    · rw [Syncer.first, hfloor] at hle
      exact absurd hlt (Nat.not_lt.mpr hle)
    · exact hreturn
  simp only [hbegin] at hrun
  rw [run_stopped hrun rfl] at hresult ⊢
  exact ⟨rfl, (Except.ok.inj (Option.some.inj hresult)).symm⟩

/-! ## Reaching the head -/

section
variable (hhonest : network.Honest wire archive) (hreliable : network.Reliable wire archive client)
include hhonest hreliable

/-- Within its budget the client gets a page. -/
theorem fetchPage_reliable
    (hplaces : ∀ r ∈ archive.commitments.rows,
      (NodePosition.normalized r.2.treeNumber r.2.treePosition).isSome)
    (stream : EventStream) (start stop : BlockNumber) (cursor : Option String) (s : σ) :
    ∃ page s', client.fetchPage network wire stream start stop cursor s = .ok (some page) s' := by
  cases stream with
  | commitments =>
    obtain ⟨rows, s', hpost⟩ := postRetry_ok
      (hreliable.commitments (client.source.vars cursor start stop) s client.source.limit_pos)
    obtain ⟨s₀, hdelivers⟩ := delivers_of_postRetry hpost
    have hevents : (commitmentEvents rows).isSome := (commitmentEvents_isSome rows).mpr fun row hrow => by
      have hmem := (List.mem_filter.mp ((hhonest.commitments hdelivers).first.subset hrow)).1
      obtain ⟨block, hmem, -, -⟩ := mem_within.mp hmem
      exact hplaces (block, row) hmem
    obtain ⟨events, hevents⟩ := Option.isSome_iff_exists.mp hevents
    exact ⟨_, s', fetchCommitments_eq_ok.mpr ⟨rows, hpost, by rw [commitmentsPage_eq, hevents]; rfl⟩⟩
  | nullifiers =>
    obtain ⟨rows, s', hpost⟩ := postRetry_ok
      (hreliable.nullifiers (client.source.vars cursor start stop) s client.source.limit_pos)
    exact ⟨_, s', fetchNullifiers_eq_ok.mpr ⟨rows, hpost, rfl⟩⟩

omit hhonest in
theorem latestBlock_reliable (s : σ) :
    ∃ s', client.latestBlock network wire s = .ok (some archive.head) s' := by
  obtain ⟨transactions, s', hpost⟩ := postRetry_ok (hreliable.blockNumber s)
  obtain ⟨s₀, hdelivers⟩ := delivers_of_postRetry hpost
  exact ⟨s', latestBlock_eq_ok.mpr ⟨transactions, hpost, hreliable.current hdelivers⟩⟩

end

/-- A run that ends over the archive ends over the network. -/
theorem acc_running (hhonest : network.Honest wire archive) {target : BlockNumber} {state : Phase × Database}
    (h : Ends tables serde (client.source.eventSource archive.indexer) syncer target state) :
    ∀ s : σ, Acc (fun session' session : Session σ =>
      session.step tables serde network wire client syncer = some session')
      ⟨.running target state.1, state.2, s⟩ := by
  induction h with
  | intro state _ ih =>
    refine fun s => ⟨_, fun session hstep => ?_⟩
    obtain ⟨phase', windows, hphase, hsync⟩ := step_running hhonest hstep
    obtain ⟨_, db', s'⟩ := session
    obtain rfl : _ = HeadPhase.running target phase' := hphase
    exact ih (phase', db') ⟨windows, hsync⟩ s'

theorem nextWindow_ne_error (target start : BlockNumber) (summary : SyncSummary) (e : SyncError) :
    syncer.nextWindow target start summary ≠ .returned (.error e) := by
  rw [Syncer.nextWindow]
  split <;> intro h <;> cases h

section
variable (hJ : serde.RoundTrips) (hhonest : network.Honest wire archive)
  (hreliable : network.Reliable wire archive client)
  (hplaces : ∀ r ∈ archive.commitments.rows,
    (NodePosition.normalized r.2.treeNumber r.2.treePosition).isSome)
  {floor : BlockNumber} {G : Forest}
  (hroom : ∀ event, archive.chain.Between floor.toNat (archive.head.toNat + 1) event → G.Has event)
include hJ hhonest hreliable hplaces hroom

/-- A run over a reliable network that has not returned takes a step, and not to an error. -/
theorem step_reliable {target : BlockNumber} (hle : target ≤ archive.head) {phase : Phase} {db : Database}
    {F : Forest} (hF : CaughtUp tables serde archive.chain floor archive.head db F)
    (hs : Aligned (client.source.eventSource archive.indexer) syncer target (nextBlock floor F.synced) (phase, db))
    (hgoing : ∀ result, phase ≠ .returned result) (s : σ) :
    ∃ phase' db' s', Session.step tables serde network wire client syncer ⟨.running target phase, db, s⟩ =
      some ⟨.running target phase', db', s'⟩ ∧ ∀ e, phase' ≠ .returned (.error e) := by
  cases phase with
  | start =>
    refine ⟨_, _, _, rfl, fun e => ?_⟩
    rw [begin_eq (syncedBlock_spec (r := db.read) hF.folded.represents)]
    exact nextWindow_ne_error _ _ _ e
  | fetching window stream cursor summary =>
    obtain ⟨page, s', hpage⟩ := fetchPage_reliable hhonest hreliable hplaces stream window.start window.stop cursor s
    refine ⟨Phase.receive window stream summary (.ok page), db, s', by rw [Session.step]; simp only [hpage],
      fun e => ?_⟩
    cases hc : page.cursor with
    | some next =>
      rw [receive_more hc]
      exact fun h => by cases h
    | none =>
      rw [receive_last hc]
      cases stream <;> exact fun h => by cases h
  | committing window summary =>
    refine ⟨_, _, s, rfl, fun e => ?_⟩
    obtain ⟨hstart, hcovers⟩ := hs.1.covers
    have hhas := hs.1.window_has (archive_yields client.source archive)
    have hfloor : floor.toNat ≤ window.start.toNat := hstart ▸ hF.floor_le
    have hstop : window.stop.toNat ≤ archive.head.toNat := Nat.le_trans hcovers.stop_le hle
    have hwithin : F.Within G := Forest.within_of_has fun event h =>
      hroom event (((hF.has event).mp h).mono (Nat.le_refl _) (by
        have := hcovers.start_le
        omega))
    have ha := accepts_window hwithin fun event h =>
      hroom event (((hhas event).mp h).mono hfloor (Nat.succ_le_succ hstop))
    obtain ⟨db', -, hw, -⟩ := commitWindow_folded hJ window.stop hF.folded ha
      (sees_of_full F window.commitments)
    simp only [hw]
    exact nextWindow_ne_error _ _ _ e
  | returned result => exact absurd rfl (hgoing result)

variable (hhead : archive.head.toNat < 2 ^ 64 - 1) {db : Database} {F : Forest}
  (hF : CaughtUp tables serde archive.chain floor archive.head db F) (hfloor : syncer.floor = floor)
include hhead hF hfloor

/-- So no run to the head fails. -/
theorem running_ne_error {s : σ} {session : Session σ}
    (hrun : Session.Run tables serde network wire client syncer ⟨.running archive.head .start, db, s⟩ session) :
    ∀ e, session.phase ≠ .running archive.head (.returned (.error e)) := by
  induction hrun with
  | refl => exact fun e h => by cases h
  | @tail session session' hrun hstep ih =>
    obtain ⟨phase, hphase, F', hF', hs⟩ := caughtUp_running hJ hhonest hhead hfloor hF (Nat.le_refl _) hrun
    obtain ⟨_, db', s'⟩ := session
    obtain rfl : _ = HeadPhase.running archive.head phase := hphase
    obtain ⟨phase', db'', s'', hnext, hne⟩ := step_reliable hJ hhonest hreliable hplaces hroom
      (Nat.le_refl _) hF' hs (fun result h => by subst h; cases hstep) s'
    rw [hnext] at hstep
    obtain rfl := Option.some.inj hstep
    exact fun e h => hne e (HeadPhase.running.inj h).2

/-- The run to the head, from what the runs before have stored. -/
theorem asking_reaches (s : σ) :
    ∃ session summary, Session.Run tables serde network wire client syncer ⟨.asking, db, s⟩ session ∧
      session.phase.result? = some (.ok summary) ∧
      Commitments.syncedBlock session.db.read = .ok (if floor ≤ archive.head then some archive.head else none) := by
  obtain ⟨s₁, hask⟩ := latestBlock_reliable hreliable s
  have hends : Ends tables serde (client.source.eventSource archive.indexer) syncer archive.head (.start, db) :=
    (terminates_below syncer hhead F.synced tables serde _ db (archive_drains client.source archive)
      (syncedBlock_spec (r := db.read) hF.folded.represents)).1
  obtain ⟨session, hrun, hstop⟩ := exists_stop (acc_running hhonest hends s₁)
  have hgood := running_ne_error hJ hhonest hreliable hplaces hroom hhead hF hfloor hrun
  obtain ⟨phase, hphase, F', hF', hs⟩ := caughtUp_running hJ hhonest hhead hfloor hF (Nat.le_refl _) hrun
  obtain ⟨summary, rfl⟩ : ∃ summary, phase = .returned (.ok summary) := by
    by_contra hgoing
    obtain ⟨_, db', s'⟩ := session
    obtain rfl : _ = HeadPhase.running archive.head phase := hphase
    obtain ⟨phase', db'', s'', hnext, -⟩ := step_reliable hJ hhonest hreliable hplaces hroom
      (Nat.le_refl _) hF' hs (fun result h => by
        subst h
        cases result with
        | ok summary => exact hgoing ⟨summary, rfl⟩
        | error e => exact hgood e rfl) s'
    rw [hstop] at hnext
    cases hnext
  have hpast : archive.head.toNat < nextBlock floor F'.synced := by
    cases hs.1 with
    | ok h => exact h
  refine ⟨session, summary, .head (by rw [Session.step]; simp only [hask]) hrun, by rw [hphase]; rfl, ?_⟩
  rw [syncedBlock_spec (r := session.db.read) hF'.folded.represents, hF'.synced_eq hpast]

end

end

/-! ## Over the lossy network -/

/-- What the shields map to. -/
def shieldNode (block : U64) (tree : U32) : Node :=
  ⟨⟨tree, 0, zero_lt_capacity⟩, 0, block, .shield
    ⟨0, .erc20 (.replicate 20 0), 7, [.replicate 32 0, .replicate 32 0], .replicate 32 0⟩⟩

def spentShield : Nullified := ⟨0, .replicate 32 0⟩

def smallForest : Forest :=
  ((Forest.empty.store (shieldNode 4 0) (by decide)).store (shieldNode 6 1) (by decide)).insertNullifier spentShield

theorem smallArchive_places : ∀ r ∈ smallArchive.commitments.rows,
    (NodePosition.normalized r.2.treeNumber r.2.treePosition).isSome := by decide

theorem smallArchive_commitments : smallArchive.chain .commitments =
    [(4, .commitment (shieldNode 4 0)), (6, .commitment (shieldNode 6 1))] := by decide +kernel

theorem smallArchive_nullifiers : smallArchive.chain .nullifiers = [(7, .nullified spentShield)] := by
  decide +kernel

/-- The events of the blocks up to the head. -/
theorem smallArchive_between (event : SyncEvent) : smallArchive.chain.Between 0 10 event ↔
    event = .commitment (shieldNode 4 0) ∨ event = .commitment (shieldNode 6 1) ∨
      event = .nullified spentShield := by
  constructor
  · rintro ⟨stream, block, hmem, -, -⟩
    cases stream with
    | commitments =>
      rw [smallArchive_commitments, List.mem_pair, Prod.mk.injEq, Prod.mk.injEq] at hmem
      exact hmem.imp And.right fun h => .inl h.2
    | nullifiers =>
      rw [smallArchive_nullifiers, List.mem_singleton, Prod.mk.injEq] at hmem
      exact .inr (.inr hmem.2)
  · rintro (rfl | rfl | rfl)
    · exact ⟨.commitments, 4, by rw [smallArchive_commitments]; exact List.mem_cons_self, by decide, by decide⟩
    · exact ⟨.commitments, 6, by rw [smallArchive_commitments]; simp, by decide, by decide⟩
    · exact ⟨.nullifiers, 7, by rw [smallArchive_nullifiers]; exact List.mem_cons_self, by decide, by decide⟩

theorem smallArchive_has {lo hi : Nat} {event : SyncEvent} (h : smallArchive.chain.Between lo hi event) :
    smallForest.Has event := by
  obtain ⟨stream, block, hmem, -, -⟩ := h
  cases stream with
  | commitments =>
    rw [smallArchive_commitments, List.mem_pair, Prod.mk.injEq, Prod.mk.injEq] at hmem
    rcases hmem with ⟨-, rfl⟩ | ⟨-, rfl⟩
    · show smallForest.nodeAt (shieldNode 4 0) = some (shieldNode 4 0)
      decide
    · show smallForest.nodeAt (shieldNode 6 1) = some (shieldNode 6 1)
      decide
  | nullifiers =>
    rw [smallArchive_nullifiers] at hmem
    obtain ⟨-, rfl⟩ := Prod.mk.inj (List.mem_singleton.mp hmem)
    show smallForest.nullified 0 (.replicate 32 0) = true
    decide

/-- A run from a new database, with windows of any size and from any state of the network. -/
theorem lossy_run (syncer : Syncer) (hfloor : syncer.floor = 0) (s : Nat) : ∃ session summary,
    Session.Run poseidonTables snapshotSerde lossy smallWire (.new "squid") syncer
      ⟨.asking, Database.empty, s⟩ session ∧
    session.phase.result? = some (.ok summary) ∧
    Commitments.syncedBlock session.db.read = .ok (some 9) :=
  asking_reaches snapshotSerde_roundTrips lossy_honest (lossy_reliable "squid") smallArchive_places
    (fun _ => smallArchive_has) (by decide) caughtUp_new hfloor s

/-! ## What runs leave -/

section
variable {σ : Type} {tables : PoseidonTables} {serde : Serde MerkleAccumulatorState} {network : Network σ}
  {wire : Wire} {client : SubsquidClient} {syncer : Syncer} {archive : Archive}

/-- However the network fails, and wherever runs are stopped: the database has exactly the events of
the rows from the floor up to its watermark, and its roots are those of its leaves. -/
theorem sessions_store (hJ : serde.RoundTrips) (hhonest : network.Honest wire archive)
    (hhead : archive.head.toNat < 2 ^ 64 - 1) {floor : BlockNumber} {db : Database}
    (h : Sessions tables serde network wire floor archive.head db) :
    ∃ watermark, Commitments.syncedBlock db.read = .ok watermark ∧
      (∀ block, watermark = some block → floor ≤ block ∧ block ≤ archive.head) ∧
      (∀ event, db.Stores event ↔
        archive.chain.Between floor.toNat (nextBlock floor watermark) event) ∧
      RootsRight tables serde db.read := by
  obtain ⟨F, hF⟩ := caughtUp_sessions hJ hhonest hhead h
  refine ⟨F.synced, syncedBlock_spec (r := db.read) hF.folded.represents, hF.synced_le, fun event => ?_,
    fun t => ?_⟩
  · rw [stores_iff hF.folded.represents, hF.has]
  · exact ⟨_, _, _, treeFrontier_spec (r := db.read) tables hF.folded.represents t,
      merkleRoot_folded (r := db.read) hJ hF.folded t⟩

theorem sessions_store_lossy : ∃ db,
    Sessions poseidonTables snapshotSerde lossy smallWire 0 smallArchive.head db ∧
    Commitments.syncedBlock db.read = .ok (some 9) ∧
    ∃ watermark, Commitments.syncedBlock db.read = .ok watermark ∧
      (∀ block, watermark = some block → 0 ≤ block ∧ block ≤ smallArchive.head) ∧
      (∀ event, db.Stores event ↔ smallArchive.chain.Between 0 (nextBlock 0 watermark) event) ∧
      RootsRight poseidonTables snapshotSerde db.read := by
  obtain ⟨session, summary, hrun, -, hsynced⟩ := lossy_run (.new 0) rfl 0
  have h : Sessions poseidonTables snapshotSerde lossy smallWire 0 smallArchive.head session.db :=
    .run .new rfl .asking hrun
  exact ⟨session.db, h, hsynced, sessions_store snapshotSerde_roundTrips lossy_honest (by decide) h⟩

/-- What is stored depends on the watermark alone, and not on the network, the client's settings, the
windows or the runs. -/
theorem sessions_unique (hJ : serde.RoundTrips) (hhonest : network.Honest wire archive)
    (hhead : archive.head.toNat < 2 ^ 64 - 1) {σ' : Type} {network' : Network σ'} {wire' : Wire}
    (hhonest' : network'.Honest wire' archive) {floor : BlockNumber} {db db' : Database}
    (h : Sessions tables serde network wire floor archive.head db)
    (h' : Sessions tables serde network' wire' floor archive.head db')
    (hsynced : Commitments.syncedBlock db.read = Commitments.syncedBlock db'.read) : db = db' := by
  obtain ⟨F, hF⟩ := caughtUp_sessions hJ hhonest hhead h
  obtain ⟨F', hF'⟩ := caughtUp_sessions hJ hhonest' hhead h'
  rw [syncedBlock_spec (r := db.read) hF.folded.represents,
    syncedBlock_spec (r := db'.read) hF'.folded.represents] at hsynced
  exact hF.unique hF' (Except.ok.inj hsynced)

theorem sessions_unique_lossy : ∃ session session' : Session Nat,
    Session.Run poseidonTables snapshotSerde lossy smallWire (.new "squid") (.new 0)
      ⟨.asking, Database.empty, 0⟩ session ∧
    Session.Run poseidonTables snapshotSerde lossy smallWire (.new "squid") ⟨0, 3, by decide⟩
      ⟨.asking, Database.empty, 1⟩ session' ∧
    session.db = session'.db := by
  obtain ⟨session, -, hrun, -, hsynced⟩ := lossy_run (.new 0) rfl 0
  obtain ⟨session', -, hrun', -, hsynced'⟩ := lossy_run ⟨0, 3, by decide⟩ rfl 1
  have h : Sessions poseidonTables snapshotSerde lossy smallWire 0 smallArchive.head session.db :=
    .run .new rfl .asking hrun
  have h' : Sessions poseidonTables snapshotSerde lossy smallWire 0 smallArchive.head session'.db :=
    .run .new rfl .asking hrun'
  exact ⟨session, session', hrun, hrun', sessions_unique snapshotSerde_roundTrips lossy_honest (by decide)
    lossy_honest h h' (hsynced.trans hsynced'.symm)⟩

/-! ## What runs return -/

/-- With a watermark, `run_to_head_if_unsynced` returns it, and touches neither the database nor the
network. Without one, what it returns is that it has synced to the head it was told, or that this is
before the floor. -/
theorem unsynced_outcome (hJ : serde.RoundTrips) (hhonest : network.Honest wire archive)
    (hhead : archive.head.toNat < 2 ^ 64 - 1) {floor : BlockNumber} {db : Database}
    (h : Sessions tables serde network wire floor archive.head db)
    (hfloor : syncer.floor = floor) {s : σ} {session : Session σ}
    (hrun : Session.Run tables serde network wire client syncer ⟨.checking, db, s⟩ session) :
    (∀ block, Commitments.syncedBlock db.read = .ok (some block) →
      session = ⟨.checking, db, s⟩ ∨ session = ⟨.returned (.ok ⟨0, 0, block⟩), db, s⟩) ∧
    (Commitments.syncedBlock db.read = .ok none →
      ∀ summary, session.phase.result? = some (.ok summary) →
      ∃ target s', client.latestBlock network wire s = .ok (some target) s' ∧
        (target < floor ∧ session.db = db ∧ summary = ⟨0, 0, 0⟩ ∨
          floor ≤ target ∧ Commitments.syncedBlock session.db.read = .ok (some target) ∧
            summary.syncedTo = target)) := by
  constructor
  · intro block hw
    rcases run_checking hrun with rfl | hrun
    · exact .inl rfl
    · rw [check_of_synced hw] at hrun
      exact .inr (run_stopped hrun rfl)
  intro hw summary hresult
  rcases run_checking hrun with rfl | hrun
  · cases hresult
  rw [check_of_unsynced hw] at hrun
  rcases run_asking hrun with rfl | ⟨e, s', -, rfl⟩ | ⟨target, s', hask, hrun⟩
  · cases hresult
  · cases hresult
  refine ⟨target, s', hask, ?_⟩
  rcases Nat.lt_or_ge target.toNat floor.toNat with hlt | hge
  · exact .inl ⟨hlt, run_before_floor hfloor hlt hw hrun hresult⟩
  obtain ⟨F, hF⟩ := caughtUp_sessions hJ hhonest hhead h
  have hnone : F.synced = none := by
    rw [syncedBlock_spec (r := db.read) hF.folded.represents] at hw
    exact Except.ok.inj hw
  have hF' : CaughtUp tables serde archive.chain floor target db F :=
    { hF with synced_le := fun block hb => by rw [hnone] at hb; cases hb }
  have htarget := Nat.lt_of_le_of_lt (head_le hhonest hask) hhead
  obtain ⟨phase, windows, hphase, hsync⟩ := run_running hhonest hrun rfl
  rw [hphase] at hresult
  obtain rfl : phase = .returned (.ok summary) := by
    cases phase with
    | returned result => exact congrArg Phase.returned (Option.some.inj hresult)
    | _ => cases hresult
  obtain ⟨F₁, hF₁, hcourse, -⟩ := caughtUp_run hJ (archive_yields client.source archive) htarget hfloor
    (Nat.le_refl _) hF' hsync
  have hpast : target.toNat < nextBlock floor F₁.synced := by
    cases hcourse with
    | ok h => exact h
  have hle : floor ≤ target := hge
  have hreports : Reports syncer target none (.returned (.ok summary), session.db) :=
    run_keeps reports_step hsync hw
  refine .inr ⟨hle, ?_, hreports (by rw [Syncer.first, hfloor]; exact hge)⟩
  rw [syncedBlock_spec (r := session.db.read) hF₁.folded.represents, hF₁.synced_eq hpast, if_pos hle]

theorem unsynced_outcome_lossy : ∃ session summary,
    Session.Run poseidonTables snapshotSerde lossy smallWire (.new "squid") (.new 0)
      ⟨.checking, Database.empty, 0⟩ session ∧
    session.phase.result? = some (.ok summary) ∧
    ∃ target s', (SubsquidClient.new "squid").latestBlock lossy smallWire 0 = .ok (some target) s' ∧
      (target < 0 ∧ session.db = Database.empty ∧ summary = ⟨0, 0, 0⟩ ∨
        0 ≤ target ∧ Commitments.syncedBlock session.db.read = .ok (some target) ∧
          summary.syncedTo = target) := by
  obtain ⟨session, summary, hrun, hresult, -⟩ := lossy_run (.new 0) rfl 0
  have hnone : Commitments.syncedBlock Database.empty.read = .ok none :=
    syncedBlock_spec (r := Database.empty.read) represents_new
  have hchecking := Relation.ReflTransGen.head (r := fun session session' =>
    Session.step poseidonTables snapshotSerde lossy smallWire (.new "squid") (.new 0) session = some session')
    (a := ⟨.checking, Database.empty, 0⟩) (by rw [Session.step, check_of_unsynced hnone]) hrun
  exact ⟨session, summary, hchecking, hresult, (unsynced_outcome snapshotSerde_roundTrips lossy_honest
    (by decide) .new rfl hchecking).2 hnone summary hresult⟩

/-- Over a network that delivers every request within the retry budget, a run to the head gets
there, wherever the runs before were stopped, if the rows have places in one forest. -/
theorem reaches_head (hJ : serde.RoundTrips) (hhonest : network.Honest wire archive)
    (hreliable : network.Reliable wire archive client)
    (hplaces : ∀ r ∈ archive.commitments.rows,
      (NodePosition.normalized r.2.treeNumber r.2.treePosition).isSome)
    {floor : BlockNumber} {G : Forest}
    (hroom : ∀ event, archive.chain.Between floor.toNat (archive.head.toNat + 1) event → G.Has event)
    (hhead : archive.head.toNat < 2 ^ 64 - 1) {db : Database}
    (h : Sessions tables serde network wire floor archive.head db) (hfloor : syncer.floor = floor) (s : σ) :
    ∃ session summary, Session.Run tables serde network wire client syncer ⟨.asking, db, s⟩ session ∧
      session.phase.result? = some (.ok summary) ∧
      Commitments.syncedBlock session.db.read = .ok (if floor ≤ archive.head then some archive.head else none) := by
  obtain ⟨F, hF⟩ := caughtUp_sessions hJ hhonest hhead h
  exact asking_reaches hJ hhonest hreliable hplaces hroom hhead hF hfloor s

theorem reaches_head_lossy : ∃ session summary,
    Session.Run poseidonTables snapshotSerde lossy smallWire (.new "squid") (.new 0)
      ⟨.asking, Database.empty, 0⟩ session ∧
    session.phase.result? = some (.ok summary) ∧
    Commitments.syncedBlock session.db.read = .ok (some 9) :=
  reaches_head snapshotSerde_roundTrips lossy_honest (lossy_reliable "squid") smallArchive_places
    (fun _ => smallArchive_has) (by decide) .new rfl 0

end

end Railgun
