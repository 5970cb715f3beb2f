import Railgun.Proof.Runs

/-!
# Termination

A run's windows follow one another without a gap, so their starts climb to the
target. Below the last block number a run ends, and reports the target
(`terminates_below`). At the last block number the step past the target
saturates and stays there, so the loop never leaves (`not_terminates_last`).
-/

namespace Railgun

section
variable {tables : PoseidonTables} {serde : Serde MerkleAccumulatorState} {source : EventSource}
  {syncer : Syncer} {target : BlockNumber}

/-! ## Below the last block -/

/-- The reversed step relation, whose descending chains are the runs. -/
abbrev Ends (tables : PoseidonTables) (serde : Serde MerkleAccumulatorState) (source : EventSource)
    (syncer : Syncer) (target : BlockNumber) (state : Phase × Database) : Prop :=
  Acc (fun state' state => syncer.Next tables serde source target state state') state

theorem ends_returned (result : Except SyncError SyncSummary) (db : Database) :
    Ends tables serde source syncer target (.returned result, db) :=
  ⟨_, fun _ ⟨_, h⟩ => nomatch h⟩

/-- A stream being drained ends if what comes after it does. -/
theorem ends_fetching {stream : EventStream} {start stop : BlockNumber} {db : Database}
    (hafter : ∀ window summary, window.start = start → window.stop = stop →
      Ends tables serde source syncer target (.drained window stream summary, db))
    {cursor : Option String} (hcursor : Acc (source.Follows stream start stop) cursor) :
    ∀ window summary, window.start = start → window.stop = stop →
      Ends tables serde source syncer target (.fetching window stream cursor summary, db) := by
  induction hcursor with
  | intro cursor _ ih =>
    rintro window summary rfl rfl
    refine ⟨_, fun state ⟨windows, h⟩ => ?_⟩
    cases h with
    | fail e => exact ends_returned _ _
    | @page _ _ _ _ page _ h =>
      obtain ⟨hstart, hstop⟩ := window.addEvents_blocks page.events
      cases hc : page.cursor with
      | some next =>
        rw [receive_more hc]
        exact ih (some next) ⟨page, h, hc, rfl⟩ _ summary hstart hstop
      | none =>
        rw [receive_last hc]
        exact hafter _ summary hstart hstop

/-- A window ends if the one after it does. -/
theorem ends_window (hsource : source.Drains) (htarget : target.toNat < 2 ^ 64 - 1) :
    ∀ (blocks : Nat) (start stop : BlockNumber) (db : Database) (summary : SyncSummary),
    target.toNat - start.toNat ≤ blocks → syncer.Covers target start stop →
    Ends tables serde source syncer target
      (.fetching ⟨start, stop, [], []⟩ .commitments none summary, db) := by
  intro blocks
  induction blocks using Nat.strong_induction_on with
  | h blocks ih =>
  intro start stop db summary hblocks hcovers
  have hcommit : ∀ window summary, window.start = start → window.stop = stop →
      Ends tables serde source syncer target (.committing window summary, db) := by
    rintro window summary rfl rfl
    refine ⟨_, fun state ⟨windows, h⟩ => ?_⟩
    cases h with
    | commit db =>
      rw [Syncer.commit]
      cases hw : commitWindow tables serde db window.commitments window.nullifiers window.stop with
      | mk result db' =>
        cases result with
        | error e => exact ends_returned _ _
        | ok u =>
          have hnext := toNat_saturatingAdd window.stop 1
          have hone : (1 : U64).toNat = 1 := rfl
          have hlt := hcovers.stop_le
          have hle := hcovers.start_le
          simp only
          rcases nextWindow_cases syncer target (BlockNumber.saturatingAdd window.stop 1) _ with
            ⟨hstart, stop', hcovers', hgo⟩ | ⟨-, hreturn⟩
          · rw [hgo]
            exact ih _ (by omega) _ stop' db' _ (Nat.le_refl (target.toNat -
              (BlockNumber.saturatingAdd window.stop 1).toNat)) hcovers'
          · rw [hreturn]
            exact ends_returned _ _
  have hnullifiers : ∀ window summary, window.start = start → window.stop = stop →
      Ends tables serde source syncer target (.fetching window .nullifiers none summary, db) :=
    ends_fetching hcommit (hsource .nullifiers start stop)
  exact ends_fetching hnullifiers (hsource .commitments start stop) _ summary rfl rfl

/-- What a run that read `watermark` can report. -/
def Reports (syncer : Syncer) (target : BlockNumber) (watermark : Option BlockNumber) :
    Phase × Database → Prop
  | (.start, db) => Commitments.syncedBlock db.read = .ok watermark
  | (.fetching window _ _ _, _) => window.stop.toNat ≤ target.toNat
  | (.committing window _, _) => window.stop.toNat ≤ target.toNat
  | (.returned (.ok summary), _) => syncer.first watermark ≤ target → summary.syncedTo = target
  | (.returned (.error _), _) => True

theorem reports_nextWindow {watermark : Option BlockNumber} {start : BlockNumber}
    {summary : SyncSummary} (db : Database)
    (h : target.toNat < start.toNat → syncer.first watermark ≤ target → summary.syncedTo = target) :
    Reports syncer target watermark (syncer.nextWindow target start summary, db) := by
  rcases nextWindow_cases syncer target start summary with ⟨-, stop, hcovers, hgo⟩ | ⟨hlt, hreturn⟩
  · rw [hgo]
    exact hcovers.stop_le
  · rw [hreturn]
    exact h hlt

/-- Every step keeps to it. -/
theorem reports_step {watermark : Option BlockNumber} {state state' : Phase × Database}
    {windows : List (BlockNumber × BlockNumber)}
    (h : syncer.Step tables serde source target state windows state')
    (hs : Reports syncer target watermark state) : Reports syncer target watermark state' := by
  cases h with
  | begin db =>
    rw [begin_eq hs]
    exact reports_nextWindow db fun hlt hle => absurd hlt (Nat.not_lt.mpr hle)
  | @page window stream cursor summary page db h =>
    have hstop := (window.addEvents_blocks page.events).2
    cases hc : page.cursor with
    | some next =>
      rw [receive_more hc]
      exact Nat.le_trans (Nat.le_of_eq (congrArg BitVec.toNat hstop)) hs
    | none =>
      rw [receive_last hc]
      cases stream <;> exact Nat.le_trans (Nat.le_of_eq (congrArg BitVec.toNat hstop)) hs
  | fail e db => trivial
  | @commit window summary db =>
    rw [Syncer.commit]
    cases hw : commitWindow tables serde db window.commitments window.nullifiers window.stop with
    | mk result db' =>
      cases result with
      | error e => trivial
      | ok u =>
        refine reports_nextWindow db' fun hlt _ => BitVec.eq_of_toNat_eq ?_
        have hnext := toNat_saturatingAdd window.stop 1
        have hone : (1 : U64).toNat = 1 := rfl
        have hle : window.stop.toNat ≤ target.toNat := hs
        show window.stop.toNat = target.toNat
        omega

theorem first_le {watermark : Option BlockNumber} (h : syncer.first watermark ≤ target) :
    (watermark.getD 0).toNat ≤ target.toNat := by
  have h : (syncer.first watermark).toNat ≤ target.toNat := h
  cases watermark with
  | none => exact Nat.zero_le _
  | some block =>
    have hnext := toNat_saturatingAdd block 1
    have hone : (1 : U64).toNat = 1 := rfl
    have hblock := block.isLt
    rw [Syncer.first] at h
    show block.toNat ≤ _
    omega

/-- A run in which nothing has failed, of a database with this watermark. -/
def Unfailed (watermark : Option BlockNumber) : Phase × Database → Prop
  | (.start, db) => Commitments.syncedBlock db.read = .ok watermark
  | (.returned (.error _), _) => False
  | _ => True

theorem unfailed_nextWindow (syncer : Syncer) (target : BlockNumber) (watermark : Option BlockNumber)
    (start : BlockNumber) (summary : SyncSummary) (db : Database) :
    Unfailed watermark (syncer.nextWindow target start summary, db) := by
  rcases nextWindow_cases syncer target start summary with ⟨-, stop, -, hgo⟩ | ⟨-, hreturn⟩
  · rw [hgo]
    trivial
  · rw [hreturn]
    trivial

/-- No step makes an error of its own. -/
theorem unfailed_step {watermark : Option BlockNumber} {state state' : Phase × Database}
    (h : syncer.Served tables serde source target state state') (hs : Unfailed watermark state) :
    Unfailed watermark state' := by
  cases h with
  | begin db =>
    rw [begin_eq hs]
    exact unfailed_nextWindow ..
  | @page window stream cursor summary page db h =>
    cases hc : page.cursor with
    | some next =>
      rw [receive_more hc]
      trivial
    | none =>
      rw [receive_last hc]
      cases stream <;> trivial
  | @commit window summary db db' h =>
    rw [Syncer.commit, h]
    exact unfailed_nextWindow ..

theorem unfailed_run {watermark : Option BlockNumber} {state state' : Phase × Database}
    (h : Relation.ReflTransGen (syncer.Served tables serde source target) state state')
    (hs : Unfailed watermark state) : Unfailed watermark state' := by
  induction h with
  | refl => exact hs
  | tail _ hstep ih => exact unfailed_step hstep ih

end

/-- A run to a block below the last ends, and reports its target. -/
theorem terminates_below (syncer : Syncer) {target : BlockNumber} (htarget : target.toNat < 2 ^ 64 - 1)
    (watermark : Option BlockNumber) : syncer.Terminates target watermark := by
  intro tables serde source db hsource hwatermark
  refine ⟨⟨_, fun state ⟨windows, h⟩ => ?_⟩, fun windows phase db' h => ⟨?_, ?_⟩, fun phase db' h => ?_⟩
  · cases h with
    | begin db =>
      rw [begin_eq hwatermark]
      rcases nextWindow_cases syncer target (syncer.first watermark) _ with
        ⟨-, stop, hcovers, hgo⟩ | ⟨-, hreturn⟩
      · rw [hgo]
        exact ends_window hsource htarget _ _ stop db _ (Nat.le_refl _) hcovers
      · rw [hreturn]
        exact ends_returned _ _
  · cases phase with
    | start => exact .inr ⟨_, _, .begin db'⟩
    | fetching window stream cursor summary => exact .inr ⟨_, _, .fail (.source "") db'⟩
    | committing window summary => exact .inr ⟨_, _, .commit db'⟩
    | returned result => exact .inl ⟨result, rfl⟩
  · rintro summary rfl hfirst
    have hreports : Reports syncer target watermark (.returned (.ok summary), db') :=
      run_keeps reports_step h hwatermark
    rw [hreports hfirst, Nat.max_eq_right (first_le hfirst)]
  · have hunfailed := unfailed_run h hwatermark
    cases phase with
    | start => exact .inr (.inl ⟨_, .begin db'⟩)
    | fetching window stream cursor summary =>
      by_cases hpage : ∃ page, source.fetchPage stream window.start window.stop cursor page
      · obtain ⟨page, hpage⟩ := hpage
        exact .inr (.inl ⟨_, .page db' hpage⟩)
      · exact .inr (.inr (.inl ⟨window, stream, cursor, summary, rfl, not_exists.mp hpage⟩))
    | committing window summary =>
      cases hcommit : commitWindow tables serde db' window.commitments window.nullifiers window.stop with
      | mk result db'' =>
        cases result with
        | ok u => exact .inr (.inl ⟨_, .commit hcommit⟩)
        | error e => exact .inr (.inr (.inr ⟨window, summary, e, rfl, congrArg Prod.fst hcommit⟩))
    | returned result =>
      cases result with
      | ok summary => exact .inl ⟨summary, rfl⟩
      | error e => exact hunfailed.elim

/-! ## At the last block -/

/-- A state of a set that every state of it leads back into is not the start
of an ending run. -/
theorem not_acc_of_serial {α : Type} {r : α → α → Prop} {S : α → Prop}
    (hS : ∀ a, S a → ∃ b, r b a ∧ S b) {a : α} (ha : S a) : ¬ Acc r a := by
  intro h
  induction h with
  | intro a _ ih =>
    obtain ⟨b, hb, hSb⟩ := hS a ha
    exact ih b hb hSb

/-- A source without events. -/
def emptySource : EventSource := ⟨fun _ _ _ _ page => page = ⟨[], none⟩⟩

theorem emptySource_drains : emptySource.Drains := fun stream start stop =>
  ⟨_, fun next h => by
    obtain ⟨page, rfl, rfl, hnext⟩ := h
    cases hnext⟩

/-- A window without events can always be committed. -/
theorem commitWindow_empty (tables : PoseidonTables) (serde : Serde MerkleAccumulatorState)
    (db : Database) (through : BlockNumber) :
    ∃ db', commitWindow tables serde db [] [] through = (.ok (), db') := ⟨_, rfl⟩

theorem exists_watermark : ∀ watermark : Option BlockNumber,
    ∃ db : Database, Commitments.syncedBlock db.read = .ok watermark
  | none => ⟨Database.empty, syncedBlock_spec (r := Database.empty.read) represents_new⟩
  | some block => by
    obtain ⟨txn, -, hF, -⟩ := setSyncedBlock_spec (w := WriteTxn.mk Database.empty.engine)
      (F := .empty) represents_new block
    exact ⟨⟨txn.inner⟩, syncedBlock_spec (r := Database.read ⟨txn.inner⟩) hF⟩

/-- A run in a window without events. -/
def Idle : Phase × Database → Prop
  | (.fetching window _ _ _, _) => window.commitments = [] ∧ window.nullifiers = []
  | (.committing window _, _) => window.commitments = [] ∧ window.nullifiers = []
  | _ => False

theorem idle_nextWindow (syncer : Syncer) (start : BlockNumber) (summary : SyncSummary) (db : Database) :
    Idle (syncer.nextWindow (BitVec.allOnes 64) start summary, db) := by
  rcases nextWindow_cases syncer (BitVec.allOnes 64) start summary with ⟨-, stop, -, hgo⟩ | ⟨hlt, -⟩
  · rw [hgo]
    exact ⟨rfl, rfl⟩
  · have := start.isLt
    rw [BitVec.toNat_allOnes] at hlt
    omega

/-- There is always another step: past the last block the next window starts at it again. -/
theorem idle_step (tables : PoseidonTables) (serde : Serde MerkleAccumulatorState) (syncer : Syncer)
    (state : Phase × Database) (h : Idle state) :
    ∃ state', syncer.Next tables serde emptySource (BitVec.allOnes 64) state state' ∧ Idle state' := by
  obtain ⟨phase, db⟩ := state
  cases phase with
  | start => exact h.elim
  | returned result => exact h.elim
  | fetching window stream cursor summary =>
    exact ⟨_, ⟨_, .page db (show emptySource.fetchPage stream window.start window.stop cursor ⟨[], none⟩
      from rfl)⟩, by cases stream <;> exact h⟩
  | committing window summary =>
    refine ⟨_, ⟨_, .commit db⟩, ?_⟩
    obtain ⟨db', hw⟩ := commitWindow_empty tables serde db window.stop
    rw [Syncer.commit, h.1, h.2, hw]
    exact idle_nextWindow syncer _ _ db'

/-- To the last block, a run over an empty source goes on for ever. -/
theorem not_terminates_last (syncer : Syncer) (watermark : Option BlockNumber) :
    ¬ syncer.Terminates (BitVec.allOnes 64) watermark := by
  intro h
  obtain ⟨db, hdb⟩ := exists_watermark watermark
  have hends := (h ⟨fun t => ⟨t, 0, 0, 0, 0, [], [], [], [], [], []⟩, fun _ => rfl⟩
    ⟨fun _ => .error "", fun _ => .error ""⟩ emptySource db emptySource_drains hdb).1
  refine not_acc_of_serial (idle_step _ _ syncer) ?_ (hends.inv ⟨_, .begin db⟩)
  rw [begin_eq hdb]
  exact idle_nextWindow syncer _ _ db

/-- Runs end, whatever the watermark, the floor and the window, exactly when
the target is not the last block number. -/
theorem terminates_iff (syncer : Syncer) (target : BlockNumber) (watermark : Option BlockNumber) :
    syncer.Terminates target watermark ↔ target ≠ BitVec.allOnes 64 := by
  constructor
  · rintro h rfl
    exact not_terminates_last syncer watermark h
  · intro h
    refine terminates_below syncer ?_ watermark
    have hlt := target.isLt
    by_contra hge
    refine h (BitVec.eq_of_toNat_eq ?_)
    rw [BitVec.toNat_allOnes]
    omega

/-- A run of a new file from block 0 to the last block does not end. -/
theorem not_all_terminate : ¬ ∀ (syncer : Syncer) (target : BlockNumber)
    (watermark : Option BlockNumber), syncer.Terminates target watermark :=
  fun h => not_terminates_last (.new 0) none (h (.new 0) (BitVec.allOnes 64) none)

end Railgun
