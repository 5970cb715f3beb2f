import Railgun.Proof.Window
import Railgun.Spec.Runs

/-!
# Steps of a run

What each step of a run does: a window follows the one before without a gap, or
the run returns (`nextWindow_cases`); a page adds its events, and the stream
goes on from its cursor or is drained (`receive_more`, `receive_last`). What
every step keeps holds throughout a run (`run_keeps`).
-/

namespace Railgun

/-! ## Windows -/

theorem toNat_saturatingAdd (a b : BlockNumber) :
    (BlockNumber.saturatingAdd a b).toNat = min (a.toNat + b.toNat) (2 ^ 64 - 1) := by
  have ha := a.isLt
  have hb := b.isLt
  rw [BlockNumber.saturatingAdd]
  split
  · rename_i h
    rw [BitVec.toNat_add, Nat.mod_eq_of_lt h]
    omega
  · rw [BitVec.toNat_allOnes]
    omega

/-- A window of a run to `target`, from `start`: not empty, within the target
and no larger than allowed. -/
structure Syncer.Covers (syncer : Syncer) (target start stop : BlockNumber) : Prop where
  start_le : start.toNat ≤ stop.toNat
  stop_le : stop.toNat ≤ target.toNat
  span : stop.toNat + 1 ≤ start.toNat + syncer.blockWindow.toNat

/-- The loop goes on with a window, or returns. -/
theorem nextWindow_cases (syncer : Syncer) (target start : BlockNumber) (summary : SyncSummary) :
    (start.toNat ≤ target.toNat ∧ ∃ stop, syncer.Covers target start stop ∧
      syncer.nextWindow target start summary =
        .fetching ⟨start, stop, [], []⟩ .commitments none summary) ∨
    (target.toNat < start.toNat ∧ syncer.nextWindow target start summary = .returned (.ok summary)) := by
  have hpos : 0 < syncer.blockWindow.toNat := syncer.window_pos
  have htarget := target.isLt
  rw [Syncer.nextWindow]
  by_cases h : start ≤ target
  · have hle : start.toNat ≤ target.toNat := h
    rw [if_pos h]
    refine .inl ⟨hle, _, ?_, rfl⟩
    have hone : (1 : U64).toNat = 1 := rfl
    have hsub : (syncer.blockWindow - 1).toNat = syncer.blockWindow.toNat - 1 :=
      BitVec.toNat_sub_of_le (show (1 : U64).toNat ≤ _ by omega)
    have hstop := toNat_saturatingAdd start (syncer.blockWindow - 1)
    rw [hsub] at hstop
    split
    · rename_i hs
      have hs : (BlockNumber.saturatingAdd start (syncer.blockWindow - 1)).toNat ≤ target.toNat := hs
      exact ⟨by omega, hs, by omega⟩
    · rename_i hs
      have hs : ¬ (BlockNumber.saturatingAdd start (syncer.blockWindow - 1)).toNat ≤ target.toNat := hs
      exact ⟨hle, Nat.le_refl _, by omega⟩
  · rw [if_neg h]
    exact .inr ⟨BitVec.not_le.mp h, rfl⟩

/-- A run that reads its watermark starts past it, or at the floor. -/
theorem begin_eq {syncer : Syncer} {db : Database} {target : BlockNumber}
    {watermark : Option BlockNumber} (h : Commitments.syncedBlock db.read = .ok watermark) :
    syncer.begin db target = syncer.nextWindow target (syncer.first watermark)
      { commitments := 0, nullifiers := 0, syncedTo := watermark.getD 0 } := by
  rw [Syncer.begin, h]
  cases watermark <;> rfl

/-! ## Pages -/

/-- A window with more events. -/
def Window.addEvents (window : Window) (events : List SyncEvent) : Window :=
  events.foldl Window.addEvent window

theorem Window.addEvents_blocks : ∀ (events : List SyncEvent) (window : Window),
    (window.addEvents events).start = window.start ∧ (window.addEvents events).stop = window.stop
  | [], _ => ⟨rfl, rfl⟩
  | event :: events, window => by
    obtain ⟨hstart, hstop⟩ := addEvents_blocks events (window.addEvent event)
    rw [addEvents, List.foldl_cons]
    cases event <;> exact ⟨hstart, hstop⟩

/-- Where a run goes when a stream is drained. -/
def Phase.drained (window : Window) (stream : EventStream) (summary : SyncSummary) : Phase :=
  match stream with
  | .commitments => .fetching window .nullifiers none summary
  | .nullifiers => .committing window summary

theorem receive_more {window : Window} {stream : EventStream} {summary : SyncSummary} {page : Page}
    {next : String} (h : page.cursor = some next) : Phase.receive window stream summary (.ok page) =
      .fetching (window.addEvents page.events) stream (some next) summary := by
  obtain ⟨events, cursor⟩ := page
  obtain rfl : cursor = some next := h
  rfl

theorem receive_last {window : Window} {stream : EventStream} {summary : SyncSummary} {page : Page}
    (h : page.cursor = none) : Phase.receive window stream summary (.ok page) =
      .drained (window.addEvents page.events) stream summary := by
  obtain ⟨events, cursor⟩ := page
  obtain rfl : cursor = none := h
  cases stream <;> rfl

/-! ## Invariants -/

section
variable {tables : PoseidonTables} {serde : Serde MerkleAccumulatorState} {source : EventSource}
  {syncer : Syncer} {target : BlockNumber}

/-- A fact that every step keeps holds to the end of a run. -/
theorem run_keeps {I : Phase × Database → Prop}
    (hI : ∀ {state windows state'}, syncer.Step tables serde source target state windows state' →
      I state → I state')
    {state state' : Phase × Database} {windows : List (BlockNumber × BlockNumber)}
    (h : syncer.Run tables serde source target state windows state') (hs : I state) : I state' := by
  induction h with
  | done => exact hs
  | step h _ ih => exact ih (hI h hs)

end

end Railgun
