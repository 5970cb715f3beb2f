import Mathlib.Logic.Relation
import Railgun.Impl.Sync

/-!
# Runs of the syncer

What draining a source comes to, whatever the pages, and the runs of
`Syncer::run`: sequences of its steps, with the windows they commit.
-/

namespace Railgun

/-! ## Draining -/

namespace EventSource

variable (source : EventSource) (stream : EventStream) (start stop : BlockNumber)

/-- The events of a stream's pages from a cursor on, up to a page without a cursor. -/
inductive Drain : Option String → List SyncEvent → Prop
  | last {cursor : Option String} {page : Page}
      (h : source.fetchPage stream start stop cursor page) (hlast : page.cursor = none) :
    Drain cursor page.events
  | more {cursor : Option String} {page : Page} {next : String} {events : List SyncEvent}
      (h : source.fetchPage stream start stop cursor page) (hnext : page.cursor = some next)
      (rest : Drain (some next) events) :
    Drain cursor (page.events ++ events)

/-- A page at `cursor` has the cursor `next`. -/
def Follows (next cursor : Option String) : Prop :=
  ∃ page, source.fetchPage stream start stop cursor page ∧ page.cursor = next ∧ next.isSome

/-- Every stream of every range ends after finitely many pages. -/
def Drains : Prop := ∀ stream start stop, Acc (source.Follows stream start stop) none

end EventSource

/-! ## Runs -/

/-- The block a run starts from. -/
def Syncer.first (syncer : Syncer) : Option BlockNumber → BlockNumber
  | some block => BlockNumber.saturatingAdd block 1
  | none => syncer.floor

section
variable (tables : PoseidonTables) (serde : Serde MerkleAccumulatorState) (source : EventSource)
  (syncer : Syncer) (target : BlockNumber)

/-- A step, whatever it commits. -/
def Syncer.Next (state state' : Phase × Database) : Prop :=
  ∃ windows, Syncer.Step tables serde source syncer target state windows state'

/-- Steps in a row, and the windows they commit. -/
inductive Syncer.Run : Phase × Database → List (BlockNumber × BlockNumber) → Phase × Database → Prop
  | done (state : Phase × Database) : Run state [] state
  | step {state state' state'' : Phase × Database} {windows windows' : List (BlockNumber × BlockNumber)}
      (h : Syncer.Step tables serde source syncer target state windows state')
      (rest : Run state' windows' state'') :
    Run state (windows ++ windows') state''

/-- A step in which nothing fails: the page that is fetched arrives, and the
window that is committed is not refused. -/
inductive Syncer.Served : Phase × Database → Phase × Database → Prop
  | begin (db : Database) : Served (.start, db) (syncer.begin db target, db)
  | page {window : Window} {stream : EventStream} {cursor : Option String} {summary : SyncSummary}
      {page : Page} (db : Database)
      (h : source.fetchPage stream window.start window.stop cursor page) :
    Served (.fetching window stream cursor summary, db) (Phase.receive window stream summary (.ok page), db)
  | commit {window : Window} {summary : SyncSummary} {db db' : Database}
      (h : commitWindow tables serde db window.commitments window.nullifiers window.stop = (.ok (), db')) :
    Served (.committing window summary, db) (syncer.commit tables serde db target window summary)

end

/-- Every run from a database with this watermark ends, as far as its source
drains, and goes on until it returns. One that succeeds and had blocks to sync
says it synced them. And it does succeed: as long as nothing fails there is a
next step or it has returned a summary, unless the source has no page or the
database refuses the window. -/
def Syncer.Terminates (syncer : Syncer) (target : BlockNumber) (watermark : Option BlockNumber) :
    Prop :=
  ∀ tables serde source (db : Database), EventSource.Drains source →
    Commitments.syncedBlock db.read = .ok watermark →
    Acc (fun state' state => syncer.Next tables serde source target state state') (.start, db) ∧
    (∀ windows phase db', syncer.Run tables serde source target (.start, db) windows (phase, db') →
      ((∃ result, phase = .returned result) ∨
        ∃ state', syncer.Next tables serde source target (phase, db') state') ∧
      ∀ summary, phase = .returned (.ok summary) → syncer.first watermark ≤ target →
        summary.syncedTo.toNat = max (watermark.getD 0).toNat target.toNat) ∧
    ∀ phase db', Relation.ReflTransGen (syncer.Served tables serde source target) (.start, db) (phase, db') →
      (∃ summary, phase = .returned (.ok summary)) ∨
      (∃ state', syncer.Served tables serde source target (phase, db') state') ∨
      (∃ window stream cursor summary, phase = .fetching window stream cursor summary ∧
        ∀ page, ¬ source.fetchPage stream window.start window.stop cursor page) ∨
      ∃ window summary e, phase = .committing window summary ∧
        (commitWindow tables serde db' window.commitments window.nullifiers window.stop).1 = .error e

end Railgun
