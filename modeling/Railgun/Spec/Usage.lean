import Railgun.Spec.Wallet

/-!
# A wallet in use

One file, and what is done with it: it is synced, and between any two steps of a
run, or after the run was stopped anywhere, the wallet scans it for its notes and
saves what a scan found, however long ago that was. When no run is under way, the
file is wiped, or opened again after the process went down.
-/

namespace Railgun

/-- Tables that differ in the notes at most. -/
def Tables.Beside (tables tables' : Tables) : Prop :=
  ∀ table, table ≠ .decoded → tables table = tables' table

/-- A run that is under way. -/
structure Running (σ : Type) where
  client : SubsquidClient
  syncer : Syncer
  phase : HeadPhase
  network : σ

/-- A file, the run on it, and what the wallet's process holds of its last scan:
the watermark of the view, and the notes. -/
structure Usage (σ : Type) where
  db : Database
  run : Option (Running σ)
  scan : Option (Option BlockNumber × List DecryptedNote)
  /-- The watermark that the notes in the file were scanned at. -/
  saved : Option (Option BlockNumber)

namespace Usage

def new {σ : Type} : Usage σ := ⟨Database.empty, none, none, none⟩

section
variable {σ : Type} (backend : Backend) (network : Network σ) (wire : Wire) (prims : Primitives)
  (decoder : Decoder) (floor head : BlockNumber)

inductive Step : Usage σ → Usage σ → Prop
  | start {u : Usage σ} {run : Running σ} (hidle : u.run = none) (hfloor : run.syncer.floor = floor)
      (hstart : run.phase.Starts head) : Step u { u with run := some run }
  | advance {u : Usage σ} {run : Running σ} {session : Session σ} (hrun : u.run = some run)
      (hstep : Session.step backend.tables backend.states network wire run.client run.syncer
        ⟨run.phase, u.db, run.network⟩ = some session) :
    Step u { u with db := session.db
                    run := some { run with phase := session.phase, network := session.network } }
  /-- The run returns, or is dropped. -/
  | stop {u : Usage σ} : Step u { u with run := none }
  | scan {u : Usage σ} {watermark : Option BlockNumber} {notes : List DecryptedNote}
      (hsynced : Commitments.syncedBlock u.db.read = .ok watermark)
      (hnotes : decoder.decodeAll prims u.db.read = .ok notes) :
    Step u { u with scan := some (watermark, notes) }
  | save {u : Usage σ} {watermark : Option BlockNumber} {notes flat : List DecryptedNote} {db : Database}
      (hscan : u.scan = some (watermark, notes)) (hflat : (DecodedNotes.fromNotes notes).Flattens flat)
      (hsave : u.db.write (DecodedMut.save backend.notes flat) = (.ok (), db)) :
    Step u { u with db, saved := some watermark }
  | clearAll {u : Usage σ} (hidle : u.run = none) :
    Step u { u with db := u.db.clearAll.2, saved := none }
  /-- The process went down, and what it held is gone. -/
  | reopen {u : Usage σ} {db : Database} (hopen : Database.open u.db.engine = .ok db) :
    Step u ⟨db, none, none, u.saved⟩

end

end Usage

end Railgun
