import Railgun.Spec.Calls
import Railgun.Spec.World

/-!
# The life of a file

A database file is opened, changed through everything the crate exports, the
typed calls and the writes past them, wiped, and opened again, whatever was under
way when the process went down: an open transaction and staged batches are gone,
and the committed tables stay. The schema is not known to the writes past the
typed calls, so what holds over a life is up to what they leave where it matters
(`LifeStep.leaves?`).
-/

namespace Railgun

/-- A table's stamp is one that opening passes over: absent, or current. -/
def StampPasses (tables : Tables) (table : TableId) (expected : U32) : Prop :=
  readVersion (ReadView.mk tables) table = .ok none ∨
    readVersion (ReadView.mk tables) table = .ok (some expected)

/-- A stamp that stops opening, and the error it does with. -/
inductive StampFails (tables : Tables) (table : TableId) (expected : U32) : DatabaseError → Prop
  | malformed {e : DatabaseError} (h : readVersion (ReadView.mk tables) table = .error e) :
    StampFails tables table expected e
  | mismatch {found : U32} (h : readVersion (ReadView.mk tables) table = .ok (some found))
      (hne : found ≠ expected) : StampFails tables table expected (.schemaVersion table.name found expected)

/-- A file's tables with every stamp there, and nothing else changed. -/
structure Stamped (versions : List (TableId × U32)) (tables tables' : Tables) : Prop where
  elsewhere : ∀ table, table ≠ .metadata → tables' table = tables table
  stamp : ∀ v ∈ versions, (tables' .metadata)[versionKey v.1]? = some (BigEndian.beBytes 4 v.2)
  others : ∀ key, (∀ v ∈ versions, key ≠ versionKey v.1) →
    (tables' .metadata)[key]? = (tables .metadata)[key]?

/-- A write past the typed calls. -/
inductive RawWrite
  | put (table : TableId) (key value : Bytes)
  | delete (table : TableId) (key : Bytes)

def RawWrite.run {S : Type} [Writer S] : RawWrite → EStateM DatabaseError S Unit
  | .put table key value => Writer.put table key value
  | .delete table key => Writer.delete table key

inductive LifeStep
  | action (action : Action)
  /-- Any call, on the open transaction or through an overlay. -/
  | call (call : Call)
  | stageCall (overlay : Nat) (call : Call)
  | raw (write : RawWrite)
  | stageRaw (overlay : Nat) (write : RawWrite)
  /-- One table, in the open transaction. -/
  | clearTable (table : TableId)
  | clearAll
  /-- The process goes down, and the file is opened again. -/
  | reopen

/-- What a write leaves at a key, if it writes there. -/
def RawWrite.leaves? (write : RawWrite) (table : TableId) (key : Bytes) : Option (Option Bytes) :=
  match write with
  | .put table' key' value => if table' = table ∧ key' = key then some (some value) else none
  | .delete table' key' => if table' = table ∧ key' = key then some none else none

def LifeStep.leaves? (step : LifeStep) (table : TableId) (key : Bytes) : Option (Option Bytes) :=
  match step with
  | .raw write => write.leaves? table key
  | .stageRaw _ write => write.leaves? table key
  | .clearTable table' => if table' = table then some none else none
  | _ => none

/-- Past the typed calls it leaves no stamp but the current one. -/
def LifeStep.KeepsStamps (step : LifeStep) : Prop :=
  ∀ v ∈ schemaVersions, ∀ entry ∈ step.leaves? .metadata (versionKey v.1), entry = some (BigEndian.beBytes 4 v.2)

/-- The notes that a step saves. -/
def LifeStep.saved? : LifeStep → Option (List DecryptedNote)
  | .call (.saveNotes notes) => some notes
  | .stageCall _ (.saveNotes notes) => some notes
  | _ => none

section
variable (backend : Backend)

/-- One step; none where the file does not open. -/
def World.liveStep (w : World) : LifeStep → Option World
  | .action action => some (w.step backend.tables backend.states action)
  | .call call => some { w with txn := w.txn.map fun txn => (runCall backend txn call).2 }
  | .stageCall i call =>
    some { w with overlays := w.overlays.modify i fun overlay => (runCall backend overlay call).2 }
  | .raw write => some { w with txn := w.txn.map fun txn => (mutating write.run txn).2 }
  | .stageRaw i write =>
    some { w with overlays := w.overlays.modify i fun overlay => (mutating write.run overlay).2 }
  | .clearTable table =>
    some { w with txn := w.txn.map fun txn => (mutating (WriteTxn.clearTable table) txn).2 }
  | .clearAll => some (if w.txn.isNone then { w with db := w.db.clearAll.2 } else w)
  | .reopen =>
    match Database.open w.db.engine with
    | .ok db => some (World.on db)
    | .error _ => none

def World.live (w : World) (steps : List LifeStep) : Option World :=
  steps.foldlM (World.liveStep backend) w

end

end Railgun
