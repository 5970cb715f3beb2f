import Railgun.Impl.Tables

/-!
# The database

The owner of the open store: snapshots (`read`), closure-scoped transactions
that commit on success and are dropped on failure (`write`), staged batches
landed in one transaction (`apply`), and the schema version stamps checked
when a file is opened.
-/

namespace Railgun

open BigEndian

/-- The committed tables. -/
structure Database where
  engine : Tables

/-- A snapshot of every table. -/
def Database.read (db : Database) : ReadView := ⟨db.engine⟩

/-- Runs `f` in one transaction: commit on success, discard on failure. -/
def Database.write {ε α : Type} (db : Database) (f : EStateM ε WriteTxn α) : Except ε α × Database :=
  match f ⟨db.engine⟩ with
  | .ok value txn => (.ok value, ⟨txn.inner⟩)
  | .error error _ => (.error error, db)

/-- Lands one staged write. -/
def applyEntry (table : TableId) : StagedEntry → EStateM DatabaseError WriteTxn Unit
  | (key, some value) => Writer.put table key value
  | (key, none) => Writer.delete table key

/-- Lands what a batch stages for a table, in key order. -/
def applyTable (batch : WriteBatch) (table : TableId) : EStateM DatabaseError WriteTxn Unit :=
  match batch.entries table with
  | some kvs => kvs.toList.forM (applyEntry table)
  | none => return ()

/-- Applies a batch in one transaction, table by table. -/
def Database.apply (db : Database) (batch : WriteBatch) : Except DatabaseError Unit × Database :=
  db.write (allTables.forM (applyTable batch))

/-! ## Schema versions -/

/-- The current version of every registered table. -/
def schemaVersions : List (TableId × U32) :=
  [(.commitments, 1), (.decoded, 1), (.frontier, 1), (.metadata, 1)]

/-- `b'v' | name`. -/
def versionKey (table : TableId) : Bytes := 0x76 :: table.name.toUTF8.data.toList.map UInt8.toBitVec

/-- The stamped version of a table. -/
def readVersion {R : Type} [Reader R] (reader : R) (table : TableId) :
    Except DatabaseError (Option U32) := do
  match ← Reader.get reader .metadata (versionKey table) with
  | some bytes =>
    if bytes.length = 4 then return some (fromBeBytes 32 bytes)
    else throw (.engine "malformed version stamp")
  | none => return none

/-- Checks every table's stamp, and stamps those that have none. -/
def checkAndStamp : EStateM DatabaseError WriteTxn Unit :=
  schemaVersions.forM fun (table, expected) => do
    match ← reading (readVersion · table) with
    | some found =>
      if found ≠ expected then throw (.schemaVersion table.name found expected)
    | none => Writer.put .metadata (versionKey table) (beBytes 4 expected)

/-- Materializes the tables, which exist here already, and checks the stamps. -/
def Database.initialize (db : Database) : Except DatabaseError Unit × Database :=
  db.write checkAndStamp

/-- Opens the file that holds `tables`. -/
def Database.open (tables : Tables) : Except DatabaseError Database :=
  match Database.initialize ⟨tables⟩ with
  | (.ok (), db) => .ok db
  | (.error error, _) => .error error

/-- The database of a new file: no tables, then stamped. -/
def Database.empty : Database := ( Database.initialize ⟨fun _ => ∅⟩).2

/-- Empties every table and stamps the versions again. -/
def Database.clearAll (db : Database) : Except DatabaseError Unit × Database :=
  db.write do
    allTables.forM WriteTxn.clearTable
    checkAndStamp

end Railgun
