import Mathlib.Logic.Function.Basic
import Railgun.Framework.OrdMap
import Railgun.Impl.Codec

/-!
# Tables, readers and writers

The engine is redb: tables of byte strings ordered by key, read in snapshots
and changed in transactions that commit whole. A table is an ordered map here
and the engine's own failures (disk, corruption) are left out. `Reader` and
`Writer` are the two seams the typed tables are written over; `ReadView` and
`WriteTxn` implement them on the engine, `Overlay` on staged writes.

The mutation counters of a transaction feed one tracing event and are left out.
-/

namespace Railgun

open OrdMap (Map)

/-! ## Tables -/

/-- A registered table. -/
inductive TableId
  | commitments
  | decoded
  | frontier
  | metadata
  deriving DecidableEq, Repr

def TableId.name : TableId → String
  | .commitments => "commitments"
  | .decoded => "decoded"
  | .frontier => "frontier"
  | .metadata => "meta"

/-- The registered tables, in the order of their names. -/
def allTables : List TableId := [.commitments, .decoded, .frontier, .metadata]

abbrev Table := Map Bytes Bytes

/-- The contents of the tables. -/
abbrev Tables := TableId → Table

/-- Errors of the `database` crate. `panicked` is not one of its variants: it
stands for a failed `expect`, which unwinds out of the transaction. -/
inductive DatabaseError
  | engine (message : String)
  | codec (e : CodecError)
  | serde (message : String)
  | schemaVersion (table : String) (found expected : U32)
  | commitmentConflict (tree position : U32)
  | panicked (message : String)
  deriving DecidableEq, Repr

/-! ## Scans -/

/-- A key and its value. -/
abbrev Entry := Bytes × Bytes

/-- A key and what is staged at it; `none` is a tombstone. -/
abbrev StagedEntry := Bytes × Option Bytes

/-- What is left of an engine scan. -/
abbrev RawRange := List Entry

def RawRange.next : RawRange → Option (Except DatabaseError Entry) × RawRange
  | [] => (none, [])
  | entry :: rest => (some (.ok entry), rest)

/-- A scan of staged writes over a base scan, with one entry of each peeked.
The base is boxed in the source and always an engine scan: an overlay is built
over a `ReadView` only. -/
structure Merged where
  base : RawRange
  overlay : List StagedEntry
  basePeek : Option Entry
  overlayPeek : Option StagedEntry

/-- Peeks a base entry unless one is peeked already. -/
def Merged.peekBase (m : Merged) : Except DatabaseError Merged :=
  match m.basePeek with
  | some _ => .ok m
  | none =>
    match m.base.next with
    | (some (.ok entry), base) => .ok { m with base, basePeek := some entry }
    | (some (.error error), _) => .error error
    | (none, base) => .ok { m with base }

/-- Peeks a staged entry unless one is peeked already. -/
def Merged.peekOverlay (m : Merged) : Merged :=
  match m.overlayPeek, m.overlay with
  | none, entry :: overlay => { m with overlay, overlayPeek := some entry }
  | _, _ => m

/-- The loop of `RangeIter::next` on a merged scan. Each `continue` consumes a
staged entry, so the number of entries left bounds the turns. -/
def Merged.loop : Nat → Merged → Option (Except DatabaseError Entry) × Merged
  | 0, m => (none, m)
  | turns + 1, m =>
    match m.peekBase with
    | .error error => (some (.error error), m)
    | .ok m =>
      let m := m.peekOverlay
      match m.basePeek, m.overlayPeek with
      | none, none => (none, m)
      | some entry, none => (some (.ok entry), { m with basePeek := none })
      | none, some (key, value) =>
        match value with
        | some value => (some (.ok (key, value)), { m with overlayPeek := none })
        | none => loop turns { m with overlayPeek := none }
      | some (baseKey, baseValue), some (key, value) =>
        match compare baseKey key with
        | .lt => (some (.ok (baseKey, baseValue)), { m with basePeek := none })
        | .eq =>
          -- The staged entry wins; both are consumed.
          match value with
          | some value => (some (.ok (key, value)), { m with basePeek := none, overlayPeek := none })
          | none => loop turns { m with basePeek := none, overlayPeek := none }
        | .gt =>
          match value with
          | some value => (some (.ok (key, value)), { m with overlayPeek := none })
          | none => loop turns { m with overlayPeek := none }

/-- An ordered scan of a table: an engine scan, one collected in a write
transaction, or a merge. -/
inductive RangeIter
  | raw (range : RawRange)
  | collected (iter : List Entry)
  | merged (m : Merged)

def RangeIter.next : RangeIter → Option (Except DatabaseError Entry) × RangeIter
  | .raw range => (range.next.1, .raw range.next.2)
  | .collected [] => (none, .collected [])
  | .collected (entry :: iter) => (some (.ok entry), .collected iter)
  | .merged m =>
    let r := m.loop (m.overlay.length + 2)
    (r.1, .merged r.2)

/-- A bound on the entries a scan has left. -/
def RangeIter.bound : RangeIter → Nat
  | .raw range => range.length
  | .collected iter => iter.length
  | .merged m => m.base.length + m.overlay.length + 2

/-- The items of a scan, as a `for` loop takes them, up to a number of turns. -/
def RangeIter.items : Nat → RangeIter → List (Except DatabaseError Entry)
  | 0, _ => []
  | turns + 1, iter =>
    match iter.next with
    | (none, _) => []
    | (some item, iter) => item :: items turns iter

/-- The items of a whole scan. -/
def RangeIter.toList (iter : RangeIter) : List (Except DatabaseError Entry) := iter.items iter.bound

/-! ## Readers and writers -/

/-- Point reads and ordered scans over the tables. -/
class Reader (R : Type) where
  get : R → TableId → Bytes → Except DatabaseError (Option Bytes)
  /-- The entries from `start` to `stop`, both included. -/
  range : R → TableId → Bytes → Bytes → Except DatabaseError RangeIter

/-- Staged mutations of the tables. -/
class Writer (W : Type) where
  put : TableId → Bytes → Bytes → EStateM DatabaseError W Unit
  delete : TableId → Bytes → EStateM DatabaseError W Unit

/-- The tables after one table is changed. -/
def Tables.modify (tables : Tables) (table : TableId) (f : Table → Table) : Tables :=
  Function.update tables table (f (tables table))

/-- A snapshot of the tables. -/
structure ReadView where
  txn : Tables

instance : Reader ReadView where
  get view table key := .ok (view.txn table)[key]?
  range view table start stop := .ok (.raw (OrdMap.scan (view.txn table) start stop))

/-- A write transaction: it reads its own writes. -/
structure WriteTxn where
  inner : Tables

instance : Reader WriteTxn where
  get txn table key := .ok (txn.inner table)[key]?
  range txn table start stop := .ok (.collected (OrdMap.scan (txn.inner table) start stop))

instance : Writer WriteTxn where
  put table key value := modify fun txn => ⟨txn.inner.modify table (·.insert key value)⟩
  delete table key := modify fun txn => ⟨txn.inner.modify table (·.erase key)⟩

/-- Drops and recreates a table. -/
def WriteTxn.clearTable (table : TableId) : EStateM DatabaseError WriteTxn Unit :=
  modify fun txn => ⟨txn.inner.modify table fun _ => ∅⟩

/-! ## Staged batches -/

/-- Writes staged outside any transaction, by table; `none` deletes. -/
structure WriteBatch where
  entries : TableId → Option (OrdMap.Changes Bytes Bytes)

def WriteBatch.new : WriteBatch := ⟨fun _ => none⟩

/-- What is staged for a table. -/
def WriteBatch.staged (batch : WriteBatch) (table : TableId) : OrdMap.Changes Bytes Bytes :=
  (batch.entries table).getD ∅

/-- `entry(table).or_default().insert(key, value)`. -/
def WriteBatch.insert (batch : WriteBatch) (table : TableId) (key : Bytes) (value : Option Bytes) :
    WriteBatch :=
  ⟨Function.update batch.entries table (some ((batch.staged table).insert key value))⟩

/-- A batch read and written over a snapshot. -/
structure Overlay where
  batch : WriteBatch
  base : ReadView

def WriteBatch.overlay (batch : WriteBatch) (base : ReadView) : Overlay := ⟨batch, base⟩

instance : Reader Overlay where
  get overlay table key :=
    match (overlay.batch.entries table).bind (·[key]?) with
    | some staged => .ok staged
    | none => Reader.get overlay.base table key
  range overlay table start stop := do
    let staged ← match overlay.batch.entries table with
      -- `BTreeMap::range` panics on bounds the wrong way round.
      | some map =>
        if compare start stop = .gt then
          throw (.panicked "range start is greater than range end in BTreeMap")
        else pure (OrdMap.scan map start stop)
      | none => pure []
    let base := OrdMap.scan (overlay.base.txn table) start stop
    return .merged { base, overlay := staged, basePeek := none, overlayPeek := none }

instance : Writer Overlay where
  put table key value :=
    modify fun overlay => { overlay with batch := overlay.batch.insert table key (some value) }
  delete table key :=
    modify fun overlay => { overlay with batch := overlay.batch.insert table key none }

/-! ## Errors in a state -/

/-- Runs a read on the state of a transaction or an overlay. -/
def reading {σ ε α : Type} (f : σ → Except ε α) : EStateM ε σ α := fun s =>
  match f s with
  | .ok x => .ok x s
  | .error e => .error e s

/-- Converts the error of a computation, as `?` does. -/
def mapError {σ ε ε' α : Type} (f : ε → ε') (m : EStateM ε σ α) : EStateM ε' σ α := fun s =>
  match m s with
  | .ok x s => .ok x s
  | .error e s => .error (f e) s

end Railgun
