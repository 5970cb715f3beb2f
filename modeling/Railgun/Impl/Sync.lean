import Railgun.Impl.Database
import Railgun.Impl.Merkle

/-!
# The syncer

A pump from an event source into the database. `commitWindow` lands a window of
events in one transaction, with each touched tree's frontier snapshot advanced
over its new leaves (`advanceFrontiers`). A run goes from one `await` to the
next (`Syncer.Step`): it reads the watermark, fetches a window page by page,
commits it, and moves on. What a page holds is the source's choice; between two
steps anything may happen to the database.
-/

namespace Railgun

open OrdMap (Map)
open GapFill (repeatWhile)
open MerkleAccumulator (fromState)

/-- Errors of the `sync` crate. `source` stands for those an event source
raises (`Http`, `GraphQl`, `Request`). -/
inductive SyncError
  | source (message : String)
  | database (e : DatabaseError)
  | merkle (e : MerkleError)
  deriving DecidableEq, Repr

/-! ## A window -/

/-- `entry(tree).or_default().insert(position, hash)`. -/
def insertLeaf (byTree : Map U32 (Map U32 U256)) (node : Node) : Map U32 (Map U32 U256) :=
  byTree.insert node.position.treeNumber
    ((byTree[node.position.treeNumber]?.getD ∅).insert node.position.leafIndex node.hash)

/-- The window's leaf hashes, by tree and position. -/
def groupByTree (commitments : List Node) : Map U32 (Map U32 U256) :=
  commitments.foldl insertLeaf ∅

/-- A result, as a computation that leaves the state alone. -/
def raising {σ ε α : Type} (result : Except ε α) : EStateM ε σ α := reading fun _ => result

section
variable (tables : PoseidonTables) (serde : Serde MerkleAccumulatorState)

/-- `while accumulator.len() < u64::from(position)`: zero-fills the gap. -/
def zeroFill (accumulator : MerkleAccumulator (railgunMerkleConfig tables)) (position : U32) :
    MerkleAccumulator (railgunMerkleConfig tables) :=
  repeatWhile (fun a => a.len < position.setWidth 64) (·.insert (railgunMerkleConfig tables).zero)
    (position.toNat - accumulator.len.toNat) accumulator

/-- Appends the leaf at a position, after the gap before it. -/
def appendLeaf (accumulator : MerkleAccumulator (railgunMerkleConfig tables)) (leaf : U32 × U256) :
    MerkleAccumulator (railgunMerkleConfig tables) :=
  (zeroFill tables accumulator leaf.1).insert leaf.2

/-- The persisted accumulator of a tree, or an empty one. -/
def persistedAccumulator (tree : U32) :
    EStateM SyncError WriteTxn (MerkleAccumulator (railgunMerkleConfig tables)) := do
  match ← mapError .database (reading (Frontier.snapshot · tree)) with
  | some bytes =>
    let state ← raising ((serde.fromSlice bytes).mapError fun e => .database (.serde e))
    raising ((fromState state).mapError .merkle)
  | none => return .new

/-- The accumulator with the window's leaves appended; a leaf below it makes it
be rebuilt from a full scan instead. -/
def appendOrRebuild (tree : U32) (leaves : Map U32 U256)
    (accumulator : MerkleAccumulator (railgunMerkleConfig tables)) :
    EStateM SyncError WriteTxn (MerkleAccumulator (railgunMerkleConfig tables)) :=
  let backfill := leaves.toList.head?.any fun first => first.1.setWidth 64 < accumulator.len
  if backfill then Prod.fst <$> mapError .merkle (reading (treeFrontier tables · tree))
  else pure (leaves.toList.foldl (appendLeaf tables) accumulator)

/-- Advances a tree's snapshot over the window's leaves. -/
def advanceFrontier (tree : U32) (leaves : Map U32 U256) : EStateM SyncError WriteTxn Unit := do
  let accumulator ← persistedAccumulator tables serde tree
  let accumulator ← appendOrRebuild tables tree leaves accumulator
  let bytes ← raising ((serde.toVec accumulator.state).mapError fun e => .database (.serde e))
  mapError .database (FrontierMut.setSnapshot tree bytes)

/-- Advances the snapshot of every tree the window touches, in tree order. -/
def advanceFrontiers (commitments : List Node) : EStateM SyncError WriteTxn Unit :=
  (groupByTree commitments).toList.forM fun (tree, leaves) => advanceFrontier tables serde tree leaves

/-- The transaction of a window. -/
def windowTxn (commitments : List Node) (nullifiers : List Nullified) (through : BlockNumber) :
    EStateM SyncError WriteTxn Unit := do
  commitments.forM fun node => mapError .database (CommitmentsMut.insertNode node)
  nullifiers.forM fun nullified => mapError .database (CommitmentsMut.insertNullifier nullified)
  advanceFrontiers tables serde commitments
  mapError .database (CommitmentsMut.setSyncedBlock through)

/-- Commits a window in one write transaction. -/
def commitWindow (db : Database) (commitments : List Node) (nullifiers : List Nullified)
    (through : BlockNumber) : Except SyncError Unit × Database :=
  db.write (windowTxn tables serde commitments nullifiers through)

end

/-! ## Event sources -/

inductive EventStream
  | commitments
  | nullifiers
  deriving DecidableEq, Repr

inductive SyncEvent
  | commitment (node : Node)
  | nullified (nullified : Nullified)
  deriving DecidableEq

/-- A page of events, and the cursor to resume after it. -/
structure Page where
  events : List SyncEvent
  cursor : Option String

/-- What a source may answer: the pages of a stream within an inclusive block
range, resuming after a cursor. Any request may fail instead. -/
structure EventSource where
  fetchPage : EventStream → BlockNumber → BlockNumber → Option String → Page → Prop

/-! ## A run -/

structure SyncSummary where
  commitments : U64
  nullifiers : U64
  syncedTo : BlockNumber
  deriving DecidableEq

/-- Where to sync from, and how many blocks at a time. -/
structure Syncer where
  floor : BlockNumber
  blockWindow : U64
  window_pos : 0 < blockWindow

def defaultBlockWindow : U64 := 100000

def Syncer.new (floor : BlockNumber) : Syncer := ⟨floor, defaultBlockWindow, by decide⟩

/-- Asserts that the window is not empty. -/
def Syncer.setBlockWindow (syncer : Syncer) (blockWindow : U64) : Option Syncer :=
  if h : 0 < blockWindow then some { syncer with blockWindow, window_pos := h } else none

/-- A window being fetched: its blocks, and what its pages held so far. -/
structure Window where
  start : BlockNumber
  stop : BlockNumber
  commitments : List Node
  nullifiers : List Nullified

/-- Adds the events of a page. -/
def Window.addEvent (window : Window) : SyncEvent → Window
  | .commitment node => { window with commitments := window.commitments ++ [node] }
  | .nullified nullified => { window with nullifiers := window.nullifiers ++ [nullified] }

/-- Where a run has come to. -/
inductive Phase
  /-- About to read the watermark. -/
  | start
  /-- Waiting for a page. -/
  | fetching (window : Window) (stream : EventStream) (cursor : Option String) (summary : SyncSummary)
  /-- About to commit a window. -/
  | committing (window : Window) (summary : SyncSummary)
  | returned (result : Except SyncError SyncSummary)

/-- The head of the `while` loop. -/
def Syncer.nextWindow (syncer : Syncer) (target start : BlockNumber) (summary : SyncSummary) : Phase :=
  if start ≤ target then
    let stop := BlockNumber.saturatingAdd start (syncer.blockWindow - 1)
    .fetching ⟨start, if stop ≤ target then stop else target, [], []⟩ .commitments none summary
  else .returned (.ok summary)

/-- The read of the watermark. -/
def Syncer.begin (syncer : Syncer) (db : Database) (target : BlockNumber) : Phase :=
  match Commitments.syncedBlock db.read with
  | .error e => .returned (.error (.database e))
  | .ok watermark =>
    let start := match watermark with
      | some block => BlockNumber.saturatingAdd block 1
      | none => syncer.floor
    syncer.nextWindow target start
      { commitments := 0, nullifiers := 0, syncedTo := watermark.getD 0 }

/-- A page, or an error in its place. -/
def Phase.receive (window : Window) (stream : EventStream) (summary : SyncSummary) :
    Except SyncError Page → Phase
  | .error e => .returned (.error e)
  | .ok page =>
    let window := page.events.foldl Window.addEvent window
    match page.cursor, stream with
    | some next, _ => .fetching window stream (some next) summary
    | none, .commitments => .fetching window .nullifiers none summary
    | none, .nullifiers => .committing window summary

/-- The commit of a window, and the turn of the loop after it. -/
def Syncer.commit (tables : PoseidonTables) (serde : Serde MerkleAccumulatorState) (syncer : Syncer)
    (db : Database) (target : BlockNumber) (window : Window) (summary : SyncSummary) :
    Phase × Database :=
  let summary := { summary with
    commitments := summary.commitments + BitVec.ofNat 64 window.commitments.length
    nullifiers := summary.nullifiers + BitVec.ofNat 64 window.nullifiers.length }
  match commitWindow tables serde db window.commitments window.nullifiers window.stop with
  | (.error e, db) => (.returned (.error e), db)
  | (.ok (), db) =>
    (syncer.nextWindow target (BlockNumber.saturatingAdd window.stop 1)
      { summary with syncedTo := window.stop }, db)

/-- A step of `Syncer::run`, to the next `await` or transaction. Its label is the
window it commits. -/
inductive Syncer.Step (tables : PoseidonTables) (serde : Serde MerkleAccumulatorState)
    (source : EventSource) (syncer : Syncer) (target : BlockNumber) :
    Phase × Database → List (BlockNumber × BlockNumber) → Phase × Database → Prop
  | begin (db : Database) :
    Step tables serde source syncer target (.start, db) [] (syncer.begin db target, db)
  | page {window : Window} {stream : EventStream} {cursor : Option String} {summary : SyncSummary}
      {page : Page} (db : Database)
      (h : source.fetchPage stream window.start window.stop cursor page) :
    Step tables serde source syncer target (.fetching window stream cursor summary, db) []
      (Phase.receive window stream summary (.ok page), db)
  | fail {window : Window} {stream : EventStream} {cursor : Option String} {summary : SyncSummary}
      (e : SyncError) (db : Database) :
    Step tables serde source syncer target (.fetching window stream cursor summary, db) []
      (Phase.receive window stream summary (.error e), db)
  | commit {window : Window} {summary : SyncSummary} (db : Database) :
    Step tables serde source syncer target (.committing window summary, db)
      [(window.start, window.stop)] (syncer.commit tables serde db target window summary)

end Railgun
