import Railgun.Spec.Forest
import Railgun.Spec.Runs

/-!
# Chains, and runs over them

A chain has the events of each stream, with their blocks. A source yields a
chain if draining a range gives the events of its blocks, in whatever order and
pages. The windows of a run are in a row (`Syncer.Sweeps`). Runs over such a
source: one after the other, each stopped anywhere (`Syncer.History`), and
several at a time, step by step (`Interleaved`).
-/

namespace Railgun

/-! ## Chains -/

/-- The events of each stream, with their blocks. -/
abbrev Chain := EventStream → List (BlockNumber × SyncEvent)

/-- An event of a block from `lo` up to `hi`, which is not included. -/
def Chain.Between (chain : Chain) (lo hi : Nat) (event : SyncEvent) : Prop :=
  ∃ stream block, (block, event) ∈ chain stream ∧ lo ≤ block.toNat ∧ block.toNat < hi

/-- What a stream's pages hold, drained over a range, is the events of its blocks. -/
def EventSource.Yields (source : EventSource) (chain : Chain) : Prop :=
  ∀ {stream start stop events}, start ≤ stop → source.Drain stream start stop none events →
    ∀ event, event ∈ events ↔ ∃ block, (block, event) ∈ chain stream ∧ start ≤ block ∧ block ≤ stop

/-- And every stream can be drained over every range. -/
structure EventSource.Serves (source : EventSource) (chain : Chain) : Prop where
  yields : source.Yields chain
  drains : ∀ stream start stop, start ≤ stop → ∃ events, source.Drain stream start stop none events

/-- The event's node or nullifier is read back. -/
def Database.Stores (db : Database) : SyncEvent → Prop
  | .commitment n =>
    Commitments.node db.read n.position.treeNumber n.position.leafIndex = .ok (some n)
  | .nullified x => Commitments.isNullified db.read x.treeNumber x.nullifier = .ok true

/-! ## Windows in a row -/

/-- The block after a watermark, or the floor. -/
def nextBlock (floor : BlockNumber) : Option BlockNumber → Nat
  | some block => block.toNat + 1
  | none => floor.toNat

/-- Windows from `start`, each starting past the last one, none empty, and none of
more than `limit` blocks. -/
def Tiles (limit : Nat) : Nat → List (BlockNumber × BlockNumber) → Prop
  | _, [] => True
  | start, (first, last) :: windows => first.toNat = start ∧ first.toNat ≤ last.toNat ∧
    last.toNat + 1 ≤ start + limit ∧ Tiles limit (last.toNat + 1) windows

/-- The block after some windows from `start`. -/
def tilesEnd : Nat → List (BlockNumber × BlockNumber) → Nat
  | start, [] => start
  | _, (_, last) :: windows => tilesEnd (last.toNat + 1) windows

/-- Windows of a run from a watermark: in a row from the block after it, up to the
target, and to it if the run succeeds. -/
structure Syncer.Sweeps (syncer : Syncer) (target : BlockNumber) (watermark : Option BlockNumber)
    (windows : List (BlockNumber × BlockNumber)) (phase : Phase) : Prop where
  tiles : Tiles syncer.blockWindow.toNat (nextBlock syncer.floor watermark) windows
  within : tilesEnd (nextBlock syncer.floor watermark) windows ≤
    max (nextBlock syncer.floor watermark) (target.toNat + 1)
  reaches : ∀ summary, phase = .returned (.ok summary) →
    tilesEnd (nextBlock syncer.floor watermark) windows =
      max (nextBlock syncer.floor watermark) (target.toNat + 1)

section
variable (tables : PoseidonTables) (serde : Serde MerkleAccumulatorState) (source : EventSource)

/-! ## One run after the other -/

/-- The databases that runs from one floor leave, from a new one on. Each run is
to a block up to `target`, and is stopped anywhere. -/
inductive Syncer.History (floor target : BlockNumber) : Database → Prop
  | new : History floor target Database.empty
  | run {db db' : Database} {syncer : Syncer} {target' : BlockNumber} {phase : Phase}
      {windows : List (BlockNumber × BlockNumber)} (h : History floor target db)
      (hfloor : syncer.floor = floor) (htarget : target' ≤ target)
      (hrun : syncer.Run tables serde source target' (.start, db) windows (phase, db')) :
    History floor target db'

/-! ## Runs at the same time -/

/-- One of the runs takes a step on the database they share. -/
def Interleaved {ι : Type} [DecidableEq ι] (runs : ι → Syncer × BlockNumber)
    (state state' : (ι → Phase) × Database) : Prop :=
  ∃ i phase, (runs i).1.Next tables serde source (runs i).2 (state.1 i, state.2) (phase, state'.2) ∧
    state'.1 = Function.update state.1 i phase

end

end Railgun
