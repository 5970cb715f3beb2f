import Mathlib.Data.String.Basic
import Railgun.Framework.Paging
import Railgun.Impl.Subsquid

/-!
# The indexer

What the Subsquid source asks of the server behind it: a fixed table of rows
with distinct names, of which a request returns the first ones past a name
within a range of blocks, as many as the server likes up to the limit.
-/

namespace Railgun

open Paging

/-- A table of rows and their blocks, in the order of their names. -/
structure IndexerTable (ρ : Type) (id : ρ → String) where
  rows : List (BlockNumber × ρ)
  ascending : rows.Pairwise fun a b => id a.2 < id b.2
  named : ∀ r ∈ rows, id r.2 ≠ ""

/-- The rows of a range of blocks, both ends included, in the order of their names. -/
def IndexerTable.within {ρ : Type} {id : ρ → String} (table : IndexerTable ρ id)
    (start stop : BlockNumber) : List ρ :=
  (table.rows.filter fun r => start ≤ r.1 ∧ r.1 ≤ stop).map (·.2)

/-- Every request is answered, with a page of the table. -/
structure IndexerTable.Serves {ρ : Type} {id : ρ → String} (table : IndexerTable ρ id)
    (answers : QueryVars → List ρ → Prop) : Prop where
  page : ∀ {vars rows}, answers vars rows → IsPage id
    (table.within vars.blockNumberGte vars.blockNumberLte) vars.limit.toNat vars.idGt rows
  answered : ∀ vars, 0 < vars.limit → ∃ rows, answers vars rows

/-- The loop that drains a stream: page after page, each received as a run
receives it, to the one without a cursor. -/
inductive EventSource.Loop (source : EventSource) (stream : EventStream) : Phase → Phase → Prop
  | last {window : Window} {cursor : Option String} {summary : SyncSummary} {page : Page}
      (h : source.fetchPage stream window.start window.stop cursor page) (hlast : page.cursor = none) :
    Loop source stream (.fetching window stream cursor summary)
      (Phase.receive window stream summary (.ok page))
  | more {window : Window} {cursor : Option String} {summary : SyncSummary} {page : Page} {phase : Phase}
      (h : source.fetchPage stream window.start window.stop cursor page) (hmore : page.cursor.isSome)
      (rest : Loop source stream (Phase.receive window stream summary (.ok page)) phase) :
    Loop source stream (.fetching window stream cursor summary) phase

end Railgun
