import Railgun.Proof.Runs
import Railgun.Spec.Indexer

/-!
# Cursor paging

The rows past a cursor get fewer with every page, so a drain ends
(`subsquid_drains`). A page takes the first rows that are left, and its cursor
is the name of the last of them whether or not the row is kept, so what a drain
collects is what the rows of the range map to (`drain_pages`).
-/

namespace Railgun

open Paging

/-! ## Drains -/

/-- The loop collects what a drain yields. -/
theorem loop_iff_drain {source : EventSource} {stream : EventStream} {window : Window}
    {cursor : Option String} {summary : SyncSummary} {phase : Phase} :
    source.Loop stream (.fetching window stream cursor summary) phase ↔
      ∃ events, source.Drain stream window.start window.stop cursor events ∧
        phase = .drained (window.addEvents events) stream summary := by
  constructor
  · intro h
    generalize hfrom : Phase.fetching window stream cursor summary = before at h
    induction h generalizing window cursor summary with
    | @last window cursor summary page h hlast =>
      cases hfrom
      exact ⟨page.events, .last h hlast, receive_last hlast⟩
    | @more window cursor summary page phase h hmore _ ih =>
      cases hfrom
      obtain ⟨next, hnext⟩ := Option.isSome_iff_exists.mp hmore
      obtain ⟨events, hrest, rfl⟩ := ih (receive_more hnext).symm
      obtain ⟨hstart, hstop⟩ := window.addEvents_blocks page.events
      rw [hstart, hstop] at hrest
      refine ⟨page.events ++ events, .more h hnext hrest, ?_⟩
      rw [Window.addEvents, Window.addEvents, Window.addEvents, List.foldl_append]
  · rintro ⟨events, h, rfl⟩
    generalize hstart : window.start = start at h
    generalize hstop : window.stop = stop at h
    induction h generalizing window with
    | last h hlast =>
      subst hstart hstop
      rw [← receive_last hlast]
      exact .last h hlast
    | @more cursor page next events h hnext _ ih =>
      subst hstart hstop
      obtain ⟨hs, he⟩ := window.addEvents_blocks page.events
      refine .more h (by rw [hnext]; rfl) ?_
      rw [receive_more hnext]
      have := ih hs he
      rwa [Window.addEvents, Window.addEvents, ← List.foldl_append] at this

/-! ## A paged table -/

theorem empty_lt {s : String} (h : s ≠ "") : "" < s := by
  rw [String.lt_iff_toList_lt]
  cases hs : s.toList with
  | nil => exact absurd (String.toList_eq_nil_iff.mp hs) h
  | cons c cs => exact List.Lex.nil

section
variable {ρ : Type} {name : ρ → String}

theorem IndexerTable.within_ascending (table : IndexerTable ρ name) (start stop : BlockNumber) :
    (table.within start stop).Pairwise fun a b => name a < name b :=
  List.pairwise_map.mpr (table.ascending.sublist List.filter_sublist)

/-- Past the empty name are all the rows. -/
theorem IndexerTable.after_start (table : IndexerTable ρ name) (start stop : BlockNumber) :
    after name (table.within start stop) "" = table.within start stop :=
  after_all fun r hr => by
    obtain ⟨row, hrow, rfl⟩ := List.mem_map.mp hr
    exact empty_lt (table.named row (List.mem_filter.mp hrow).1)

/-- The pages of a stream are pages of some rows, with the events that `f` makes
of them and the name of the last as the cursor. -/
structure PagesOf (source : EventSource) (stream : EventStream) (start stop : BlockNumber)
    (name : ρ → String) (rows : List ρ) (limit : Nat) (f : List ρ → Option (List SyncEvent)) : Prop where
  sound : ∀ {cursor page}, source.fetchPage stream start stop cursor page →
    ∃ served, IsPage name rows limit (cursor.getD "") served ∧ f served = some page.events ∧
      page.cursor = served.getLast?.map name
  complete : ∀ cursor, ∃ served, IsPage name rows limit (cursor.getD "") served ∧
    ∀ events, f served = some events →
      source.fetchPage stream start stop cursor ⟨events, served.getLast?.map name⟩

variable {source : EventSource} {stream : EventStream} {start stop : BlockNumber} {rows : List ρ}
  {limit : Nat} {f : List ρ → Option (List SyncEvent)}
  (hpages : PagesOf source stream start stop name rows limit f)
  (hrows : rows.Pairwise fun a b => name a < name b)
include hpages hrows

/-- A drain ends: every page leaves fewer rows. -/
theorem acc_follows (cursor : Option String) : Acc (source.Follows stream start stop) cursor := by
  refine Subrelation.accessible (r := InvImage (· < ·) fun c : Option String =>
    (after name rows (c.getD "")).length) (fun {next cursor} h => ?_)
    ((InvImage.wf _ Nat.lt_wfRel.wf).apply cursor)
  obtain ⟨page, hpage, rfl, hsome⟩ := h
  obtain ⟨served, hserved, -, hcursor⟩ := hpages.sound hpage
  rw [hcursor, Option.isSome_map, Option.isSome_iff_exists] at hsome
  obtain ⟨last, hlast⟩ := hsome
  rw [InvImage, hcursor, hlast]
  exact length_after_lt hrows hserved.first hlast

variable (happend : ∀ a b, f (a ++ b) = (f a).bind fun x => (f b).map (x ++ ·))
include happend

/-- What a drain yields is what the rows past its cursor make. -/
theorem drain_sound {cursor : Option String} {events : List SyncEvent}
    (h : source.Drain stream start stop cursor events) :
    f (after name rows (cursor.getD "")) = some events := by
  induction h with
  | @last cursor page h hlast =>
    obtain ⟨served, hserved, hevents, hcursor⟩ := hpages.sound h
    have hnone : served = [] := by
      rw [hlast, eq_comm, Option.map_eq_none_iff] at hcursor
      exact List.getLast?_eq_none_iff.mp hcursor
    subst hnone
    rw [hserved.after_nil, hevents]
  | @more cursor page next events h hnext _ ih =>
    obtain ⟨served, hserved, hevents, hcursor⟩ := hpages.sound h
    rw [hnext, eq_comm, Option.map_eq_some_iff] at hcursor
    obtain ⟨last, hlast, rfl⟩ := hcursor
    rw [after_page hrows hserved.first hlast, happend, hevents, Option.bind_some]
    rw [Option.getD_some] at ih
    rw [ih]
    rfl

/-- And every drain that the rows make events for gets to its end. -/
theorem drain_complete (hnil : f [] = some []) (cursor : Option String) : ∀ {events : List SyncEvent},
    f (after name rows (cursor.getD "")) = some events → source.Drain stream start stop cursor events := by
  induction acc_follows hpages hrows cursor with
  | intro cursor _ ih =>
  intro events h
  obtain ⟨served, hserved, hfetch⟩ := hpages.complete cursor
  cases hlast : served.getLast? with
  | none =>
    obtain rfl := List.getLast?_eq_none_iff.mp hlast
    rw [hserved.after_nil, hnil] at h
    obtain rfl := Option.some.inj h
    exact .last (hfetch [] hnil) rfl
  | some last =>
    rw [after_page hrows hserved.first hlast, happend, Option.bind_eq_some_iff] at h
    obtain ⟨first, hfirst, h⟩ := h
    obtain ⟨rest, hrest, rfl⟩ := Option.map_eq_some_iff.mp h
    have hpage := hfetch first hfirst
    rw [hlast] at hpage
    exact .more hpage rfl (ih (some (name last)) ⟨_, hpage, rfl, rfl⟩ hrest)

end

/-! ## The two streams -/

/-- The events of some commitment rows: those of the rows that are kept. -/
def commitmentEvents (rows : List CommitmentRow) : Option (List SyncEvent) :=
  (rows.mapM mapCommitment).map fun events => events.filterMap id

theorem commitmentsPage_eq (rows : List CommitmentRow) : commitmentsPage rows =
    (commitmentEvents rows).map fun events => ⟨events, rows.getLast?.map (·.id)⟩ := by
  rw [commitmentsPage, commitmentEvents]
  cases rows.mapM mapCommitment <;> rfl

theorem commitmentEvents_append (a b : List CommitmentRow) : commitmentEvents (a ++ b) =
    (commitmentEvents a).bind fun x => (commitmentEvents b).map (x ++ ·) := by
  rw [commitmentEvents, commitmentEvents, commitmentEvents, List.mapM_append]
  cases a.mapM mapCommitment with
  | none => rfl
  | some events =>
    cases b.mapM mapCommitment with
    | none => rfl
    | some events' => exact congrArg some List.filterMap_append

/-- The events of commitment rows are commitments. -/
theorem commitmentEvents_nodes : ∀ {rows : List CommitmentRow} {mapped : List (Option SyncEvent)},
    rows.mapM mapCommitment = some mapped → ∃ nodes : List Node, mapped.filterMap id = nodes.map SyncEvent.commitment
  | [], mapped, h => by
    rw [List.mapM_nil] at h
    cases h
    exact ⟨[], rfl⟩
  | row :: rows, mapped, h => by
    rw [List.mapM_cons] at h
    obtain ⟨event, hevent, h⟩ := Option.bind_eq_some_iff.mp h
    obtain ⟨rest, hrest, h⟩ := Option.bind_eq_some_iff.mp h
    cases h
    obtain ⟨nodes, hnodes⟩ := commitmentEvents_nodes hrest
    obtain ⟨position, -, h⟩ := Option.bind_eq_some_iff.mp hevent
    cases h
    cases row.kind.body with
    | none => exact ⟨nodes, hnodes⟩
    | some body => exact ⟨⟨position, row.hash, row.blockNumber, body⟩ :: nodes, congrArg (_ :: ·) hnodes⟩

/-- And those of nullifier rows are nullifiers. -/
theorem nullified_events (rows : List NullifierRow) :
    ∃ nullified : List Nullified, rows.map mapNullifier = nullified.map SyncEvent.nullified := by
  induction rows with
  | nil => exact ⟨[], rfl⟩
  | cons row rows ih =>
    obtain ⟨nullified, h⟩ := ih
    exact ⟨⟨row.treeNumber, _⟩ :: nullified, congrArg (mapNullifier row :: ·) h⟩

theorem Window.addEvents_commitments (window : Window) (nodes : List Node) :
    window.addEvents (nodes.map .commitment) = { window with commitments := window.commitments ++ nodes } := by
  induction nodes generalizing window with
  | nil => rw [List.append_nil]; rfl
  | cons node nodes ih =>
    rw [addEvents, List.map_cons, List.foldl_cons, ← addEvents, ih]
    exact congrArg (fun commitments => { window with commitments }) (List.append_assoc ..)

theorem Window.addEvents_nullified (window : Window) (nullified : List Nullified) :
    window.addEvents (nullified.map .nullified) =
      { window with nullifiers := window.nullifiers ++ nullified } := by
  induction nullified generalizing window with
  | nil => rw [List.append_nil]; rfl
  | cons n nullified ih =>
    rw [addEvents, List.map_cons, List.foldl_cons, ← addEvents, ih]
    exact congrArg (fun nullifiers => { window with nullifiers }) (List.append_assoc ..)

/-- Rows have events if their positions do. -/
theorem commitmentEvents_isSome : ∀ rows : List CommitmentRow, (commitmentEvents rows).isSome ↔
    ∀ row ∈ rows, (NodePosition.normalized row.treeNumber row.treePosition).isSome
  | [] => iff_of_true rfl nofun
  | row :: rows => by
    have hrow : (commitmentEvents [row]).isSome ↔
        (NodePosition.normalized row.treeNumber row.treePosition).isSome := by
      rw [commitmentEvents, List.mapM_cons, mapCommitment]
      cases NodePosition.normalized row.treeNumber row.treePosition <;> simp
    rw [List.forall_mem_cons, ← commitmentEvents_isSome rows, ← hrow,
      show row :: rows = [row] ++ rows from rfl, commitmentEvents_append]
    cases commitmentEvents [row] <;> cases commitmentEvents rows <;> simp

section
variable (source : SubsquidSource) {indexer : Indexer}

theorem pagesOf_commitments {table : IndexerTable CommitmentRow CommitmentRow.id}
    (h : table.Serves indexer.commitments) (start stop : BlockNumber) :
    PagesOf (source.eventSource indexer) .commitments start stop CommitmentRow.id
      (table.within start stop) source.pageLimit.toNat commitmentEvents where
  sound {cursor page} hpage := by
    obtain ⟨rows, hrows, hmake⟩ := hpage
    rw [commitmentsPage_eq, Option.map_eq_some_iff] at hmake
    obtain ⟨events, hevents, rfl⟩ := hmake
    exact ⟨rows, h.page hrows, hevents, rfl⟩
  complete cursor := by
    obtain ⟨rows, hrows⟩ := h.answered (source.vars cursor start stop) source.limit_pos
    refine ⟨rows, h.page hrows, fun events hevents => ⟨rows, hrows, ?_⟩⟩
    rw [commitmentsPage_eq, hevents]
    rfl

theorem pagesOf_nullifiers {table : IndexerTable NullifierRow NullifierRow.id}
    (h : table.Serves indexer.nullifiers) (start stop : BlockNumber) :
    PagesOf (source.eventSource indexer) .nullifiers start stop NullifierRow.id
      (table.within start stop) source.pageLimit.toNat (fun rows => some (rows.map mapNullifier)) where
  sound {cursor page} hpage := by
    obtain ⟨rows, hrows, rfl⟩ := hpage
    exact ⟨rows, h.page hrows, rfl, rfl⟩
  complete cursor := by
    obtain ⟨rows, hrows⟩ := h.answered (source.vars cursor start stop) source.limit_pos
    refine ⟨rows, h.page hrows, fun events hevents => ⟨rows, hrows, ?_⟩⟩
    rw [nullifiersPage, Option.some.inj hevents]

end

/-- Over any server of two tables the drain loop ends, and what it has added to
the window is what the rows of the range map to, each once and in order, however
long the pages were. It gets there unless a row's position has no tree number. -/
theorem subsquid_delivers (source : SubsquidSource) (indexer : Indexer)
    (commitments : IndexerTable CommitmentRow CommitmentRow.id)
    (nullifiers : IndexerTable NullifierRow NullifierRow.id)
    (hcommitments : commitments.Serves indexer.commitments)
    (hnullifiers : nullifiers.Serves indexer.nullifiers) :
    (source.eventSource indexer).Drains ∧
    ∀ (window : Window) (summary : SyncSummary),
      (∀ phase, (source.eventSource indexer).Loop .commitments
          (.fetching window .commitments none summary) phase ↔
        ∃ mapped nodes, (commitments.within window.start window.stop).mapM mapCommitment = some mapped ∧
          mapped.filterMap id = nodes.map SyncEvent.commitment ∧
          phase = .fetching { window with commitments := window.commitments ++ nodes } .nullifiers none
            summary) ∧
      ((∃ phase, (source.eventSource indexer).Loop .commitments
          (.fetching window .commitments none summary) phase) ↔
        ∀ row ∈ commitments.within window.start window.stop,
          (NodePosition.normalized row.treeNumber row.treePosition).isSome) ∧
      ∀ phase, (source.eventSource indexer).Loop .nullifiers
          (.fetching window .nullifiers none summary) phase ↔
        ∃ nullified, (nullifiers.within window.start window.stop).map mapNullifier =
            nullified.map SyncEvent.nullified ∧
          phase = .committing { window with nullifiers := window.nullifiers ++ nullified } summary := by
  have hasc := commitments.within_ascending
  have hasc' := nullifiers.within_ascending
  have hevents : ∀ start stop events,
      (source.eventSource indexer).Drain .commitments start stop none events ↔
        commitmentEvents (commitments.within start stop) = some events := fun start stop events => by
    have hpages := pagesOf_commitments source hcommitments start stop
    constructor
    · intro h
      have := drain_sound hpages (hasc start stop) commitmentEvents_append h
      rwa [Option.getD_none, commitments.after_start] at this
    · intro h
      refine drain_complete hpages (hasc start stop) commitmentEvents_append rfl none ?_
      rwa [Option.getD_none, commitments.after_start]
  have hnull : ∀ start stop events,
      (source.eventSource indexer).Drain .nullifiers start stop none events ↔
        (nullifiers.within start stop).map mapNullifier = events := fun start stop events => by
    have hpages := pagesOf_nullifiers source hnullifiers start stop
    have happend : ∀ a b : List NullifierRow, some ((a ++ b).map mapNullifier) =
        (some (a.map mapNullifier)).bind fun x => (some (b.map mapNullifier)).map (x ++ ·) :=
      fun a b => congrArg some List.map_append
    constructor
    · intro h
      have := drain_sound hpages (hasc' start stop) happend h
      rw [Option.getD_none, nullifiers.after_start] at this
      exact Option.some.inj this
    · intro h
      refine drain_complete hpages (hasc' start stop) happend rfl none ?_
      rw [Option.getD_none, nullifiers.after_start, h]
  have hloop : ∀ (window : Window) (summary : SyncSummary) phase,
      (source.eventSource indexer).Loop .commitments (.fetching window .commitments none summary) phase ↔
        ∃ mapped nodes, (commitments.within window.start window.stop).mapM mapCommitment = some mapped ∧
          mapped.filterMap id = nodes.map SyncEvent.commitment ∧
          phase = .fetching { window with commitments := window.commitments ++ nodes } .nullifiers none
            summary := fun window summary phase => by
    simp only [loop_iff_drain, hevents, commitmentEvents, Option.map_eq_some_iff]
    constructor
    · rintro ⟨_, ⟨mapped, hmap, rfl⟩, rfl⟩
      obtain ⟨nodes, hnodes⟩ := commitmentEvents_nodes hmap
      refine ⟨mapped, nodes, hmap, hnodes, ?_⟩
      rw [hnodes, Window.addEvents_commitments]
      rfl
    · rintro ⟨mapped, nodes, hmap, hnodes, rfl⟩
      refine ⟨mapped.filterMap id, ⟨mapped, hmap, rfl⟩, ?_⟩
      rw [hnodes, Window.addEvents_commitments]
      rfl
  refine ⟨fun stream start stop => ?_, fun window summary => ⟨hloop window summary, ?_, fun phase => ?_⟩⟩
  · cases stream with
    | commitments => exact acc_follows (pagesOf_commitments source hcommitments start stop) (hasc _ _) none
    | nullifiers => exact acc_follows (pagesOf_nullifiers source hnullifiers start stop) (hasc' _ _) none
  · rw [← commitmentEvents_isSome, commitmentEvents, Option.isSome_map, Option.isSome_iff_exists]
    simp only [hloop window summary]
    constructor
    · exact fun ⟨_, mapped, _, hmap, _⟩ => ⟨mapped, hmap⟩
    · intro ⟨mapped, hmap⟩
      obtain ⟨nodes, hnodes⟩ := commitmentEvents_nodes hmap
      exact ⟨_, mapped, nodes, hmap, hnodes, rfl⟩
  · rw [loop_iff_drain]
    constructor
    · rintro ⟨events, hdrain, rfl⟩
      obtain ⟨nullified, hnullified⟩ := nullified_events (nullifiers.within window.start window.stop)
      refine ⟨nullified, hnullified, ?_⟩
      rw [← (hnull _ _ _).mp hdrain, hnullified, Window.addEvents_nullified]
      rfl
    · rintro ⟨nullified, hnullified, rfl⟩
      refine ⟨_, (hnull _ _ _).mpr hnullified, ?_⟩
      rw [Window.addEvents_nullified]
      rfl

/-- A server that hands out a table's rows one by one. -/
def oneByOne {ρ : Type} {name : ρ → String} (table : IndexerTable ρ name) (vars : QueryVars)
    (rows : List ρ) : Prop :=
  0 < vars.limit ∧
    rows = (after name (table.within vars.blockNumberGte vars.blockNumberLte) vars.idGt).take 1

theorem oneByOne_serves {ρ : Type} {name : ρ → String} (table : IndexerTable ρ name) :
    table.Serves (oneByOne table) where
  page {vars rows} h := by
    obtain ⟨hlimit, rfl⟩ := h
    have hlimit : 0 < vars.limit.toNat := hlimit
    refine ⟨List.take_prefix .., ?_, fun hne he => hne ?_⟩
    · rw [List.length_take]
      omega
    · exact (List.take_eq_nil_iff.mp he).resolve_left (by decide)
  answered vars hlimit := ⟨_, hlimit, rfl⟩

/-- A legacy row and a transact, in blocks 3 and 5. -/
def twoRows : IndexerTable CommitmentRow CommitmentRow.id where
  rows := [
    (3, ⟨"a", 3, 1, 0, 0, .legacy⟩),
    (5, ⟨"b", 5, 2, 0, 65537, .transactCommitment
      ⟨⟨.replicate 16 0, .replicate 16 0, []⟩, [], .replicate 32 0, .replicate 32 0, []⟩⟩)]
  ascending := by
    simp only [List.pairwise_cons]
    decide
  named := by decide

/-- Two nullifiers, in blocks 4 and 11. -/
def twoNullifiers : IndexerTable NullifierRow NullifierRow.id where
  rows := [(4, ⟨"c", 7, 1⟩), (11, ⟨"d", 8, 1⟩)]
  ascending := by
    simp only [List.pairwise_cons]
    decide
  named := by decide

/-- Both rows are fetched, each on a page of its own, and the transact is
collected; so is the nullifier of the range, and not the one past it. -/
theorem subsquid_delivers_past_skipped : ∃ node nullified,
    (SubsquidSource.new.eventSource ⟨oneByOne twoRows, oneByOne twoNullifiers⟩).Loop .commitments
      (.fetching ⟨0, 9, [], []⟩ .commitments none ⟨0, 0, 0⟩)
      (.fetching ⟨0, 9, [node], []⟩ .nullifiers none ⟨0, 0, 0⟩) ∧
    (SubsquidSource.new.eventSource ⟨oneByOne twoRows, oneByOne twoNullifiers⟩).Loop .nullifiers
      (.fetching ⟨0, 9, [node], []⟩ .nullifiers none ⟨0, 0, 0⟩)
      (.committing ⟨0, 9, [node], [nullified]⟩ ⟨0, 0, 0⟩) ∧
    node.hash = 2 ∧ node.block = 5 ∧ nullified.treeNumber = 1 ∧
    nullified.nullifier.1 = List.replicate 31 0 ++ [7] := by
  obtain ⟨-, hloops⟩ := subsquid_delivers .new ⟨oneByOne twoRows, oneByOne twoNullifiers⟩ twoRows twoNullifiers
    (oneByOne_serves twoRows) (oneByOne_serves twoNullifiers)
  let node : Node := ⟨⟨1, 1, by decide⟩, 2, 5, .transact
    ⟨⟨.replicate 16 0, .replicate 16 0, []⟩, [], .replicate 32 0, .replicate 32 0, []⟩⟩
  let nullified : Nullified := ⟨1, ⟨List.replicate 31 0 ++ [7], rfl⟩⟩
  refine ⟨node, nullified, ?_, ?_, rfl, rfl, rfl, rfl⟩
  · refine ((hloops ⟨0, 9, [], []⟩ ⟨0, 0, 0⟩).1 _).mpr ⟨[none, some (.commitment node)], [node], ?_, rfl, rfl⟩
    decide +kernel
  · refine ((hloops ⟨0, 9, [node], []⟩ ⟨0, 0, 0⟩).2.2 _).mpr ⟨[nullified], ?_, rfl⟩
    decide +kernel

end Railgun
