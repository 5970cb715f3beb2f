import Railgun.Proof.Root
import Railgun.Proof.Runs
import Railgun.Spec.Chain

/-!
# What a run fetches

However its pages are cut, a window that is about to be committed has the events
of its blocks, and no others (`OnCourse.window_has`). Committing it adds these
to the forest, and nothing else (`has_window`). From a source that serves its
chain, any window can be fetched, and committed if what it brings has a place
(`run_window`).
-/

namespace Railgun

/-! ## Blocks -/

namespace Chain

variable {chain : Chain} {lo mid hi lo' hi' : Nat} {event : SyncEvent}

theorem Between.mono (h : chain.Between lo hi event) (hlo : lo' ≤ lo) (hhi : hi ≤ hi') :
    chain.Between lo' hi' event := by
  obtain ⟨stream, block, hmem, hl, hh⟩ := h
  exact ⟨stream, block, hmem, Nat.le_trans hlo hl, Nat.lt_of_lt_of_le hh hhi⟩

theorem Between.split (h : chain.Between lo hi event) (mid : Nat) :
    chain.Between lo mid event ∨ chain.Between mid hi event := by
  obtain ⟨stream, block, hmem, hlo, hhi⟩ := h
  rcases Nat.lt_or_ge block.toNat mid with hlt | hge
  · exact .inl ⟨stream, block, hmem, hlo, hlt⟩
  · exact .inr ⟨stream, block, hmem, hge, hhi⟩

theorem between_join (hlo : lo ≤ mid) (hhi : mid ≤ hi) :
    chain.Between lo mid event ∨ chain.Between mid hi event ↔ chain.Between lo hi event := by
  refine ⟨fun h => ?_, fun h => h.split mid⟩
  rcases h with h | h
  · exact h.mono (Nat.le_refl _) hhi
  · exact h.mono hlo (Nat.le_refl _)

theorem not_between_self : ¬ chain.Between lo lo event := by
  rintro ⟨_, _, _, hlo, hhi⟩
  exact absurd hhi (Nat.not_lt.mpr hlo)

end Chain

/-! ## Events of a forest -/

/-- The event's node or nullifier is there. -/
def Forest.Has (F : Forest) : SyncEvent → Prop
  | .commitment n => F.nodeAt n = some n
  | .nullified x => F.nullified x.treeNumber x.nullifier = true

def Window.Has (window : Window) : SyncEvent → Prop
  | .commitment n => n ∈ window.commitments
  | .nullified x => x ∈ window.nullifiers

theorem Window.has_addEvent (window : Window) (event event' : SyncEvent) :
    (window.addEvent event').Has event ↔ window.Has event ∨ event = event' := by
  cases event <;> cases event' <;> simp [Has, addEvent]

theorem Window.has_addEvents : ∀ (events : List SyncEvent) (window : Window) (event : SyncEvent),
    (window.addEvents events).Has event ↔ window.Has event ∨ event ∈ events
  | [], window, event => by simp [addEvents]
  | event' :: events, window, event => by
    have ih := has_addEvents events (window.addEvent event') event
    rw [has_addEvent, or_assoc, ← List.mem_cons] at ih
    exact ih

theorem Forest.within_of_has {F G : Forest} (h : ∀ event, F.Has event → G.Has event) : F.Within G where
  node {t p n} hn := by
    obtain ⟨ht, hp⟩ := F.placed hn
    have := h (.commitment n) (show F.node _ _ = _ by rw [ht, hp, hn])
    rwa [Has, nodeAt, ht, hp] at this
  nullified {t x} hx := h (.nullified ⟨t, x⟩) hx

/-- Forests with the same events and the same watermark are the same. -/
theorem Forest.ext_has {F G : Forest} (h : ∀ event, F.Has event ↔ G.Has event)
    (hsynced : F.synced = G.synced) : F = G := by
  have hFG := within_of_has fun event => (h event).mp
  have hGF := within_of_has fun event => (h event).mpr
  refine Forest.ext ?_ ?_ hsynced
  · funext t p
    exact Option.ext fun n => ⟨hFG.node, hGF.node⟩
  · funext t x
    exact Bool.eq_iff_iff.mpr ⟨hFG.nullified, hGF.nullified⟩

theorem Forest.Within.has {F G : Forest} (h : F.Within G) {event : SyncEvent} (he : F.Has event) :
    G.Has event := by
  cases event with
  | commitment n => exact h.node he
  | nullified x => exact h.nullified he

theorem empty_has (event : SyncEvent) : ¬ Forest.empty.Has event := by
  cases event <;> exact nofun

theorem stores_iff {db : Database} {F : Forest} (hF : Represents (db.engine .commitments) F)
    (event : SyncEvent) : db.Stores event ↔ F.Has event := by
  cases event with
  | commitment n =>
    rw [Database.Stores, node_spec (r := db.read) hF, Except.ok.injEq]
    rfl
  | nullified x =>
    rw [Database.Stores, isNullified_spec (r := db.read) hF, Except.ok.injEq]
    rfl

/-- An accepted window adds its events. -/
theorem has_window {F : Forest} {window : Window}
    (ha : F.Accepts (windowWrites window.commitments window.nullifiers)) (event : SyncEvent) :
    (F.window window.commitments window.nullifiers window.stop).Has event ↔
      F.Has event ∨ window.Has event := by
  have hx := extends_of_accepts ha
  cases event with
  | commitment n =>
    refine ⟨fun h => hx.only h, fun h => ?_⟩
    rcases h with h | h
    · exact hx.kept h
    · exact hx.stored n h
  | nullified x =>
    refine (Forest.run_nullified _ F x.treeNumber x.nullifier).trans (or_congr_right ?_)
    simp [windowWrites, Window.Has]

/-- A node of a larger forest can be put in its place. -/
theorem Forest.Within.store {F G : Forest} (h : F.Within G) {n : Node} (hn : G.nodeAt n = some n)
    (ha : Admissible n) : (F.store n ha).Within G where
  node {t p m} hm := by
    simp only [Forest.store] at hm
    split at hm
    · rename_i he
      rw [← hm, he.1, he.2]
      exact hn
    · exact h.node hm
  nullified := h.nullified

theorem accepts_nodes {G : Forest} : ∀ {commitments : List Node} {F : Forest}, F.Within G →
    (∀ n ∈ commitments, G.nodeAt n = some n) → F.Accepts (commitments.map .node)
  | [], _, _, _ => nofun
  | n :: commitments, F, hwithin, hin => by
    have hn := hin n List.mem_cons_self
    have hins : (F.insertNode n).1 = .ok () ∧ (F.insertNode n).2.Within G := by
      rw [Forest.insertNode, dif_pos (G.admissible hn)]
      cases hat : F.nodeAt n with
      | none => exact ⟨rfl, hwithin.store hn (G.admissible hn)⟩
      | some m =>
        obtain rfl : m = n := Option.some.inj ((hwithin.node hat).symm.trans hn)
        simp only [if_true]
        exact ⟨trivial, hwithin⟩
    exact Forest.accepts_cons.mpr ⟨hins.1,
      accepts_nodes hins.2 fun m hm => hin m (List.mem_cons_of_mem _ hm)⟩

/-- A window of what a larger forest has is accepted. -/
theorem accepts_window {F G : Forest} {window : Window} (hwithin : F.Within G)
    (hin : ∀ event, window.Has event → G.Has event) :
    F.Accepts (windowWrites window.commitments window.nullifiers) :=
  Forest.accepts_append.mpr ⟨accepts_nodes hwithin fun n hn => hin (.commitment n) hn,
    Forest.accepts_nullifiers _ _⟩

/-! ## Fetching -/

section
variable (source : EventSource) (syncer : Syncer) (target : BlockNumber)

/-- Events that pages up to a cursor held: what is drained from the cursor on comes after them. -/
def Fetched (stream : EventStream) (start stop : BlockNumber) (cursor : Option String)
    (events : List SyncEvent) : Prop :=
  ∀ rest, source.Drain stream start stop cursor rest → source.Drain stream start stop none (events ++ rest)

/-- A run whose next block is `m`: its window starts there, and holds the events
of the pages that it was sent. -/
inductive OnCourse (m : Nat) : Phase → Prop
  | start : OnCourse m .start
  | commitments {window : Window} {cursor : Option String} {summary : SyncSummary}
      {events : List SyncEvent} (hstart : window.start.toNat = m)
      (hcovers : syncer.Covers target window.start window.stop)
      (hfetched : Fetched source .commitments window.start window.stop cursor events)
      (hhas : ∀ event, window.Has event ↔ event ∈ events) :
    OnCourse m (.fetching window .commitments cursor summary)
  | nullifiers {window : Window} {cursor : Option String} {summary : SyncSummary}
      {drained events : List SyncEvent} (hstart : window.start.toNat = m)
      (hcovers : syncer.Covers target window.start window.stop)
      (hdrained : source.Drain .commitments window.start window.stop none drained)
      (hfetched : Fetched source .nullifiers window.start window.stop cursor events)
      (hhas : ∀ event, window.Has event ↔ event ∈ drained ++ events) :
    OnCourse m (.fetching window .nullifiers cursor summary)
  | committing {window : Window} {summary : SyncSummary} {drained drained' : List SyncEvent}
      (hstart : window.start.toNat = m) (hcovers : syncer.Covers target window.start window.stop)
      (hdrained : source.Drain .commitments window.start window.stop none drained)
      (hdrained' : source.Drain .nullifiers window.start window.stop none drained')
      (hhas : ∀ event, window.Has event ↔ event ∈ drained ++ drained') :
    OnCourse m (.committing window summary)
  | ok {summary : SyncSummary} (h : target.toNat < m) : OnCourse m (.returned (.ok summary))
  | error (e : SyncError) : OnCourse m (.returned (.error e))

end

section
variable {source : EventSource} {syncer : Syncer} {target : BlockNumber} {m : Nat}

theorem fetched_nil {stream : EventStream} {start stop : BlockNumber} :
    Fetched source stream start stop none [] := fun _ h => h

theorem onCourse_nextWindow (start : BlockNumber) (summary : SyncSummary) :
    OnCourse source syncer target start.toNat (syncer.nextWindow target start summary) := by
  rcases nextWindow_cases syncer target start summary with ⟨-, stop, hcovers, hgo⟩ | ⟨hlt, hreturn⟩
  · rw [hgo]
    refine .commitments rfl hcovers fetched_nil fun event => ?_
    cases event <;> simp [Window.Has]
  · rw [hreturn]
    exact .ok hlt

/-- A page keeps the run on its course. -/
theorem OnCourse.page {window : Window} {stream : EventStream} {cursor : Option String}
    {summary : SyncSummary} {page : Page}
    (hcourse : OnCourse source syncer target m (.fetching window stream cursor summary))
    (h : source.fetchPage stream window.start window.stop cursor page) :
    OnCourse source syncer target m (Phase.receive window stream summary (.ok page)) := by
  obtain ⟨hs, he⟩ := window.addEvents_blocks page.events
  have hmore : ∀ {stream events}, source.fetchPage stream window.start window.stop cursor page →
      Fetched source stream window.start window.stop cursor events → ∀ {next}, page.cursor = some next →
      Fetched source stream window.start window.stop (some next) (events ++ page.events) :=
    fun h hfetched _ hc rest hrest => by
      rw [List.append_assoc]
      exact hfetched _ (.more h hc hrest)
  cases hcourse with
  | @commitments _ _ _ events hstart hcovers hfetched hhas =>
    have hhas' : ∀ event, (window.addEvents page.events).Has event ↔ event ∈ events ++ page.events :=
      fun event => by rw [Window.has_addEvents, hhas, List.mem_append]
    cases hc : page.cursor with
    | some next =>
      rw [receive_more hc]
      exact .commitments (by rw [hs, hstart]) (by rw [hs, he]; exact hcovers)
        (by rw [hs, he]; exact hmore h hfetched hc) hhas'
    | none =>
      rw [receive_last hc]
      exact .nullifiers (by rw [hs, hstart]) (by rw [hs, he]; exact hcovers)
        (by rw [hs, he]; exact hfetched _ (.last h hc)) fetched_nil
        fun event => by rw [hhas', List.append_nil]
  | @nullifiers _ _ _ drained events hstart hcovers hdrained hfetched hhas =>
    have hhas' : ∀ event, (window.addEvents page.events).Has event ↔
        event ∈ drained ++ (events ++ page.events) :=
      fun event => by
        rw [Window.has_addEvents, hhas, ← List.append_assoc]
        exact List.mem_append.symm
    cases hc : page.cursor with
    | some next =>
      rw [receive_more hc]
      exact .nullifiers (by rw [hs, hstart]) (by rw [hs, he]; exact hcovers)
        (by rw [hs, he]; exact hdrained) (by rw [hs, he]; exact hmore h hfetched hc) hhas'
    | none =>
      rw [receive_last hc]
      exact .committing (by rw [hs, hstart]) (by rw [hs, he]; exact hcovers)
        (by rw [hs, he]; exact hdrained) (by rw [hs, he]; exact hfetched _ (.last h hc)) hhas'

theorem OnCourse.covers {window : Window} {summary : SyncSummary}
    (hcourse : OnCourse source syncer target m (.committing window summary)) :
    window.start.toNat = m ∧ syncer.Covers target window.start window.stop := by
  cases hcourse with
  | committing hstart hcovers => exact ⟨hstart, hcovers⟩

/-- The window that is committed has the events of its blocks. -/
theorem OnCourse.window_has {chain : Chain} (hyields : source.Yields chain) {window : Window}
    {summary : SyncSummary} (hcourse : OnCourse source syncer target m (.committing window summary))
    (event : SyncEvent) :
    window.Has event ↔ chain.Between window.start.toNat (window.stop.toNat + 1) event := by
  cases hcourse with
  | committing hstart hcovers hdrained hdrained' hhas =>
    have hle : window.start ≤ window.stop := hcovers.start_le
    rw [hhas, List.mem_append, hyields hle hdrained, hyields hle hdrained']
    constructor
    · rintro (⟨block, hmem, hlo, hhi⟩ | ⟨block, hmem, hlo, hhi⟩)
      · exact ⟨.commitments, block, hmem, hlo, Nat.lt_succ_of_le hhi⟩
      · exact ⟨.nullifiers, block, hmem, hlo, Nat.lt_succ_of_le hhi⟩
    · rintro ⟨stream, block, hmem, hlo, hhi⟩
      cases stream with
      | commitments => exact .inl ⟨block, hmem, hlo, Nat.le_of_lt_succ hhi⟩
      | nullifiers => exact .inr ⟨block, hmem, hlo, Nat.le_of_lt_succ hhi⟩

/-! ## Draining -/

section
variable {tables : PoseidonTables} {serde : Serde MerkleAccumulatorState}

/-- What a stream drains to can be fetched. -/
theorem run_drain {stream : EventStream} {start stop : BlockNumber} {cursor : Option String}
    {events : List SyncEvent} (h : source.Drain stream start stop cursor events)
    (summary : SyncSummary) (db : Database) : ∀ {window : Window}, window.start = start →
    window.stop = stop → syncer.Run tables serde source target (.fetching window stream cursor summary, db) []
      (.drained (window.addEvents events) stream summary, db) := by
  induction h with
  | @last cursor page h hlast =>
    rintro window rfl rfl
    rw [← receive_last hlast]
    exact .step (.page db h) (.done _)
  | @more cursor page next events h hnext rest ih =>
    rintro window rfl rfl
    obtain ⟨hs, he⟩ := window.addEvents_blocks page.events
    have hpage : syncer.Step tables serde source target (.fetching window stream cursor summary, db) []
        (.fetching (window.addEvents page.events) stream (some next) summary, db) := by
      rw [← receive_more hnext]
      exact .page db h
    rw [Window.addEvents, List.foldl_append]
    exact .step hpage (ih hs he)

theorem Syncer.Run.trans {state state' state'' : Phase × Database}
    {windows windows' : List (BlockNumber × BlockNumber)}
    (h : syncer.Run tables serde source target state windows state')
    (h' : syncer.Run tables serde source target state' windows' state'') :
    syncer.Run tables serde source target state (windows ++ windows') state'' := by
  induction h with
  | done => exact h'
  | step hstep _ ih =>
    rw [List.append_assoc]
    exact .step hstep (ih h')

/-- A window can be fetched from a source that serves its chain. -/
theorem run_fetch {chain : Chain} (hserves : source.Serves chain) {start stop : BlockNumber}
    (hcovers : syncer.Covers target start stop) (summary : SyncSummary) (db : Database) :
    ∃ window : Window, window.start = start ∧ window.stop = stop ∧
      (∀ event, window.Has event ↔ chain.Between start.toNat (stop.toNat + 1) event) ∧
      syncer.Run tables serde source target
        (.fetching ⟨start, stop, [], []⟩ .commitments none summary, db) []
        (.committing window summary, db) := by
  obtain ⟨events, hdrain⟩ := hserves.drains .commitments start stop hcovers.start_le
  obtain ⟨events', hdrain'⟩ := hserves.drains .nullifiers start stop hcovers.start_le
  obtain ⟨hs, he⟩ := Window.addEvents_blocks events ⟨start, stop, [], []⟩
  have hblocks := Window.addEvents_blocks events' (Window.addEvents ⟨start, stop, [], []⟩ events)
  rw [hs, he] at hblocks
  refine ⟨_, hblocks.1, hblocks.2, fun event => ?_, (run_drain hdrain summary db rfl rfl).trans
    (run_drain hdrain' summary db hs he)⟩
  have hcourse : OnCourse source syncer target start.toNat
      (.committing (Window.addEvents (Window.addEvents ⟨start, stop, [], []⟩ events) events') summary) := by
    refine .committing (by rw [hblocks.1]) (by rw [hblocks.1, hblocks.2]; exact hcovers)
      (by rw [hblocks.1, hblocks.2]; exact hdrain) (by rw [hblocks.1, hblocks.2]; exact hdrain')
      fun event => ?_
    rw [Window.has_addEvents, Window.has_addEvents, List.mem_append]
    refine or_congr_left (or_iff_right ?_)
    cases event <;> exact List.not_mem_nil
  rw [hcourse.window_has hserves.yields, hblocks.1, hblocks.2]

/-- And committed, if a larger forest has what the source sends. -/
theorem run_window (hJ : serde.RoundTrips) {chain : Chain} (hserves : source.Serves chain)
    {start stop : BlockNumber} (hcovers : syncer.Covers target start stop) (summary : SyncSummary)
    {db : Database} {F G : Forest} (hdb : Folded tables serde db.engine F F.length)
    (hwithin : F.Within G) (hin : ∀ event, chain.Between start.toNat (stop.toNat + 1) event → G.Has event) :
    ∃ summary' db', syncer.Run tables serde source target
        (.fetching ⟨start, stop, [], []⟩ .commitments none summary, db) [(start, stop)]
        (syncer.nextWindow target (BlockNumber.saturatingAdd stop 1) summary', db') ∧
      ∃ F' : Forest, Folded tables serde db'.engine F' F'.length ∧ F'.synced = some stop ∧
        ∀ event, F'.Has event ↔ F.Has event ∨ chain.Between start.toNat (stop.toNat + 1) event := by
  obtain ⟨window, rfl, rfl, hhas, hrun⟩ := run_fetch hserves hcovers summary db
  have ha := accepts_window hwithin fun event h => hin event ((hhas event).mp h)
  obtain ⟨db', next', hw, hF, hfull, -⟩ := commitWindow_folded hJ window.stop hdb ha
    (sees_of_full F window.commitments)
  rw [funext fun t => hfull t fun q n hn => .inl (Forest.lt_length hn)] at hF
  have hcommit : syncer.Step tables serde source target (.committing window summary, db)
    [(window.start, window.stop)] _ := .commit db
  rw [Syncer.commit, hw] at hcommit
  exact ⟨_, db', hrun.trans (.step hcommit (.done _)), _, hF, rfl, fun event => by
    rw [has_window ha, hhas]⟩

end

end

/-! ## Whole ranges -/

/-- A source that sends what there is of a range in one page. -/
def EventSource.whole (chain : Chain) : EventSource := ⟨fun stream start stop _ page =>
  page = ⟨((chain stream).filter fun e => start ≤ e.1 ∧ e.1 ≤ stop).map Prod.snd, none⟩⟩

theorem whole_serves (chain : Chain) : (EventSource.whole chain).Serves chain where
  yields {stream start stop events} _ h event := by
    cases h with
    | last h =>
      rw [h]
      simp [and_assoc, and_comm]
    | more h hnext =>
      rw [h] at hnext
      cases hnext
  drains stream start stop _ := ⟨_, .last rfl rfl⟩

/-- One leaf, in block 4. -/
def leafChain : Chain
  | .commitments => [(4, .commitment firstLeaf)]
  | .nullifiers => []

theorem leafChain_has {lo hi : Nat} {event : SyncEvent} (h : leafChain.Between lo hi event) :
    firstForest.Has event := by
  obtain ⟨stream, block, hmem, -, -⟩ := h
  cases stream with
  | commitments =>
    obtain ⟨-, rfl⟩ := Prod.mk.inj (List.mem_singleton.mp hmem)
    show firstForest.nodeAt firstLeaf = some firstLeaf
    simp [firstForest, Forest.nodeAt, Forest.store]
  | nullifiers => cases hmem

theorem within_leafChain {F : Forest} {lo hi : Nat}
    (h : ∀ event, F.Has event ↔ Forest.empty.Has event ∨ leafChain.Between lo hi event) :
    F.Within firstForest := Forest.within_of_has fun event he =>
  ((h event).mp he).elim (fun he => absurd he (empty_has event)) leafChain_has

end Railgun
