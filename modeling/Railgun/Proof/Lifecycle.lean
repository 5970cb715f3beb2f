import Railgun.Impl.Json
import Railgun.Impl.PoseidonT3
import Railgun.Proof.Batch
import Railgun.Proof.Window
import Railgun.Spec.Lifecycle

/-!
# Opening, and opening again

`check_and_stamp` goes through the stamps in order: it stops at the first that
does not pass, and leaves those that are missing stamped (`checkStamps_spec`).
Of the typed calls nothing else writes a stamp, only saving writes the notes, and
no record is deleted (`runCall_keeps`, `windowTxn_spares`), so what is at such a
key over a file's life is what its steps may put there (`live_cell`): the file
goes on to open (`reopen_lossless`).
-/

namespace Railgun

open OrdMap Outcome BigEndian

/-! ## Stamps -/

theorem versionKey_inj {table table' : TableId} (h : versionKey table = versionKey table') :
    table = table' := by
  cases table <;> cases table' <;> first | rfl | exact absurd h (by decide +kernel)

/-- What `check_and_stamp` does for one table. -/
def checkStamp (v : TableId × U32) : EStateM DatabaseError WriteTxn Unit := do
  match ← reading (readVersion · v.1) with
  | some found =>
    if found ≠ v.2 then throw (.schemaVersion v.1.name found v.2)
  | none => Writer.put .metadata (versionKey v.1) (beBytes 4 v.2)

theorem checkAndStamp_eq : checkAndStamp = schemaVersions.forM checkStamp := rfl

/-- A stamp is read where it was put, and is none of the others. -/
theorem readVersion_of_get {tables tables' : Tables} {table : TableId}
    (h : (tables' .metadata)[versionKey table]? = (tables .metadata)[versionKey table]?) :
    readVersion (ReadView.mk tables') table = readVersion (ReadView.mk tables) table := by
  simp only [readVersion, Reader.get, h]

theorem readVersion_of_stamp {tables : Tables} {table : TableId} {expected : U32}
    (h : (tables .metadata)[versionKey table]? = some (beBytes 4 expected)) :
    readVersion (ReadView.mk tables) table = .ok (some expected) := by
  simp only [readVersion, Reader.get, h, ok_bind, length_beBytes, if_true,
    fromBeBytes_beBytes (show 2 ^ 32 ≤ 256 ^ 4 by decide)]
  rfl

/-- A current stamp is the one that would be put. -/
theorem stamp_of_readVersion {tables : Tables} {table : TableId} {expected : U32}
    (h : readVersion (ReadView.mk tables) table = .ok (some expected)) :
    (tables .metadata)[versionKey table]? = some (beBytes 4 expected) := by
  simp only [readVersion, Reader.get, ok_bind] at h
  cases hg : (tables .metadata)[versionKey table]? with
  | none =>
    rw [hg] at h
    cases h
  | some bytes =>
    simp only [hg] at h
    split at h
    · rename_i hlen
      obtain rfl := Option.some.inj (Except.ok.inj h)
      rw [beBytes_fromBeBytes (by decide) hlen]
    · cases h

theorem checkStamp_passes {tables : Tables} {v : TableId × U32} (h : StampPasses tables v.1 v.2) :
    ∃ tables', checkStamp v ⟨tables⟩ = .ok () ⟨tables'⟩ ∧ Stamped [v] tables tables' := by
  have hread : ∀ {version}, readVersion (ReadView.mk tables) v.1 = .ok version →
      reading (readVersion · v.1) (WriteTxn.mk tables) = .ok version ⟨tables⟩ := fun h => reading_ok h
  rcases h with h | h
  · refine ⟨_, run_bind_of_ok (hread h), ?_, ?_, ?_⟩
    · exact fun table ht => Function.update_of_ne ht _ _
    · intro v' hv'
      obtain rfl := List.mem_singleton.mp hv'
      simp [Tables.modify]
    · intro key hkey
      show (tables.modify .metadata (·.insert (versionKey v.1) (beBytes 4 v.2)) .metadata)[key]? = _
      simp only [Tables.modify, Function.update_self, getElem?_insert,
        if_neg (hkey v List.mem_cons_self)]
  · refine ⟨tables, (run_bind_of_ok (hread h)).trans ?_, fun _ _ => rfl, ?_, fun _ _ => rfl⟩
    · simp only [ne_eq, not_true_eq_false, if_false]
      rfl
    · intro v' hv'
      obtain rfl := List.mem_singleton.mp hv'
      exact stamp_of_readVersion h

theorem checkStamp_fails {tables : Tables} {v : TableId × U32} {e : DatabaseError}
    (h : StampFails tables v.1 v.2 e) : checkStamp v ⟨tables⟩ = .error e ⟨tables⟩ := by
  cases h with
  | malformed h =>
    have hread : reading (readVersion · v.1) (WriteTxn.mk tables) = .error e ⟨tables⟩ := by
      rw [reading, show readVersion (WriteTxn.mk tables) v.1 = .error e from h]
    exact run_bind_of_error hread
  | mismatch h hne =>
    have hread : reading (readVersion · v.1) (WriteTxn.mk tables) = .ok (some _) ⟨tables⟩ := reading_ok h
    refine (run_bind_of_ok hread).trans ?_
    simp only [ne_eq, hne, not_false_eq_true, if_true]
    rfl

theorem stamp_passes_or_fails (tables : Tables) (table : TableId) (expected : U32) :
    StampPasses tables table expected ∨ ∃ e, StampFails tables table expected e := by
  cases h : readVersion (ReadView.mk tables) table with
  | error e => exact .inr ⟨e, .malformed h⟩
  | ok version =>
    cases version with
    | none => exact .inl (.inl h)
    | some found =>
      by_cases hne : found = expected
      · exact .inl (.inr (hne ▸ h))
      · exact .inr ⟨_, .mismatch h hne⟩

/-! ## Opening -/

/-- Stamps of one table are put without a change to what is read of the others. -/
theorem passes_iff_of_stamped {v : TableId × U32} {tables tables' : Tables} (h : Stamped [v] tables tables')
    {table : TableId} (hne : table ≠ v.1) :
    readVersion (ReadView.mk tables') table = readVersion (ReadView.mk tables) table :=
  readVersion_of_get (h.others _ fun v' hv' he => by
    obtain rfl := List.mem_singleton.mp hv'
    exact hne (versionKey_inj he))

theorem Stamped.cons {v : TableId × U32} {versions : List (TableId × U32)} {tables tables' tables'' : Tables}
    (hv : v.1 ∉ versions.map Prod.fst) (h : Stamped [v] tables tables')
    (h' : Stamped versions tables' tables'') : Stamped (v :: versions) tables tables'' where
  elsewhere table ht := (h'.elsewhere table ht).trans (h.elsewhere table ht)
  stamp v' hv' := by
    rcases List.mem_cons.mp hv' with rfl | hv'
    · rw [h'.others _ fun w hw he => hv (by rw [versionKey_inj he]; exact List.mem_map_of_mem hw)]
      exact h.stamp _ List.mem_cons_self
    · exact h'.stamp v' hv'
  others key hkey := (h'.others key fun v' hv' => hkey v' (List.mem_cons_of_mem _ hv')).trans
    (h.others key fun v' hv' => by
      obtain rfl := List.mem_singleton.mp hv'
      exact hkey _ List.mem_cons_self)

/-- The stamps are gone through in order, to the first that does not pass. -/
theorem checkStamps_spec : ∀ (versions : List (TableId × U32)) (tables : Tables),
    (versions.map Prod.fst).Nodup →
    ((∀ v ∈ versions, StampPasses tables v.1 v.2) → ∃ tables',
      (versions.forM checkStamp : EStateM DatabaseError WriteTxn Unit) ⟨tables⟩ = .ok () ⟨tables'⟩ ∧
      Stamped versions tables tables') ∧
    ∀ {passed v rest e}, versions = passed ++ v :: rest → (∀ v ∈ passed, StampPasses tables v.1 v.2) →
      StampFails tables v.1 v.2 e → ∃ txn,
        (versions.forM checkStamp : EStateM DatabaseError WriteTxn Unit) ⟨tables⟩ = .error e txn
  | [], tables, _ => ⟨fun _ => ⟨tables, rfl, fun _ _ => rfl, nofun, fun _ _ => rfl⟩,
      fun h => absurd h (by simp)⟩
  | v :: versions, tables, hnodup => by
    obtain ⟨hv, hnodup⟩ := List.nodup_cons.mp hnodup
    have hne : ∀ {v'}, v' ∈ versions → v'.1 ≠ v.1 := fun hv' he => hv (he ▸ List.mem_map_of_mem hv')
    constructor
    · intro hpass
      obtain ⟨tables', hstep, hstamped⟩ := checkStamp_passes (hpass v List.mem_cons_self)
      obtain ⟨tables'', hrest, hstamped'⟩ := (checkStamps_spec versions tables' hnodup).1
        fun v' hv' => by
          rw [StampPasses, passes_iff_of_stamped hstamped (hne hv')]
          exact hpass v' (List.mem_cons_of_mem _ hv')
      exact ⟨tables'', (run_bind_of_ok hstep).trans hrest, hstamped.cons hv hstamped'⟩
    · intro passed v' rest e heq hpass hfail
      cases passed with
      | nil =>
        obtain ⟨rfl, rfl⟩ := List.cons.inj heq
        exact ⟨_, run_bind_of_error (checkStamp_fails hfail)⟩
      | cons v₀ passed =>
        obtain ⟨rfl, rfl⟩ := List.cons.inj heq
        obtain ⟨tables', hstep, hstamped⟩ := checkStamp_passes (hpass v List.mem_cons_self)
        have hread : ∀ v'' ∈ passed ++ v' :: rest,
            readVersion (ReadView.mk tables') v''.1 = readVersion (ReadView.mk tables) v''.1 :=
          fun v'' hv'' => passes_iff_of_stamped hstamped (hne hv'')
        obtain ⟨txn, hrest⟩ := (checkStamps_spec _ tables' hnodup).2 rfl
          (fun v'' hv'' => by
            rw [StampPasses, hread v'' (List.mem_append_left _ hv'')]
            exact hpass v'' (List.mem_cons_of_mem _ hv'')) (by
            have hv' := hread v' (by simp)
            cases hfail with
            | malformed h => exact .malformed (hv'.trans h)
            | mismatch h hne => exact .mismatch (hv'.trans h) hne)
        exact ⟨txn, (run_bind_of_ok hstep).trans hrest⟩

/-- The stamps leave no choice of the other entries. -/
theorem Stamped.unique {versions : List (TableId × U32)} {tables tables' tables'' : Tables}
    (h : Stamped versions tables tables') (h' : Stamped versions tables tables'') : tables' = tables'' := by
  funext table
  by_cases ht : table = .metadata
  · subst ht
    refine Std.ExtTreeMap.ext_getElem? fun key => ?_
    by_cases hkey : ∃ v ∈ versions, key = versionKey v.1
    · obtain ⟨v, hv, rfl⟩ := hkey
      rw [h.stamp v hv, h'.stamp v hv]
    · have hothers : ∀ v ∈ versions, key ≠ versionKey v.1 := fun v hv he => hkey ⟨v, hv, he⟩
      rw [h.others key hothers, h'.others key hothers]
  · rw [h.elsewhere table ht, h'.elsewhere table ht]

/-- All stamps pass, or there is a first that does not. -/
theorem pass_or_first_fails (tables : Tables) : ∀ versions : List (TableId × U32),
    (∀ v ∈ versions, StampPasses tables v.1 v.2) ∨ ∃ passed v rest e, versions = passed ++ v :: rest ∧
      (∀ v ∈ passed, StampPasses tables v.1 v.2) ∧ StampFails tables v.1 v.2 e
  | [] => .inl nofun
  | v :: versions => by
    rcases stamp_passes_or_fails tables v.1 v.2 with hv | ⟨e, he⟩
    · rcases pass_or_first_fails tables versions with hall | ⟨passed, v', rest, e, rfl, hpass, hfail⟩
      · exact .inl (List.forall_mem_cons.mpr ⟨hv, hall⟩)
      · exact .inr ⟨v :: passed, v', rest, e, rfl, List.forall_mem_cons.mpr ⟨hv, hpass⟩, hfail⟩
    · exact .inr ⟨[], v, versions, e, rfl, nofun, he⟩

theorem schemaVersions_nodup : (schemaVersions.map Prod.fst).Nodup := by decide

theorem open_of_passes {tables : Tables} (h : ∀ v ∈ schemaVersions, StampPasses tables v.1 v.2) :
    ∃ db, Database.initialize ⟨tables⟩ = (.ok (), db) ∧ Database.open tables = .ok db ∧
      Stamped schemaVersions tables db.engine := by
  obtain ⟨tables', hrun, hstamped⟩ := (checkStamps_spec _ tables schemaVersions_nodup).1 h
  have hinit : Database.initialize ⟨tables⟩ = (.ok (), ⟨tables'⟩) := by
    rw [ Database.initialize, Database.write, checkAndStamp_eq, hrun]
  exact ⟨⟨tables'⟩, hinit, by rw [Database.open, hinit], hstamped⟩

theorem open_of_fails {tables : Tables} {passed rest : List (TableId × U32)} {v : TableId × U32}
    {e : DatabaseError} (heq : schemaVersions = passed ++ v :: rest)
    (hpass : ∀ v ∈ passed, StampPasses tables v.1 v.2) (hfail : StampFails tables v.1 v.2 e) :
    Database.initialize ⟨tables⟩ = (.error e, ⟨tables⟩) ∧ Database.open tables = .error e := by
  obtain ⟨txn, hrun⟩ := (checkStamps_spec _ tables schemaVersions_nodup).2 heq hpass hfail
  have hinit : Database.initialize ⟨tables⟩ = (.error e, ⟨tables⟩) := by
    rw [ Database.initialize, Database.write, checkAndStamp_eq, hrun]
  exact ⟨hinit, by rw [Database.open, hinit]⟩

/-- A file opens exactly if every stamp in it is absent or current, and then only the missing stamps
are added to it. Else the error is that of the first stamp that is neither, and the file stays as it was. -/
theorem open_outcome (tables : Tables) :
    (∀ db, Database.open tables = .ok db ↔
      (∀ v ∈ schemaVersions, StampPasses tables v.1 v.2) ∧ Stamped schemaVersions tables db.engine) ∧
    (∀ e, Database.open tables = .error e ↔ ∃ passed v rest, schemaVersions = passed ++ v :: rest ∧
      (∀ v ∈ passed, StampPasses tables v.1 v.2) ∧ StampFails tables v.1 v.2 e) ∧
    ∀ e, Database.open tables = .error e → Database.initialize ⟨tables⟩ = (.error e, ⟨tables⟩) := by
  rcases pass_or_first_fails tables schemaVersions with hall | ⟨passed, v, rest, e, heq, hpass, hfail⟩
  · obtain ⟨db, -, hopen, hstamped⟩ := open_of_passes hall
    refine ⟨fun db' => ?_, fun e => ?_, fun e he => ?_⟩
    · rw [hopen, Except.ok.injEq]
      constructor
      · rintro rfl
        exact ⟨hall, hstamped⟩
      · rintro ⟨-, h⟩
        obtain ⟨engine⟩ := db'
        exact congrArg Database.mk (hstamped.unique h)
    · refine iff_of_false (by rw [hopen]; exact fun h => by cases h) ?_
      rintro ⟨passed, v, rest, heq, hpass, hfail⟩
      rw [(open_of_fails heq hpass hfail).2] at hopen
      cases hopen
    · rw [hopen] at he
      cases he
  · obtain ⟨hinit, hopen⟩ := open_of_fails heq hpass hfail
    refine ⟨fun db => ?_, fun e' => ?_, fun e' he => ?_⟩
    · refine iff_of_false (by rw [hopen]; exact fun h => by cases h) fun h => ?_
      obtain ⟨db', -, hok, -⟩ := open_of_passes h.1
      rw [hopen] at hok
      cases hok
    · constructor
      · intro he
        rw [hopen] at he
        obtain rfl := Except.error.inj he
        exact ⟨passed, v, rest, heq, hpass, hfail⟩
      · rintro ⟨passed', v', rest', heq', hpass', hfail'⟩
        exact (open_of_fails heq' hpass' hfail').2
    · rw [hopen] at he
      obtain rfl := Except.error.inj he
      exact hinit

/-! ## What leaves a cell alone -/

/-- What the records, the frontiers and the watermark may put in a table's cells. -/
structure Steady (table : TableId) (R : Option Bytes → Prop) : Prop where
  ne_frontier : table ≠ .frontier
  put : table = .commitments → ∀ value, R (some value)

theorem steady_metadata {R : Option Bytes → Prop} : Steady .metadata R := ⟨by decide, fun h => by cases h⟩

theorem steady_decoded {R : Option Bytes → Prop} : Steady .decoded R := ⟨by decide, fun h => by cases h⟩

section
variable {table : TableId} {R : Option Bytes → Prop} (htable : Steady table R)
  {W : Type} [Reader W] [Writer W] {I : W → Prop}

omit [Reader W] [Writer W] in
theorem mutating_keeps {m : EStateM DatabaseError W Unit} (hm : Keeps I m) {store : W} (h : I store) :
    I (mutating m store).2 := by
  have := hm store h
  rw [mutating]
  cases hs : m store <;> rw [hs] at this <;> exact this

omit [Reader W] [Writer W] in
theorem answering_keeps {ε α : Type} {m : EStateM ε W α} (hm : Keeps I m) {store : W} (h : I store) :
    I (answering m store).2 := by
  have := hm store h
  rw [answering]
  cases hs : m store <;> rw [hs] at this <;> exact this

variable (hput : ∀ table' key value, (table' = table → R (some value)) →
  Keeps I (Writer.put table' key value : EStateM DatabaseError W Unit))
include htable hput

/-- A put into the commitments. -/
theorem mutate_spares (write : Write) : Keeps I (write.mutate : EStateM DatabaseError W Unit) :=
  mutate_keeps (fun key value => hput _ key value fun he => htable.put he.symm value) write

/-- A call puts nothing but what may be there, and the notes it saves. -/
theorem runCall_keeps
    (hdelete : ∀ table' key, table' ≠ table → Keeps I (Writer.delete table' key : EStateM DatabaseError W Unit))
    (backend : Backend) {call : Call}
    (hsave : table = .decoded → ∀ notes bytes, call = .saveNotes notes →
      backend.notes.toVec notes = .ok bytes → R (some bytes))
    {store : W} (h : I store) : I (runCall backend store call).2 := by
  have hfrontier : TableId.frontier ≠ table := htable.ne_frontier.symm
  cases call with
  | insertNode node => exact mutating_keeps (mutate_spares htable hput (.node node)) h
  | insertNullifier nullified => exact mutating_keeps (mutate_spares htable hput (.nullifier nullified)) h
  | setSyncedBlock block => exact mutating_keeps (mutate_spares htable hput (.synced block)) h
  | setSnapshot tree bytes => exact mutating_keeps (hput _ _ _ fun he => absurd he hfrontier) h
  | clearSnapshot tree => exact mutating_keeps (hdelete _ _ hfrontier) h
  | saveNotes notes =>
    refine mutating_keeps ?_ h
    rw [DecodedMut.save]
    cases hencoded : backend.notes.toVec notes with
    | ok encoded => exact hput _ _ _ fun he => hsave he.symm notes encoded rfl hencoded
    | error message => exact .throw _
  | _ => exact h

end

section
variable {table : TableId} {R : Option Bytes → Prop} (htable : Steady table R)
  {I : WriteTxn → Prop} (hput : ∀ table' key value, (table' = table → R (some value)) →
    Keeps I (Writer.put table' key value : EStateM DatabaseError WriteTxn Unit))
  (tables : PoseidonTables) (serde : Serde MerkleAccumulatorState)
include htable hput

theorem advanceFrontier_spares (tree : U32) (leaves : Map U32 U256) :
    Keeps I (advanceFrontier tables serde tree leaves) := by
  refine .bind (.bind (mapError_keeps (reading_keeps _)) fun snapshot => ?_) fun accumulator => ?_
  · cases snapshot with
    | none => exact .pure _
    | some bytes => exact .bind (reading_keeps _) fun _ => reading_keeps _
  refine .bind ?_ fun _ => .bind (reading_keeps _) fun bytes => mapError_keeps (hput _ _ _ fun he =>
    absurd he.symm htable.ne_frontier)
  rw [appendOrRebuild]
  exact .ite (.bind (mapError_keeps (reading_keeps _)) fun _ => .pure _) (.pure _)

/-- Nor does a window. -/
theorem windowTxn_spares (call : WindowCall) :
    Keeps I (windowTxn tables serde call.commitments call.nullifiers call.through) := by
  have hwrite : ∀ write : Write, Keeps I (write.mutate : EStateM DatabaseError WriteTxn Unit) :=
    mutate_spares htable hput
  rw [windowTxn]
  refine .bind (.forM (fun node => mapError_keeps (hwrite (.node node))) _) fun _ => ?_
  refine .bind (.forM (fun x => mapError_keeps (hwrite (.nullifier x))) _) fun _ => ?_
  refine .bind (.forM (fun e => ?_) _) fun _ => mapError_keeps (hwrite (.synced call.through))
  obtain ⟨tree, leaves⟩ := e
  exact advanceFrontier_spares htable hput tables serde tree leaves

end

/-! ## Stamps that are there -/

/-- Every stamp is there, and current. -/
def StampsKept (tables : Tables) : Prop :=
  ∀ v ∈ schemaVersions, (tables .metadata)[versionKey v.1]? = some (beBytes 4 v.2)

theorem open_of_kept {tables : Tables} (h : StampsKept tables) : Database.open tables = .ok ⟨tables⟩ := by
  obtain ⟨⟨engine⟩, -, hopen, hstamped⟩ := open_of_passes fun v hv => .inr (readVersion_of_stamp (h v hv))
  have hself : Stamped schemaVersions tables tables := ⟨fun _ _ => rfl, h, fun _ _ => rfl⟩
  obtain rfl : engine = tables := hstamped.unique hself
  exact hopen

theorem kept_of_open {tables : Tables} {db : Database} (h : Database.open tables = .ok db) :
    StampsKept db.engine := by
  rcases pass_or_first_fails tables schemaVersions with hall | ⟨passed, v, rest, e, heq, hpass, hfail⟩
  · obtain ⟨db', -, hopen, hstamped⟩ := open_of_passes hall
    rw [hopen] at h
    rw [← Except.ok.inj h]
    exact hstamped.stamp
  · rw [(open_of_fails heq hpass hfail).2] at h
    cases h

/-- A new file opens, with every stamp and nothing else. -/
theorem initialize_blank : ∃ db, Database.initialize ⟨fun _ => ∅⟩ = (.ok (), db) ∧
    Stamped schemaVersions (fun _ => ∅) db.engine := by
  have hpass : ∀ v ∈ schemaVersions, StampPasses (fun _ => ∅) v.1 v.2 := fun v _ => .inl (by
    simp only [readVersion, Reader.get, Std.ExtTreeMap.getElem?_empty]
    rfl)
  obtain ⟨db, hinit, -, hstamped⟩ := open_of_passes hpass
  exact ⟨db, hinit, hstamped⟩

theorem stamped_empty : Stamped schemaVersions (fun _ => ∅) Database.empty.engine := by
  obtain ⟨db, hinit, hstamped⟩ := initialize_blank
  rw [Database.empty, hinit]
  exact hstamped

theorem kept_empty : StampsKept Database.empty.engine := stamped_empty.stamp

theorem clearAll_eq (db : Database) : db.clearAll = (.ok (), Database.empty) := by
  have hclear : ∀ txn, (allTables.forM WriteTxn.clearTable : EStateM DatabaseError WriteTxn Unit) txn =
      .ok () ⟨fun _ => ∅⟩ := fun txn => by
    refine congrArg (fun inner => EStateM.Result.ok () (WriteTxn.mk inner)) (funext fun table => ?_)
    cases table <;> rfl
  obtain ⟨db', hinit, -⟩ := initialize_blank
  have hrun : db.clearAll = Database.initialize ⟨fun _ => ∅⟩ := by
    rw [Database.clearAll, Database.initialize, Database.write, Database.write, run_bind_of_ok (hclear _)]
    rw [ Database.initialize, Database.write] at hinit
    cases h : checkAndStamp ⟨fun _ => ∅⟩ with
    | ok value txn => rfl
    | error e txn =>
      rw [h] at hinit
      cases hinit
  rw [hrun, Database.empty, hinit]

/-! ## The life of a cell -/

/-- What is at a key in the database and in the open transaction, and what batches stage there. -/
structure World.Cell (table : TableId) (key : Bytes) (R : Option Bytes → Prop) (w : World) : Prop where
  db : R (w.db.engine table)[key]?
  txn : ∀ txn ∈ w.txn, R (txn.inner table)[key]?
  overlays : ∀ overlay ∈ w.overlays, ∀ entry ∈ (overlay.batch.staged table)[key]?, R entry

/-- A step that puts nothing else there. -/
structure LifeStep.Allows (backend : Backend) (table : TableId) (key : Bytes) (R : Option Bytes → Prop)
    (step : LifeStep) : Prop where
  clear : step = .clearAll → R (Database.empty.engine table)[key]?
  save : table = .decoded → ∀ notes bytes, step.saved? = some notes →
    backend.notes.toVec notes = .ok bytes → R (some bytes)
  raw : ∀ entry ∈ step.leaves? table key, R entry

section
variable {table : TableId} {key : Bytes} {R : Option Bytes → Prop}

theorem cell_put (table' : TableId) (key' value : Bytes) (h : table' = table → R (some value)) :
    Keeps (fun txn : WriteTxn => R (txn.inner table)[key]?)
      (Writer.put table' key' value : EStateM DatabaseError WriteTxn Unit) := fun txn hR => by
  show R (txn.inner.modify table' (·.insert key' value) table)[key]?
  by_cases ht : table = table'
  · subst ht
    rw [Tables.modify, Function.update_self, getElem?_insert]
    split
    · exact h rfl
    · exact hR
  · rwa [modify_of_ne _ ht]

theorem cell_delete (table' : TableId) (key' : Bytes) (h : table' ≠ table) :
    Keeps (fun txn : WriteTxn => R (txn.inner table)[key]?)
      (Writer.delete table' key' : EStateM DatabaseError WriteTxn Unit) := fun txn hR => by
  show R (txn.inner.modify table' (·.erase key') table)[key]?
  rwa [modify_of_ne _ h.symm]

theorem staged_put (table' : TableId) (key' value : Bytes) (h : table' = table → R (some value)) :
    Keeps (fun overlay : Overlay => ∀ entry ∈ (overlay.batch.staged table)[key]?, R entry)
      (Writer.put table' key' value : EStateM DatabaseError Overlay Unit) := fun overlay hR => by
  show ∀ entry ∈ ((overlay.batch.insert table' key' (some value)).staged table)[key]?, R entry
  by_cases ht : table = table'
  · subst ht
    rw [staged_insert, getElem?_insert]
    split
    · rintro entry ⟨⟩
      exact h rfl
    · exact hR
  · rwa [staged_insert_of_ne _ ht]

theorem staged_delete (table' : TableId) (key' : Bytes) (h : table' ≠ table) :
    Keeps (fun overlay : Overlay => ∀ entry ∈ (overlay.batch.staged table)[key]?, R entry)
      (Writer.delete table' key' : EStateM DatabaseError Overlay Unit) := fun overlay hR => by
  show ∀ entry ∈ ((overlay.batch.insert table' key' none).staged table)[key]?, R entry
  rwa [staged_insert_of_ne _ h.symm]

/-- Writes past the typed calls, where they hit the cell or not. -/
theorem cell_raw {write : RawWrite} (h : ∀ entry ∈ write.leaves? table key, R entry) :
    Keeps (fun txn : WriteTxn => R (txn.inner table)[key]?) write.run := fun txn hR => by
  have hone : ∀ table' (f : Table → Table), (table' = table → R (f (txn.inner table))[key]?) →
      R (txn.inner.modify table' f table)[key]? := fun table' f hf => by
    by_cases ht : table = table'
    · subst ht
      rw [Tables.modify, Function.update_self]
      exact hf rfl
    · rwa [modify_of_ne _ ht]
  cases write with
  | put table' key' value =>
    refine hone table' _ fun ht => ?_
    rw [getElem?_insert]
    split
    · rename_i hk
      exact h _ (if_pos ⟨ht, hk.symm⟩)
    · exact hR
  | delete table' key' =>
    refine hone table' _ fun ht => ?_
    rw [Std.ExtTreeMap.getElem?_erase]
    split
    · rename_i hk
      exact h _ (if_pos ⟨ht, Std.LawfulEqOrd.eq_of_compare hk⟩)
    · exact hR

theorem staged_raw {write : RawWrite} (h : ∀ entry ∈ write.leaves? table key, R entry) :
    Keeps (fun overlay : Overlay => ∀ entry ∈ (overlay.batch.staged table)[key]?, R entry) write.run :=
  fun overlay hR => by
  have hone : ∀ table' key' entry', (table' = table → key' = key → R entry') →
      ∀ entry ∈ ((overlay.batch.insert table' key' entry').staged table)[key]?, R entry :=
    fun table' key' entry' hf => by
      by_cases ht : table = table'
      · subst ht
        rw [staged_insert, getElem?_insert]
        split
        · rename_i hk
          rintro entry ⟨⟩
          exact hf rfl hk.symm
        · exact hR
      · rwa [staged_insert_of_ne _ ht]
  cases write with
  | put table' key' value => exact hone table' key' (some value) fun ht hk => h _ (if_pos ⟨ht, hk⟩)
  | delete table' key' => exact hone table' key' none fun ht hk => h _ (if_pos ⟨ht, hk⟩)

theorem cell_clearTable {table' : TableId} (h : table' = table → R none) :
    Keeps (fun txn : WriteTxn => R (txn.inner table)[key]?) (WriteTxn.clearTable table') := fun txn hR => by
  show R (txn.inner.modify table' (fun _ => ∅) table)[key]?
  by_cases ht : table = table'
  · subst ht
    rw [Tables.modify, Function.update_self, Std.ExtTreeMap.getElem?_empty]
    exact h rfl
  · rwa [modify_of_ne _ ht]

theorem cell_on {db : Database} (h : R (db.engine table)[key]?) : (World.on db).Cell table key R :=
  ⟨h, nofun, nofun⟩

/-- Landing a batch puts there what it stages there. -/
theorem cell_apply {db : Database} (h : R (db.engine table)[key]?) {overlay : Overlay}
    (ho : ∀ entry ∈ (overlay.batch.staged table)[key]?, R entry) :
    R ((db.apply overlay.batch).2.engine table)[key]? := by
  rw [apply_eq]
  show R ((overlay.batch.overlay db.read).tables table)[key]?
  rw [Overlay.getElem?_tables]
  cases hs : (overlay.batch.staged table)[key]? with
  | none => rwa [show ((overlay.batch.overlay db.read).batch.staged table)[key]? = none from hs]
  | some entry =>
    rw [show ((overlay.batch.overlay db.read).batch.staged table)[key]? = some entry from hs]
    exact ho entry hs

/-- A list after one of its elements is changed. -/
theorem forall_modify {α : Type} {P : α → Prop} {f : α → α} (hf : ∀ a, P a → P (f a)) {l : List α} (i : Nat)
    (h : ∀ a ∈ l, P a) : ∀ a ∈ l.modify i f, P a := by
  intro a ha
  obtain ⟨j, hj, rfl⟩ := List.mem_iff_getElem.mp ha
  rw [List.getElem_modify]
  split
  · exact hf _ (h _ (List.getElem_mem _))
  · exact h _ (List.getElem_mem _)

variable (htable : Steady table R)
include htable

theorem cell_window (tables : PoseidonTables) (serde : Serde MerkleAccumulatorState) {db : Database}
    (h : R (db.engine table)[key]?) (call : WindowCall) :
    R ((commitCall tables serde db call).2.engine table)[key]? := by
  have hkeeps : Keeps (fun txn : WriteTxn => R (txn.inner table)[key]?)
    (windowTxn tables serde call.commitments call.nullifiers call.through) :=
    windowTxn_spares htable cell_put tables serde call
  replace hkeeps := hkeeps ⟨db.engine⟩ h
  rw [commitCall, commitWindow, Database.write]
  cases hw : windowTxn tables serde call.commitments call.nullifiers call.through ⟨db.engine⟩ with
  | ok value txn =>
    rw [hw] at hkeeps
    exact hkeeps
  | error e txn => exact h

theorem World.Cell.step {backend : Backend} {w : World} (h : w.Cell table key R) (action : Action) :
    (w.step backend.tables backend.states action).Cell table key R := by
  cases action with
  | window call =>
    rw [World.step]
    split
    · exact ⟨cell_window htable _ _ h.db call, h.txn, h.overlays⟩
    · exact h
  | begin =>
    rw [World.step]
    split
    · exact ⟨h.db, fun txn ht => by rw [← Option.some.inj ht]; exact h.db, h.overlays⟩
    · exact h
  | write write =>
    refine ⟨h.db, fun txn ht => ?_, h.overlays⟩
    obtain ⟨txn, hopen, rfl⟩ := Option.map_eq_some_iff.mp ht
    exact answering_keeps (I := fun txn : WriteTxn => R (txn.inner table)[key]?)
      (mutate_spares htable cell_put write) (h.txn txn hopen)
  | commit =>
    rw [World.step]
    split
    · rename_i txn ht
      exact ⟨h.txn txn ht, nofun, h.overlays⟩
    · exact h
  | rollback => exact ⟨h.db, nofun, h.overlays⟩
  | read => exact ⟨h.db, h.txn, h.overlays⟩
  | stage v =>
    rw [World.step]
    split
    · refine ⟨h.db, h.txn, fun overlay ho => ?_⟩
      rcases List.mem_append.mp ho with ho | ho
      · exact h.overlays overlay ho
      · rw [List.mem_singleton.mp ho]
        simp [WriteBatch.overlay, WriteBatch.new, WriteBatch.staged]
    · exact h
  | overlay i v =>
    rw [World.step]
    split
    · rename_i view _
      exact ⟨h.db, h.txn, forall_modify
        (P := fun overlay : Overlay => ∀ entry ∈ (overlay.batch.staged table)[key]?, R entry)
        (f := fun overlay => overlay.batch.overlay view) (fun _ ho => ho) i h.overlays⟩
    · exact h
  | stageWrite i write =>
    exact ⟨h.db, h.txn, forall_modify
      (P := fun overlay : Overlay => ∀ entry ∈ (overlay.batch.staged table)[key]?, R entry)
      (fun overlay ho => answering_keeps
        (I := fun overlay : Overlay => ∀ entry ∈ (overlay.batch.staged table)[key]?, R entry)
        (mutate_spares htable staged_put write) ho) i h.overlays⟩
  | apply i =>
    rw [World.step]
    split
    · rename_i overlay _ ho
      exact ⟨cell_apply h.db (h.overlays overlay (List.mem_of_getElem? ho)), h.txn,
        fun overlay ho => h.overlays overlay (List.mem_of_mem_eraseIdx ho)⟩
    · exact h
  | discard i => exact ⟨h.db, h.txn, fun overlay ho => h.overlays overlay (List.mem_of_mem_eraseIdx ho)⟩

/-- A step leaves the cell as it may be; that the file opens as it was is known of the stamps. -/
theorem World.Cell.live {backend : Backend} {w w' : World} (h : w.Cell table key R)
    (hkept : StampsKept w.db.engine) {step : LifeStep} (hallows : step.Allows backend table key R)
    (hstep : w.liveStep backend step = some w') : w'.Cell table key R := by
  cases step with
  | action action =>
    obtain rfl := Option.some.inj hstep
    exact h.step htable action
  | call call =>
    obtain rfl := Option.some.inj hstep
    refine ⟨h.db, fun txn ht => ?_, h.overlays⟩
    obtain ⟨txn, hopen, rfl⟩ := Option.map_eq_some_iff.mp ht
    exact runCall_keeps htable (I := fun txn : WriteTxn => R (txn.inner table)[key]?) cell_put cell_delete
      backend (fun ht notes bytes hcall => hallows.save ht notes bytes (by rw [hcall]; rfl)) (h.txn txn hopen)
  | stageCall i call =>
    obtain rfl := Option.some.inj hstep
    exact ⟨h.db, h.txn, forall_modify
      (P := fun overlay : Overlay => ∀ entry ∈ (overlay.batch.staged table)[key]?, R entry)
      (fun overlay ho => runCall_keeps htable
        (I := fun overlay : Overlay => ∀ entry ∈ (overlay.batch.staged table)[key]?, R entry)
        staged_put staged_delete backend
        (fun ht notes bytes hcall => hallows.save ht notes bytes (by rw [hcall]; rfl)) ho) i h.overlays⟩
  | raw write =>
    obtain rfl := Option.some.inj hstep
    refine ⟨h.db, fun txn ht => ?_, h.overlays⟩
    obtain ⟨txn, hopen, rfl⟩ := Option.map_eq_some_iff.mp ht
    exact mutating_keeps (I := fun txn : WriteTxn => R (txn.inner table)[key]?) (cell_raw hallows.raw)
      (h.txn txn hopen)
  | stageRaw i write =>
    obtain rfl := Option.some.inj hstep
    exact ⟨h.db, h.txn, forall_modify
      (P := fun overlay : Overlay => ∀ entry ∈ (overlay.batch.staged table)[key]?, R entry)
      (fun overlay ho => mutating_keeps
        (I := fun overlay : Overlay => ∀ entry ∈ (overlay.batch.staged table)[key]?, R entry)
        (staged_raw hallows.raw) ho) i h.overlays⟩
  | clearTable table' =>
    obtain rfl := Option.some.inj hstep
    refine ⟨h.db, fun txn ht => ?_, h.overlays⟩
    obtain ⟨txn, hopen, rfl⟩ := Option.map_eq_some_iff.mp ht
    exact mutating_keeps (I := fun txn : WriteTxn => R (txn.inner table)[key]?)
      (cell_clearTable fun he => hallows.raw none (if_pos he)) (h.txn txn hopen)
  | clearAll =>
    obtain rfl := Option.some.inj hstep
    split
    · refine ⟨?_, h.txn, h.overlays⟩
      rw [clearAll_eq]
      exact hallows.clear rfl
    · exact h
  | reopen =>
    rw [World.liveStep, open_of_kept hkept] at hstep
    obtain rfl := Option.some.inj hstep
    exact cell_on h.db

end

/-! ## The life of a file -/

/-- The stamps are there, whatever is committed next. -/
def World.Kept (w : World) : Prop :=
  ∀ v ∈ schemaVersions, w.Cell .metadata (versionKey v.1) (· = some (beBytes 4 v.2))

theorem World.Kept.stamps {w : World} (h : w.Kept) : StampsKept w.db.engine := fun v hv => (h v hv).db

theorem kept_on {db : Database} (h : StampsKept db.engine) : (World.on db).Kept := fun v hv => cell_on (h v hv)

theorem World.Kept.live {backend : Backend} {w : World} (h : w.Kept) {step : LifeStep}
    (hstamps : step.KeepsStamps) : ∃ w', w.liveStep backend step = some w' ∧ w'.Kept := by
  have hsome : ∃ w', w.liveStep backend step = some w' := by
    cases step with
    | reopen => exact ⟨World.on w.db, by rw [World.liveStep, open_of_kept h.stamps]⟩
    | _ => exact ⟨_, rfl⟩
  obtain ⟨w', hstep⟩ := hsome
  exact ⟨w', hstep, fun v hv => (h v hv).live steady_metadata h.stamps
    ⟨fun _ => kept_empty v hv, nofun, hstamps v hv⟩ hstep⟩

/-- A life goes on to its end, and leaves a cell as its steps allow. -/
theorem live_cell {backend : Backend} {table : TableId} {key : Bytes} {R : Option Bytes → Prop}
    (htable : Steady table R) : ∀ (steps : List LifeStep) {w : World}, w.Kept → w.Cell table key R →
    (∀ step ∈ steps, step.KeepsStamps) → (∀ step ∈ steps, step.Allows backend table key R) →
    ∃ w', w.live backend steps = some w' ∧ w'.Kept ∧ w'.Cell table key R
  | [], w, hkept, hcell, _, _ => ⟨w, rfl, hkept, hcell⟩
  | step :: steps, w, hkept, hcell, hstamps, hallows => by
    obtain ⟨w', hstep, hkept'⟩ : ∃ w', w.liveStep backend step = some w' ∧ w'.Kept :=
      hkept.live (hstamps step List.mem_cons_self)
    obtain ⟨w'', hrest, hw''⟩ := live_cell htable steps hkept'
      (hcell.live htable hkept.stamps (hallows step List.mem_cons_self) hstep)
      (fun step hs => hstamps step (List.mem_cons_of_mem _ hs))
      fun step hs => hallows step (List.mem_cons_of_mem _ hs)
    exact ⟨w'', by rw [World.live, List.foldlM_cons, hstep]; exact hrest, hw''⟩

theorem live_total (backend : Backend) (steps : List LifeStep) {w : World} (h : w.Kept)
    (hstamps : ∀ step ∈ steps, step.KeepsStamps) : ∃ w', w.live backend steps = some w' ∧ w'.Kept := by
  have hany : w.Cell .metadata [] fun _ => True := ⟨trivial, fun _ _ => trivial, fun _ _ _ _ => trivial⟩
  have hallows : ∀ step ∈ steps, step.Allows backend .metadata [] fun _ => True :=
    fun step _ => ⟨fun _ => trivial, fun _ _ _ _ _ => trivial, fun _ _ => trivial⟩
  obtain ⟨w', hlive, hkept, -⟩ := live_cell steady_metadata steps h hany hstamps hallows
  exact ⟨w', hlive, hkept⟩

/-- Once a file has opened it goes on to: after anything that is done with it, and wherever the process
goes down, it opens as what was committed, and says it has the current versions, as long as no write
past the typed calls leaves another stamp. -/
theorem reopen_lossless (backend : Backend) {file : Tables} {db : Database} (h : Database.open file = .ok db)
    {steps : List LifeStep} (hstamps : ∀ step ∈ steps, step.KeepsStamps) :
    ∃ w, (World.on db).live backend steps = some w ∧
      Database.open w.db.engine = .ok w.db ∧
      (∀ v ∈ schemaVersions, readVersion w.db.read v.1 = .ok (some v.2)) ∧
      w.db.clearAll = (.ok (), Database.empty) := by
  obtain ⟨w, hlive, hkept⟩ := live_total backend steps (kept_on (kept_of_open h)) hstamps
  exact ⟨w, hlive, open_of_kept hkept.stamps, fun v hv => readVersion_of_stamp (hkept.stamps v hv),
    clearAll_eq w.db⟩

/-- A block is committed and a table is cleared, another block is under way when the process goes down,
and the tables are wiped. -/
theorem reopen_lossless_new : ∃ w, (World.on Database.empty).live
      ⟨poseidonTables, snapshotSerde, ⟨fun _ => .ok (textBytes "[]"), fun _ => .ok []⟩⟩
      [.action .begin, .call (.setSyncedBlock 5), .clearTable .frontier, .raw (.put .metadata [0] [1]),
        .action .commit, .action .begin, .call (.setSyncedBlock 9), .reopen, .clearAll] = some w ∧
    Database.open w.db.engine = .ok w.db ∧
    (∀ v ∈ schemaVersions, readVersion w.db.read v.1 = .ok (some v.2)) ∧
    w.db.clearAll = (.ok (), Database.empty) := by
  refine reopen_lossless _ (open_of_kept kept_empty) fun step hs v hv entry hentry => ?_
  have hfree : ([LifeStep.action .begin, .call (.setSyncedBlock 5), .clearTable .frontier,
      .raw (.put .metadata [0] [1]), .action .commit, .action .begin, .call (.setSyncedBlock 9), .reopen,
      .clearAll].all fun step => schemaVersions.all fun v =>
        (step.leaves? .metadata (versionKey v.1)).isNone) = true := by decide +kernel
  rw [List.all_eq_true] at hfree
  have hnone := List.all_eq_true.mp (hfree step hs) v hv
  rw [Option.isNone_iff_eq_none.mp hnone] at hentry
  cases hentry

end Railgun
