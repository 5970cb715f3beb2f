import Railgun.Proof.Wallet
import Railgun.Spec.Usage

/-!
# Syncing beside a wallet

A window and a run go the same way whatever notes a file has
(`windowTxn_beside`, `step_beside`), so all that is done with a file leaves the
rest of it as syncing alone would (`syncs_beside`), and the notes in it are those
that the blocks up to some watermark hold (`shows_scanned`).
-/

namespace Railgun

open Outcome OrdMap

/-! ## Transactions beside each other -/

theorem mapError_simulates {σ τ ε ε' α : Type} {R : σ → τ → Prop} {f : ε → ε'} {m : EStateM ε σ α}
    {m' : EStateM ε τ α} (h : Simulates R m m') : Simulates R (mapError f m) (mapError f m') := fun s t hst => by
  have := h s t hst
  rw [mapError, mapError]
  cases hm : m s <;> cases hm' : m' t <;> rw [hm, hm'] at this
  · exact this
  · exact this.elim
  · exact this.elim
  · exact ⟨congrArg f this.1, this.2⟩

/-- Transactions that differ in the notes at most. -/
def WriteTxn.Beside (txn txn' : WriteTxn) : Prop := txn.inner.Beside txn'.inner

theorem put_beside (table : TableId) (key value : Bytes) :
    Simulates WriteTxn.Beside (Writer.put table key value : EStateM DatabaseError WriteTxn Unit)
      (Writer.put table key value) := fun txn txn' h => by
  refine ⟨rfl, fun table' ht => ?_⟩
  show txn.inner.modify table (·.insert key value) table' = txn'.inner.modify table (·.insert key value) table'
  by_cases he : table' = table
  · subst he
    simp only [Tables.modify, Function.update_self, h table' ht]
  · rw [modify_of_ne _ he, modify_of_ne _ he, h table' ht]

theorem reading_beside {ε α : Type} {f : WriteTxn → Except ε α}
    (hf : ∀ txn txn', txn.Beside txn' → f txn = f txn') :
    Simulates WriteTxn.Beside (reading f) (reading f) := fun txn txn' h => by
  rw [reading, reading, hf txn txn' h]
  cases f txn' <;> exact ⟨rfl, h⟩

/-- Reads of the other tables do not show the difference. -/
theorem get_beside {txn txn' : WriteTxn} (h : txn.Beside txn') {table : TableId} (ht : table ≠ .decoded)
    (key : Bytes) : Reader.get txn table key = Reader.get txn' table key := by
  show Except.ok _ = Except.ok _
  rw [h table ht]

theorem treeFrontier_beside {txn txn' : WriteTxn} (h : txn.Beside txn') (tables : PoseidonTables) (tree : U32) :
    treeFrontier tables txn tree = treeFrontier tables txn' tree := by
  have hleaves : Commitments.leafHashes txn tree = Commitments.leafHashes txn' tree := by
    simp only [Commitments.leafHashes, Reader.range, h .commitments (by decide)]
  simp only [treeFrontier, Commitments.treeLength,
    get_beside h (show TableId.commitments ≠ .decoded by decide), hleaves]

theorem insertNode_beside (node : Node) :
    Simulates WriteTxn.Beside (CommitmentsMut.insertNode node : EStateM DatabaseError WriteTxn Unit)
      (CommitmentsMut.insertNode node) := by
  have hget : ∀ {txn txn' : WriteTxn}, txn.Beside txn' → ∀ key,
      Reader.get txn .commitments key = Reader.get txn' .commitments key :=
    fun h => get_beside h (by decide)
  unfold CommitmentsMut.insertNode
  cases encodeNode node with
  | none => exact .throw _
  | some encoded =>
    refine .bind (reading_beside fun txn txn' h => hget h _) fun existing => ?_
    cases existing with
    | some existing => exact .ite (.pure _) (.throw _)
    | none =>
      refine .bind (put_beside _ _ _) fun _ => ?_
      refine .bind (reading_beside fun txn txn' h => by simp only [Commitments.treeLength, hget h]) fun length => ?_
      refine .bind (reading_beside fun txn txn' h => by simp only [Commitments.treeCount, hget h]) fun count => ?_
      exact .bind (.ite (put_beside _ _ _) (.pure _)) fun _ => .ite (put_beside _ _ _) (.pure _)

section
variable (tables : PoseidonTables) (serde : Serde MerkleAccumulatorState)

theorem raising_beside {ε α : Type} (result : Except ε α) :
    Simulates WriteTxn.Beside (raising result : EStateM ε WriteTxn α) (raising result) :=
  reading_beside fun _ _ _ => rfl

theorem advanceFrontier_beside (tree : U32) (leaves : Map U32 U256) :
    Simulates WriteTxn.Beside (advanceFrontier tables serde tree leaves)
      (advanceFrontier tables serde tree leaves) := by
  refine .bind (.bind (mapError_simulates (reading_beside fun txn txn' h => ?_)) fun snapshot => ?_)
    fun accumulator => ?_
  · exact get_beside h (by decide) _
  · cases snapshot with
    | none => exact .pure _
    | some bytes => exact .bind (raising_beside _) fun _ => raising_beside _
  refine .bind ?_ fun _ => .bind (raising_beside _) fun bytes => mapError_simulates (put_beside _ _ _)
  rw [appendOrRebuild]
  refine .ite (.bind (mapError_simulates (reading_beside fun txn txn' h => ?_)) fun _ => .pure _) (.pure _)
  exact treeFrontier_beside h tables tree

/-- A window goes the same way beside other notes. -/
theorem windowTxn_beside (commitments : List Node) (nullifiers : List Nullified) (through : BlockNumber) :
    Simulates WriteTxn.Beside (windowTxn tables serde commitments nullifiers through)
      (windowTxn tables serde commitments nullifiers through) := by
  rw [windowTxn]
  refine .bind (.forM (fun node => mapError_simulates (insertNode_beside node)) _) fun _ => ?_
  refine .bind (.forM (fun nullified => mapError_simulates (put_beside _ _ _)) _) fun _ => ?_
  refine .bind (.forM (fun e => ?_) _) fun _ => mapError_simulates (put_beside _ _ _)
  exact advanceFrontier_beside tables serde e.1 e.2

theorem commitWindow_beside {db db' : Database} (h : db.engine.Beside db'.engine) (commitments : List Node)
    (nullifiers : List Nullified) (through : BlockNumber) :
    (commitWindow tables serde db commitments nullifiers through).1 =
        (commitWindow tables serde db' commitments nullifiers through).1 ∧
      (commitWindow tables serde db commitments nullifiers through).2.engine.Beside
        (commitWindow tables serde db' commitments nullifiers through).2.engine := by
  have hlike := windowTxn_beside tables serde commitments nullifiers through ⟨db.engine⟩ ⟨db'.engine⟩ h
  simp only [commitWindow, Database.write]
  cases hm : windowTxn tables serde commitments nullifiers through ⟨db.engine⟩ <;>
    cases hm' : windowTxn tables serde commitments nullifiers through ⟨db'.engine⟩ <;> rw [hm, hm'] at hlike
  · exact ⟨rfl, hlike.2⟩
  · exact hlike.elim
  · exact hlike.elim
  · exact ⟨congrArg Except.error hlike.1, h⟩

end

/-! ## Runs beside each other -/

theorem syncedBlock_beside {db db' : Database} (h : db.engine.Beside db'.engine) :
    Commitments.syncedBlock db.read = Commitments.syncedBlock db'.read := by
  have hget : Reader.get db.read .commitments syncedBlockKey = Reader.get db'.read .commitments syncedBlockKey := by
    show Except.ok _ = Except.ok _
    rw [show db.read.txn = db.engine from rfl, show db'.read.txn = db'.engine from rfl, h .commitments (by decide)]
  simp only [Commitments.syncedBlock, hget]

section
variable {σ : Type} {tables : PoseidonTables} {serde : Serde MerkleAccumulatorState} {network : Network σ}
  {wire : Wire} {client : SubsquidClient} {syncer : Syncer}

theorem commit_beside {db db' : Database} (h : db.engine.Beside db'.engine) (target : BlockNumber)
    (window : Window) (summary : SyncSummary) :
    (syncer.commit tables serde db target window summary).1 =
        (syncer.commit tables serde db' target window summary).1 ∧
      (syncer.commit tables serde db target window summary).2.engine.Beside
        (syncer.commit tables serde db' target window summary).2.engine := by
  obtain ⟨hresult, hdb⟩ := commitWindow_beside tables serde h window.commitments window.nullifiers window.stop
  rw [Syncer.commit, Syncer.commit]
  cases hw : commitWindow tables serde db window.commitments window.nullifiers window.stop with
  | mk result next =>
    cases hw' : commitWindow tables serde db' window.commitments window.nullifiers window.stop with
    | mk result' next' =>
      rw [hw, hw'] at hresult hdb
      obtain rfl : result = result' := hresult
      cases result <;> exact ⟨rfl, hdb⟩

/-- A step commits a window, or it leaves the database, of which it reads the watermark at most. -/
theorem step_cases {phase : HeadPhase} {db : Database} {s : σ} {session : Session σ}
    (hstep : Session.step tables serde network wire client syncer ⟨phase, db, s⟩ = some session) :
    (session.db = db ∧ ∀ db', db.engine.Beside db'.engine →
      Session.step tables serde network wire client syncer ⟨phase, db', s⟩ = some { session with db := db' }) ∨
    ∃ target window summary, phase = .running target (.committing window summary) ∧
      session = ⟨.running target (syncer.commit tables serde db target window summary).1,
        (syncer.commit tables serde db target window summary).2, s⟩ := by
  cases phase with
  | checking =>
    obtain rfl := Option.some.inj hstep
    refine .inl ⟨rfl, fun db' h => ?_⟩
    simp only [Session.step, HeadPhase.check, Commitments.isSynced, syncedBlock_beside h]
  | asking =>
    rw [Session.step] at hstep
    cases hask : client.latestBlock network wire s with
    | ok target s' =>
      cases target with
      | none =>
        simp only [hask] at hstep
        cases hstep
      | some target =>
        simp only [hask] at hstep
        obtain rfl := Option.some.inj hstep
        exact .inl ⟨rfl, fun db' _ => by rw [Session.step]; simp only [hask]⟩
    | error e s' =>
      simp only [hask] at hstep
      obtain rfl := Option.some.inj hstep
      exact .inl ⟨rfl, fun db' _ => by rw [Session.step]; simp only [hask]⟩
  | running target phase =>
    cases phase with
    | start =>
      obtain rfl := Option.some.inj hstep
      refine .inl ⟨rfl, fun db' h => ?_⟩
      simp only [Session.step, Syncer.begin, syncedBlock_beside h]
    | fetching window stream cursor summary =>
      rw [Session.step] at hstep
      cases hpage : client.fetchPage network wire stream window.start window.stop cursor s with
      | ok page s' =>
        cases page with
        | none =>
          simp only [hpage] at hstep
          cases hstep
        | some page =>
          simp only [hpage] at hstep
          obtain rfl := Option.some.inj hstep
          exact .inl ⟨rfl, fun db' _ => by rw [Session.step]; simp only [hpage]⟩
      | error e s' =>
        simp only [hpage] at hstep
        obtain rfl := Option.some.inj hstep
        exact .inl ⟨rfl, fun db' _ => by rw [Session.step]; simp only [hpage]⟩
    | committing window summary => exact .inr ⟨target, window, summary, rfl, (Option.some.inj hstep).symm⟩
    | returned result => cases hstep
  | returned result => cases hstep

/-- So does a step of a run, and it has the same to ask of the network. -/
theorem step_beside {phase : HeadPhase} {db db' : Database} {s : σ} {session : Session σ}
    (h : db.engine.Beside db'.engine)
    (hstep : Session.step tables serde network wire client syncer ⟨phase, db, s⟩ = some session) :
    ∃ next, Session.step tables serde network wire client syncer ⟨phase, db', s⟩ =
      some ⟨session.phase, next, session.network⟩ ∧ session.db.engine.Beside next.engine := by
  rcases step_cases hstep with ⟨hdb, hsame⟩ | ⟨target, window, summary, rfl, rfl⟩
  · exact ⟨db', hsame db' h, by rwa [hdb]⟩
  · obtain ⟨hphase, hdb⟩ : (syncer.commit tables serde db target window summary).1 = _ ∧ _ :=
      commit_beside h target window summary
    refine ⟨_, ?_, hdb⟩
    rw [hphase]
    rfl

/-- A step leaves a cell alone that windows leave alone. -/
theorem step_cell {table : TableId} {key : Bytes} {R : Option Bytes → Prop} (htable : Steady table R)
    {phase : HeadPhase} {db : Database} {s : σ} {session : Session σ} (h : R (db.engine table)[key]?)
    (hstep : Session.step tables serde network wire client syncer ⟨phase, db, s⟩ = some session) :
    R (session.db.engine table)[key]? := by
  rcases step_cases hstep with ⟨hdb, -⟩ | ⟨target, window, summary, rfl, rfl⟩
  · rwa [hdb]
  · have hcell := cell_window htable tables serde h ⟨window.commitments, window.nullifiers, window.stop⟩
    rw [commitCall] at hcell
    show R ((syncer.commit tables serde db target window summary).2.engine table)[key]?
    rw [Syncer.commit]
    cases hw : commitWindow tables serde db window.commitments window.nullifiers window.stop with
    | mk result next =>
      rw [hw] at hcell
      cases result <;> exact hcell

end

/-! ## A wallet in use -/

theorem withNotes_beside (db : Database) (bytes : Bytes) : (db.withNotes bytes).engine.Beside db.engine :=
  fun _ ht => withNotes_of_ne db bytes ht

theorem write_save {serde : Serde (List DecryptedNote)} {notes : List DecryptedNote} {bytes : Bytes}
    (h : serde.toVec notes = .ok bytes) (db : Database) :
    db.write (DecodedMut.save serde notes) = (.ok (), db.withNotes bytes) := by
  simp only [Database.write, DecodedMut.save, h]
  rfl

/-- What a save that succeeded leaves. -/
theorem save_ok {serde : Serde (List DecryptedNote)} {notes : List DecryptedNote} {db db' : Database}
    (h : db.write (DecodedMut.save serde notes) = (.ok (), db')) :
    ∃ bytes, serde.toVec notes = .ok bytes ∧ db' = db.withNotes bytes := by
  cases hbytes : serde.toVec notes with
  | ok bytes =>
    rw [write_save hbytes] at h
    exact ⟨bytes, rfl, (Prod.mk.inj h).2.symm⟩
  | error message =>
    have hsave : db.write (DecodedMut.save serde notes) = (.error (.serde message), db) := by
      simp only [Database.write, DecodedMut.save, hbytes]
      rfl
    rw [hsave] at h
    cases h

namespace Usage

section
variable {σ : Type} (backend : Backend) (network : Network σ) (wire : Wire) (floor head : BlockNumber)

/-- What syncing alone would have come to by now. -/
def Syncs (u : Usage σ) (db : Database) : Prop :=
  match u.run with
  | none => Sessions backend.tables backend.states network wire floor head db
  | some run => ∃ phase start s, Sessions backend.tables backend.states network wire floor head start ∧
    run.syncer.floor = floor ∧ phase.Starts head ∧
    Session.Run backend.tables backend.states network wire run.client run.syncer ⟨phase, start, s⟩
      ⟨run.phase, db, run.network⟩

/-- The file is beside it, and says its versions. -/
structure Sound (u : Usage σ) : Prop where
  beside : ∃ db, u.Syncs backend network wire floor head db ∧ u.db.engine.Beside db.engine
  stamps : StampsKept u.db.engine

end

section
variable {σ : Type} {backend : Backend} {network : Network σ} {wire : Wire} {prims : Primitives}
  {decoder : Decoder} {floor head : BlockNumber} {u u' : Usage σ}

/-- A run may be stopped anywhere. -/
theorem Syncs.sessions {db : Database} (h : u.Syncs backend network wire floor head db) :
    Sessions backend.tables backend.states network wire floor head db := by
  rw [Syncs] at h
  cases hrun : u.run with
  | none =>
    rw [hrun] at h
    exact h
  | some run =>
    rw [hrun] at h
    obtain ⟨phase, start, s, hstart, hfloor, hphase, hsession⟩ := h
    exact .run hstart hfloor hphase hsession

theorem Sound.step (hu : u.Sound backend network wire floor head)
    (h : Step backend network wire prims decoder floor head u u') : u'.Sound backend network wire floor head := by
  obtain ⟨⟨db, hsyncs, hbeside⟩, hstamps⟩ := hu
  cases h with
  | @start run hidle hfloor hstart =>
    refine ⟨⟨db, ?_, hbeside⟩, hstamps⟩
    exact ⟨run.phase, db, run.network, hsyncs.sessions, hfloor, hstart, .refl⟩
  | @advance run session hrun hstep =>
    obtain ⟨next, hnext, hbeside'⟩ := step_beside hbeside hstep
    refine ⟨⟨next, ?_, hbeside'⟩, fun v hv => ?_⟩
    · rw [Syncs, hrun] at hsyncs
      obtain ⟨phase, start, s, hstart, hfloor, hphase, hsession⟩ := hsyncs
      exact ⟨phase, start, s, hstart, hfloor, hphase, hsession.tail hnext⟩
    · exact step_cell (R := (· = some (BigEndian.beBytes 4 v.2))) steady_metadata (hstamps v hv) hstep
  | stop => exact ⟨⟨db, hsyncs.sessions, hbeside⟩, hstamps⟩
  | scan hsynced hnotes => exact ⟨⟨db, hsyncs, hbeside⟩, hstamps⟩
  | @save watermark notes flat db' hscan hflat hsave =>
    obtain ⟨bytes, -, rfl⟩ := save_ok hsave
    refine ⟨⟨db, hsyncs, fun table ht => (withNotes_beside u.db bytes table ht).trans (hbeside table ht)⟩,
      fun v hv => ?_⟩
    rw [show (u.db.withNotes bytes).engine .metadata = u.db.engine .metadata from
      withNotes_beside u.db bytes .metadata (by decide)]
    exact hstamps v hv
  | clearAll hidle =>
    rw [clearAll_eq]
    refine ⟨⟨Database.empty, ?_, fun _ _ => rfl⟩, kept_empty⟩
    rw [Syncs]
    simp only [hidle]
    exact .new
  | reopen hopen =>
    rw [open_of_kept hstamps] at hopen
    obtain rfl := Except.ok.inj hopen
    exact ⟨⟨db, hsyncs.sessions, hbeside⟩, hstamps⟩

end

section
variable {σ : Type} {backend : Backend} {network : Network σ} {wire : Wire} {prims : Primitives}
  {decoder : Decoder} {archive : Archive} {floor : BlockNumber} {u : Usage σ}

/-- The commitments are of a forest of the chain's events up to the watermark. -/
theorem Sound.forest (hJ : backend.states.RoundTrips) (hhonest : network.Honest wire archive)
    (hhead : archive.head.toNat < 2 ^ 64 - 1) (hu : u.Sound backend network wire floor archive.head) :
    ∃ F : Forest, Represents (view u.db.read .commitments) F ∧
      ∀ event, F.Has event ↔ archive.chain.Between floor.toNat (nextBlock floor F.synced) event := by
  obtain ⟨db, hsyncs, hbeside⟩ := hu.beside
  obtain ⟨F, hF⟩ := caughtUp_sessions hJ hhonest hhead hsyncs.sessions
  refine ⟨F, ?_, hF.has⟩
  rw [show view u.db.read .commitments = db.engine .commitments from hbeside .commitments (by decide)]
  exact hF.folded.represents

end

/-! ### A wallet with two notes -/

section
variable {σ : Type} {backend : Backend} {network : Network σ} {wire : Wire} {prims : Primitives}
  {decoder : Decoder} {floor head : BlockNumber} {u : Usage σ}

end

section
variable {σ : Type} (backend : Backend) (prims : Primitives) (decoder : Decoder) (chain : Chain)
  (floor : BlockNumber)

/-- The notes of a scan with this watermark. -/
def Scanned (watermark : Option BlockNumber) (notes : List DecryptedNote) : Prop :=
  ∃ F : Forest, F.synced = watermark ∧
    (∀ event, F.Has event ↔ chain.Between floor.toNat (nextBlock floor F.synced) event) ∧
    notes = F.nodes.filterMap (decoder.noteOf prims)

/-- What is at the notes' key, given the watermark of the notes. -/
def HasSaved (saved : Option (Option BlockNumber)) (entry : Option Bytes) : Prop :=
  match saved with
  | none => entry = none
  | some watermark => ∃ notes flat bytes, Scanned prims decoder chain floor watermark notes ∧
    (DecodedNotes.fromNotes notes).Flattens flat ∧ backend.notes.toVec flat = .ok bytes ∧ entry = some bytes

structure Shows (u : Usage σ) : Prop where
  scan : ∀ watermark notes, u.scan = some (watermark, notes) → Scanned prims decoder chain floor watermark notes
  saved : HasSaved backend prims decoder chain floor u.saved (u.db.engine .decoded)[notesKey]?

end

section
variable {σ : Type} {backend : Backend} {network : Network σ} {wire : Wire} {prims : Primitives}
  {decoder : Decoder} {archive : Archive} {floor : BlockNumber} {u u' : Usage σ}
  (hJ : backend.states.RoundTrips) (hhonest : network.Honest wire archive)
  (hhead : archive.head.toNat < 2 ^ 64 - 1)
include hJ hhonest hhead

theorem Shows.step (hsound : u.Sound backend network wire floor archive.head)
    (hu : u.Shows backend prims decoder archive.chain floor)
    (h : Step backend network wire prims decoder floor archive.head u u') :
    u'.Shows backend prims decoder archive.chain floor := by
  cases h with
  | start => exact ⟨hu.scan, hu.saved⟩
  | advance hrun hstep =>
    exact ⟨hu.scan, step_cell (R := HasSaved backend prims decoder archive.chain floor u.saved) steady_decoded
      hu.saved hstep⟩
  | stop => exact ⟨hu.scan, hu.saved⟩
  | @scan watermark notes hsynced hnotes =>
    refine ⟨fun watermark' notes' he => ?_, hu.saved⟩
    obtain ⟨rfl, rfl⟩ := Prod.mk.inj (Option.some.inj he)
    obtain ⟨F, hF, hhas⟩ := hsound.forest hJ hhonest hhead
    rw [syncedBlock_spec hF] at hsynced
    rw [decodeAll_spec hF] at hnotes
    exact ⟨F, Except.ok.inj hsynced, hhas, (Except.ok.inj hnotes).symm⟩
  | @save watermark notes flat db hscan hflat hsave =>
    obtain ⟨bytes, hbytes, rfl⟩ := save_ok hsave
    exact ⟨hu.scan, notes, flat, bytes, hu.scan watermark notes hscan, hflat, hbytes, withNotes_decoded u.db bytes⟩
  | clearAll =>
    refine ⟨hu.scan, ?_⟩
    show (u.db.clearAll.2.engine .decoded)[notesKey]? = none
    rw [clearAll_eq, stamped_empty.elsewhere .decoded (by decide), Std.ExtTreeMap.getElem?_empty]
  | reopen hopen =>
    rw [open_of_kept hsound.stamps] at hopen
    obtain rfl := Except.ok.inj hopen
    exact ⟨nofun, hu.saved⟩

end

end Usage

end Railgun
