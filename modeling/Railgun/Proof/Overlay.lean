import Railgun.Proof.Tables
import Railgun.Spec.Calls

/-!
# An overlay is a transaction

Two stores that show the same tables answer every call alike and still show
the same tables afterwards (`runCall_alike`), so a sequence of calls cannot
tell an overlay from a transaction on the same base
(`overlay_indistinguishable`). Landing the batch on that base leaves what the
transaction commits, since the overlay showed it all along.
-/

namespace Railgun

open OrdMap Outcome

section
variable {S T : Type} [Reader S] [Writer S] [LawfulReader S] [Reader T] [Writer T] [LawfulReader T]

/-- Related stores show the same tables, and stay related when written. -/
structure Bisimilar (R : S → T → Prop) : Prop where
  view_eq : ∀ {s t}, R s t → view s = view t
  put : ∀ table key value, Simulates R (Writer.put table key value : EStateM DatabaseError S Unit)
    (Writer.put table key value : EStateM DatabaseError T Unit)
  delete : ∀ table key, Simulates R (Writer.delete table key : EStateM DatabaseError S Unit)
    (Writer.delete table key : EStateM DatabaseError T Unit)

/-! ## Mutators -/

variable {R : S → T → Prop} (hR : Bisimilar R)
include hR

/-- Reads that agree on stores showing the same tables. -/
theorem reading_simulates {α : Type} {f : S → Except DatabaseError α} {g : T → Except DatabaseError α}
    (hfg : ∀ s t, view s = view t → f s = g t) : Simulates R (reading f) (reading g) :=
  fun s t h => by
    rw [reading, reading, hfg s t (hR.view_eq h)]
    cases g t <;> exact ⟨rfl, h⟩

theorem insertNode_simulates (node : Node) :
    Simulates R (CommitmentsMut.insertNode node : EStateM DatabaseError S Unit)
      (CommitmentsMut.insertNode node : EStateM DatabaseError T Unit) := by
  unfold CommitmentsMut.insertNode
  cases encodeNode node with
  | none => exact .throw _
  | some encoded =>
    refine .bind (reading_simulates hR fun s t h => by rw [get_ok, get_ok, h]) fun existing => ?_
    cases existing with
    | some existing => exact .ite (.pure _) (.throw _)
    | none =>
      refine .bind (hR.put _ _ _) fun _ => ?_
      refine .bind (reading_simulates hR fun s t h => by rw [treeLength_eq, treeLength_eq, h])
        fun length => ?_
      refine .bind (reading_simulates hR fun s t h => by rw [treeCount_eq, treeCount_eq, h])
        fun count => ?_
      exact .bind (.ite (hR.put _ _ _) (.pure _)) fun _ => .ite (hR.put _ _ _) (.pure _)

theorem save_simulates (serde : Serde (List DecryptedNote)) (notes : List DecryptedNote) :
    Simulates R (DecodedMut.save serde notes : EStateM DatabaseError S Unit)
      (DecodedMut.save serde notes : EStateM DatabaseError T Unit) := by
  unfold DecodedMut.save
  cases serde.toVec notes with
  | ok encoded => exact hR.put _ _ _
  | error message => exact .throw _

end

/-! ## Reads -/

section
variable {R Q : Type} [Reader R] [LawfulReader R] [Reader Q] [LawfulReader Q] {r : R} {q : Q}

theorem range_alike (h : view r = view q) (table : TableId) {start stop : Bytes}
    (ordered : compare start stop ≠ .gt) :
    (Reader.range r table start stop).map RangeIter.toList =
      (Reader.range q table start stop).map RangeIter.toList := by
  obtain ⟨i, hi, hri⟩ := LawfulReader.range_eq r table start stop ordered
  obtain ⟨j, hj, hrj⟩ := LawfulReader.range_eq q table start stop ordered
  rw [hi, hj]
  show Except.ok i.toList = .ok j.toList
  rw [i.toList_eq, j.toList_eq, hri, hrj, h]

theorem treeFrontier_alike (h : view r = view q) (tables : PoseidonTables) (tree : U32) :
    treeFrontier tables r tree = treeFrontier tables q tree := by
  obtain ⟨i, hi, hri⟩ := leafHashes_ok r tree
  obtain ⟨j, hj, hrj⟩ := leafHashes_ok q tree
  simp only [treeFrontier, treeLength_eq, hi, hj, h, mapError_ok, ok_bind, hri, hrj]

theorem walkUp_alike (h : view r = view q) (tables : PoseidonTables) (tree : U32) :
    walkUp tables r tree = walkUp tables q tree := by
  rw [walkUp, walkUp, treeFrontier_alike h]

theorem merkleRoot_alike (h : view r = view q) (tables : PoseidonTables)
    (serde : Serde MerkleAccumulatorState) (tree : U32) :
    merkleRoot tables serde r tree = merkleRoot tables serde q tree := by
  rw [merkleRoot, merkleRoot, treeLength_eq, treeLength_eq, snapshot_eq, snapshot_eq,
    walkUp_alike h, h]

end

/-! ## Calls -/

section
variable {S T : Type} [Reader S] [Writer S] [LawfulReader S] [Reader T] [Writer T] [LawfulReader T]
  {R : S → T → Prop} (hR : Bisimilar R) (backend : Backend)
include hR

omit hR [Reader S] [Writer S] [LawfulReader S] [Reader T] [Writer T] [LawfulReader T] in
theorem mutating_alike {m : EStateM DatabaseError S Unit} {m' : EStateM DatabaseError T Unit}
    (hm : Simulates R m m') {s : S} {t : T} (h : R s t) :
    (mutating m s).1 = (mutating m' t).1 ∧ R (mutating m s).2 (mutating m' t).2 := by
  have hst := hm s t h
  rw [mutating, mutating]
  cases h₁ : m s <;> cases h₂ : m' t <;> rw [h₁, h₂] at hst
  · exact ⟨rfl, hst.2⟩
  · exact hst.elim
  · exact hst.elim
  · exact ⟨by rw [hst.1], hst.2⟩

/-- Related stores answer every call alike. -/
theorem runCall_alike {s : S} {t : T} (h : R s t) (call : Call) :
    (runCall backend s call).1 = (runCall backend t call).1 ∧
      R (runCall backend s call).2 (runCall backend t call).2 := by
  have hv := hR.view_eq h
  cases call with
  | insertNode node => exact mutating_alike (insertNode_simulates hR node) h
  | insertNullifier nullified => exact mutating_alike (hR.put _ _ _) h
  | setSyncedBlock block => exact mutating_alike (hR.put _ _ _) h
  | setSnapshot tree bytes => exact mutating_alike (hR.put _ _ _) h
  | clearSnapshot tree => exact mutating_alike (hR.delete _ _) h
  | saveNotes notes => exact mutating_alike (save_simulates hR _ notes) h
  | get table key => exact ⟨by simp only [runCall, get_ok, hv], h⟩
  | range table start stop ordered => exact ⟨congrArg Answer.entries (range_alike hv table ordered), h⟩
  | node tree position => exact ⟨by simp only [runCall, Commitments.node, get_ok, hv], h⟩
  | leafHash tree position => exact ⟨by simp only [runCall, Commitments.leafHash, get_ok, hv], h⟩
  | nodes tree =>
    obtain ⟨i, hi, hri⟩ := nodes_ok s tree
    obtain ⟨j, hj, hrj⟩ := nodes_ok t tree
    exact ⟨by simp only [runCall, hi, hj, Except.map, hri, hrj, hv], h⟩
  | leafHashes tree =>
    obtain ⟨i, hi, hri⟩ := leafHashes_ok s tree
    obtain ⟨j, hj, hrj⟩ := leafHashes_ok t tree
    exact ⟨by simp only [runCall, hi, hj, Except.map, hri, hrj, hv], h⟩
  | treeLength tree => exact ⟨by simp only [runCall, treeLength_eq, hv], h⟩
  | treeCount => exact ⟨by simp only [runCall, treeCount_eq, hv], h⟩
  | isNullified tree nullifier => exact ⟨by simp only [runCall, isNullified_eq, hv], h⟩
  | syncedBlock => exact ⟨by simp only [runCall, Commitments.syncedBlock, get_ok, hv], h⟩
  | snapshot tree => exact ⟨by simp only [runCall, snapshot_eq, hv], h⟩
  | loadNotes => exact ⟨by simp only [runCall, Decoded.load, get_ok, hv], h⟩
  | merkleRoot tree => exact ⟨congrArg Answer.root (merkleRoot_alike hv _ _ tree), h⟩
  | validate tree isValid => exact ⟨by simp only [runCall, validate, walkUp_alike hv], h⟩

/-- And so on, call after call. -/
theorem runCalls_alike : ∀ (calls : List Call) {s : S} {t : T}, R s t →
    (runCalls backend s calls).1 = (runCalls backend t calls).1 ∧
      R (runCalls backend s calls).2 (runCalls backend t calls).2
  | [], _, _, h => ⟨rfl, h⟩
  | call :: calls, s, t, h => by
    obtain ⟨ha, hr⟩ := runCall_alike hR backend h call
    obtain ⟨has, hrs⟩ := runCalls_alike calls hr
    exact ⟨by simp only [runCalls, ha, has], hrs⟩

end

/-! ## Overlays and transactions -/

/-- An overlay over `base` that shows a transaction's tables. -/
def ShowsTxn (base : ReadView) (overlay : Overlay) (txn : WriteTxn) : Prop :=
  overlay.base = base ∧ overlay.tables = txn.inner

theorem showsTxn_bisimilar (base : ReadView) : Bisimilar (ShowsTxn base) where
  view_eq h := h.2
  put table key value overlay txn h :=
    ⟨rfl, h.1, by rw [overlay.tables_insert table key (some value), h.2]; rfl⟩
  delete table key overlay txn h :=
    ⟨rfl, h.1, by rw [overlay.tables_insert table key none, h.2]; rfl⟩

/-- A fresh overlay shows its base. -/
theorem showsTxn_new (db : Database) : ShowsTxn db.read (WriteBatch.new.overlay db.read) ⟨db.engine⟩ :=
  ⟨rfl, rfl⟩

/-! ## Landing a batch -/

/-- Changing a table entry by entry is changing it at once. -/
theorem foldl_modify (table : TableId) : ∀ (l : List StagedEntry) (tables : Tables),
    l.foldl (fun tables e => tables.modify table (change · e)) tables =
      tables.modify table (l.foldl change ·)
  | [], tables => by simp [Tables.modify, Function.update_eq_self]
  | e :: l, tables => by
    rw [List.foldl_cons, foldl_modify table l]
    simp [Tables.modify, Function.update_idem]

theorem applyEntries_eq (table : TableId) (kvs : Changes Bytes Bytes) (txn : WriteTxn) :
    (kvs.toList.forM (applyEntry table) : EStateM DatabaseError WriteTxn Unit) txn =
      .ok () ⟨txn.inner.modify table (applyAll · kvs)⟩ := by
  have h : ∀ (l : List StagedEntry) (tables : Tables),
      l.foldl (fun (txn : WriteTxn) e => ⟨txn.inner.modify table (change · e)⟩) ⟨tables⟩ =
        ⟨l.foldl (fun tables e => tables.modify table (change · e)) tables⟩ := by
    intro l
    induction l with
    | nil => exact fun _ => rfl
    | cons e l ih => exact fun tables => ih _
  rw [forM_eq_foldl (g := fun txn e => ⟨txn.inner.modify table (change · e)⟩)
    (by rintro txn ⟨key, _ | value⟩ <;> rfl), h _ txn.inner, foldl_modify]
  rfl

theorem applyTable_eq (batch : WriteBatch) (txn : WriteTxn) (table : TableId) :
    applyTable batch table txn =
      .ok () ⟨txn.inner.modify table (applyAll · (batch.staged table))⟩ := by
  rw [applyTable, WriteBatch.staged]
  cases batch.entries table with
  | some kvs => exact applyEntries_eq table kvs txn
  | none =>
    have h : txn.inner.modify table (applyAll · ∅) = txn.inner := Function.update_eq_self ..
    rw [Option.getD_none, h]
    rfl

/-- Applying a batch makes the tables what an overlay of it shows. -/
theorem apply_eq (db : Database) (batch : WriteBatch) :
    db.apply batch = (.ok (), ⟨(batch.overlay db.read).tables⟩) := by
  rw [Database.apply, Database.write, forM_eq_foldl (applyTable_eq batch)]
  refine congrArg (fun tables => (Except.ok (), Database.mk tables)) (funext fun table => ?_)
  cases table <;> rfl

theorem write_callsInTxn (backend : Backend) (db : Database) (calls : List Call) :
    db.write (callsInTxn backend calls) = (.ok (runCalls backend (WriteTxn.mk db.engine) calls).1,
      ⟨(runCalls backend (WriteTxn.mk db.engine) calls).2.inner⟩) := rfl

/-- What an overlay's scan lists: staged values, and base entries nothing is
staged over. -/
theorem overlay_range (overlay : Overlay) (table : TableId) {start stop : Bytes}
    (ordered : compare start stop ≠ .gt) : ∃ iter entries,
      Reader.range overlay table start stop = .ok iter ∧ iter.toList = entries.map .ok ∧
      Sorted entries ∧ ∀ key value, (key, value) ∈ entries ↔ within start stop key = true ∧
        ((overlay.batch.staged table)[key]? = some (some value) ∨
          (overlay.batch.staged table)[key]? = none ∧
            (overlay.base.txn table)[key]? = some value) := by
  obtain ⟨iter, hi, hr⟩ := overlay.range_eq table ordered
  refine ⟨iter, _, hi, by rw [iter.toList_eq, hr], sorted_scan _ _ _, fun key value => ?_⟩
  rw [mem_scan, overlay.getElem?_tables, and_comm]
  refine and_congr_right' ?_
  cases (overlay.batch.staged table)[key]? <;> simp

/-- No sequence of calls tells an overlay from a transaction on the same base:
the answers are the same, call by call; landing the batch leaves what the
transaction commits; and the overlay's scans are ascending, with staged values
winning and tombstones hiding base keys. -/
theorem overlay_indistinguishable (backend : Backend) (db : Database) (calls : List Call) :
    let overlaid := runCalls backend (WriteBatch.new.overlay db.read) calls
    let committed := db.write (callsInTxn backend calls)
    committed.1 = .ok overlaid.1 ∧
    db.apply overlaid.2.batch = (.ok (), committed.2) ∧
    ∀ table start stop, compare start stop ≠ .gt → ∃ iter entries,
      Reader.range overlaid.2 table start stop = .ok iter ∧ iter.toList = entries.map .ok ∧
      Sorted entries ∧ ∀ key value, (key, value) ∈ entries ↔ within start stop key = true ∧
        ((overlaid.2.batch.staged table)[key]? = some (some value) ∨
          (overlaid.2.batch.staged table)[key]? = none ∧
            (db.engine table)[key]? = some value) := by
  obtain ⟨ha, hb, ht⟩ :=
    runCalls_alike (showsTxn_bisimilar db.read) backend calls (showsTxn_new db)
  simp only [write_callsInTxn, ← ha, ← ht]
  generalize (runCalls backend (WriteBatch.new.overlay db.read) calls).2 = overlay at hb ⊢
  obtain ⟨batch, base⟩ := overlay
  obtain rfl : base = db.read := hb
  exact ⟨trivial, apply_eq db batch, fun table _ _ => overlay_range ⟨batch, db.read⟩ table⟩

end Railgun
