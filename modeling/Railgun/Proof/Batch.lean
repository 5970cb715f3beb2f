import Railgun.Proof.Overlay
import Railgun.Proof.Refinement
import Railgun.Spec.World

/-!
# Landing a batch

A batch stages the records of a forest of its own, and the counters it has raised
(`Stages`); an overlay shows that forest over the one of its base, and the batch's
counters where it has any (`Stages.records`). Landing the batch leaves the same on
the database. What a batch stages does not depend on what it is laid over, but
which counters it raises does: they may lag behind, though no further than those
of the bases it was laid over (`Lags`). So it leaves right counters on a database
that has grown since if it fits, and only then (`counters_landed`,
`fits_of_counted`).
-/

namespace Railgun

open OrdMap Outcome BigEndian Height

/-! ## What mutations stage -/

section
variable {W : Type} [Reader W] [Writer W] {I : W → Prop} (hput : ∀ key value,
  Keeps I (Writer.put .commitments key value : EStateM DatabaseError W Unit))
include hput

/-- A mutation of the commitments table keeps what its puts keep. -/
theorem mutate_keeps (write : Write) : Keeps I (write.mutate : EStateM DatabaseError W Unit) := by
  cases write with
  | node n =>
    show Keeps I (CommitmentsMut.insertNode n)
    unfold CommitmentsMut.insertNode
    cases encodeNode n with
    | none => exact .throw _
    | some encoded =>
      refine .bind (reading_keeps _) fun existing => ?_
      cases existing with
      | some existing => exact .ite (.pure _) (.throw _)
      | none =>
        refine .bind (hput _ _) fun _ => .bind (reading_keeps _) fun length => ?_
        refine .bind (reading_keeps _) fun count => ?_
        exact .bind (.ite (hput _ _) (.pure _)) fun _ => .ite (hput _ _) (.pure _)
  | nullifier x => exact hput _ _
  | synced block => exact hput _ _

end

theorem staged_insert (batch : WriteBatch) (table : TableId) (key : Bytes) (value : Option Bytes) :
    (batch.insert table key value).staged table = (batch.staged table).insert key value := by
  simp [WriteBatch.insert, WriteBatch.staged]

theorem staged_insert_of_ne (batch : WriteBatch) {table table' : TableId} (h : table' ≠ table)
    (key : Bytes) (value : Option Bytes) :
    (batch.insert table key value).staged table' = batch.staged table' := by
  simp [WriteBatch.insert, WriteBatch.staged, Function.update_of_ne h]

/-- A batch stages the records, and nothing else. -/
structure StagesAll (batch : WriteBatch) (record : Key → Option Bytes) : Prop where
  staged : ∀ key : Key, (batch.staged .commitments)[key.bytes]? = (record key).map some
  only : ∀ {bytes x}, (batch.staged .commitments)[bytes]? = some x → ∃ key : Key, key.bytes = bytes
  elsewhere : ∀ {table}, table ≠ .commitments → batch.staged table = ∅

/-- It stages a forest, and counters. -/
abbrev Stages (batch : WriteBatch) (N : Forest) (k : Counters) : Prop := StagesAll batch (N.record k)

/-- No counters. -/
def Counters.zero : Counters := ⟨fun _ => 0, 0, fun _ => by decide, by decide⟩

theorem stages_new : Stages WriteBatch.new Forest.empty .zero :=
  ⟨fun key => by cases key <;> simp [WriteBatch.new, WriteBatch.staged, Forest.record, Forest.empty,
    Counters.zero, counterBytes], fun h => by simp [WriteBatch.new, WriteBatch.staged] at h, fun _ => rfl⟩

section
variable {overlay : Overlay} {record : Key → Option Bytes} (h : StagesAll overlay.batch record)
include h

/-- A put through an overlay, if at all, stages one record more. -/
theorem stage_putIf (c : Prop) [Decidable c] (key : Key) (value : Bytes) : ∃ overlay' : Overlay,
    (if c then Writer.put .commitments key.bytes value else pure () : EStateM DatabaseError Overlay Unit) overlay =
      .ok () overlay' ∧
    StagesAll overlay'.batch (fun key' => if c ∧ key' = key then some value else record key') := by
  by_cases hc : c
  · refine ⟨⟨overlay.batch.insert .commitments key.bytes (some value), overlay.base⟩, by rw [if_pos hc]; rfl,
      fun key' => ?_, fun {bytes x} hx => ?_, fun ht => (staged_insert_of_ne _ ht _ _).trans (h.elsewhere ht)⟩
    · rw [staged_insert, getElem?_insert]
      by_cases he : key' = key
      · rw [he, if_pos rfl, if_pos ⟨hc, rfl⟩]
        rfl
      · rw [if_neg fun hb => he (Key.bytes_inj hb), if_neg fun hb => he hb.2, h.staged]
    · rw [staged_insert, getElem?_insert] at hx
      split at hx
      · rename_i hb
        exact ⟨key, hb.symm⟩
      · exact h.only hx
  · refine ⟨overlay, by rw [if_neg hc]; rfl, ?_⟩
    simpa only [hc, false_and, if_false] using h

theorem stage_put (key : Key) (value : Bytes) : ∃ overlay' : Overlay,
    (Writer.put .commitments key.bytes value : EStateM DatabaseError Overlay Unit) overlay = .ok () overlay' ∧
    StagesAll overlay'.batch (fun key' => if key' = key then some value else record key') := by
  simpa using stage_putIf h True key value

theorem StagesAll.congr {record' : Key → Option Bytes} (hr : ∀ key, record key = record' key) :
    StagesAll overlay.batch record' :=
  ⟨fun key => (h.staged key).trans (by rw [hr]), h.only, h.elsewhere⟩

end

/-- The forest a batch stages after a mutation, where its overlay shows `S`. -/
def Forest.stage (N S : Forest) : Write → Forest
  | .node n => if h : Admissible n ∧ S.nodeAt n = none then N.store n h.1 else N
  | .nullifier x => N.insertNullifier x
  | .synced block => N.setSyncedBlock block

/-- The counters it stages then, where the overlay shows `S` and the counters `l`. -/
def Counters.stage (k l : Counters) (S : Forest) : Write → Counters
  | .node n => if Admissible n ∧ S.nodeAt n = none then k.raise l n else k
  | _ => k

section
variable {overlay : Overlay} {N S : Forest} {k l : Counters} (h : Stages overlay.batch N k)
include h

/-- A mutation through an overlay stages what it puts. -/
theorem Stages.write (hS : Records (overlay.tables .commitments) S l) (write : Write) :
    Stages (answering write.mutate overlay).2.batch (N.stage S write) (k.stage l S write) := by
  cases write with
  | node n =>
    rw [Forest.stage, Counters.stage]
    by_cases hn : Admissible n
    · obtain hat | ⟨m, hat⟩ : S.nodeAt n = none ∨ ∃ m, S.nodeAt n = some m := by
        cases S.nodeAt n <;> simp
      · obtain ⟨encoded, he⟩ := Option.isSome_iff_exists.mp hn
        obtain ⟨o₁, ho₁, h₁⟩ := stage_put h (.commitment n.position.treeNumber n.position.leafIndex) encoded
        obtain ⟨o₂, ho₂, h₂⟩ := stage_putIf h₁ (l.length n.position.treeNumber < (n.position.leafIndex + 1).toNat)
          (.length n.position.treeNumber) (beBytes 4 (n.position.leafIndex + 1))
        obtain ⟨o₃, ho₃, h₃⟩ := stage_putIf h₂ (l.count < (n.position.treeNumber + 1).toNat) .treeCount
          (beBytes 4 (n.position.treeNumber + 1))
        have hrun : (Write.node n).mutate overlay = .ok () o₃ :=
          (insertNode_puts (w := overlay) hS he hat).trans
            ((run_bind_of_ok ho₁).trans ((run_bind_of_ok ho₂).trans ho₃))
        rw [answering_ok hrun, dif_pos ⟨hn, hat⟩, if_pos ⟨hn, hat⟩]
        exact h₃.congr fun key => (record_store k l hn he key).symm
      · have hs := insertNode_spec (w := overlay) hS hn
        have hno : ¬ (Admissible n ∧ S.nodeAt n = none) := fun h => by rw [hat] at h; exact nomatch h.2
        simp only [hat] at hs
        rw [dif_neg hno, if_neg hno]
        by_cases hm : m = n
        · rw [answering_ok (m := (Write.node n).mutate) (hs.trans (if_pos hm))]
          exact h
        · rw [answering_error (m := (Write.node n).mutate) (hs.trans (if_neg hm))]
          exact h
    · rw [dif_neg fun h => hn h.1, if_neg fun h => hn h.1, answering_error (m := (Write.node n).mutate)
        (insertNode_unencodable (Option.not_isSome_iff_eq_none.mp hn) overlay)]
      exact h
  | nullifier x =>
    obtain ⟨o', ho, h'⟩ := stage_put h (.nullifier x.treeNumber x.nullifier) []
    rw [answering_ok (m := (Write.nullifier x).mutate) ho]
    refine h'.congr fun key => ?_
    cases key with
    | nullifier t y =>
      simp only [Forest.record, Forest.stage, Forest.insertNullifier, Key.nullifier.injEq]
      split <;> simp
    | _ => rfl
  | synced block =>
    obtain ⟨o', ho, h'⟩ := stage_put h .syncedBlock (beBytes 8 block)
    rw [answering_ok (m := (Write.synced block).mutate) ho]
    exact h'.congr fun key => by cases key <;> rfl

end

/-! ## Laying a batch over a base -/

/-- A batch's counters, and those of its base where it has none. -/
def Counters.or (k l : Counters) : Counters where
  length t := if k.length t = 0 then l.length t else k.length t
  count := if k.count = 0 then l.count else k.count
  length_lt t := by
    have := k.length_lt t
    have := l.length_lt t
    split <;> omega
  count_lt := by
    have := k.count_lt
    have := l.count_lt
    split <;> omega

theorem counterBytes_or (m n : Nat) :
    (counterBytes m).or (counterBytes n) = counterBytes (if m = 0 then n else m) := by
  by_cases hm : m = 0
  · rw [hm, if_pos rfl]
    rfl
  · rw [if_neg hm, counterBytes, if_neg hm, Option.some_or]

theorem record_or (N B : Forest) (k l : Counters) (key : Key) :
    (N.record k key).or (B.record l key) = (N.join B).record (k.or l) key := by
  cases key with
  | commitment t p =>
    simp only [Forest.record, Forest.join]
    cases hn : N.node t p.toNat with
    | none => rfl
    | some n =>
      obtain ⟨encoded, he⟩ := Option.isSome_iff_exists.mp (N.admissible hn)
      rw [Option.some_or, Option.bind_some, he, Option.some_or]
  | nullifier t x =>
    rw [Forest.record, Forest.record, Forest.record, Forest.join]
    by_cases hx : N.nullified t x = true
    · simp [hx]
    · simp [Bool.eq_false_iff.mpr hx]
  | length t => exact counterBytes_or _ _
  | treeCount => exact counterBytes_or _ _
  | syncedBlock =>
    simp only [Forest.record, Forest.join]
    cases N.synced <;> rfl

section
variable {batch : WriteBatch} {N B F : Forest} {k l : Counters} (h : Stages batch N k)
include h

/-- What a batch itself holds is what it stages. -/
theorem Stages.alone : Records (view batch.alone .commitments) N k := by
  have hview : ∀ bytes : Bytes, (view batch.alone .commitments)[bytes]? =
      (batch.staged .commitments)[bytes]?.getD none := fun bytes => by
    refine (Overlay.getElem?_tables _ _ _).trans ?_
    show _ = _
    simp only [WriteBatch.alone, WriteBatch.overlay, Std.ExtTreeMap.getElem?_empty]
  refine ⟨fun key => ?_, fun bytes value hv => ?_⟩
  · rw [hview, h.staged]
    cases N.record k key <;> rfl
  · rw [hview] at hv
    cases hs : (batch.staged .commitments)[bytes]? with
    | none => rw [hs] at hv; cases hv
    | some x => exact h.only hs

/-- A batch over a base shows its own forest over the base's, and its own counters. -/
theorem Stages.records {base : ReadView} (hB : Records (base.txn .commitments) B l) :
    Records ((batch.overlay base).tables .commitments) (N.join B) (k.or l) := by
  have hget : ∀ bytes : Bytes, ((batch.overlay base).tables .commitments)[bytes]? =
      (batch.staged .commitments)[bytes]?.getD (base.txn .commitments)[bytes]? := fun bytes =>
    Overlay.getElem?_tables _ _ _
  refine ⟨fun key => ?_, fun bytes value hv => ?_⟩
  · rw [hget, h.staged, hB.get, ← record_or]
    cases N.record k key <;> rfl
  · rw [hget] at hv
    cases hs : (batch.staged .commitments)[bytes]? with
    | none =>
      rw [hs] at hv
      exact hB.only bytes value hv
    | some x => exact h.only hs

/-- And landed on a database, it leaves the same. -/
theorem Stages.landed {db : Database} (hF : Records (db.engine .commitments) F l) :
    Records ((db.apply batch).2.engine .commitments) (N.join F) (k.or l) := by
  rw [apply_eq]
  exact h.records hF

end

/-! ## Counters that lag behind -/

/-- A batch's own counter, the one its overlay shows, and the one that would be right for what it stages, over a
database whose counter is `f`. -/
structure Lags (k l n f : Nat) : Prop where
  shown : k ≤ l
  staged : k ≤ n
  right : n ≤ max k f
  base : l ≤ max k f

namespace Lags

variable {k l n f f' : Nat}

theorem grow (h : Lags k l n f) (hf : f ≤ f') : Lags k l n f' :=
  ⟨h.shown, h.staged, by have := h.right; omega, by have := h.base; omega⟩

theorem rebase {b : Nat} (h : Lags k l n f) (hb : b ≤ f) : Lags k (if k = 0 then b else k) n f :=
  ⟨by split <;> omega, h.staged, h.right, by split <;> omega⟩

/-- Raised to `p`, where it is too low. -/
theorem raise (h : Lags k l n f) (p : Nat) :
    Lags (if l < p then p else k) (if l < p then p else l) (max n p) f := by
  obtain ⟨h₁, h₂, h₃, h₄⟩ := h
  split <;> exact ⟨by omega, by omega, by omega, by omega⟩

/-- Landed, it is right if it is not behind. -/
theorem landed (h : Lags k l n f) (hf : k = 0 ∨ f ≤ k) : (if k = 0 then f else k) = max n f := by
  obtain ⟨h₁, h₂, h₃, h₄⟩ := h
  split <;> omega

end Lags

/-- So for every counter: those of a batch, of its overlay, right for the batch, and of a database. -/
structure Counters.Lag (k l n f : Counters) : Prop where
  length : ∀ t, Lags (k.length t) (l.length t) (n.length t) (f.length t)
  count : Lags k.count l.count n.count f.count

section
variable {k l : Counters} {N B F F' : Forest}

theorem Counters.Lag.grow (h : k.Lag l N.counters F.counters) (hF : F.Within F') :
    k.Lag l N.counters F'.counters :=
  ⟨fun t => (h.length t).grow (hF.length_le t), h.count.grow hF.count_le⟩

theorem Counters.Lag.rebase (h : k.Lag l N.counters F.counters) (hB : B.Within F) :
    k.Lag (k.or B.counters) N.counters F.counters :=
  ⟨fun t => (h.length t).rebase (hB.length_le t), h.count.rebase hB.count_le⟩

theorem lag_new (hB : B.Within F) :
    Counters.zero.Lag (Counters.zero.or B.counters) Forest.empty.counters F.counters := by
  have hl : ∀ t, Forest.empty.counters.length t = 0 := fun t => height_eq (isHeight_empty fun _ => nofun)
  have hc : Forest.empty.counters.count = 0 :=
    height_eq (isHeight_empty fun _ ⟨_, _, _, _, h⟩ => nomatch h)
  refine ⟨fun t => ?_, ?_⟩
  · rw [hl]
    exact ⟨Nat.zero_le _, Nat.zero_le _, Nat.zero_le _, Nat.le_trans (hB.length_le t) (Nat.le_max_right _ _)⟩
  · rw [hc]
    exact ⟨Nat.zero_le _, Nat.zero_le _, Nat.zero_le _, Nat.le_trans hB.count_le (Nat.le_max_right _ _)⟩

/-- A mutation raises the batch's counters where those its overlay shows are too low. -/
theorem Counters.Lag.write {S : Forest} (h : k.Lag l N.counters F.counters) (write : Write) :
    (k.stage l S write).Lag (l.write S write) (N.stage S write).counters F.counters := by
  cases write with
  | node n =>
    rw [Counters.stage, Counters.write, Forest.stage]
    by_cases hn : Admissible n ∧ S.nodeAt n = none
    · rw [if_pos hn, if_pos hn, dif_pos hn]
      refine ⟨fun t => ?_, ?_⟩
      · show Lags _ _ ((N.store n hn.1).length t) _
        rw [Forest.length_store]
        simp only [Counters.raise]
        by_cases ht : t = n.position.treeNumber
        · simp only [ht, true_and, if_true]
          exact (h.length _).raise _
        · simp only [ht, false_and, if_false]
          exact h.length t
      · show Lags _ _ (N.store n hn.1).count _
        rw [Forest.count_store]
        exact h.count.raise _
    · rw [if_neg hn, if_neg hn, dif_neg hn]
      exact h
  | _ => exact h

end

/-! ## Batches that fit -/

section
variable {db : Database} {batch : WriteBatch} {N F : Forest} {k l : Counters} (h : Stages batch N k)
  (hF : Represents (db.engine .commitments) F)
include h hF

/-- Fitting, in terms of the forests. -/
theorem fits_iff : Fits db batch ↔
    (∀ {t p n m}, N.node t p = some n → F.node t p = some m → m = n) ∧
    (∀ t, k.length t = 0 ∨ F.length t ≤ k.length t) ∧ (k.count = 0 ∨ F.count ≤ k.count) := by
  have halone := h.alone
  have hcounter : ∀ {m n : Nat}, m < 2 ^ 32 → n < 2 ^ 32 →
      (BitVec.ofNat 32 m = 0 ∨ BitVec.ofNat 32 n ≤ BitVec.ofNat 32 m ↔ m = 0 ∨ n ≤ m) := fun {m n} hm hn => by
    rw [BitVec.le_def, ← BitVec.toNat_inj, BitVec.toNat_ofNat, BitVec.toNat_ofNat, Nat.mod_eq_of_lt hm,
      Nat.mod_eq_of_lt hn]
    rfl
  constructor
  · intro hfits
    refine ⟨fun {t p n m} hn hm => ?_, fun t => ?_, ?_⟩
    · obtain ⟨rfl, rfl⟩ := N.placed hn
      exact hfits.node _ _ n m ((node_spec (r := batch.alone) halone _ _).trans (congrArg Except.ok hn))
        ((node_spec (r := db.read) hF _ _).trans (congrArg Except.ok hm))
    · exact (hcounter (k.length_lt t) (F.counters.length_lt t)).mp
        (hfits.length t _ _ (treeLength_records (r := batch.alone) halone t) (treeLength_spec (r := db.read) hF t))
    · exact (hcounter k.count_lt F.count_lt).mp
        (hfits.count _ _ (treeCount_records (r := batch.alone) halone) (treeCount_spec (r := db.read) hF))
  · rintro ⟨hnode, hlength, hcount⟩
    refine ⟨fun t p n m hn hm => ?_, fun t length length' hl hl' => ?_, fun count count' hc hc' => ?_⟩
    · exact hnode (Except.ok.inj ((node_spec (r := batch.alone) halone t p).symm.trans hn))
        (Except.ok.inj ((node_spec (r := db.read) hF t p).symm.trans hm))
    · obtain rfl := Except.ok.inj ((treeLength_records (r := batch.alone) halone t).symm.trans hl)
      obtain rfl := Except.ok.inj ((treeLength_spec (r := db.read) hF t).symm.trans hl')
      exact (hcounter (k.length_lt t) (F.counters.length_lt t)).mpr (hlength t)
    · obtain rfl := Except.ok.inj ((treeCount_records (r := batch.alone) halone).symm.trans hc)
      obtain rfl := Except.ok.inj ((treeCount_spec (r := db.read) hF).symm.trans hc')
      exact (hcounter k.count_lt F.count_lt).mpr hcount

/-- A batch that fits leaves its forest over the database's, with right counters. -/
theorem represents_landed (hlag : k.Lag l N.counters F.counters) (hfits : Fits db batch) :
    F.Within (N.join F) ∧ Represents ((db.apply batch).2.engine .commitments) (N.join F) := by
  obtain ⟨hnode, hlength, hcount⟩ := (fits_iff h hF).mp hfits
  refine ⟨Forest.within_join hnode, ?_⟩
  have hright : k.or F.counters = (N.join F).counters :=
    Counters.ext (funext fun t => ((hlag.length t).landed (hlength t)).trans (N.length_join F t).symm)
      ((hlag.count.landed hcount).trans (N.count_join F).symm)
  have hlanded := h.landed hF
  rwa [hright] at hlanded

/-- A batch that leaves the counters heights, and every node in its place, fits. -/
theorem fits_of_counted (hcounted : Counted (db.apply batch).2.read)
    (hkept : ∀ t p n, Commitments.node db.read t p = .ok (some n) →
      Commitments.node (db.apply batch).2.read t p = .ok (some n)) : Fits db batch := by
  have hlanded : Records (view (db.apply batch).2.read .commitments) (N.join F) (k.or F.counters) := h.landed hF
  generalize (db.apply batch).2.read = landed at hcounted hkept hlanded
  have hnode : ∀ {t p n}, F.node t p = some n → ∃ q : U32, q.toNat = p ∧
      Commitments.node landed t q = .ok (some n) := fun {t p n} hn => by
    obtain ⟨-, rfl⟩ := F.placed hn
    exact ⟨_, rfl, hkept t _ n ((node_spec (r := db.read) hF t _).trans (congrArg Except.ok hn))⟩
  refine (fits_iff h hF).mpr ⟨fun {t p n m} hn hm => ?_, fun t => ?_, ?_⟩
  · obtain ⟨q, rfl, hq⟩ := hnode hm
    have hat : (N.join F).node t q.toNat = some n := by simp only [Forest.join, hn, Option.some_or]
    rw [node_spec hlanded, hat] at hq
    exact (Option.some.inj (Except.ok.inj hq)).symm
  · refine or_iff_not_imp_left.mpr fun h0 => ?_
    obtain ⟨length, hl, hh⟩ := hcounted.length t
    have hlength : length.toNat = k.length t := by
      rw [← Except.ok.inj ((treeLength_records hlanded t).symm.trans hl), BitVec.toNat_ofNat,
        Nat.mod_eq_of_lt ((k.or F.counters).length_lt t)]
      exact if_neg h0
    rcases (F.isHeight_length t).top with hz | htop
    · omega
    · obtain ⟨n, hn⟩ := Option.isSome_iff_exists.mp htop
      obtain ⟨q, hq, hat⟩ := hnode hn
      have := hh.lt _ ⟨q, n, hq, hat⟩
      omega
  · refine or_iff_not_imp_left.mpr fun h0 => ?_
    obtain ⟨count, hc, hh⟩ := hcounted.count
    have hcount : count.toNat = k.count := by
      rw [← Except.ok.inj ((treeCount_records hlanded).symm.trans hc), BitVec.toNat_ofNat,
        Nat.mod_eq_of_lt (k.or F.counters).count_lt]
      exact if_neg h0
    rcases F.isHeight_count.top with hz | ⟨t, ht, -, p, hp⟩
    · omega
    · obtain ⟨n, hn⟩ := Option.isSome_iff_exists.mp hp
      obtain ⟨q, -, hat⟩ := hnode hn
      have := hh.lt _ ⟨t, q, n, ht, hat⟩
      omega

end

end Railgun
