import Railgun.Framework.Outcome
import Railgun.Impl.Store

/-!
# What stores show

The hand-written merge iterator yields the merge of the two scans, entry by
entry (`Merged.loop_spec`), so every scan yields a list known in advance
(`RangeIter.toList_eq`). With that, a snapshot, a transaction and an overlay
are three representations of one thing, the tables they show (`view`): reads
depend on the view alone, and a put or a delete changes it at one key. The
view of an overlay is its base with the staged changes applied.
-/

namespace Railgun

open OrdMap Outcome

/-! ## The merge iterator -/

namespace Merged

/-- The base entries left, the peeked one included. -/
def bases (m : Merged) : List Entry := m.basePeek.toList ++ m.base

/-- The staged entries left, the peeked one included. -/
def stageds (m : Merged) : List StagedEntry := m.overlayPeek.toList ++ m.overlay

theorem peekBase_eq (m : Merged) :
    m.peekBase = .ok { m with base := m.bases.tail, basePeek := m.bases.head? } := by
  obtain ⟨_ | ⟨entry, base⟩, overlay, _ | peek, overlayPeek⟩ := m <;> rfl

theorem peekOverlay_eq (m : Merged) :
    m.peekOverlay = { m with overlay := m.stageds.tail, overlayPeek := m.stageds.head? } := by
  obtain ⟨base, _ | ⟨entry, overlay⟩, basePeek, _ | peek⟩ := m <;> rfl

/-- The loop yields the first entry of the merge and leaves the others. -/
theorem loop_spec : ∀ {turns : Nat} {m : Merged}, m.stageds.length < turns →
    ∃ m', m.loop turns = ((merge m.bases m.stageds).head?.map .ok, m') ∧
      merge m'.bases m'.stageds = (merge m.bases m.stageds).tail
  | turns + 1, m, h => by
    rw [loop, peekBase_eq]
    simp only [peekOverlay_eq]
    generalize hb : m.bases = bs
    generalize hs : m.stageds = ss at h
    have hs' : stageds { m with base := bs.tail, basePeek := bs.head? } = ss := hs
    rw [hs']
    rcases bs with _ | ⟨⟨bk, bv⟩, bs⟩ <;> rcases ss with _ | ⟨⟨k, v⟩, ss⟩
    · exact ⟨_, Prod.ext (by simp [merge]) rfl, by simp [merge, bases, stageds]⟩
    · cases v with
      | some v => exact ⟨_, Prod.ext (by simp [merge]) rfl, by simp [merge, bases, stageds]⟩
      | none =>
        obtain ⟨m', hm, hr⟩ := loop_spec
          (m := { m with base := [], basePeek := none, overlay := ss, overlayPeek := none })
          (show _ < turns by simpa [stageds] using h)
        exact ⟨m', by simpa [merge, bases, stageds] using hm, by simpa [merge, bases, stageds] using hr⟩
    · exact ⟨_, Prod.ext (by simp [merge]) rfl, by simp [merge, bases, stageds]⟩
    · simp only [List.head?_cons, List.tail_cons]
      rw [merge]
      cases hc : compare bk k with
      | lt => exact ⟨_, Prod.ext (by simp) rfl, by simp [bases, stageds]⟩
      | eq =>
        cases v with
        | some v => exact ⟨_, Prod.ext (by simp) rfl, by simp [bases, stageds]⟩
        | none =>
          obtain ⟨m', hm, hr⟩ := loop_spec
            (m := { m with base := bs, basePeek := none, overlay := ss, overlayPeek := none })
            (show _ < turns by simpa [stageds] using h)
          exact ⟨m', by simpa [bases, stageds] using hm, by simpa [bases, stageds] using hr⟩
      | gt =>
        cases v with
        | some v => exact ⟨_, Prod.ext (by simp) rfl, by simp [bases, stageds]⟩
        | none =>
          obtain ⟨m', hm, hr⟩ := loop_spec
            (m := { m with base := bs, basePeek := some (bk, bv), overlay := ss, overlayPeek := none })
            (show _ < turns by simpa [stageds] using h)
          exact ⟨m', by simpa [bases, stageds] using hm, by simpa [bases, stageds] using hr⟩

end Merged

namespace RangeIter

/-- The entries a scan has left. -/
def rest : RangeIter → List Entry
  | .raw range => range
  | .collected iter => iter
  | .merged m => merge m.bases m.stageds

theorem next_spec (iter : RangeIter) :
    ∃ iter', iter.next = (iter.rest.head?.map .ok, iter') ∧ iter'.rest = iter.rest.tail := by
  cases iter with
  | raw range => cases range <;> exact ⟨_, rfl, rfl⟩
  | collected l => cases l <;> exact ⟨_, rfl, rfl⟩
  | merged m =>
    obtain ⟨m', hm, hr⟩ := Merged.loop_spec (m := m) (show _ < m.overlay.length + 2 by
      rw [Merged.stageds, List.length_append]
      cases m.overlayPeek <;> simp
      omega)
    exact ⟨.merged m', by rw [next, hm]; rfl, hr⟩

theorem items_eq : ∀ {turns : Nat} {iter : RangeIter}, iter.rest.length ≤ turns →
    iter.items turns = iter.rest.map .ok
  | 0, iter, h => by rw [List.length_eq_zero_iff.mp (Nat.le_zero.mp h)]; rfl
  | turns + 1, iter, h => by
    obtain ⟨iter', hn, hr⟩ := iter.next_spec
    rw [items, hn]
    rcases hrest : iter.rest with _ | ⟨entry, rest⟩
    · rfl
    · rw [hrest] at h hr
      simp only [List.head?_cons, Option.map_some, List.map_cons]
      rw [items_eq (by rw [hr]; exact Nat.le_of_succ_le_succ h), hr]
      rfl

/-- A whole scan yields the entries it has left, and no error. -/
theorem toList_eq (iter : RangeIter) : iter.toList = iter.rest.map .ok := by
  refine items_eq ?_
  cases iter with
  | raw range => exact Nat.le_refl _
  | collected l => exact Nat.le_refl _
  | merged m =>
    have h := length_merge_le m.bases m.stageds
    have hb : m.basePeek.toList.length ≤ 1 := by cases m.basePeek <;> simp
    have hs : m.overlayPeek.toList.length ≤ 1 := by cases m.overlayPeek <;> simp
    rw [Merged.bases, Merged.stageds, List.length_append, List.length_append] at h
    rw [rest, bound, Merged.bases, Merged.stageds]
    omega

end RangeIter

/-! ## Views -/

/-- A reader whose reads are those of the tables it shows. -/
class LawfulReader (R : Type) [Reader R] where
  view : R → Tables
  get_eq : ∀ (r : R) (table : TableId) (key : Bytes),
    Reader.get r table key = .ok (view r table)[key]?
  range_eq : ∀ (r : R) (table : TableId) (start stop : Bytes), compare start stop ≠ .gt →
    ∃ iter, Reader.range r table start stop = .ok iter ∧
      iter.rest = scan (view r table) start stop

/-- A store whose mutations change what it shows, at the key they name. -/
class LawfulWriter (W : Type) [Reader W] [Writer W] extends LawfulReader W where
  put_eq : ∀ (w : W) (table : TableId) (key value : Bytes), ∃ w',
    Writer.put table key value w = .ok () w' ∧ view w' = (view w).modify table (·.insert key value)
  delete_eq : ∀ (w : W) (table : TableId) (key : Bytes), ∃ w',
    Writer.delete table key w = .ok () w' ∧ view w' = (view w).modify table (·.erase key)

export LawfulReader (view)

@[simp] theorem modify_self (tables : Tables) (table : TableId) (f : Table → Table) :
    tables.modify table f table = f (tables table) := Function.update_self ..

theorem modify_of_ne (tables : Tables) {table table' : TableId} (h : table' ≠ table)
    (f : Table → Table) : tables.modify table f table' = tables table' := Function.update_of_ne h ..

instance : LawfulReader ReadView where
  view r := r.txn
  get_eq _ _ _ := rfl
  range_eq _ _ _ _ _ := ⟨_, rfl, rfl⟩

instance : LawfulWriter WriteTxn where
  view w := w.inner
  get_eq _ _ _ := rfl
  range_eq _ _ _ _ _ := ⟨_, rfl, rfl⟩
  put_eq _ _ _ _ := ⟨_, rfl, rfl⟩
  delete_eq _ _ _ := ⟨_, rfl, rfl⟩

/-! ## Overlays -/

/-- The tables an overlay shows: its base with what is staged applied. -/
def Overlay.tables (overlay : Overlay) : Tables := fun table =>
  applyAll (overlay.base.txn table) (overlay.batch.staged table)

theorem Overlay.getElem?_tables (overlay : Overlay) (table : TableId) (key : Bytes) :
    (overlay.tables table)[key]? =
      (overlay.batch.staged table)[key]?.getD (overlay.base.txn table)[key]? :=
  getElem?_applyAll ..

theorem Overlay.get_eq (overlay : Overlay) (table : TableId) (key : Bytes) :
    Reader.get overlay table key = .ok (overlay.tables table)[key]? := by
  rw [overlay.getElem?_tables, WriteBatch.staged]
  simp only [Reader.get]
  cases overlay.batch.entries table with
  | none => rfl
  | some map => cases h : map[key]? <;> simp [h]

theorem Overlay.range_eq (overlay : Overlay) (table : TableId) {start stop : Bytes}
    (h : compare start stop ≠ .gt) : ∃ iter, Reader.range overlay table start stop = .ok iter ∧
      iter.rest = scan (overlay.tables table) start stop := by
  rw [tables, ← merge_scan, WriteBatch.staged]
  simp only [Reader.range]
  cases overlay.batch.entries table with
  | none => exact ⟨_, rfl, rfl⟩
  | some map => exact ⟨_, by simp only [if_neg h]; rfl, rfl⟩

/-- Staging at a key changes the table the overlay shows at that key. -/
theorem Overlay.tables_insert (overlay : Overlay) (table : TableId) (key : Bytes)
    (value : Option Bytes) :
    Overlay.tables { overlay with batch := overlay.batch.insert table key value } =
      overlay.tables.modify table (change · (key, value)) := by
  funext table'
  refine Std.ExtTreeMap.ext_getElem? fun k => ?_
  by_cases ht : table' = table
  · subst ht
    rw [modify_self, getElem?_change, getElem?_tables, getElem?_tables]
    simp only [WriteBatch.insert, WriteBatch.staged, Function.update_self, Option.getD_some,
      Std.ExtTreeMap.getElem?_insert]
    split <;> simp
  · rw [modify_of_ne _ ht, getElem?_tables, getElem?_tables]
    simp only [WriteBatch.insert, WriteBatch.staged, Function.update_of_ne ht]

instance : LawfulWriter Overlay where
  view overlay := overlay.tables
  get_eq := Overlay.get_eq
  range_eq overlay table _ _ h := overlay.range_eq table h
  put_eq overlay table key value := ⟨_, rfl, overlay.tables_insert table key (some value)⟩
  delete_eq overlay table key := ⟨_, rfl, overlay.tables_insert table key none⟩

end Railgun
