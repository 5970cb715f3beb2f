import Mathlib.Algebra.BigOperators.Group.List.Basic
import Railgun.Proof.Decoder
import Railgun.Proof.Lifecycle
import Railgun.Proof.Sessions
import Railgun.Spec.Wallet

/-!
# From the chain to balances, and back from a file

What a wallet reads off a synced database is a function of the chain
(`wallet_view`): the scan finds the notes that the blocks hold for it, and the
balances are of those whose nullifiers are in none of them. A list of notes that
is saved stays whole (`saved_notes_whole`), and grouping it again gives what was
grouped before, whatever order the map had its assets in (`wallet_reload`).
-/

namespace Railgun

open Outcome BigEndian

/-! ## Notes of the chain -/

section
variable {chain : Chain} {F : Forest} {lo hi : Nat} (hF : ∀ event, F.Has event ↔ chain.Between lo hi event)
include hF

theorem mem_notes_iff {prims : Primitives} {decoder : Decoder} {note : DecryptedNote} :
    note ∈ F.nodes.filterMap (decoder.noteOf prims) ↔ chain.Pays prims decoder lo hi note := by
  simp only [List.mem_filterMap, Forest.mem_nodes_iff, noteOf_eq_some, and_assoc]
  exact exists_congr fun n => and_congr_left' (hF (.commitment n))

theorem unspent_iff {note : DecryptedNote} : F.unspent note = true ↔ chain.Unspent lo hi note := by
  rw [Forest.unspent, Bool.not_eq_true', ← Bool.not_eq_true, Chain.Unspent, ← hF]
  rfl

/-- A balance of a forest of the chain's events is of the chain. -/
theorem IsBalance.isOf {found : List DecryptedNote} {asset : AssetId} {entry : Option Balance}
    (h : IsBalance F (found.filter (·.asset = asset)) entry) :
    Balance.IsOf entry found fun note => note.asset = asset ∧ chain.Unspent lo hi note := by
  have hmem : ∀ note, note ∈ (found.filter (·.asset = asset)).filter F.unspent ↔
      note ∈ found ∧ note.asset = asset ∧ chain.Unspent lo hi note := fun note => by
    rw [List.mem_filter, List.mem_filter, decide_eq_true_iff, unspent_iff hF, and_assoc]
  refine ⟨?_, fun balance hb note => ?_, fun balance hb => ?_, fun balance hb => ?_⟩
  · rw [h.1, ← List.length_pos_iff, List.length_pos_iff_exists_mem]
    exact exists_congr hmem
  · rw [(h.2 balance hb).1]
    exact hmem note
  · rw [(h.2 balance hb).1]
    exact List.filter_sublist.trans List.filter_sublist
  · rw [(h.2 balance hb).2, (h.2 balance hb).1, totalValue]

end

section
variable {σ : Type} {tables : PoseidonTables} {serde : Serde MerkleAccumulatorState} {network : Network σ}
  {wire : Wire} {archive : Archive}

/-- However it was synced, a database shows a wallet the notes that the blocks from the floor up to the
watermark hold for it, each once, and the balances of those that the same blocks have not spent. -/
theorem wallet_view (prims : Primitives) (decoder : Decoder) (hJ : serde.RoundTrips)
    (hhonest : network.Honest wire archive) (hhead : archive.head.toNat < 2 ^ 64 - 1) {floor : BlockNumber}
    {db : Database} (h : Sessions tables serde network wire floor archive.head db) :
    ∃ watermark notes, Commitments.syncedBlock db.read = .ok watermark ∧
      decoder.decodeAll prims db.read = .ok notes ∧ notes.Nodup ∧
      (∀ note, note ∈ notes ↔
        archive.chain.Pays prims decoder floor.toNat (nextBlock floor watermark) note) ∧
      ∀ found : List DecryptedNote, found.Perm notes →
        ∃ balances, (DecodedNotes.fromNotes found).balances db.read = .ok balances ∧
          ∀ asset, Balance.IsOf balances[asset]? found fun note => note.asset = asset ∧
            archive.chain.Unspent floor.toNat (nextBlock floor watermark) note := by
  obtain ⟨F, hF⟩ := caughtUp_sessions hJ hhonest hhead h
  have hrep : Represents (Railgun.view db.read .commitments) F := hF.folded.represents
  refine ⟨F.synced, F.nodes.filterMap (decoder.noteOf prims), syncedBlock_spec hrep,
    decodeAll_spec hrep prims decoder, nodup_notes F, fun note => mem_notes_iff hF.has, fun found hfound => ?_⟩
  have hlen : found.length ≤ 2 ^ 48 := by
    rw [hfound.length_eq]
    exact Nat.le_trans (List.length_filterMap_le ..) F.length_nodes_le
  obtain ⟨balances, hb, hall⟩ := balances_spec hrep found hlen
  exact ⟨balances, hb, fun asset => (hall asset).isOf hF.has⟩

/-- Every block of the archive pays the wallet two notes. -/
theorem smallArchive_pays {note : DecryptedNote} :
    smallArchive.chain.Pays openPrimitives ⟨zeroDecryptor⟩ 0 10 note ↔ note = twinNote 0 ∨ note = twinNote 1 := by
  simp only [Chain.Pays, smallArchive_between]
  constructor
  · rintro ⟨n, hn, -, hd⟩
    simp only [SyncEvent.commitment.injEq, reduceCtorEq, or_false] at hn
    rcases hn with rfl | rfl
    · exact .inl (Except.ok.inj hd).symm
    · exact .inr (Except.ok.inj hd).symm
  · rintro (rfl | rfl)
    · exact ⟨shieldNode 4 0, .inl rfl, by decide, rfl⟩
    · exact ⟨shieldNode 6 1, .inr (.inl rfl), by decide, rfl⟩

/-- And spends the first. -/
theorem smallArchive_unspent {note : DecryptedNote} (h : note = twinNote 0 ∨ note = twinNote 1) :
    smallArchive.chain.Unspent 0 10 note ↔ note = twinNote 1 := by
  rw [Chain.Unspent, smallArchive_between]
  rcases h with rfl | rfl
  · exact iff_of_false (by decide) (by decide)
  · exact iff_of_true (by decide) rfl

/-- Of two notes of one asset a balance has what can be spent. -/
theorem Balance.IsOf.exists_perm {entry : Option Balance} {found notes : List DecryptedNote}
    {spendable : DecryptedNote → Prop} (h : Balance.IsOf entry found spendable) (hfound : found.Nodup)
    (hnotes : notes.Nodup) (hne : notes ≠ []) (hmem : ∀ note, note ∈ found ∧ spendable note ↔ note ∈ notes) :
    ∃ balance, entry = some balance ∧ balance.unspentUtxos.Perm notes ∧
      balance.value.toNat = (notes.map (·.value.toNat)).sum := by
  obtain ⟨note, hnote⟩ := List.exists_mem_of_ne_nil _ hne
  obtain ⟨balance, rfl⟩ := Option.isSome_iff_exists.mp (h.isSome.mpr ⟨note, (hmem note).mpr hnote⟩)
  have hperm : balance.unspentUtxos.Perm notes :=
    (List.perm_ext_iff_of_nodup (hfound.sublist (h.sublist _ rfl)) hnotes).mpr fun note => by
      rw [h.mem _ rfl, hmem]
  exact ⟨balance, rfl, hperm, by rw [h.value _ rfl, (hperm.map _).sum_eq]⟩

/-- So of both notes a balance has the second. -/
theorem smallArchive_balance {entry : Option Balance} {notes : List DecryptedNote} (hnodup : notes.Nodup)
    (htwins : ∀ note, note ∈ notes ↔ note = twinNote 0 ∨ note = twinNote 1)
    (h : Balance.IsOf entry notes fun note => note.asset = .erc20 (.replicate 20 0) ∧
      smallArchive.chain.Unspent 0 10 note) :
    ∃ balance, entry = some balance ∧ balance.unspentUtxos = [twinNote 1] ∧ balance.value.toNat = 7 := by
  have hone : [twinNote 1].Nodup := List.pairwise_singleton _ _
  obtain ⟨balance, hbalance, hperm, hvalue⟩ := h.exists_perm hnodup hone (by simp) fun note => by
    rw [htwins, List.mem_singleton]
    constructor
    · exact fun h => (smallArchive_unspent h.1).mp h.2.2
    · rintro rfl
      exact ⟨.inr rfl, rfl, (smallArchive_unspent (.inr rfl)).mpr rfl⟩
  exact ⟨balance, hbalance, List.perm_singleton.mp hperm, hvalue⟩

/-- The wallet finds both shields, and has the value of the one that is not spent. -/
theorem wallet_view_lossy : ∃ db notes balances balance,
    Sessions poseidonTables snapshotSerde lossy smallWire 0 smallArchive.head db ∧
    (Decoder.mk zeroDecryptor).decodeAll openPrimitives db.read = .ok notes ∧
    (∀ note, note ∈ notes ↔ note = twinNote 0 ∨ note = twinNote 1) ∧
    (DecodedNotes.fromNotes notes).balances db.read = .ok balances ∧
    balances[AssetId.erc20 (.replicate 20 0)]? = some balance ∧
    balance.unspentUtxos = [twinNote 1] ∧ balance.value.toNat = 7 := by
  obtain ⟨session, -, hrun, -, hsynced⟩ := lossy_run (.new 0) rfl 0
  have h : Sessions poseidonTables snapshotSerde lossy smallWire 0 smallArchive.head session.db :=
    .run .new rfl .asking hrun
  obtain ⟨watermark, notes, hw, hnotes, hnodup, hpays, hbalances⟩ := wallet_view openPrimitives ⟨zeroDecryptor⟩
    snapshotSerde_roundTrips lossy_honest (by decide) h
  rw [hsynced, Except.ok.injEq] at hw
  subst hw
  have htwins : ∀ note, note ∈ notes ↔ note = twinNote 0 ∨ note = twinNote 1 := fun note =>
    (hpays note).trans smallArchive_pays
  obtain ⟨balances, hb, hall⟩ := hbalances notes (.refl _)
  obtain ⟨balance, hbalance, hutxos, hvalue⟩ := smallArchive_balance hnodup htwins (hall _)
  exact ⟨session.db, notes, balances, balance, h, hnotes, htwins, hb, hbalance, hutxos, hvalue⟩

end

/-! ## Grouping again -/

/-- Lists under different keys, one after the other: what has a key is in its list. -/
theorem filter_flatMap_buckets {α κ : Type} [DecidableEq κ] {key : α → κ} {k : κ} {as : List α} :
    ∀ {entries : List (κ × List α)}, entries.Pairwise (fun e e' => e.1 ≠ e'.1) →
    (∀ e ∈ entries, ∀ a ∈ e.2, key a = e.1) → (∀ e ∈ entries, e.1 = k → e.2 = as) →
    (as ≠ [] → ∃ e ∈ entries, e.1 = k) → (entries.flatMap (·.2)).filter (key · = k) = as
  | [], _, _, _, hhas => by
    by_cases has : as = []
    · rw [has]
      rfl
    · obtain ⟨e, he, -⟩ := hhas has
      cases he
  | e :: entries, hd, hkeys, has, hhas => by
    obtain ⟨hde, hd⟩ := List.pairwise_cons.mp hd
    have hrest : ∀ e' ∈ entries, ∀ a ∈ e'.2, key a = e'.1 := fun e' he' => hkeys e' (List.mem_cons_of_mem _ he')
    rw [List.flatMap_cons, List.filter_append]
    by_cases hk : e.1 = k
    · have hall : e.2.filter (key · = k) = e.2 := List.filter_eq_self.mpr fun a ha =>
        decide_eq_true ((hkeys e List.mem_cons_self a ha).trans hk)
      have hnone : (entries.flatMap (·.2)).filter (key · = k) = [] := List.filter_eq_nil_iff.mpr fun a ha => by
        obtain ⟨e', he', ha⟩ := List.mem_flatMap.mp ha
        rw [decide_eq_true_iff, hrest e' he' a ha, ← hk]
        exact (hde e' he').symm
      rw [hall, hnone, List.append_nil, has e List.mem_cons_self hk]
    · have hnone : e.2.filter (key · = k) = [] := List.filter_eq_nil_iff.mpr fun a ha => by
        rw [decide_eq_true_iff, hkeys e List.mem_cons_self a ha]
        exact hk
      rw [hnone, List.nil_append]
      refine filter_flatMap_buckets hd hrest (fun e' he' => has e' (List.mem_cons_of_mem _ he')) fun h => ?_
      obtain ⟨e', he', hk'⟩ := hhas h
      rcases List.mem_cons.mp he' with rfl | he'
      · exact absurd hk' hk
      · exact ⟨e', he', hk'⟩

/-- A flat copy has each asset's notes in the order they were found. -/
theorem flattens_filter {found flat : List DecryptedNote} (h : (DecodedNotes.fromNotes found).Flattens flat)
    (asset : AssetId) : flat.filter (·.asset = asset) = found.filter (·.asset = asset) := by
  obtain ⟨entries, hperm, rfl⟩ := h
  have hbuckets := bucketed_fromNotes found
  have hbucket : ∀ e ∈ entries, e.2 = found.filter (·.asset = e.1) ∧ e.2 ≠ [] := fun e he => by
    have hget := Std.HashMap.mem_toList_iff_getElem?_eq_some.mp (hperm.mem_iff.mp he)
    rw [hbuckets] at hget
    split at hget
    · cases hget
    · rename_i hne
      have hbucket := Option.some.inj hget
      exact ⟨hbucket.symm, hbucket ▸ hne⟩
  refine filter_flatMap_buckets ?_ (fun e he note hn => ?_) (fun e he hk => ?_) fun hne => ?_
  · refine (hperm.pairwise_iff fun h => h.symm).mpr ?_
    exact Std.HashMap.distinct_keys_toList.imp fun h he => by simp [he] at h
  · rw [(hbucket e he).1] at hn
    exact of_decide_eq_true (List.mem_filter.mp hn).2
  · rw [(hbucket e he).1, hk]
  · refine ⟨(asset, found.filter (·.asset = asset)), hperm.mem_iff.mpr ?_, rfl⟩
    rw [Std.HashMap.mem_toList_iff_getElem?_eq_some, hbuckets, if_neg hne]

theorem flattens_toNotes (notes : DecodedNotes) : notes.Flattens notes.toNotes := ⟨_, .refl _, rfl⟩

/-- The assets in any order, each with its notes. -/
theorem flattens_of_assets {found : List DecryptedNote} {assets : List AssetId} (hnodup : assets.Nodup)
    (hassets : ∀ asset, asset ∈ assets ↔ ∃ note ∈ found, note.asset = asset) :
    (DecodedNotes.fromNotes found).Flattens (assets.flatMap fun asset => found.filter (·.asset = asset)) := by
  refine ⟨assets.map fun asset => (asset, found.filter (·.asset = asset)), ?_, by rw [List.flatMap_map]⟩
  have hentries : (assets.map fun asset => (asset, found.filter (·.asset = asset))).Nodup :=
    List.Pairwise.map _ (fun a b hne he => hne (Prod.mk.inj he).1) hnodup
  refine (List.perm_ext_iff_of_nodup hentries ?_).mpr fun e => ?_
  · exact Std.HashMap.distinct_keys_toList.imp fun h he => by simp [he] at h
  obtain ⟨asset, bucket⟩ := e
  rw [Std.HashMap.mem_toList_iff_getElem?_eq_some, bucketed_fromNotes, List.mem_map]
  have hnone : found.filter (·.asset = asset) = [] ↔ asset ∉ assets := by
    rw [hassets, List.filter_eq_nil_iff]
    simp
  constructor
  · rintro ⟨asset', hmem, he⟩
    obtain ⟨rfl, rfl⟩ := Prod.mk.inj he
    rw [if_neg fun h => hnone.mp h hmem]
  · intro hget
    split at hget
    · cases hget
    · rename_i hne
      exact ⟨asset, by_contra fun h => hne (hnone.mpr h), Prod.ext rfl (Option.some.inj hget)⟩

/-- Nothing is lost or added. -/
theorem flattens_perm {found flat : List DecryptedNote} (h : (DecodedNotes.fromNotes found).Flattens flat) :
    flat.Perm found := List.perm_iff_count.mpr fun note => by
  have hcount : ∀ l : List DecryptedNote, l.count note = (l.filter (·.asset = note.asset)).count note := fun l =>
    (List.count_filter (p := fun other : DecryptedNote => other.asset = note.asset) (decide_eq_true rfl)).symm
  rw [hcount flat, hcount found, flattens_filter h]

/-- Grouping the flat copy again gives every asset what it had. -/
theorem byAsset_flattens {found flat : List DecryptedNote} (h : (DecodedNotes.fromNotes found).Flattens flat)
    (asset : AssetId) :
    (DecodedNotes.fromNotes flat).byAsset[asset]? = (DecodedNotes.fromNotes found).byAsset[asset]? := by
  rw [bucketed_fromNotes, bucketed_fromNotes, flattens_filter h]

/-! ## Balances by asset -/

/-- What some notes come to, given which are spent. -/
def tally (spent : DecryptedNote → Bool) (notes : List DecryptedNote) : Balance :=
  ⟨(notes.filter (!spent ·)).foldl (fun value note => saturatingAdd value note.value.asU256) 0,
    notes.filter (!spent ·)⟩

/-- The entry of an asset with these notes. -/
def tallyEntry (spent : DecryptedNote → Bool) (notes : List DecryptedNote) : Option Balance :=
  if notes.filter (!spent ·) = [] then none else some (tally spent notes)

section
variable {R : Type} [Reader R] {view : R} {spent : DecryptedNote → Bool} (hspent : ∀ note,
  Commitments.isNullified view note.position.treeNumber note.nullifier = .ok (spent note))
include hspent

theorem addNotes_tally : ∀ (notes : List DecryptedNote) (balance : Balance),
    notes.foldlM (DecodedNotes.addNote view) balance = .ok
      ⟨(notes.filter (!spent ·)).foldl (fun value note => saturatingAdd value note.value.asU256) balance.value,
        balance.unspentUtxos ++ notes.filter (!spent ·)⟩
  | [], balance => by
    rw [List.filter_nil, List.append_nil]
    rfl
  | note :: notes, balance => by
    rw [List.foldlM_cons, DecodedNotes.addNote, hspent, mapError_ok, ok_bind]
    cases hs : spent note with
    | true =>
      rw [List.filter_cons_of_neg (by simp [hs])]
      exact addNotes_tally notes balance
    | false =>
      rw [List.filter_cons_of_pos (by simp [hs]), List.foldl_cons]
      refine (addNotes_tally notes _).trans ?_
      rw [List.append_assoc]
      rfl

theorem addAsset_tally (balances : Std.HashMap AssetId Balance) (entry : AssetId × List DecryptedNote) :
    DecodedNotes.addAsset view balances entry = .ok
      (if entry.2.filter (!spent ·) = [] then balances else balances.insert entry.1 (tally spent entry.2)) := by
  rw [DecodedNotes.addAsset, addNotes_tally hspent, ok_bind, List.nil_append]
  by_cases he : entry.2.filter (!spent ·) = []
  · rw [if_pos he, if_pos (by rw [he]; rfl)]
    rfl
  · rw [if_neg he, if_neg (by rwa [List.isEmpty_iff])]
    rfl

theorem addAssets_tally : ∀ (entries : List (AssetId × List DecryptedNote))
    (balances : Std.HashMap AssetId Balance), entries.Pairwise (fun e e' => e.1 ≠ e'.1) →
    (∀ e ∈ entries, balances[e.1]? = none) →
    ∃ balances', entries.foldlM (DecodedNotes.addAsset view) balances = .ok balances' ∧
      (∀ e ∈ entries, balances'[e.1]? = tallyEntry spent e.2) ∧
      ∀ asset, (∀ e ∈ entries, e.1 ≠ asset) → balances'[asset]? = balances[asset]?
  | [], balances, _, _ => ⟨balances, rfl, nofun, fun _ _ => rfl⟩
  | e :: entries, balances, hd, hfree => by
    obtain ⟨hde, hd⟩ := List.pairwise_cons.mp hd
    obtain ⟨balances₁, hstep, hentry, hother⟩ : ∃ balances₁,
        DecodedNotes.addAsset view balances e = .ok balances₁ ∧ balances₁[e.1]? = tallyEntry spent e.2 ∧
        ∀ asset, e.1 ≠ asset → balances₁[asset]? = balances[asset]? := by
      refine ⟨_, addAsset_tally hspent balances e, ?_, fun asset hne => ?_⟩
      · rw [tallyEntry]
        split
        · exact hfree e List.mem_cons_self
        · rw [Std.HashMap.getElem?_insert_self]
      · split
        · rfl
        · rw [Std.HashMap.getElem?_insert, if_neg (by simpa using hne)]
    obtain ⟨balances', hrest, hall, hkept⟩ := addAssets_tally entries balances₁ hd fun e' he' =>
      (hother _ (hde e' he')).trans (hfree e' (List.mem_cons_of_mem _ he'))
    refine ⟨balances', ?_, fun e' he' => ?_, fun asset ha => ?_⟩
    · rw [List.foldlM_cons, hstep, ok_bind, hrest]
    · rcases List.mem_cons.mp he' with rfl | he'
      · exact (hkept _ fun e'' he'' => (hde e'' he'').symm).trans hentry
      · exact hall e' he'
    · rw [hkept asset fun e' he' => ha e' (List.mem_cons_of_mem _ he'), hother asset (ha e List.mem_cons_self)]

/-- Balances go by the notes each asset has, and not by the order the assets are in. -/
theorem balances_tally (notes : DecodedNotes) : ∃ balances : Std.HashMap AssetId Balance,
    notes.balances view = .ok balances ∧
      ∀ asset : AssetId, balances[asset]? = notes.byAsset[asset]?.bind (tallyEntry spent) := by
  obtain ⟨balances, hb, hall, hrest⟩ := addAssets_tally hspent notes.byAsset.toList ∅
    (Std.HashMap.distinct_keys_toList.imp fun h he => by simp [he] at h)
    fun _ _ => Std.HashMap.getElem?_empty
  refine ⟨balances, hb, fun asset => ?_⟩
  cases hget : notes.byAsset[asset]? with
  | none =>
    rw [hrest asset fun e he ha => ?_, Std.HashMap.getElem?_empty]
    · rfl
    · have := Std.HashMap.mem_toList_iff_getElem?_eq_some.mp he
      rw [ha, hget] at this
      cases this
  | some bucket =>
    exact hall (asset, bucket) (Std.HashMap.mem_toList_iff_getElem?_eq_some.mpr hget)

end

/-- What the notes' entry comes to when it is loaded. -/
def loadEntry (serde : Serde (List DecryptedNote)) : Option Bytes → Except DatabaseError (List DecryptedNote)
  | some bytes => (serde.fromSlice bytes).mapError .serde
  | none => .ok []

theorem load_eq (serde : Serde (List DecryptedNote)) (db : Database) :
    Decoded.load serde db.read = loadEntry serde (db.engine .decoded)[notesKey]? := by
  have hget : Reader.get db.read .decoded notesKey = .ok (db.engine .decoded)[notesKey]? := rfl
  rw [Decoded.load, hget, ok_bind]
  cases (db.engine .decoded)[notesKey]? <;> rfl

/-- The notes are saved in a transaction of their own. -/
def Database.withNotes (db : Database) (bytes : Bytes) : Database :=
  ⟨db.engine.modify .decoded (·.insert notesKey bytes)⟩

theorem withNotes_of_ne (db : Database) (bytes : Bytes) {table : TableId} (h : table ≠ .decoded) :
    (db.withNotes bytes).engine table = db.engine table := by
  show db.engine.modify .decoded (·.insert notesKey bytes) table = _
  rw [modify_of_ne _ h]

theorem withNotes_decoded (db : Database) (bytes : Bytes) :
    ((db.withNotes bytes).engine .decoded)[notesKey]? = some bytes := by
  show (db.engine.modify .decoded (·.insert notesKey bytes) .decoded)[notesKey]? = _
  rw [Tables.modify, Function.update_self, Std.ExtTreeMap.getElem?_insert_self]

theorem live_save {backend : Backend} {notes : List DecryptedNote} {bytes : Bytes}
    (hbytes : backend.notes.toVec notes = .ok bytes) (db : Database) :
    (World.on db).live backend [.action .begin, .call (.saveNotes notes), .action .commit] =
      some (World.on (db.withNotes bytes)) := by
  have hput : runCall backend (WriteTxn.mk db.engine) (.saveNotes notes) =
      (.done (.ok ()), ⟨(db.withNotes bytes).engine⟩) := by
    rw [runCall, DecodedMut.save, hbytes]
    rfl
  show some (World.step _ _ { World.on db with txn := some (runCall backend (WriteTxn.mk db.engine)
    (.saveNotes notes)).2 } .commit) = _
  rw [hput]
  rfl

/-- A note in the tree, of the first address or of the one of all ones. -/
def savedNote (tree : U32) (byte : Byte) : DecryptedNote :=
  { twinNote tree with asset := .erc20 (.replicate 20 byte) }

/-- Notes in the order they were found, and the same with the second asset listed first. -/
def foundNotes : List DecryptedNote := [savedNote 0 0, savedNote 1 1, savedNote 2 0]

def flatNotes : List DecryptedNote := [savedNote 1 1, savedNote 0 0, savedNote 2 0]

/-- A note's JSON. -/
def noteText (tree address : String) : String :=
  "\x7b\"position\":\x7b\"tree_number\":" ++ tree ++ ",\"leaf_index\":0\x7d,\"value\":7," ++
  "\"asset\":\x7b\"Erc20\":\"0x" ++ address ++ "\"\x7d," ++
  "\"random\":[0,0,0,0,0,0,0,0,0,0,0,0,0,0,0,0],\"memo\":\"\"," ++
  "\"commitment_hash\":\"0x0\",\"note_public_key\":\"0x0\"," ++
  "\"nullifier\":\"0x0000000000000000000000000000000000000000000000000000000000000000\"," ++
  "\"blinded_commitment\":\"0x0\",\"commitment_type\":\"Shield\"\x7d"

def flatText : String :=
  "[" ++ noteText "1" "0101010101010101010101010101010101010101" ++ "," ++
  noteText "0" "0000000000000000000000000000000000000000" ++ "," ++
  noteText "2" "0000000000000000000000000000000000000000" ++ "]"

/-- Writes and reads some notes. -/
def onlySerde (notes : List DecryptedNote) (text : String) : Serde (List DecryptedNote) where
  toVec notes' := if notes' = notes then .ok (textBytes text) else .error "not these notes"
  fromSlice bytes := if bytes = textBytes text then .ok notes else .error "expected value"

theorem toVec_onlySerde (notes : List DecryptedNote) (text : String) :
    (onlySerde notes text).toVec notes = .ok (textBytes text) := if_pos rfl

theorem onlySerde_readsBack (notes : List DecryptedNote) (text : String) : (onlySerde notes text).ReadsBack :=
  fun notes' bytes h => by
    simp only [onlySerde] at h ⊢
    split at h
    · rename_i hn
      rw [hn, if_pos (Except.ok.inj h).symm]
    · cases h

def flatSerde : Serde (List DecryptedNote) := onlySerde flatNotes flatText

theorem flatSerde_readsBack : flatSerde.ReadsBack := onlySerde_readsBack flatNotes flatText

def flatBackend : Backend := ⟨poseidonTables, snapshotSerde, flatSerde⟩

theorem flatBackend_readsBack : flatBackend.notes.ReadsBack := flatSerde_readsBack

theorem flatten_foundNotes : (DecodedNotes.fromNotes foundNotes).Flattens flatNotes := by
  have hnodup : [AssetId.erc20 (.replicate 20 1), .erc20 (.replicate 20 0)].Nodup := by decide
  exact flattens_of_assets hnodup fun asset => by simp [foundNotes, savedNote, eq_comm, or_comm]

/-- What was saved and committed is loaded after steps that spare it. -/
theorem live_saved {backend : Backend} (hJ : backend.notes.ReadsBack) {file : Tables} {db : Database}
    (h : Database.open file = .ok db) {notes : List DecryptedNote} {bytes : Bytes}
    (hbytes : backend.notes.toVec notes = .ok bytes) {steps : List LifeStep}
    (hsteps : ∀ step ∈ steps, step.Spares) :
    ∃ w, (World.on db).live backend
        (.action .begin :: .call (.saveNotes notes) :: .action .commit :: steps) = some w ∧
      Decoded.load backend.notes w.db.read = .ok notes := by
  have hkept : (World.on (db.withNotes bytes)).Kept := kept_on fun v hv => by
    rw [withNotes_of_ne db bytes (by decide)]
    exact kept_of_open h v hv
  have hcell : (World.on (db.withNotes bytes)).Cell .decoded notesKey (· = some bytes) :=
    cell_on (withNotes_decoded db bytes)
  obtain ⟨w, hlive, -, hw⟩ := live_cell steady_decoded steps hkept hcell
    (fun step hs => (hsteps step hs).1.1) fun step hs =>
      ⟨fun hclear => absurd hclear (hsteps step hs).2.1,
        fun _ notes bytes hsaved => (nomatch (hsteps step hs).2.2.symm.trans hsaved),
        fun entry he => absurd he ((hsteps step hs).1.2 entry)⟩
  refine ⟨w, ?_, ?_⟩
  · have hsave := live_save hbytes db
    rw [World.live] at hsave hlive ⊢
    rw [show LifeStep.action .begin :: .call (.saveNotes notes) :: .action .commit :: steps =
      [.action .begin, .call (.saveNotes notes), .action .commit] ++ steps from rfl, List.foldlM_append, hsave]
    exact hlive
  · rw [load_eq, hw.db, loadEntry, hJ notes bytes hbytes, mapError_ok]

/-- The rest of a life in which the flat notes were saved: a write elsewhere, and a wipe of another table
that is under way when the process goes down. -/
def restOfLife : List LifeStep :=
  [.action .begin, .call (.setSyncedBlock 5), .raw (.put .decoded [0] [1]), .action .commit, .action .begin,
    .clearTable .commitments, .reopen]

theorem restOfLife_spares : ∀ step ∈ restOfLife, step.Spares := by
  have hstamps : (restOfLife.all fun step => schemaVersions.all fun v =>
      (step.leaves? .metadata (versionKey v.1)).isNone) = true := by decide +kernel
  have hnotes : (restOfLife.all fun step => (step.leaves? .decoded notesKey).isNone) = true := by decide +kernel
  rw [List.all_eq_true] at hstamps hnotes
  intro step hs
  refine ⟨⟨fun v hv entry he => ?_, fun entry he => ?_⟩, ?_⟩
  · have hnone := List.all_eq_true.mp (hstamps step hs) v hv
    rw [Option.isNone_iff_eq_none.mp hnone] at he
    cases he
  · rw [Option.isNone_iff_eq_none.mp (hnotes step hs)] at he
    cases he
  · simp only [restOfLife, List.mem_cons, List.not_mem_nil, or_false] at hs
    rcases hs with rfl | rfl | rfl | rfl | rfl | rfl | rfl <;> exact ⟨by simp, rfl⟩

/-- Whatever is done with a file and wherever the process goes down, what is loaded is what the file came
with, nothing if it was wiped, or a list that was saved, whole; but for writes past the typed calls at
its key. -/
theorem saved_notes_whole {backend : Backend} (hJ : backend.notes.ReadsBack) {file : Tables} {db : Database}
    (h : Database.open file = .ok db) {steps : List LifeStep} (hsteps : ∀ step ∈ steps, step.SparesNotes) :
    ∃ w, (World.on db).live backend steps = some w ∧
      (Decoded.load backend.notes w.db.read = Decoded.load backend.notes db.read ∨
        LifeStep.clearAll ∈ steps ∧ Decoded.load backend.notes w.db.read = .ok [] ∨
        ∃ step ∈ steps, ∃ notes, step.saved? = some notes ∧
          Decoded.load backend.notes w.db.read = .ok notes) := by
  let R : Option Bytes → Prop := fun entry => entry = (db.engine .decoded)[notesKey]? ∨
    LifeStep.clearAll ∈ steps ∧ entry = none ∨
    ∃ step ∈ steps, ∃ notes bytes, step.saved? = some notes ∧ backend.notes.toVec notes = .ok bytes ∧
      entry = some bytes
  have hcell : (World.on db).Cell .decoded notesKey R := cell_on (.inl rfl)
  have hallows : ∀ step ∈ steps, step.Allows backend .decoded notesKey R := fun step hs =>
    ⟨fun hclear => .inr (.inl ⟨hclear ▸ hs, by
      rw [stamped_empty.elsewhere .decoded (by decide), Std.ExtTreeMap.getElem?_empty]⟩),
      fun _ notes bytes hsaved hbytes => .inr (.inr ⟨step, hs, notes, bytes, hsaved, hbytes, rfl⟩),
      fun entry he => absurd he ((hsteps step hs).2 entry)⟩
  obtain ⟨w, hlive, -, hw⟩ := live_cell steady_decoded steps (kept_on (kept_of_open h)) hcell
    (fun step hs => (hsteps step hs).1) hallows
  refine ⟨w, hlive, ?_⟩
  rw [load_eq, load_eq]
  rcases hw.db with he | ⟨hclear, he⟩ | ⟨step, hs, notes, bytes, hsaved, hbytes, he⟩
  · exact .inl (by rw [he])
  · exact .inr (.inl ⟨hclear, by rw [he]; rfl⟩)
  · refine .inr (.inr ⟨step, hs, notes, hsaved, ?_⟩)
    rw [he, loadEntry, hJ notes bytes hbytes, mapError_ok]

theorem saved_notes_whole_flat : ∃ w, (World.on Database.empty).live flatBackend
      (.action .begin :: .call (.saveNotes flatNotes) :: .action .commit :: restOfLife) = some w ∧
    Decoded.load flatSerde w.db.read = .ok flatNotes ∧
    (Decoded.load flatSerde w.db.read = Decoded.load flatSerde Database.empty.read ∨
      LifeStep.clearAll ∈ LifeStep.action .begin :: .call (.saveNotes flatNotes) :: .action .commit :: restOfLife ∧
        Decoded.load flatSerde w.db.read = .ok [] ∨
      ∃ step ∈ LifeStep.action .begin :: .call (.saveNotes flatNotes) :: .action .commit :: restOfLife, ∃ notes,
        step.saved? = some notes ∧ Decoded.load flatSerde w.db.read = .ok notes) := by
  obtain ⟨w, hlive, hload⟩ := live_saved flatBackend_readsBack (open_of_kept kept_empty)
    (toVec_onlySerde flatNotes flatText) restOfLife_spares
  have hspares : ∀ step ∈ LifeStep.action .begin :: .call (.saveNotes flatNotes) :: .action .commit :: restOfLife,
      step.SparesNotes := fun step hs => by
    simp only [List.mem_cons] at hs
    rcases hs with rfl | rfl | rfl | hs
    · exact ⟨fun _ _ _ he => (nomatch he), fun _ he => (nomatch he)⟩
    · exact ⟨fun _ _ _ he => (nomatch he), fun _ he => (nomatch he)⟩
    · exact ⟨fun _ _ _ he => (nomatch he), fun _ he => (nomatch he)⟩
    · exact (restOfLife_spares step hs).1
  obtain ⟨w', hlive', hwhole⟩ := saved_notes_whole flatBackend_readsBack (open_of_kept kept_empty) hspares
  obtain rfl := Option.some.inj (hlive.symm.trans hlive')
  exact ⟨w, hlive, hload, hwhole⟩

/-- Notes that were grouped, saved in a flat copy and loaded after all that happened since, up to another
save, are grouped as before, and have the same balances in every view. -/
theorem wallet_reload {backend : Backend} (hJ : backend.notes.ReadsBack) {file : Tables} {db : Database}
    (h : Database.open file = .ok db) {found flat : List DecryptedNote}
    (hflat : (DecodedNotes.fromNotes found).Flattens flat) {bytes : Bytes}
    (hbytes : backend.notes.toVec flat = .ok bytes) {steps : List LifeStep} (hsteps : ∀ step ∈ steps, step.Spares) :
    ∃ w loaded, (World.on db).live backend
        (.action .begin :: .call (.saveNotes flat) :: .action .commit :: steps) = some w ∧
      Decoded.load backend.notes w.db.read = .ok loaded ∧ loaded.Perm found ∧
      (∀ asset, (DecodedNotes.fromNotes loaded).utxos asset = (DecodedNotes.fromNotes found).utxos asset) ∧
      ∀ {R : Type} [Reader R] (view : R),
        (∀ tree nullifier, ∃ spent, Commitments.isNullified view tree nullifier = .ok spent) →
        ∃ balances balances', (DecodedNotes.fromNotes loaded).balances view = .ok balances ∧
          (DecodedNotes.fromNotes found).balances view = .ok balances' ∧
          ∀ asset : AssetId, balances[asset]? = balances'[asset]? := by
  obtain ⟨w, hlive, hload⟩ := live_saved hJ h hbytes hsteps
  refine ⟨w, flat, hlive, hload, flattens_perm hflat, fun asset => ?_, fun view hread => ?_⟩
  · rw [DecodedNotes.utxos, DecodedNotes.utxos, byAsset_flattens hflat]
  · choose spent hspent using hread
    have hnote : ∀ note : DecryptedNote, Commitments.isNullified view note.position.treeNumber note.nullifier =
      .ok (spent note.position.treeNumber note.nullifier) := fun note => hspent _ _
    obtain ⟨balances, hb, hall⟩ := balances_tally hnote (DecodedNotes.fromNotes flat)
    obtain ⟨balances', hb', hall'⟩ := balances_tally hnote (DecodedNotes.fromNotes found)
    exact ⟨balances, balances', hb, hb', fun asset => by rw [hall, hall', byAsset_flattens hflat]⟩

theorem wallet_reload_flat : ∃ w loaded, (World.on Database.empty).live
      flatBackend
      (.action .begin :: .call (.saveNotes flatNotes) :: .action .commit :: restOfLife) = some w ∧
    Decoded.load flatSerde w.db.read = .ok loaded ∧ loaded.Perm foundNotes ∧
    (∀ asset, (DecodedNotes.fromNotes loaded).utxos asset = (DecodedNotes.fromNotes foundNotes).utxos asset) ∧
    ∀ {R : Type} [Reader R] (view : R),
      (∀ tree nullifier, ∃ spent, Commitments.isNullified view tree nullifier = .ok spent) →
      ∃ balances balances', (DecodedNotes.fromNotes loaded).balances view = .ok balances ∧
        (DecodedNotes.fromNotes foundNotes).balances view = .ok balances' ∧
        ∀ asset : AssetId, balances[asset]? = balances'[asset]? :=
  wallet_reload flatSerde_readsBack (open_of_kept kept_empty) flatten_foundNotes
    (toVec_onlySerde flatNotes flatText) restOfLife_spares

/-! ## Spent notes -/

/-- Notes of a forest that are at one place are one note. -/
theorem note_eq_of_position {F : Forest} {prims : Primitives} {decoder : Decoder} {note note' : DecryptedNote}
    (h : note ∈ F.nodes.filterMap (decoder.noteOf prims)) (h' : note' ∈ F.nodes.filterMap (decoder.noteOf prims))
    (hposition : note.position = note'.position) : note = note' := by
  obtain ⟨n, hn, hnote⟩ := List.mem_filterMap.mp h
  obtain ⟨n', hn', hnote'⟩ := List.mem_filterMap.mp h'
  have hnode := (Forest.mem_nodes_iff.mp hn).1
  have hnode' := (Forest.mem_nodes_iff.mp hn').1
  have hplace : n.position = n'.position := by
    rw [← (decryptNode_place (noteOf_eq_some.mp hnote)).1, hposition,
      (decryptNode_place (noteOf_eq_some.mp hnote')).1]
  rw [Forest.nodeAt, hplace, show F.node _ _ = some n' from hnode', Option.some.injEq] at hnode
  rw [hnode, hnote, Option.some.injEq] at hnote'
  exact hnote'

/-- A nullifier that is recorded is of one of the notes, if no two leaves have it. -/
theorem unspent_insertNullifier {F : Forest} {prims : Primitives} {decoder : Decoder}
    (hapart : ¬ decoder.decryptor.NullifiersCollide prims) {note other : DecryptedNote}
    (hnote : note ∈ F.nodes.filterMap (decoder.noteOf prims))
    (hother : other ∈ F.nodes.filterMap (decoder.noteOf prims)) :
    (F.insertNullifier ⟨note.position.treeNumber, note.nullifier⟩).unspent other =
      (F.unspent other && decide (other ≠ note)) := by
  have hone : other.position.treeNumber = note.position.treeNumber ∧ other.nullifier = note.nullifier ↔
      other = note := by
    refine ⟨fun ⟨htree, hnullifier⟩ => ?_, fun h => by rw [h]; exact ⟨rfl, rfl⟩⟩
    obtain ⟨n, -, hn⟩ := List.mem_filterMap.mp hnote
    obtain ⟨m, -, hm⟩ := List.mem_filterMap.mp hother
    obtain ⟨hposition, hleaf⟩ := decryptNode_place (noteOf_eq_some.mp hn)
    obtain ⟨hposition', hleaf'⟩ := decryptNode_place (noteOf_eq_some.mp hm)
    rw [← hposition] at hleaf
    rw [← hposition', hnullifier] at hleaf'
    refine note_eq_of_position hother hnote ?_
    by_contra hne
    refine hapart ⟨_, _, _, other.position.inTree, note.position.inTree, fun he => hne ?_, hleaf', hleaf⟩
    exact NodePosition.mk.injEq .. ▸ ⟨htree, he⟩
  rw [Forest.unspent, Forest.unspent]
  show (!if other.position.treeNumber = note.position.treeNumber ∧ other.nullifier = note.nullifier then true
    else F.nullified other.position.treeNumber other.nullifier) = _
  by_cases he : other = note
  · rw [if_pos (hone.mpr he), decide_eq_false (not_not.mpr he), Bool.and_false, Bool.not_true]
  · rw [if_neg (mt hone.mp he), decide_eq_true he, Bool.and_true]

/-- Balances of the same spendable notes are the same. -/
theorem IsBalance.eq {F F' : Forest} {notes : List DecryptedNote} {entry entry' : Option Balance}
    (h : IsBalance F notes entry) (h' : IsBalance F' notes entry')
    (hnotes : notes.filter F.unspent = notes.filter F'.unspent) : entry = entry' := by
  have hsome : entry.isSome ↔ entry'.isSome := by rw [h.1, h'.1, hnotes]
  cases entry with
  | none =>
    cases entry' with
    | none => rfl
    | some balance' => simp at hsome
  | some balance =>
    cases entry' with
    | none => simp at hsome
    | some balance' =>
      obtain ⟨hutxos, hvalue⟩ := h.2 balance rfl
      obtain ⟨hutxos', hvalue'⟩ := h'.2 balance' rfl
      rw [hnotes, ← hutxos'] at hutxos
      rw [hnotes, ← hvalue'] at hvalue
      obtain ⟨value, utxos⟩ := balance
      obtain ⟨value', utxos'⟩ := balance'
      exact congrArg some (Balance.mk.injEq .. ▸ ⟨BitVec.eq_of_toNat_eq hvalue, hutxos⟩)

/-- Where one of the notes is spent, its balance is left without it. -/
theorem IsBalance.spends {F F' : Forest} {notes : List DecryptedNote} {note : DecryptedNote}
    {entry entry' : Option Balance} (h : IsBalance F notes entry) (h' : IsBalance F' notes entry')
    (hnote : note ∈ notes) (hunspent : F.unspent note = true)
    (hnotes : notes.filter F'.unspent = (notes.filter F.unspent).erase note) :
    ∃ balance, entry = some balance ∧ balance.Spends note entry' := by
  have hmem : note ∈ notes.filter F.unspent := List.mem_filter.mpr ⟨hnote, hunspent⟩
  obtain ⟨balance, rfl⟩ := Option.isSome_iff_exists.mp (h.1.mpr (List.ne_nil_of_mem hmem))
  obtain ⟨hutxos, hvalue⟩ := h.2 balance rfl
  have hsum : note.value.toNat + totalValue ((notes.filter F.unspent).erase note) =
      totalValue (notes.filter F.unspent) := List.sum_map_erase (fun note => note.value.toNat) hmem
  refine ⟨balance, rfl, hutxos ▸ hmem, ?_, ?_, ?_⟩
  · rw [← Option.not_isSome_iff_eq_none, h'.1, not_not, hnotes, hutxos, List.erase_eq_nil_iff]
    exact or_iff_right (List.ne_nil_of_mem hmem)
  · cases entry' with
    | none =>
      have hnil := mt h'.1.mpr (by simp)
      rw [not_not, hnotes] at hnil
      rw [hutxos, hnil]
      rfl
    | some rest => exact ((h'.2 rest rfl).1.trans hnotes).trans (by rw [hutxos])
  · cases entry' with
    | none =>
      have hnil := mt h'.1.mpr (by simp)
      rw [not_not, hnotes] at hnil
      rw [hvalue, ← hsum, hnil, Nat.add_comm]
      rfl
    | some rest =>
      show rest.value.toNat + note.value.toNat = _
      rw [(h'.2 rest rfl).2, hnotes, hvalue, ← hsum, Nat.add_comm]

/-- The nullifier of a note that a scan found, recorded in its tree, takes that note from the balance of its
asset, and touches no other note or balance; or two leaves have one nullifier. -/
theorem spend_exact (prims : Primitives) (decoder : Decoder) (writes : List Write) {notes : List DecryptedNote}
    {note : DecryptedNote}
    (hnotes : decoder.decodeAll prims (runWrites (WriteTxn.mk fun _ => ∅) writes).2 = .ok notes)
    (hnote : note ∈ notes) (hunspent : Unspent writes note) :
    decoder.decryptor.NullifiersCollide prims ∨
    ∃ balance, ∃ balances balances' : Std.HashMap AssetId Balance,
      (DecodedNotes.fromNotes notes).balances (runWrites (WriteTxn.mk fun _ => ∅) writes).2 = .ok balances ∧
      (DecodedNotes.fromNotes notes).balances (runWrites (WriteTxn.mk fun _ => ∅)
        (writes ++ [.nullifier ⟨note.position.treeNumber, note.nullifier⟩])).2 = .ok balances' ∧
      balances[note.asset]? = some balance ∧ balance.Spends note balances'[note.asset]? ∧
      ∀ asset : AssetId, asset ≠ note.asset → balances'[asset]? = balances[asset]? := by
  by_cases hcollide : decoder.decryptor.NullifiersCollide prims
  · exact .inl hcollide
  refine .inr ?_
  let x : Nullified := ⟨note.position.treeNumber, note.nullifier⟩
  let F := (Forest.empty.run writes).2
  have hF : Represents (view (runWrites (WriteTxn.mk fun _ => ∅) writes).2 .commitments) F := represents_run rfl
  have hF' : Represents (view (runWrites (WriteTxn.mk fun _ => ∅) (writes ++ [.nullifier x])).2 .commitments)
      (F.insertNullifier x) := by
    have hrun : (Forest.empty.run (writes ++ [.nullifier x])).2 = F.insertNullifier x :=
      (Forest.run_append writes [.nullifier x] Forest.empty).2
    exact hrun ▸ represents_run rfl
  rw [decodeAll_spec hF prims decoder, Except.ok.injEq] at hnotes
  subst hnotes
  have hlen : (F.nodes.filterMap (decoder.noteOf prims)).length ≤ 2 ^ 48 :=
    Nat.le_trans (List.length_filterMap_le ..) F.length_nodes_le
  obtain ⟨balances, hb, hall⟩ := balances_spec hF _ hlen
  obtain ⟨balances', hb', hall'⟩ := balances_spec hF' _ hlen
  have hfilter : ∀ asset, ((F.nodes.filterMap (decoder.noteOf prims)).filter (·.asset = asset)).filter
      (F.insertNullifier x).unspent =
        (((F.nodes.filterMap (decoder.noteOf prims)).filter (·.asset = asset)).filter F.unspent).erase note :=
    fun asset => by
      rw [List.Nodup.erase_eq_filter (((nodup_notes F).filter _).filter _),
        List.filter_filter (l := (F.nodes.filterMap (decoder.noteOf prims)).filter (·.asset = asset))]
      refine List.filter_congr fun other hother => ?_
      rw [unspent_insertNullifier hcollide hnote (List.mem_of_mem_filter hother), Bool.and_comm, bne,
        Bool.beq_eq_decide_eq, decide_not]
  obtain ⟨balance, hbalance, hspends⟩ := (hall note.asset).spends (hall' note.asset)
    (List.mem_filter.mpr ⟨hnote, decide_eq_true rfl⟩) (unspent_run.mpr hunspent) (hfilter note.asset)
  refine ⟨balance, balances, balances', hb, hb', hbalance, hspends, fun asset hasset => ?_⟩
  refine ((hall asset).eq (hall' asset) ?_).symm
  rw [hfilter, List.erase_of_not_mem]
  intro hmem
  exact hasset (of_decide_eq_true (List.mem_filter.mp (List.mem_of_mem_filter hmem)).2).symm

/-- A hash that is its last input. -/
def lastPrimitives : Primitives := { openPrimitives with poseidon := fun inputs => .ok (inputs.getLast?.getD 0) }

theorem lastPrimitives_apart : ¬ zeroDecryptor.NullifiersCollide lastPrimitives := by
  rintro ⟨i, j, nullifier, -, -, hne, hi, hj⟩
  have hleaf : ∀ k, nullifierOf lastPrimitives 0 k = .ok ⟨beBytes 32 (k.setWidth 256), length_beBytes 32 _⟩ :=
    fun k => rfl
  rw [show zeroDecryptor.nullifyingKey = 0 from rfl, hleaf, Except.ok.injEq] at hi hj
  have hword := beBytes_inj (show 2 ^ 256 ≤ 256 ^ 32 by decide) (congrArg Subtype.val (hi.trans hj.symm))
  refine hne (BitVec.eq_of_toNat_eq ?_)
  have hnat := congrArg BitVec.toNat hword
  rwa [BitVec.toNat_setWidth, BitVec.toNat_setWidth, Nat.mod_eq_of_lt (by omega),
    Nat.mod_eq_of_lt (by omega)] at hnat

/-- Of notes at one leaf index of two trees, the first is spent. -/
theorem spend_exact_twins :
    let writes := [Write.node (twinShield 0), .node (twinShield 1)]
    ∃ (notes : List DecryptedNote) (note : DecryptedNote) (balance : Balance),
    ∃ balances balances' : Std.HashMap AssetId Balance,
      (Decoder.mk zeroDecryptor).decodeAll lastPrimitives (runWrites (WriteTxn.mk fun _ => ∅) writes).2 =
        .ok notes ∧
      (DecodedNotes.fromNotes notes).balances (runWrites (WriteTxn.mk fun _ => ∅) writes).2 = .ok balances ∧
      (DecodedNotes.fromNotes notes).balances (runWrites (WriteTxn.mk fun _ => ∅)
        (writes ++ [.nullifier ⟨0, note.nullifier⟩])).2 = .ok balances' ∧
      balances[note.asset]? = some balance ∧ balance.Spends note balances'[note.asset]? ∧
      ∀ asset : AssetId, asset ≠ note.asset → balances'[asset]? = balances[asset]? := by
  intro writes
  have hF : Represents (view (runWrites (WriteTxn.mk fun _ => ∅) writes).2 .commitments)
      (Forest.empty.run writes).2 := represents_run rfl
  have hstored : (Forest.empty.run writes).2.nodeAt (twinShield 0) = some (twinShield 0) :=
    (Forest.run_node writes .empty 0 0).trans (by decide)
  obtain ⟨note, hnote, htree⟩ : ∃ note, zeroDecryptor.decryptNode lastPrimitives (twinShield 0) = .ok note ∧
    note.position.treeNumber = 0 := ⟨_, rfl, rfl⟩
  have hmem : note ∈ (Forest.empty.run writes).2.nodes.filterMap
      ((Decoder.mk zeroDecryptor).noteOf lastPrimitives) :=
    List.mem_filterMap.mpr
      ⟨twinShield 0, Forest.mem_nodes_iff.mpr ⟨hstored, by decide⟩, noteOf_eq_some.mpr hnote⟩
  have hunspent : Unspent writes note := by simp [Unspent, writes]
  obtain hcollide | ⟨balance, balances, balances', h⟩ := spend_exact lastPrimitives ⟨zeroDecryptor⟩ writes
    (decodeAll_spec hF lastPrimitives ⟨zeroDecryptor⟩) hmem hunspent
  · exact absurd hcollide lastPrimitives_apart
  · rw [htree] at h
    exact ⟨_, note, balance, balances, balances', decodeAll_spec hF lastPrimitives ⟨zeroDecryptor⟩, h⟩

end Railgun
