import Railgun.Impl.Decoder
import Railgun.Proof.Note
import Railgun.Proof.Refinement

/-!
# Balances

The scan of a forest returns the notes of the stored nodes that decrypt, tree
by tree (`decodeAll_spec`); a note's position is its node's, so none is
returned twice. Grouping keeps the notes of each asset in order
(`bucketed_fromNotes`), and a balance is the unspent ones among them
(`balances_spec`). A nullifier counts in its own tree only, though notes at one
leaf index have one nullifier in every tree (`balances_exact`).
-/

namespace Railgun

open Outcome

/-! ## Scans -/

/-- The note of a node, if it decrypts. -/
def Decoder.noteOf (prims : Primitives) (decoder : Decoder) (n : Node) : Option DecryptedNote :=
  (decoder.decryptor.decryptNode prims n).toOption

section
variable {prims : Primitives} {decoder : Decoder}

theorem noteOf_eq_some {n : Node} {note : DecryptedNote} :
    decoder.noteOf prims n = some note ↔ decoder.decryptor.decryptNode prims n = .ok note := by
  rw [Decoder.noteOf]
  cases decoder.decryptor.decryptNode prims n <;> simp [Except.toOption]

/-- A decrypted note is at its node's place, with the nullifier of it. -/
theorem decryptNode_place {decryptor : NoteDecryptor} {n : Node} {note : DecryptedNote}
    (h : decryptor.decryptNode prims n = .ok note) : note.position = n.position ∧
      nullifierOf prims decryptor.nullifyingKey n.position.leafIndex = .ok note.nullifier := by
  unfold NoteDecryptor.decryptNode at h
  split at h
  · rw [NoteDecryptor.decryptTransact] at h
    simp only [bind_eq_ok] at h
    obtain ⟨_, -, _, -, h⟩ := h
    have ht := openTransact_ties h
    exact ⟨ht.position, ht.nullifier⟩
  · obtain ⟨_, _, random, _, _, -, -, -, -, -, ha, -⟩ := decryptShield_ok.mp h
    obtain ⟨_, _, _, _, -, -, hnull, -, rfl⟩ := assemble_ok.mp ha
    exact ⟨rfl, hnull⟩

theorem scanNodes_eq : ∀ (nodes : List Node) (found : List DecryptedNote),
    (nodes.map .ok).foldlM (decoder.scanNode prims) found =
      .ok (found ++ nodes.filterMap (decoder.noteOf prims))
  | [], found => by rw [List.filterMap_nil, List.append_nil]; rfl
  | n :: nodes, found => by
    have ih := scanNodes_eq nodes
    rw [List.map_cons, List.foldlM_cons, Decoder.scanNode, List.filterMap_cons, Decoder.noteOf]
    cases hd : decoder.decryptor.decryptNode prims n with
    | ok note =>
      simp only [mapError_ok, ok_bind, hd, Except.toOption]
      refine (ih (found ++ [note])).trans ?_
      rw [List.append_assoc]
      rfl
    | error e =>
      simp only [mapError_ok, ok_bind, hd, Except.toOption]
      exact ih found

end

/-- The stored nodes, tree by tree. -/
noncomputable def Forest.nodes (F : Forest) : List Node :=
  (List.range F.count).flatMap fun k => F.leaves (BitVec.ofNat 32 k)

section
variable {R : Type} [Reader R] [LawfulReader R] {view : R} {F : Forest}
  (hF : Represents (Railgun.view view .commitments) F) (prims : Primitives) (decoder : Decoder)
include hF

theorem decodeTree_spec (t : U32) : decoder.decodeTree prims view t =
    .ok ((F.leaves t).filterMap (decoder.noteOf prims)) := by
  obtain ⟨nodes, hn, hl⟩ := nodes_spec hF t
  rw [Decoder.decodeTree, hn, mapError_ok, ok_bind, hl, scanNodes_eq, List.nil_append]

theorem decodeAll_spec : decoder.decodeAll prims view =
    .ok (F.nodes.filterMap (decoder.noteOf prims)) := by
  have hfold : ∀ (trees : List Nat) (found : List DecryptedNote),
      trees.foldlM (fun found tree => do
        return found ++ (← decoder.decodeTree prims view (BitVec.ofNat 32 tree))) found =
      (.ok (found ++ (trees.flatMap fun k => F.leaves (BitVec.ofNat 32 k)).filterMap
        (decoder.noteOf prims)) : Except DecodeError _) := by
    intro trees
    induction trees with
    | nil => intro found; rw [List.flatMap_nil, List.filterMap_nil, List.append_nil]; rfl
    | cons k trees ih =>
      intro found
      rw [List.foldlM_cons, decodeTree_spec hF, ok_bind, List.flatMap_cons, List.filterMap_append,
        ← List.append_assoc]
      exact ih _
  have hcount : (BitVec.ofNat 32 F.count).toNat = F.count := by
    rw [BitVec.toNat_ofNat, Nat.mod_eq_of_lt F.count_lt]
  rw [Decoder.decodeAll, treeCount_spec hF, mapError_ok, ok_bind, hcount, hfold, List.nil_append,
    Forest.nodes]

end

/-! ## Stored nodes -/

namespace Forest

/-- The scan goes over every tree but the last. -/
theorem mem_nodes_iff {F : Forest} {n : Node} :
    n ∈ F.nodes ↔ F.nodeAt n = some n ∧ n.position.treeNumber < BitVec.allOnes 32 := by
  rw [nodes, List.mem_flatMap]
  constructor
  · rintro ⟨k, hk, hn⟩
    have hn := mem_leaves.mp hn
    have htree := (F.placed hn).1
    rw [← htree] at hn
    refine ⟨hn, ?_⟩
    have hlt := List.mem_range.mp hk
    have hcount := F.count_lt
    rw [htree, BitVec.lt_def, BitVec.toNat_ofNat, Nat.mod_eq_of_lt (by omega)]
    exact Nat.lt_of_lt_of_le hlt (Nat.le_sub_one_of_lt hcount)
  · rintro ⟨hn, hlast⟩
    have hs : (F.node n.position.treeNumber n.position.leafIndex.toNat).isSome := by
      rw [show F.node _ _ = some n from hn]
      rfl
    refine ⟨n.position.treeNumber.toNat, ?_, ?_⟩
    · exact List.mem_range.mpr (F.isHeight_count.lt _ ⟨_, rfl, hlast, _, hs⟩)
    · rw [BitVec.ofNat_toNat, BitVec.setWidth_eq]
      exact mem_leaves.mpr hn

theorem mem_nodes {F : Forest} (hF : ∀ t p, (F.node t p).isSome → t < BitVec.allOnes 32) {n : Node} :
    n ∈ F.nodes ↔ F.nodeAt n = some n :=
  mem_nodes_iff.trans (and_iff_left_of_imp fun hn => hF _ _ (Option.isSome_iff_exists.mpr ⟨n, hn⟩))

/-- They are in the order of their places. -/
theorem nodes_ascending (F : Forest) : F.nodes.Pairwise fun m n =>
    m.position.treeNumber < n.position.treeNumber ∨
      m.position.treeNumber = n.position.treeNumber ∧ m.position.leafIndex < n.position.leafIndex := by
  refine List.pairwise_flatMap.mpr ⟨fun k _ => ?_, ?_⟩
  · refine (F.leaves_ascending _).imp_of_mem fun {m n} hm hn hlt => .inr ⟨?_, hlt⟩
    rw [(F.placed (mem_leaves.mp hm)).1, (F.placed (mem_leaves.mp hn)).1]
  · refine List.pairwise_lt_range.imp_of_mem fun {j k} hj hk hlt m hm n hn => .inl ?_
    have hcount := F.count_lt
    have hj := List.mem_range.mp hj
    have hk := List.mem_range.mp hk
    rw [(F.placed (mem_leaves.mp hm)).1, (F.placed (mem_leaves.mp hn)).1, BitVec.lt_def, BitVec.toNat_ofNat,
      BitVec.toNat_ofNat, Nat.mod_eq_of_lt (by omega), Nat.mod_eq_of_lt (by omega)]
    exact hlt

/-- So no two of them are at one place. -/
theorem nodes_apart (F : Forest) : F.nodes.Pairwise fun m n => m.position ≠ n.position :=
  F.nodes_ascending.imp fun h he => by
    rw [he] at h
    exact h.elim (BitVec.lt_irrefl _) fun h => BitVec.lt_irrefl _ h.2

theorem length_nodes_le (F : Forest) : F.nodes.length ≤ 2 ^ 48 := by
  have htrees : ∀ trees : List Nat,
      (trees.flatMap fun k => F.leaves (BitVec.ofNat 32 k)).length ≤ trees.length * 2 ^ 16 := by
    intro trees
    induction trees with
    | nil => exact Nat.zero_le _
    | cons k trees ih =>
      have hk : (F.leaves (BitVec.ofNat 32 k)).length ≤ 2 ^ 16 :=
        Nat.le_trans (List.length_filterMap_le ..) (Nat.le_of_eq List.length_range)
      rw [List.flatMap_cons, List.length_append, List.length_cons, Nat.succ_mul]
      omega
  have hcount := F.count_lt
  have := htrees (List.range F.count)
  rw [List.length_range] at this
  exact Nat.le_trans this (by omega)

end Forest

/-! ## Grouping -/

/-- Each asset's notes, in order; no entry for an asset without one. -/
def Bucketed (byAsset : Std.HashMap AssetId (List DecryptedNote)) (notes : List DecryptedNote) : Prop :=
  ∀ asset, byAsset[asset]? =
    if notes.filter (·.asset = asset) = [] then none else some (notes.filter (·.asset = asset))

theorem bucketed_push {byAsset : Std.HashMap AssetId (List DecryptedNote)} {notes : List DecryptedNote}
    (h : Bucketed byAsset notes) (note : DecryptedNote) :
    Bucketed (DecodedNotes.push byAsset note) (notes ++ [note]) := fun asset => by
  rw [DecodedNotes.push, Std.HashMap.getElem?_insert, List.filter_append]
  by_cases ha : note.asset = asset
  · subst ha
    have hlast : [note].filter (·.asset = note.asset) = [note] := by simp
    rw [beq_self_eq_true, if_pos rfl, hlast, if_neg (by simp), h note.asset]
    split
    · rename_i he
      rw [he]
      rfl
    · rfl
  · have hlast : [note].filter (·.asset = asset) = [] := by simp [ha]
    rw [hlast, List.append_nil, if_neg (by simpa using ha)]
    exact h asset

theorem bucketed_fromNotes (notes : List DecryptedNote) :
    Bucketed (DecodedNotes.fromNotes notes).byAsset notes := by
  have hfold : ∀ (rest notes : List DecryptedNote) byAsset, Bucketed byAsset notes →
      Bucketed (rest.foldl DecodedNotes.push byAsset) (notes ++ rest) := by
    intro rest
    induction rest with
    | nil => intro notes byAsset h; rwa [List.append_nil]
    | cons note rest ih =>
      intro notes byAsset h
      rw [List.append_cons]
      exact ih _ _ (bucketed_push h note)
  exact hfold notes [] ∅ fun asset => by rw [Std.HashMap.getElem?_empty]; rfl

/-! ## Sums -/

/-- The value of some notes. -/
def totalValue (notes : List DecryptedNote) : Nat := (notes.map (·.value.toNat)).sum

theorem totalValue_le : ∀ notes : List DecryptedNote, totalValue notes ≤ notes.length * 2 ^ 128
  | [] => Nat.zero_le _
  | note :: notes => by
    have ih := totalValue_le notes
    have hv := note.value.isLt
    rw [totalValue, List.map_cons, List.sum_cons, List.length_cons, Nat.succ_mul]
    rw [totalValue] at ih
    omega

/-- A sum that fits is exact. -/
theorem saturatingAdd_exact {a b : U256} (h : a.toNat + b.toNat < 2 ^ 256) :
    (saturatingAdd a b).toNat = a.toNat + b.toNat := by
  rw [saturatingAdd, if_pos h, BitVec.toNat_add, Nat.mod_eq_of_lt h]

/-- No nullifier of the note was seen in its tree. -/
def Forest.unspent (F : Forest) (note : DecryptedNote) : Bool :=
  !F.nullified note.position.treeNumber note.nullifier

section
variable {R : Type} [Reader R] [LawfulReader R] {view : R} {F : Forest}
  (hF : Represents (Railgun.view view .commitments) F)
include hF

theorem addNote_spec (balance : Balance) (note : DecryptedNote) :
    DecodedNotes.addNote view balance note = .ok (if F.unspent note then
      ⟨saturatingAdd balance.value note.value.asU256, balance.unspentUtxos ++ [note]⟩ else balance) := by
  rw [DecodedNotes.addNote, isNullified_spec hF, mapError_ok, ok_bind, Forest.unspent]
  cases F.nullified note.position.treeNumber note.nullifier <;> rfl

/-- The unspent notes are added up, exactly while the sum fits. -/
theorem addNotes_spec : ∀ (notes : List DecryptedNote) (balance : Balance),
    balance.value.toNat + totalValue (notes.filter F.unspent) < 2 ^ 256 →
    ∃ value : U256, notes.foldlM (DecodedNotes.addNote view) balance =
        .ok ⟨value, balance.unspentUtxos ++ notes.filter F.unspent⟩ ∧
      value.toNat = balance.value.toNat + totalValue (notes.filter F.unspent)
  | [], balance, _ => ⟨balance.value, by rw [List.filter_nil, List.append_nil]; rfl, rfl⟩
  | note :: notes, balance, h => by
    rw [List.foldlM_cons, addNote_spec hF, ok_bind]
    by_cases hu : F.unspent note
    · have hword : (note.value.asU256).toNat = note.value.toNat := by
        have := note.value.isLt
        rw [NoteValue.asU256, BitVec.toNat_setWidth, Nat.mod_eq_of_lt (by omega)]
      rw [List.filter_cons_of_pos hu, totalValue, List.map_cons, List.sum_cons, ← totalValue] at h ⊢
      have hsum := saturatingAdd_exact (a := balance.value) (b := note.value.asU256) (by omega)
      rw [hword] at hsum
      obtain ⟨value, hv, ht⟩ := addNotes_spec notes
        ⟨saturatingAdd balance.value note.value.asU256, balance.unspentUtxos ++ [note]⟩ (by
          rw [hsum]; omega)
      refine ⟨value, ?_, by rw [ht, hsum]; omega⟩
      rw [if_pos hu, hv, List.append_assoc]
      rfl
    · rw [List.filter_cons_of_neg hu] at h ⊢
      rw [if_neg hu]
      exact addNotes_spec notes balance h

/-- What an asset's notes come to: no entry, or their unspent ones and the sum. -/
def IsBalance (F : Forest) (notes : List DecryptedNote) (entry : Option Balance) : Prop :=
  (entry.isSome ↔ notes.filter F.unspent ≠ []) ∧ ∀ balance, entry = some balance →
    balance.unspentUtxos = notes.filter F.unspent ∧
    balance.value.toNat = totalValue (notes.filter F.unspent)

theorem addAssets_spec : ∀ (entries : List (AssetId × List DecryptedNote))
    (balances : Std.HashMap AssetId Balance),
    entries.Pairwise (fun a b => a.1 ≠ b.1) → (∀ entry ∈ entries, entry.2.length ≤ 2 ^ 48) →
    (∀ entry ∈ entries, balances[entry.1]? = none) →
    ∃ balances', entries.foldlM (DecodedNotes.addAsset view) balances = .ok balances' ∧
      (∀ entry ∈ entries, IsBalance F entry.2 balances'[entry.1]?) ∧
      ∀ asset, (∀ entry ∈ entries, entry.1 ≠ asset) → balances'[asset]? = balances[asset]?
  | [], balances, _, _, _ => ⟨balances, rfl, nofun, fun _ _ => rfl⟩
  | (asset, notes) :: entries, balances, hd, hl, hf => by
    obtain ⟨hda, hd⟩ := List.pairwise_cons.mp hd
    have hfit : totalValue (notes.filter F.unspent) < 2 ^ 256 := by
      have hlen : notes.length ≤ 2 ^ 48 := hl (asset, notes) List.mem_cons_self
      have hfilter := List.length_filter_le F.unspent notes
      have hsum := totalValue_le (notes.filter F.unspent)
      omega
    have hzero : (0 : U256).toNat = 0 := rfl
    obtain ⟨value, hv, ht⟩ := addNotes_spec hF notes ⟨0, []⟩ (by rw [hzero]; omega)
    rw [hzero, Nat.zero_add] at ht
    rw [List.nil_append] at hv
    let balances₁ := if (notes.filter F.unspent).isEmpty then balances
      else balances.insert asset ⟨value, notes.filter F.unspent⟩
    have hother : ∀ asset', asset ≠ asset' → balances₁[asset']? = balances[asset']? := by
      intro asset' hne
      simp only [balances₁]
      split
      · rfl
      · rw [Std.HashMap.getElem?_insert, if_neg (by simpa using hne)]
    have hentry : IsBalance F notes balances₁[asset]? := by
      have hnone : balances[asset]? = none := hf (asset, notes) List.mem_cons_self
      simp only [balances₁]
      split
      · rename_i he
        rw [hnone]
        exact ⟨by simp [List.isEmpty_iff.mp he], nofun⟩
      · rename_i he
        rw [Std.HashMap.getElem?_insert, beq_self_eq_true, if_pos rfl]
        refine ⟨iff_of_true rfl fun h => he (by rw [h]; rfl), fun balance hb => ?_⟩
        obtain rfl := Option.some.inj hb
        exact ⟨rfl, ht⟩
    obtain ⟨balances', hb, hall, hrest⟩ := addAssets_spec entries balances₁ hd
      (fun entry he => hl entry (List.mem_cons_of_mem _ he))
      (fun entry he => (hother _ (hda entry he)).trans (hf entry (List.mem_cons_of_mem _ he)))
    refine ⟨balances', ?_, fun entry he => ?_, fun asset' ha => ?_⟩
    · rw [List.foldlM_cons, DecodedNotes.addAsset, hv, ok_bind]
      exact hb
    · rcases List.mem_cons.mp he with rfl | he
      · rw [hrest asset fun entry he => (hda entry he).symm]
        exact hentry
      · exact hall entry he
    · rw [hrest asset' fun entry he => ha entry (List.mem_cons_of_mem _ he),
        hother asset' (ha (asset, notes) List.mem_cons_self)]

/-- The balance of each asset is what its notes come to. -/
theorem balances_spec (notes : List DecryptedNote) (hl : notes.length ≤ 2 ^ 48) :
    ∃ balances, (DecodedNotes.fromNotes notes).balances view = .ok balances ∧
      ∀ asset, IsBalance F (notes.filter (·.asset = asset)) balances[asset]? := by
  have hbuckets := bucketed_fromNotes notes
  have hmem : ∀ {asset bucket}, (asset, bucket) ∈ (DecodedNotes.fromNotes notes).byAsset.toList ↔
      (DecodedNotes.fromNotes notes).byAsset[asset]? = some bucket :=
    Std.HashMap.mem_toList_iff_getElem?_eq_some
  have hbucket : ∀ {asset bucket}, (asset, bucket) ∈ (DecodedNotes.fromNotes notes).byAsset.toList →
      bucket = notes.filter (·.asset = asset) := fun {asset bucket} h => by
    rw [hmem, hbuckets asset] at h
    split at h
    · cases h
    · exact (Option.some.inj h).symm
  obtain ⟨balances, hb, hall, hrest⟩ := addAssets_spec hF
    (DecodedNotes.fromNotes notes).byAsset.toList ∅
    (Std.HashMap.distinct_keys_toList.imp fun h he => by simp [he] at h)
    (fun entry he => by
      rw [hbucket he]
      exact Nat.le_trans (List.length_filter_le ..) hl)
    (fun entry _ => Std.HashMap.getElem?_empty)
  refine ⟨balances, hb, fun asset => ?_⟩
  by_cases hnone : notes.filter (·.asset = asset) = []
  · rw [hrest asset fun entry he ha => ?_, Std.HashMap.getElem?_empty, hnone]
    · exact ⟨by simp, nofun⟩
    · subst ha
      have := hmem.mp he
      rw [hbuckets, if_pos hnone] at this
      cases this
  · exact hall (asset, notes.filter (·.asset = asset)) (hmem.mpr (by rw [hbuckets, if_neg hnone]))

end

/-! ## Balances end to end -/

/-- Notes are at the places of their nodes, and no two of these are at one place. -/
theorem nodup_notes (F : Forest) {prims : Primitives} {decoder : Decoder} :
    (F.nodes.filterMap (decoder.noteOf prims)).Nodup := by
  refine (List.Pairwise.filterMap _ (fun m n hmn note hm note' hn => ?_) F.nodes_apart : List.Pairwise _ _)
  intro he
  refine hmn ?_
  rw [← (decryptNode_place (noteOf_eq_some.mp hm)).1, he, (decryptNode_place (noteOf_eq_some.mp hn)).1]

/-- No nullifier of the note was recorded in its tree. -/
def Unspent (writes : List Write) (note : DecryptedNote) : Prop :=
  .nullifier ⟨note.position.treeNumber, note.nullifier⟩ ∉ writes

instance (writes : List Write) (note : DecryptedNote) : Decidable (Unspent writes note) :=
  inferInstanceAs (Decidable (¬ _))

theorem unspent_run {writes : List Write} {note : DecryptedNote} :
    (Forest.empty.run writes).2.unspent note = true ↔ Unspent writes note := by
  have h := Forest.run_nullified writes .empty note.position.treeNumber note.nullifier
  rw [Forest.unspent, Bool.not_eq_true', ← Bool.not_eq_true, h, Unspent]
  simp [Forest.empty]

/-- The scan returns each stored node's note once, if the node decrypts, in
whatever order the trees are taken; and the balances count each asset's notes
whose nullifiers were not recorded in their own trees. -/
theorem balances_exact (prims : Primitives) (decoder : Decoder) {R : Type} [Reader R]
    [LawfulReader R] (view : R) (writes : List Write) (hw : ∀ write ∈ writes, write.InRange)
    (hreads : Railgun.view view .commitments =
      (runWrites (WriteTxn.mk fun _ => ∅) writes).2.inner .commitments) :
    ∃ notes, decoder.decodeAll prims view = .ok notes ∧
      notes.Nodup ∧
      (∀ note, note ∈ notes ↔
        ∃ n, firstNode n.position.treeNumber n.position.leafIndex writes = some n ∧
          decoder.decryptor.decryptNode prims n = .ok note) ∧
      (∃ count, Commitments.treeCount view = .ok count ∧
        ∀ trees : List U32, trees.Perm ((List.range count.toNat).map (BitVec.ofNat 32)) →
          ∃ parts, trees.mapM (decoder.decodeTree prims view) = .ok parts ∧ parts.flatten.Perm notes) ∧
      (∀ found : List DecryptedNote, found.Perm notes →
        ∃ balances, (DecodedNotes.fromNotes found).balances view = .ok balances ∧
          ∀ asset, (balances[asset]?.isSome ↔ ∃ note ∈ notes, note.asset = asset ∧ Unspent writes note) ∧
            ∀ balance, balances[asset]? = some balance →
              balance.unspentUtxos = found.filter (fun note => note.asset = asset ∧ Unspent writes note) ∧
              balance.value.toNat = (balance.unspentUtxos.map (·.value.toNat)).sum) ∧
      (∀ note ∈ notes, ∀ note' ∈ notes, note.position.leafIndex = note'.position.leafIndex →
        note.nullifier = note'.nullifier) ∧
      ∀ note tree, tree ≠ note.position.treeNumber →
        (Unspent (.nullifier ⟨tree, note.nullifier⟩ :: writes) note ↔ Unspent writes note) := by
  let F := (Forest.empty.run writes).2
  have hF : Represents (Railgun.view view .commitments) F := represents_run hreads
  have hrange : ∀ t p, (F.node t p).isSome → t < BitVec.allOnes 32 := fun t p hp => by
    obtain ⟨n, hn⟩ := Option.isSome_iff_exists.mp hp
    rw [← (F.placed hn).1]
    exact hw _ ((Forest.run_node_cases hn).resolve_left nofun)
  have hstored : ∀ n, F.nodeAt n = some n ↔
      firstNode n.position.treeNumber n.position.leafIndex writes = some n := fun n => by
    rw [Forest.nodeAt, Forest.run_node writes .empty]
    rfl
  have hnodes : ∀ note, note ∈ F.nodes.filterMap (decoder.noteOf prims) ↔
      ∃ n, F.nodeAt n = some n ∧ decoder.decryptor.decryptNode prims n = .ok note := fun note => by
    simp only [List.mem_filterMap, Forest.mem_nodes hrange, noteOf_eq_some]
  have hlen : (F.nodes.filterMap (decoder.noteOf prims)).length ≤ 2 ^ 48 :=
    Nat.le_trans (List.length_filterMap_le ..) F.length_nodes_le
  refine ⟨_, decodeAll_spec hF prims decoder, nodup_notes F, fun note => ?_, ?_, fun found hfound => ?_,
    fun note hn note' hn' hleaf => ?_, fun note tree ht => ?_⟩
  · rw [hnodes]
    exact exists_congr fun n => and_congr_left' (hstored n)
  · refine ⟨_, treeCount_spec hF, fun trees htrees => ⟨_, mapM_ok (decodeTree_spec hF prims decoder) trees, ?_⟩⟩
    rw [BitVec.toNat_ofNat, Nat.mod_eq_of_lt F.count_lt] at htrees
    rw [← List.flatMap_def, Forest.nodes, List.filterMap_flatMap]
    refine (htrees.flatMap_right _).trans ?_
    rw [List.flatMap_map]
  · obtain ⟨balances, hb, hall⟩ := balances_spec hF found (hfound.length_eq ▸ hlen)
    have hfilter : ∀ asset, (found.filter (·.asset = asset)).filter F.unspent =
        found.filter fun note => note.asset = asset ∧ Unspent writes note := fun asset => by
      rw [List.filter_filter]
      refine List.filter_congr fun note _ => ?_
      rw [Bool.eq_iff_iff, Bool.and_eq_true, decide_eq_true_iff, decide_eq_true_iff, unspent_run,
        and_comm]
    refine ⟨balances, hb, fun asset => ⟨?_, fun balance hbal => ?_⟩⟩
    · rw [(hall asset).1, hfilter, ← List.length_pos_iff, List.length_pos_iff_exists_mem]
      refine exists_congr fun note => ?_
      rw [List.mem_filter, decide_eq_true_iff, hfound.mem_iff]
    · obtain ⟨hutxos, hvalue⟩ := (hall asset).2 balance hbal
      rw [← hfilter asset]
      exact ⟨hutxos, by rw [hvalue, hutxos, totalValue]⟩
  · obtain ⟨n, -, hd⟩ := (hnodes note).mp hn
    obtain ⟨n', -, hd'⟩ := (hnodes note').mp hn'
    obtain ⟨hp, hnull⟩ := decryptNode_place hd
    obtain ⟨hp', hnull'⟩ := decryptNode_place hd'
    rw [← hp, hleaf, hp', hnull'] at hnull
    exact (Except.ok.inj hnull).symm
  · rw [Unspent, Unspent, List.mem_cons, not_or]
    refine and_iff_right fun he => ht ?_
    simp only [Write.nullifier.injEq, Nullified.mk.injEq] at he
    exact he.1.symm

/-- A shield of 7 at the first leaf of a tree, which everyone's key opens. -/
def twinShield (tree : U32) : Node :=
  ⟨⟨tree, 0, zero_lt_capacity⟩, 0, 0, .shield
    ⟨0, .erc20 (.replicate 20 0), 7, [.replicate 32 0, .replicate 32 0], .replicate 32 0⟩⟩

def twinNote (tree : U32) : DecryptedNote :=
  ⟨⟨tree, 0, zero_lt_capacity⟩, 7, .erc20 (.replicate 20 0), .replicate 16 0, "", 0, 0, .replicate 32 0, 0,
    .shield⟩

theorem decryptNode_twinShield (tree : U32) :
    zeroDecryptor.decryptNode openPrimitives (twinShield tree) = .ok (twinNote tree) := rfl

/-- Notes at one leaf index of two trees, the first's nullifier recorded: the
balance is the second's. -/
theorem balances_exact_twins :
    let writes := [.node (twinShield 0), .node (twinShield 1), .nullifier ⟨0, .replicate 32 0⟩]
    let txn := (runWrites (WriteTxn.mk fun _ => ∅) writes).2
    ∃ notes balances balance,
      (Decoder.mk zeroDecryptor).decodeAll openPrimitives txn = .ok notes ∧
      (DecodedNotes.fromNotes notes).balances txn = .ok balances ∧
      balances[AssetId.erc20 (.replicate 20 0)]? = some balance ∧
      balance.unspentUtxos = [twinNote 1] ∧ balance.value.toNat = 7 := by
  intro writes txn
  obtain ⟨notes, hnotes, hnodup, hmem, -, hbalances, -⟩ := balances_exact openPrimitives
    ⟨zeroDecryptor⟩ txn writes (by decide) rfl
  obtain ⟨balances, hb, hall⟩ := hbalances notes (List.Perm.refl _)
  obtain ⟨hsome, hvalue⟩ := hall (.erc20 (.replicate 20 0))
  have htwins : ∀ note, note ∈ notes ↔ note = twinNote 0 ∨ note = twinNote 1 := fun note => by
    rw [hmem]
    constructor
    · rintro ⟨n, hn, hd⟩
      have hn := Forest.firstNode_mem hn
      simp only [writes, List.mem_cons, Write.node.injEq, reduceCtorEq, List.not_mem_nil, or_false] at hn
      rcases hn with rfl | rfl
      · exact .inl (Except.ok.inj (hd.symm.trans (decryptNode_twinShield 0)))
      · exact .inr (Except.ok.inj (hd.symm.trans (decryptNode_twinShield 1)))
    · rintro (rfl | rfl)
      · exact ⟨twinShield 0, by decide, decryptNode_twinShield 0⟩
      · exact ⟨twinShield 1, by decide, decryptNode_twinShield 1⟩
  have hunspent : ∀ note ∈ notes, Unspent writes note ↔ note = twinNote 1 := fun note hn => by
    rcases (htwins note).mp hn with rfl | rfl
    · exact iff_of_false (by decide) (by decide)
    · exact iff_of_true (by decide) rfl
  obtain ⟨balance, hbalance⟩ := Option.isSome_iff_exists.mp (hsome.mpr
    ⟨twinNote 1, (htwins _).mpr (.inr rfl), rfl, by decide⟩)
  obtain ⟨hutxos, hsum⟩ := hvalue balance hbalance
  have hone : balance.unspentUtxos = [twinNote 1] := by
    rw [hutxos]
    refine List.perm_singleton.mp ((List.perm_ext_iff_of_nodup (hnodup.filter _)
      (List.pairwise_singleton _ _)).mpr fun note => ?_)
    rw [List.mem_filter, decide_eq_true_iff, List.mem_singleton]
    constructor
    · exact fun h => (hunspent note h.1).mp h.2.2
    · rintro rfl
      exact ⟨(htwins _).mpr (.inr rfl), rfl, by decide⟩
  exact ⟨notes, balances, balance, hnotes, hb, hbalance, hone, by rw [hsum, hone]; rfl⟩

end Railgun
