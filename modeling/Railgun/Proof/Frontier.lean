import Mathlib.Data.List.Induction
import Railgun.Impl.Sync
import Railgun.Proof.Merkle

/-!
# Frontier snapshots

A snapshot holds the accumulator of some words (`snapshotOf`). A window's leaves
are appended to them, or they are replaced by all the leaves of the tree, and that
is stored (`advanceFrontier_spec`). If the words were those of the tree's first
leaves, up to a relation, so are the new ones (`like_advanced`), as long as the
window leaves out nothing stored between them and its own last leaf.
-/

namespace Railgun

open OrdMap GapFill Outcome BigEndian MerkleAccumulator

/-! ## Grouping a window -/

/-- The leaf hash a window has for a position. -/
def lookLeaf (byTree : Map U32 (Map U32 U256)) (t p : U32) : Option U256 := byTree[t]?.bind (·[p]?)

theorem lookLeaf_insertLeaf (byTree : Map U32 (Map U32 U256)) (n : Node) (t p : U32) :
    lookLeaf (insertLeaf byTree n) t p =
      if t = n.position.treeNumber ∧ p = n.position.leafIndex then some n.hash
      else lookLeaf byTree t p := by
  rw [lookLeaf, insertLeaf, getElem?_insert]
  by_cases ht : t = n.position.treeNumber
  · rw [if_pos ht, Option.bind_some, getElem?_insert, lookLeaf, ht]
    simp only [true_and]
    congr 1
    cases byTree[n.position.treeNumber]? <;> simp
  · rw [if_neg ht, if_neg fun h => ht h.1, lookLeaf]

/-- The window, by tree and position: its nodes' hashes and nothing else, and
no tree without a leaf. -/
structure Grouped (commitments : List Node) (byTree : Map U32 (Map U32 U256)) : Prop where
  sound : ∀ {t p h}, lookLeaf byTree t p = some h →
    ∃ n ∈ commitments, n.position.treeNumber = t ∧ n.position.leafIndex = p ∧ n.hash = h
  complete : ∀ n ∈ commitments,
    (lookLeaf byTree n.position.treeNumber n.position.leafIndex).isSome
  nonempty : ∀ {t leaves}, byTree[t]? = some leaves → ∃ p, (lookLeaf byTree t p).isSome

theorem grouped (commitments : List Node) : Grouped commitments (groupByTree commitments) := by
  induction commitments using List.reverseRecOn with
  | nil => exact ⟨fun h => by simp [groupByTree, lookLeaf] at h, nofun, fun h => by simp [groupByTree] at h⟩
  | append_singleton commitments n ih =>
    have hstep : groupByTree (commitments ++ [n]) = insertLeaf (groupByTree commitments) n :=
      List.foldl_append
    rw [hstep]
    refine ⟨fun {t p h} hl => ?_, fun m hm => ?_, fun {t leaves} ht => ?_⟩
    · rw [lookLeaf_insertLeaf] at hl
      split at hl
      · rename_i he
        exact ⟨n, by simp, he.1.symm, he.2.symm, Option.some.inj hl⟩
      · obtain ⟨m, hm, h⟩ := ih.sound hl
        exact ⟨m, List.mem_append_left _ hm, h⟩
    · rw [lookLeaf_insertLeaf]
      split
      · rfl
      · rename_i hne
        rcases List.mem_append.mp hm with hm | hm
        · exact ih.complete m hm
        · obtain rfl := List.mem_singleton.mp hm
          exact absurd ⟨rfl, rfl⟩ hne
    · by_cases he : t = n.position.treeNumber
      · exact ⟨n.position.leafIndex, by rw [lookLeaf_insertLeaf, if_pos ⟨he, rfl⟩]; rfl⟩
      · rw [insertLeaf, getElem?_insert, if_neg he] at ht
        obtain ⟨p, hp⟩ := ih.nonempty ht
        exact ⟨p, by rw [lookLeaf_insertLeaf, if_neg fun h => he h.1]; exact hp⟩

/-! ## Appending -/

section
variable {tables : PoseidonTables}

theorem len_insertAll (acc : MerkleAccumulator (railgunMerkleConfig tables)) (l : List U256)
    (h : acc.len.toNat + l.length < 2 ^ 64) : (acc.insertAll l).len.toNat = acc.len.toNat + l.length := by
  rw [len, nextIndex_insertAll, BitVec.toNat_add, BitVec.toNat_ofNat]
  rw [len] at h ⊢
  omega

theorem insert_iterate (z : U256) : ∀ (n : Nat) (acc : MerkleAccumulator (railgunMerkleConfig tables)),
    (fun a => insert a z)^[n] acc = acc.insertAll (List.replicate n z)
  | 0, _ => rfl
  | n + 1, acc => by
    rw [Function.iterate_succ_apply, insert_iterate z n, List.replicate_succ, insertAll_cons]

theorem zeroFill_eq (acc : MerkleAccumulator (railgunMerkleConfig tables)) (position : U32) :
    zeroFill tables acc position =
      acc.insertAll (List.replicate (position.toNat - acc.len.toNat) railgunMerkleZero) := by
  have hp := position.isLt
  have hset : (position.setWidth 64).toNat = position.toNat := by
    rw [BitVec.toNat_setWidth, Nat.mod_eq_of_lt (by omega)]
  rw [zeroFill, ← insert_iterate]
  refine repeatWhile_eq_iterate
    (m := fun a : MerkleAccumulator (railgunMerkleConfig tables) => position.toNat - a.len.toNat)
    (fun a => ?_) (fun a ha => ?_) (Nat.le_refl _)
  · rw [decide_eq_true_iff, BitVec.lt_def, hset]
    omega
  · have := len_insertAll a [railgunMerkleZero] (by simp only [List.length_singleton]; omega)
    simp only [insertAll_cons, insertAll_nil, List.length_singleton] at this
    rw [show (railgunMerkleConfig tables).zero = railgunMerkleZero from rfl, this]
    omega

/-- Appending ascending leaves from where the accumulator has come to. -/
theorem appendLeaves_eq : ∀ (l : List (U32 × U256)) (acc : MerkleAccumulator (railgunMerkleConfig tables)),
    (l.map sparse).Pairwise (fun e f => e.1 < f.1) → (∀ e ∈ l.map sparse, acc.len.toNat ≤ e.1) →
    l.foldl (appendLeaf tables) acc =
      acc.insertAll (densify railgunMerkleZero acc.len.toNat (l.map sparse))
  | [], _, _, _ => rfl
  | (p, v) :: l, acc, hp, ha => by
    obtain ⟨hpl, hp⟩ := List.pairwise_cons.mp hp
    have hap : acc.len.toNat ≤ p.toNat := ha _ List.mem_cons_self
    have hlt := p.isLt
    have hstep : appendLeaf tables acc (p, v) =
        acc.insertAll (List.replicate (p.toNat - acc.len.toNat) railgunMerkleZero ++ [v]) := by
      rw [appendLeaf, zeroFill_eq, insertAll_append]
      rfl
    have hlen : (appendLeaf tables acc (p, v)).len.toNat = p.toNat + 1 := by
      rw [hstep, len_insertAll] <;>
        rw [List.length_append, List.length_replicate, List.length_singleton] <;> omega
    rw [List.foldl_cons, appendLeaves_eq l _ hp (hlen ▸ hpl), hlen, hstep, ← insertAll_append,
      List.map_cons, sparse, densify, List.append_assoc, List.singleton_append]

end

/-! ## Snapshots -/

/-- The accumulator of some words. -/
def accumulate (tables : PoseidonTables) (words : List U256) : MerkleAccumulator (railgunMerkleConfig tables) :=
  new.insertAll words

/-- The snapshot of some words; of none, there is none. -/
def snapshotOf (tables : PoseidonTables) (serde : Serde MerkleAccumulatorState) (words : List U256) :
    Option Bytes :=
  if words = [] then none else (serde.toVec (accumulate tables words).state).toOption

/-- The snapshot of the first leaves of a tree. -/
def Forest.snapshotAt (F : Forest) (tables : PoseidonTables) (serde : Serde MerkleAccumulatorState)
    (t : U32) (a : Nat) : Option Bytes :=
  if a = 0 then none else (serde.toVec (F.firstLeaves tables t a).state).toOption

/-- The words of a tree's snapshot after a window's leaves: those of the forest, if
a leaf lies below the snapshot, or with the leaves appended. -/
noncomputable def advanced (F₁ : Forest) (t : U32) (words : List U256) (l : List (Nat × U256)) : List U256 :=
  if l.head?.any (fun e => decide (e.1 < words.length)) then fill (F₁.leaf t) 0 (F₁.length t)
  else words ++ densify railgunMerkleZero words.length l

/-- The leaves `l` take a snapshot's words on to `F₁`: they are leaves of `F₁`, and
unless one lies below the snapshot, its words are the first leaves of `F₁` up to `R`,
which has but empty ones, up to `R`, in the gaps from there to the last of them. -/
structure Advances (R : U256 → U256 → Prop) (F₁ : Forest) (t : U32) (words : List U256)
    (l : List (Nat × U256)) : Prop where
  ascending : l.Pairwise fun e f => e.1 < f.1
  nonempty : l ≠ []
  stored : ∀ e ∈ l, F₁.leaf t e.1 = e.2
  inside : ∀ e ∈ l, e.1 < F₁.length t
  below : (∀ e ∈ l, words.length ≤ e.1) → ∀ {q w}, words[q]? = some w → R (F₁.leaf t q) w
  sees : (∀ e ∈ l, words.length ≤ e.1) → ∀ q, words.length ≤ q → (∃ e ∈ l, q ≤ e.1) → (∀ v, (q, v) ∉ l) →
    R (F₁.leaf t q) railgunMerkleZero

/-- The first of ascending positions tells whether one lies below. -/
theorem head_below {a : Nat} : ∀ {l : List (Nat × U256)}, l.Pairwise (fun e f => e.1 < f.1) →
    (l.head?.any (fun e => decide (e.1 < a)) = false ↔ ∀ e ∈ l, a ≤ e.1)
  | [], _ => by simp
  | e :: l, h => by
    obtain ⟨hl, -⟩ := List.pairwise_cons.mp h
    simp only [List.head?_cons, Option.any_some, decide_eq_false_iff_not, Nat.not_lt,
      List.forall_mem_cons]
    exact ⟨fun ha => ⟨ha, fun f hf => Nat.le_of_lt (Nat.lt_of_le_of_lt ha (hl f hf))⟩, fun h => h.1⟩

section
variable {R : U256 → U256 → Prop} {F₁ : Forest} {t : U32} {words : List U256} {l : List (Nat × U256)}
  (h : Advances R F₁ t words l)
include h

/-- The new words are the first leaves again. -/
theorem like_advanced (hR : ∀ a, R a a) {q : Nat} {w : U256} (hw : (advanced F₁ t words l)[q]? = some w) :
    R (F₁.leaf t q) w := by
  rw [advanced] at hw
  split at hw
  · rw [getElem?_fill, Nat.zero_add] at hw
    split at hw
    · rw [← Option.some.inj hw]
      exact hR _
    · cases hw
  · rename_i hb
    have hl := (head_below h.ascending).mp (by simpa using hb)
    by_cases hq : q < words.length
    · rw [List.getElem?_append_left hq] at hw
      exact h.below hl hw
    · rw [List.getElem?_append_right (by omega)] at hw
      have hat := getElem?_densify h.ascending hl hw
      rw [show words.length + (q - words.length) = q by omega] at hat
      rcases hat with hm | ⟨rfl, hnot, e, he, hlt⟩
      · rw [h.stored _ hm]
        exact hR w
      · exact h.sees hl q (by omega) ⟨e, he, by omega⟩ hnot

theorem advanced_ne_nil : advanced F₁ t words l ≠ [] := by
  rw [advanced, ← List.length_pos_iff]
  split
  · obtain ⟨e, he⟩ := List.exists_mem_of_ne_nil _ h.nonempty
    have := h.inside e he
    rw [length_fill]
    omega
  · rename_i hb
    obtain ⟨e, -, he⟩ := densify_end (z := railgunMerkleZero) h.nonempty
      ((head_below h.ascending).mp (by simpa using hb)) h.ascending
    rw [List.length_append]
    omega

/-- How far a tree's snapshot goes after a window: never past the tree's end, and
to it if the window has all that lies past the snapshot. -/
theorem length_advanced_le : (advanced F₁ t words l).length ≤ F₁.length t := by
  rw [advanced]
  split
  · rw [length_fill]
    omega
  · rename_i hb
    obtain ⟨e, he, hend⟩ := densify_end (z := railgunMerkleZero) h.nonempty
      ((head_below h.ascending).mp (by simpa using hb)) h.ascending
    have := h.inside e he
    rw [List.length_append]
    omega

theorem length_advanced (hwords : words.length ≤ F₁.length t)
    (hl : ∀ q n, F₁.node t q = some n → q < words.length ∨ ∃ v, (q, v) ∈ l) :
    (advanced F₁ t words l).length = F₁.length t := by
  refine Nat.le_antisymm (length_advanced_le h) ?_
  rw [advanced]
  split
  · rw [length_fill]
    omega
  · rename_i hb
    have hbelow := (head_below h.ascending).mp (by simpa using hb)
    rw [List.length_append]
    rcases (F₁.isHeight_length t).top with h0 | htop
    · omega
    · obtain ⟨n, hn⟩ := Option.isSome_iff_exists.mp htop
      rcases hl _ n hn with hlt | ⟨v, hv⟩
      · omega
      · have := ((within_densify (z := railgunMerkleZero) h.ascending hbelow).2 _ hv).2
        simp only at this
        omega

end

section
variable {tables : PoseidonTables} {serde : Serde MerkleAccumulatorState}

theorem len_accumulate (tables : PoseidonTables) {words : List U256} (h : words.length ≤ 65536) :
    (accumulate tables words).len.toNat = words.length :=
  len_new_insertAll (by omega)

theorem snapshotAt_eq (F : Forest) (t : U32) (a : Nat) :
    F.snapshotAt tables serde t a = snapshotOf tables serde (fill (F.leaf t) 0 a) := by
  have hnil : fill (F.leaf t) 0 a = [] ↔ a = 0 := by
    rw [← List.length_eq_zero_iff, length_fill, Nat.sub_zero]
  simp only [Forest.snapshotAt, snapshotOf, hnil]
  rfl

variable {txn : WriteTxn} {snap : U32 → Option Bytes} {t : U32} {words : List U256}

theorem mapError_ok_state {σ ε ε' α : Type} {f : ε → ε'} {m : EStateM ε σ α} {s s' : σ} {x : α}
    (h : m s = .ok x s') : mapError f m s = .ok x s' := by
  rw [mapError, h]

theorem mapError_error_state {σ ε ε' α : Type} {f : ε → ε'} {m : EStateM ε σ α} {s s' : σ} {e : ε}
    (h : m s = .error e s') : mapError f m s = .error (f e) s' := by
  rw [mapError, h]

theorem mapError_reading_ok {σ ε ε' α : Type} {f : ε → ε'} {g : σ → Except ε α} {s : σ} {x : α}
    (h : g s = .ok x) : mapError f (reading g) s = .ok x s := mapError_ok_state (reading_ok h)

theorem run_raising_bind {σ ε α β : Type} (x : α) (k : α → EStateM ε σ β) (s : σ) :
    (raising (.ok x) >>= k) s = k x s := rfl

theorem snapshot_of_stores {R : Type} [Reader R] [LawfulReader R] {r : R}
    (hs : Stores (beBytes 4) (view r .frontier) snap) (t : U32) :
    Frontier.snapshot r t = .ok (snap t) :=
  (snapshot_eq r t).trans (congrArg Except.ok (hs.get t))

/-- A stored snapshot is read back as the accumulator it was taken of. -/
theorem persistedAccumulator_spec (hJ : serde.RoundTrips)
    (hs : Stores (beBytes 4) (view txn .frontier) snap) (hsnap : snap t = snapshotOf tables serde words) :
    persistedAccumulator tables serde t txn = .ok (accumulate tables words) txn := by
  unfold persistedAccumulator
  refine (run_bind_of_ok (mapError_reading_ok (g := (Frontier.snapshot · t))
    (snapshot_of_stores hs t))).trans ?_
  rw [hsnap, snapshotOf]
  split
  · rename_i h0
    rw [h0]
    rfl
  · obtain ⟨bytes, hto, hfrom⟩ := hJ (accumulate tables words).state
    simp only [hto, Except.toOption, raising, hfrom, mapError_ok]
    refine (run_raising_bind _ _ _).trans (reading_ok ?_)
    rw [fromState_state, mapError_ok]

theorem setSnapshot_spec (hs : Stores (beBytes 4) (view txn .frontier) snap) (t : U32)
    (bytes : Bytes) : ∃ txn',
      mapError SyncError.database (FrontierMut.setSnapshot t bytes) txn = .ok () txn' ∧
      Stores (beBytes 4) (view txn' .frontier) (fun t' => if t' = t then some bytes else snap t') ∧
      SameElsewhere .frontier txn txn' := by
  refine ⟨⟨txn.inner.modify .frontier (·.insert (beBytes 4 t) bytes)⟩, rfl, ?_,
    fun table ht => modify_of_ne txn.inner ht (·.insert (beBytes 4 t) bytes)⟩
  have hview : view (WriteTxn.mk (txn.inner.modify .frontier (·.insert (beBytes 4 t) bytes))) .frontier =
      (view txn .frontier).insert (beBytes 4 t) bytes :=
    modify_self txn.inner .frontier (·.insert (beBytes 4 t) bytes)
  rw [hview]
  exact hs.insert (fun h => beBytes_inj (by decide) h) t bytes

section
variable {F₁ : Forest} {k : Counters} (hwords : words.length ≤ 65536)
  (hF : Records (view txn .commitments) F₁ k) (hk : k.length = F₁.length)
  {leaves : Map U32 U256} (hasc : (leaves.toList.map sparse).Pairwise fun e f => e.1 < f.1)
include hwords hF hk hasc

theorem appendOrRebuild_spec : appendOrRebuild tables t leaves (accumulate tables words) txn =
    .ok (accumulate tables (advanced F₁ t words (leaves.toList.map sparse))) txn := by
  have hlen := len_accumulate tables hwords
  have hback : (leaves.toList.head?.any fun first =>
      decide (first.1.setWidth 64 < (accumulate tables words).len)) =
      (leaves.toList.map sparse).head?.any (fun e => decide (e.1 < words.length)) := by
    cases leaves.toList with
    | nil => rfl
    | cons e _ =>
      have hp := e.1.isLt
      simp only [List.map_cons, List.head?_cons, Option.any_some, sparse, decide_eq_decide,
        BitVec.lt_def, BitVec.toNat_setWidth, hlen]
      omega
  have heq : appendOrRebuild tables t leaves (accumulate tables words) =
      if (leaves.toList.map sparse).head?.any (fun e => decide (e.1 < words.length)) then
        Prod.fst <$> mapError .merkle (reading (treeFrontier tables · t))
      else pure (leaves.toList.foldl (appendLeaf tables) (accumulate tables words)) := by
    rw [appendOrRebuild, hback]
  rw [heq, advanced]
  by_cases hb : (leaves.toList.map sparse).head?.any (fun e => decide (e.1 < words.length))
  · rw [if_pos hb, if_pos hb, map_eq_pure_bind]
    exact run_bind_of_ok (mapError_reading_ok (g := (treeFrontier tables · t))
      (treeFrontier_records tables hF hk t))
  · have hbelow := (head_below hasc).mp (by simpa using hb)
    rw [if_neg hb, if_neg hb, appendLeaves_eq _ _ hasc (by rw [hlen]; exact hbelow), hlen, accumulate,
      accumulate, insertAll_append]
    rfl

/-- A tree's snapshot after a window's leaves is of its words after them. -/
theorem advanceFrontier_spec (hJ : serde.RoundTrips) (hs : Stores (beBytes 4) (view txn .frontier) snap)
    (hsnap : snap t = snapshotOf tables serde words) : ∃ txn',
      advanceFrontier tables serde t leaves txn = .ok () txn' ∧
      Stores (beBytes 4) (view txn' .frontier) (fun t' => if t' = t then
        (serde.toVec (accumulate tables (advanced F₁ t words (leaves.toList.map sparse))).state).toOption
        else snap t') ∧
      SameElsewhere .frontier txn txn' := by
  obtain ⟨bytes, hto, -⟩ := hJ (accumulate tables (advanced F₁ t words (leaves.toList.map sparse))).state
  obtain ⟨txn', hput, hstores, hsame⟩ := setSnapshot_spec hs t bytes
  refine ⟨txn', ?_, by simpa only [hto, Except.toOption] using hstores, hsame⟩
  unfold advanceFrontier
  refine (run_bind_of_ok (persistedAccumulator_spec hJ hs hsnap)).trans ?_
  refine (run_bind_of_ok (appendOrRebuild_spec hwords hF hk hasc)).trans ?_
  simp only [hto, mapError_ok]
  exact (run_raising_bind _ _ _).trans hput

end

theorem snapshotOf_advanced {R : U256 → U256 → Prop} {F₁ : Forest} {l : List (Nat × U256)}
    (h : Advances R F₁ t words l) : snapshotOf tables serde (advanced F₁ t words l) =
      (serde.toVec (accumulate tables (advanced F₁ t words l)).state).toOption :=
  if_neg (advanced_ne_nil h)

end

end Railgun
