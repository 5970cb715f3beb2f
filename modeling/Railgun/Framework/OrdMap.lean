import Mathlib.Algebra.GroupWithZero.Nat
import Mathlib.Data.List.Basic
import Mathlib.Order.Lattice
import Mathlib.Tactic.Common

/-!
# Ordered maps and staged changes

Ordered maps (`Std.ExtTreeMap`) as the tables of a store: inclusive range
scans (`scan`), which are determined by what they contain (`sorted_ext`), and
staged changes, a map from keys to the value to store or, for a deletion,
`none`. `applyAll` replays the changes onto a map, in key order.

A reader that looks a key up in the changes first, and in the map below them
otherwise, sees the map `applyAll` leaves (`getElem?_applyAll`). A reader that
scans both and merges the two lists (`merge`) sees its scans (`merge_scan`).
-/

namespace OrdMap

open Std

variable {K V : Type} [Ord K] [TransOrd K] [LawfulEqOrd K]

/-- A map ordered by `compare` on its keys. -/
abbrev Map (K V : Type) [Ord K] := ExtTreeMap K V compare

/-- Changes staged over a map: what to store at a key, or `none` to delete it. -/
abbrev Changes (K V : Type) [Ord K] := Map K (Option V)

/-- Whether `k` lies between `a` and `b`, both included. -/
def within (a b k : K) : Bool := (compare a k).isLE && (compare k b).isLE

/-- The entries of `m` from `a` to `b`, both included, in key order. -/
def scan (m : Map K V) (a b : K) : List (K × V) := m.toList.filter fun e => within a b e.1

/-- One staged change, made to a map. -/
def change (m : Map K V) (e : K × Option V) : Map K V :=
  match e.2 with
  | some v => m.insert e.1 v
  | none => m.erase e.1

/-- The staged changes, made to a map in key order. -/
def applyAll (m : Map K V) (s : Changes K V) : Map K V := s.toList.foldl change m

/-- The union of two scans of one range, the staged one winning where both
have a key and hiding the keys it deletes. -/
def merge : List (K × V) → List (K × Option V) → List (K × V)
  | bs, [] => bs
  | [], (k, v) :: ss => (v.map (k, ·)).toList ++ merge [] ss
  | (bk, bv) :: bs, (k, v) :: ss =>
    match compare bk k with
    | .lt => (bk, bv) :: merge bs ((k, v) :: ss)
    | .eq => (v.map (k, ·)).toList ++ merge bs ss
    | .gt => (v.map (k, ·)).toList ++ merge ((bk, bv) :: bs) ss
termination_by bs ss => bs.length + ss.length

/-! ## Scans -/

omit [TransOrd K] [LawfulEqOrd K] in
/-- Strictly ascending keys. -/
abbrev Sorted (l : List (K × V)) : Prop := l.Pairwise fun e f => compare e.1 f.1 = .lt

theorem mem_scan {m : Map K V} {a b : K} {e : K × V} :
    e ∈ scan m a b ↔ m[e.1]? = some e.2 ∧ within a b e.1 = true := by
  rw [scan, List.mem_filter]
  exact and_congr_left' ExtTreeMap.mem_toList_iff_getElem?_eq_some

omit [LawfulEqOrd K] in
theorem sorted_scan (m : Map K V) (a b : K) : Sorted (scan m a b) :=
  ExtTreeMap.ordered_keys_toList.filter _

omit [LawfulEqOrd K] in
theorem lt_irrefl (k : K) : compare k k ≠ .lt := by
  rw [ReflOrd.compare_self]; decide

omit [LawfulEqOrd K] in
theorem Sorted.nodup {l : List (K × V)} (h : Sorted l) : l.Nodup :=
  List.Pairwise.imp (R := fun e f : K × V => compare e.1 f.1 = .lt) (S := (· ≠ ·))
    (fun {e _} hlt he => lt_irrefl e.1 (by rwa [← he] at hlt)) h

omit [LawfulEqOrd K] in
/-- Ascending lists with the same entries are equal. -/
theorem sorted_ext {l l' : List (K × V)} (h : Sorted l) (h' : Sorted l')
    (he : ∀ e, e ∈ l ↔ e ∈ l') : l = l' :=
  ((List.perm_ext_iff_of_nodup h.nodup h'.nodup).mpr he).eq_of_pairwise
    (fun e _ _ _ hef hfe => absurd (show compare e.1 e.1 = .lt from TransCmp.lt_trans hef hfe)
      (lt_irrefl e.1)) h h'

theorem getElem?_insert [DecidableEq K] (m : Map K V) (k : K) (v : V) (a : K) :
    (m.insert k v)[a]? = if a = k then some v else m[a]? := by
  rw [ExtTreeMap.getElem?_insert]
  by_cases h : a = k
  · rw [if_pos h, h, if_pos ReflOrd.compare_self]
  · rw [if_neg h, if_neg fun hc => h (LawfulEqOrd.eq_of_compare hc).symm]

/-! ## Typed keys -/

section
variable {κ : Type}

/-- `m` stores the record of every typed key at the key it is written as, and
nothing else. -/
structure Stores (enc : κ → K) (m : Map K V) (record : κ → Option V) : Prop where
  get : ∀ k, m[enc k]? = record k
  only : ∀ k v, m[k]? = some v → ∃ k', enc k' = k

theorem Stores.insert [DecidableEq κ] {enc : κ → K} (inj : ∀ {a b}, enc a = enc b → a = b)
    {m : Map K V} {record : κ → Option V} (h : Stores enc m record) (k : κ) (v : V) :
    Stores enc (m.insert (enc k) v) fun k' => if k' = k then some v else record k' := by
  refine ⟨fun k' => ?_, fun k' v' hv => ?_⟩
  · rw [ExtTreeMap.getElem?_insert]
    by_cases he : k' = k
    · rw [he, if_pos ReflOrd.compare_self, if_pos rfl]
    · rw [if_neg he, if_neg fun hc => he (inj (LawfulEqOrd.eq_of_compare hc)).symm, h.get]
  · rw [ExtTreeMap.getElem?_insert] at hv
    split at hv
    · rename_i hc
      exact ⟨k, LawfulEqOrd.eq_of_compare hc⟩
    · exact h.only k' v' hv

/-- The records determine the map. -/
theorem Stores.unique {enc : κ → K} {m m' : Map K V} {record : κ → Option V}
    (h : Stores enc m record) (h' : Stores enc m' record) : m = m' := by
  have hle : ∀ {m m' : Map K V}, Stores enc m record → Stores enc m' record →
      ∀ (k : K) (v : V), m[k]? = some v → m'[k]? = some v := by
    intro m m' h h' k v hv
    obtain ⟨k', rfl⟩ := h.only k v hv
    rw [h'.get, ← h.get, hv]
  exact ExtTreeMap.ext_getElem? fun k => Option.ext fun v => ⟨hle h h' k v, hle h' h k v⟩

omit [LawfulEqOrd K] in
theorem Stores.congr {enc : κ → K} {m : Map K V} {record record' : κ → Option V}
    (h : Stores enc m record) (he : ∀ k, record k = record' k) : Stores enc m record' :=
  ⟨fun k => (h.get k).trans (he k), h.only⟩

end

/-! ## Staged changes -/

omit [LawfulEqOrd K] in
theorem getElem?_change (m : Map K V) (e : K × Option V) (k : K) :
    (change m e)[k]? = if compare e.1 k = .eq then e.2 else m[k]? := by
  obtain ⟨k', _ | v⟩ := e
  · simp [change, ExtTreeMap.getElem?_erase]
  · simp [change, ExtTreeMap.getElem?_insert]

/-- Changes at distinct keys: each key is left as its own change says. -/
theorem getElem?_foldl_change : ∀ {l : List (K × Option V)}, Sorted l → ∀ (m : Map K V) (k : K),
    (l.foldl change m)[k]? = ((l.find? fun e => compare e.1 k == .eq).map Prod.snd).getD m[k]?
  | [], _, m, k => rfl
  | e :: l, h, m, k => by
    obtain ⟨he, hl⟩ := List.pairwise_cons.mp h
    rw [List.foldl_cons, getElem?_foldl_change hl, getElem?_change, List.find?_cons]
    by_cases hk : compare e.1 k = .eq
    · have hn : (l.find? fun f => compare f.1 k == .eq) = none := by
        refine List.find?_eq_none.mpr fun f hf hfk => ?_
        have hek : e.1 = k := LawfulEqOrd.eq_of_compare hk
        have hfk : f.1 = k := LawfulEqOrd.eq_of_compare (by simpa using hfk)
        exact lt_irrefl _ (hek ▸ hfk ▸ he f hf)
      simp [hk, hn]
    · simp [beq_eq_false_iff_ne.mpr hk, hk]

/-- Looking a key up in the changes first, and in the map otherwise, is
looking it up in the changed map. -/
theorem getElem?_applyAll (m : Map K V) (s : Changes K V) (k : K) :
    (applyAll m s)[k]? = s[k]?.getD m[k]? := by
  rw [applyAll, getElem?_foldl_change ExtTreeMap.ordered_keys_toList]
  congr 1
  cases h : s[k]? with
  | none =>
    have : (s.toList.find? fun e => compare e.1 k == .eq) = none :=
      ExtTreeMap.find?_toList_eq_none_iff_not_mem.mpr (by simpa using h)
    rw [this]; rfl
  | some v =>
    have : (s.toList.find? fun e => compare e.1 k == .eq) = some (k, v) := by
      refine ExtTreeMap.find?_toList_eq_some_iff_getKey?_eq_some_and_getElem?_eq_some.mpr ⟨?_, h⟩
      exact ExtTreeMap.getKey?_eq_some (ExtTreeMap.mem_iff_isSome_getElem?.mpr (by rw [h]; rfl))
    rw [this]; rfl

/-! ## Merged scans -/

omit [Ord K] [TransOrd K] [LawfulEqOrd K] in
/-- The staged entry `(k, v)` yields `e`: it stores `e`'s value at its key. -/
theorem mem_staged {k : K} {v : Option V} {e : K × V} :
    e ∈ (v.map (k, ·)).toList ↔ (e.1, some e.2) = (k, v) := by
  obtain ⟨e₁, e₂⟩ := e
  cases v with
  | none => simp
  | some v => simp [eq_comm]

/-- What a merge of ascending lists contains: what is staged, and what is not
hidden by something staged. -/
theorem mem_merge {bs : List (K × V)} {ss : List (K × Option V)} (hb : Sorted bs) (hs : Sorted ss)
    (e : K × V) : e ∈ merge bs ss ↔ (e.1, some e.2) ∈ ss ∨ e ∈ bs ∧ ∀ v, (e.1, v) ∉ ss := by
  induction bs, ss using merge.induct with
  | case1 bs => simp [merge]
  | case2 k v ss ih =>
    obtain ⟨-, hs'⟩ := List.pairwise_cons.mp hs
    rw [merge, List.mem_append, mem_staged, ih hb hs', List.mem_cons]
    simp
  | case3 bk bv bs k v ss hlt ih =>
    obtain ⟨hbk, hb'⟩ := List.pairwise_cons.mp hb
    obtain ⟨hk, -⟩ := List.pairwise_cons.mp hs
    -- `bk` comes before every staged key, so nothing staged hides it.
    have hne : ∀ v', (bk, v') ∉ (k, v) :: ss := by
      intro v' hm
      rcases List.mem_cons.mp hm with he | hm
      · exact lt_irrefl k ((Prod.mk.inj he).1 ▸ hlt)
      · exact lt_irrefl bk (TransCmp.lt_trans hlt (hk _ hm))
    rw [merge, hlt]
    simp only [List.mem_cons (a := e), ih hb' hs]
    constructor
    · rintro (rfl | h | ⟨h, hn⟩)
      · exact .inr ⟨.inl rfl, hne⟩
      · exact .inl h
      · exact .inr ⟨.inr h, hn⟩
    · rintro (h | ⟨rfl | h, hn⟩)
      · exact .inr (.inl h)
      · exact .inl rfl
      · exact .inr (.inr ⟨h, hn⟩)
  | case4 bk bv bs k v ss heq ih =>
    obtain ⟨hbk, hb'⟩ := List.pairwise_cons.mp hb
    obtain ⟨hk, hs'⟩ := List.pairwise_cons.mp hs
    obtain rfl : bk = k := LawfulEqOrd.eq_of_compare heq
    rw [merge, heq]
    simp only [List.mem_append, mem_staged, ih hb' hs', List.mem_cons]
    constructor
    · rintro (h | h | ⟨h, hn⟩)
      · exact .inl (.inl h)
      · exact .inl (.inr h)
      · refine .inr ⟨.inr h, fun v' hv' => hv'.elim (fun he => ?_) (hn v')⟩
        exact lt_irrefl bk ((Prod.mk.inj he).1 ▸ hbk e h)
    · rintro ((h | h) | ⟨rfl | h, hn⟩)
      · exact .inl h
      · exact .inr (.inl h)
      · exact absurd (.inl rfl) (hn v)
      · exact .inr (.inr ⟨h, fun v' hv' => hn v' (.inr hv')⟩)
  | case5 bk bv bs k v ss hgt ih =>
    obtain ⟨hbk, -⟩ := List.pairwise_cons.mp hb
    obtain ⟨hk, hs'⟩ := List.pairwise_cons.mp hs
    have hlt : compare k bk = .lt := OrientedCmp.lt_of_gt hgt
    -- `k` comes before every base key, so its change hides nothing.
    have hne : ∀ f ∈ (bk, bv) :: bs, f.1 ≠ k := by
      intro f hf he
      rcases List.mem_cons.mp hf with rfl | hf
      · exact lt_irrefl k (by rwa [show bk = k from he] at hlt)
      · have hkf := TransCmp.lt_trans hlt (hbk f hf)
        rw [he] at hkf
        exact lt_irrefl k hkf
    rw [merge, hgt]
    simp only [List.mem_append, mem_staged, ih hb hs', List.mem_cons (l := ss)]
    constructor
    · rintro (h | h | ⟨h, hn⟩)
      · exact .inl (.inl h)
      · exact .inl (.inr h)
      · exact .inr ⟨h, fun v' hv' => hv'.elim (fun he => hne e h (Prod.mk.inj he).1) (hn v')⟩
    · rintro ((h | h) | ⟨h, hn⟩)
      · exact .inl h
      · exact .inr (.inl h)
      · exact .inr (.inr ⟨h, fun v' hv' => hn v' (.inr hv')⟩)

/-- Every entry of a merge comes from one of the lists, so a bound on both
is a bound on it. -/
theorem forall_merge {P : K → Prop} {bs : List (K × V)} {ss : List (K × Option V)}
    (hb : Sorted bs) (hs : Sorted ss) (h₁ : ∀ e ∈ bs, P e.1) (h₂ : ∀ e ∈ ss, P e.1) :
    ∀ e ∈ merge bs ss, P e.1 := fun e he =>
  ((mem_merge hb hs e).mp he).elim (fun h => h₂ _ h) fun h => h₁ e h.1

theorem sorted_merge {bs : List (K × V)} {ss : List (K × Option V)} (hb : Sorted bs)
    (hs : Sorted ss) : Sorted (merge bs ss) := by
  induction bs, ss using merge.induct with
  | case1 bs => simpa [merge] using hb
  | case2 k v ss ih =>
    obtain ⟨hk, hs'⟩ := List.pairwise_cons.mp hs
    rw [merge]
    cases v with
    | none => exact ih hb hs'
    | some v =>
      exact List.pairwise_cons.mpr ⟨forall_merge (P := fun k' => compare k k' = .lt) hb hs'
        (fun _ h => nomatch h) hk, ih hb hs'⟩
  | case3 bk bv bs k v ss hlt ih =>
    obtain ⟨hbk, hb'⟩ := List.pairwise_cons.mp hb
    obtain ⟨hk, -⟩ := List.pairwise_cons.mp hs
    rw [merge, hlt]
    refine List.pairwise_cons.mpr ⟨forall_merge (P := fun k' => compare bk k' = .lt) hb' hs hbk
      fun e he => ?_, ih hb' hs⟩
    rcases List.mem_cons.mp he with rfl | he
    · exact hlt
    · exact TransCmp.lt_trans hlt (hk e he)
  | case4 bk bv bs k v ss heq ih =>
    obtain ⟨hbk, hb'⟩ := List.pairwise_cons.mp hb
    obtain ⟨hk, hs'⟩ := List.pairwise_cons.mp hs
    obtain rfl : bk = k := LawfulEqOrd.eq_of_compare heq
    rw [merge, heq]
    cases v with
    | none => exact ih hb' hs'
    | some v =>
      exact List.pairwise_cons.mpr ⟨forall_merge (P := fun k' => compare bk k' = .lt) hb' hs'
        hbk hk, ih hb' hs'⟩
  | case5 bk bv bs k v ss hgt ih =>
    obtain ⟨hbk, -⟩ := List.pairwise_cons.mp hb
    obtain ⟨hk, hs'⟩ := List.pairwise_cons.mp hs
    have hlt : compare k bk = .lt := OrientedCmp.lt_of_gt hgt
    rw [merge, hgt]
    cases v with
    | none => exact ih hb hs'
    | some v =>
      refine List.pairwise_cons.mpr ⟨forall_merge (P := fun k' => compare k k' = .lt) hb hs'
        (fun e he => ?_) hk, ih hb hs'⟩
      rcases List.mem_cons.mp he with rfl | he
      · exact hlt
      · exact TransCmp.lt_trans hlt (hbk e he)

omit [TransOrd K] [LawfulEqOrd K] in
theorem length_merge_le (bs : List (K × V)) (ss : List (K × Option V)) :
    (merge bs ss).length ≤ bs.length + ss.length := by
  have hv : ∀ (k : K) (v : Option V), (v.map (k, ·)).toList.length ≤ 1 := fun k v => by cases v <;> simp
  induction bs, ss using merge.induct with
  | case1 bs => simp [merge]
  | case2 k v ss ih =>
    have := hv k v
    rw [merge, List.length_append, List.length_cons]
    omega
  | case3 bk bv bs k v ss hlt ih =>
    simp only [merge, hlt, List.length_cons] at ih ⊢
    omega
  | case4 bk bv bs k v ss heq ih =>
    have := hv k v
    rw [merge, heq, List.length_append, List.length_cons, List.length_cons]
    omega
  | case5 bk bv bs k v ss hgt ih =>
    have := hv k v
    simp only [merge, hgt, List.length_append, List.length_cons] at ih ⊢
    omega

/-- Merging the scans of a map and of its staged changes scans the changed map. -/
theorem merge_scan (m : Map K V) (s : Changes K V) (a b : K) :
    merge (scan m a b) (scan s a b) = scan (applyAll m s) a b := by
  have hm := sorted_scan m a b
  have hs := sorted_scan s a b
  refine sorted_ext (sorted_merge hm hs) (sorted_scan _ a b) fun e => ?_
  rw [mem_merge hm hs, mem_scan, mem_scan, mem_scan, getElem?_applyAll]
  simp only [mem_scan, not_and, Bool.not_eq_true]
  cases h : s[e.1]? with
  | none => simp
  | some v =>
    simp only [Option.some.injEq, Option.getD_some, forall_eq']
    constructor
    · rintro (h | ⟨⟨-, hw⟩, hn⟩)
      · exact h
      · exact absurd hw (by simp [hn])
    · exact .inl

end OrdMap
