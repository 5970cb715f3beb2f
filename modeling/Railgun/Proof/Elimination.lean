import Mathlib.Data.List.GetD
import Railgun.Framework.Elimination
import Railgun.Impl.Parameters
import Railgun.Proof.ScalarField

/-!
# The inverse of a matrix

`mat_inverse` skips the entries it knows to be zero, and is elimination without
pivoting (`map_matInverse`): what it returns is the inverse on both sides, and
it panics exactly when a leading minor is zero (`matInverse_spec`).
-/

namespace Railgun.PoseidonParams

open BabyJubJub

/-! ## Matrices of the field -/

/-- As many rows as columns. -/
structure Square (n : Nat) (m : List (List Fr)) : Prop where
  length : m.length = n
  row : ∀ r ∈ m, r.length = n

/-- The entries of a matrix, zero outside it. -/
def rows (m : List (List Fr)) : Elimination.Rows (ZMod scalarField) := fun i j => toField (entry m i j)

/-- A matrix over the field. -/
def toMatrix (n : Nat) (m : List (List Fr)) : Matrix (Fin n) (Fin n) (ZMod scalarField) :=
  Elimination.leading n (rows m)

section
variable {n : Nat} {m : List (List Fr)}

theorem Square.length_getD (h : Square n m) {i : Nat} (hi : i < n) : (m.getD i []).length = n := by
  rw [List.getD_eq_getElem m [] (by rwa [h.length])]
  exact h.row _ (List.getElem_mem _)

theorem Square.set (h : Square n m) (i : Nat) {r : List Fr} (hr : r.length = n) :
    Square n (m.set i r) where
  length := (List.length_set ..).trans h.length
  row _ hmem := (List.mem_or_eq_of_mem_set hmem).elim (h.row _) fun hr' => hr'.symm ▸ hr

/-- Outside the columns the entries are zero. -/
theorem Square.rows_of_le (h : Square n m) {i c : Nat} (hi : i < n) (hc : n ≤ c) : rows m i c = 0 := by
  rw [rows, entry, List.getD_eq_default _ _ (by rwa [h.length_getD hi]), toField_zero]

theorem getD_mapIdx (f : Nat → Fr → Fr) {r : List Fr} {c : Nat} (hc : c < r.length) :
    (r.mapIdx f).getD c 0 = f c (r.getD c 0) := by
  simp [List.getD_eq_getElem?_getD, hc]

theorem getD_set {m : List (List Fr)} {i : Nat} (hi : i < m.length) (r : List Fr) (k : Nat) :
    (m.set i r).getD k [] = if k = i then r else m.getD k [] := by
  by_cases hk : k = i
  · subst hk
    simp [hi]
  · simp [List.getD_eq_getElem?_getD, List.getElem?_set_ne (Ne.symm hk), hk]

/-- A row written is a row of the matrix over the field replaced. -/
theorem Square.rows_set (h : Square n m) {i : Nat} (hi : i < n) {f : Nat → Fr → Fr}
    {u : Nat → ZMod scalarField} (hu : ∀ c < n, toField (f c (entry m i c)) = u c)
    (hout : ∀ c, n ≤ c → u c = 0) :
    rows (m.set i ((m.getD i []).mapIdx f)) = Function.update (rows m) i u := by
  funext k c
  rw [rows, entry, getD_set (by rwa [h.length])]
  by_cases hk : k = i
  · subst hk
    rw [Function.update_self, if_pos rfl]
    rcases Nat.lt_or_ge c n with hc | hc
    · rw [getD_mapIdx f (by rwa [h.length_getD hi])]
      exact hu c hc
    · rw [List.getD_eq_default _ _ (by rwa [List.length_mapIdx, h.length_getD hi]), toField_zero, hout c hc]
  · rw [Function.update_of_ne hk, if_neg hk]
    rfl

theorem Square.length_mapIdx (h : Square n m) {i : Nat} (hi : i < n) (f : Nat → Fr → Fr) :
    ((m.getD i []).mapIdx f).length = n :=
  List.length_mapIdx.trans (h.length_getD hi)

end

/-! ## The first pass -/

section
variable {n row : Nat} {A : Elimination.Rows (ZMod scalarField)} {s : List (List Fr) × List (List Fr)}

/-- Both matrices of the elimination, over the field. -/
def bothRows (s : List (List Fr) × List (List Fr)) :
    Elimination.Rows (ZMod scalarField) × Elimination.Rows (ZMod scalarField) := (rows s.1, rows s.2)

/-- Both matrices are square. -/
def BothSquare (n : Nat) (s : List (List Fr) × List (List Fr)) : Prop := Square n s.1 ∧ Square n s.2

theorem subtractRow_spec (hs : BothSquare n s) (h : Elimination.Reducing n A row (bothRows s))
    (hrow : row < n) {j : Nat} (hj : j < row) (hz : ∀ c < j, rows s.1 row c = 0) :
    BothSquare n (subtractRow row s j) ∧
      bothRows (subtractRow row s j) = Elimination.subtract row (bothRows s) j := by
  obtain ⟨m, inv⟩ := s
  obtain ⟨hm, hi⟩ := hs
  have hjn : j < n := Nat.lt_trans hj hrow
  refine ⟨⟨hm.set _ (hm.length_mapIdx hrow _), hi.set _ (hi.length_mapIdx hrow _)⟩, Prod.ext ?_ ?_⟩
  · refine hm.rows_set hrow (fun c _ => ?_) fun c hc => ?_
    · show toField (if c < j then 0 else entry m row c - entry m j c * entry m row j) =
        rows m row c - rows m j c * rows m row j
      split
      · rename_i hcj
        have hjc : rows m j c = 0 := (h j).zero hj c hcj
        rw [hz c hcj, hjc, zero_mul, sub_zero, toField_zero]
      · rw [toField_sub, toField_mul]
        rfl
    · show rows m row c - rows m j c * rows m row j = 0
      rw [hm.rows_of_le hrow hc, hm.rows_of_le hjn hc, zero_mul, sub_zero]
  · refine hi.rows_set hrow (fun c _ => ?_) fun c hc => ?_
    · show toField (if row < c then 0 else entry inv row c - entry inv j c * entry m row j) =
        rows inv row c - rows inv j c * rows m row j
      split
      · rename_i hc
        have hrc : rows inv row c = 0 := (h row).lower c hc
        have hjc : rows inv j c = 0 := (h j).lower c (Nat.lt_trans hj hc)
        rw [hrc, hjc, zero_mul, sub_zero, toField_zero]
      · rw [toField_sub, toField_mul]
        rfl
    · show rows inv row c - rows inv j c * rows m row j = 0
      rw [hi.rows_of_le hrow hc, hi.rows_of_le hjn hc, zero_mul, sub_zero]

theorem subtractRows_spec (hs : BothSquare n s) (h : Elimination.Reducing n A row (bothRows s))
    (hrow : row < n) : ∀ j ≤ row, BothSquare n ((List.range j).foldl (subtractRow row) s) ∧
      bothRows ((List.range j).foldl (subtractRow row) s) =
        (List.range j).foldl (Elimination.subtract row) (bothRows s)
  | 0, _ => ⟨hs, rfl⟩
  | j + 1, hj => by
    obtain ⟨hs', heq⟩ := subtractRows_spec hs h hrow j (by omega)
    obtain ⟨h', hz⟩ := h.subtracts hrow j (by omega)
    rw [← heq] at h' hz
    rw [List.range_succ, List.foldl_append, List.foldl_append, ← heq]
    exact subtractRow_spec hs' h' hrow hj hz

theorem normalizeRow_spec (hs : BothSquare n s) (h : Elimination.Reducing n A row (bothRows s))
    (hrow : row < n) (hz : ∀ c < row, rows s.1 row c = 0) :
    (normalizeRow row s).map bothRows = Elimination.normalize row (bothRows s) ∧
      ∀ s', normalizeRow row s = some s' → BothSquare n s' := by
  obtain ⟨m, inv⟩ := s
  obtain ⟨hm, hi⟩ := hs
  show (if entry m row row = 0 then none else _ : Option _).map bothRows =
    (if rows m row row = 0 then none else _) ∧ _
  by_cases hp : entry m row row = 0
  · rw [if_pos hp, if_pos (show rows m row row = 0 by rw [rows, hp, toField_zero]), normalizeRow, if_pos hp]
    exact ⟨rfl, fun _ h => (Option.some_ne_none _ h.symm).elim⟩
  · have hp' : rows m row row ≠ 0 := toField_ne_zero hp
    rw [if_neg hp, if_neg hp', normalizeRow, if_neg hp]
    refine ⟨congrArg some (Prod.ext ?_ ?_), fun s' hs' => ?_⟩
    · refine hm.rows_set hrow (fun c _ => ?_) fun c hc => ?_
      · show _ = rows m row c * (rows m row row)⁻¹
        rcases Nat.lt_trichotomy c row with hc | rfl | hc
        · rw [if_pos hc, hz c hc, zero_mul]
          exact hz c hc
        · rw [if_neg (Nat.lt_irrefl c), if_pos rfl, mul_inv_cancel₀ hp', toField_one]
        · rw [if_neg (Nat.lt_asymm hc), if_neg (Nat.ne_of_gt hc), toField_mul, toField_inverse hp]
          rfl
      · show rows m row c * (rows m row row)⁻¹ = 0
        rw [hm.rows_of_le hrow hc, zero_mul]
    · refine hi.rows_set hrow (fun c _ => ?_) fun c hc => ?_
      · show _ = rows inv row c * (rows m row row)⁻¹
        split
        · rename_i hc
          have hrc : rows inv row c = 0 := (h row).lower c hc
          rw [hrc, zero_mul]
          exact hrc
        · rw [toField_mul, toField_inverse hp]
          rfl
      · show rows inv row c * (rows m row row)⁻¹ = 0
        rw [hi.rows_of_le hrow hc, zero_mul]
    · cases hs'
      exact ⟨hm.set _ (hm.length_mapIdx hrow _), hi.set _ (hi.length_mapIdx hrow _)⟩

end

/-- The first pass, row by row. -/
theorem reduceRows_spec {n : Nat} {A : Elimination.Rows (ZMod scalarField)}
    {s : List (List Fr) × List (List Fr)} (hs : BothSquare n s)
    (hA : bothRows s = (A, Elimination.one n)) : ∀ k ≤ n,
    ((List.range k).foldlM reduceRow s).map bothRows = Elimination.forward k (A, Elimination.one n) ∧
      ∀ s', (List.range k).foldlM reduceRow s = some s' → BothSquare n s'
  | 0, _ => ⟨congrArg some hA, fun s' hs' => Option.some.inj hs' ▸ hs⟩
  | k + 1, hk => by
    obtain ⟨heq, hsquare⟩ := reduceRows_spec hs hA k (by omega)
    have hstep : (List.range (k + 1)).foldlM reduceRow s =
        ((List.range k).foldlM reduceRow s).bind (reduceRow · k) := by
      rw [List.range_succ, List.foldlM_append]
      exact bind_congr fun s => bind_pure (reduceRow s k)
    rw [hstep, Elimination.forward_succ, ← heq]
    cases hf : (List.range k).foldlM reduceRow s with
    | none => exact ⟨rfl, fun _ h => (Option.some_ne_none _ h.symm).elim⟩
    | some s' =>
      have hr : Elimination.Reducing n A k (bothRows s') :=
        (Elimination.forward_spec k (by omega)).1 _ (by rw [← heq, hf, Option.map_some])
      obtain ⟨hs₁, heq₁⟩ := subtractRows_spec (hsquare s' hf) hr (by omega) k le_rfl
      obtain ⟨hr₁, hz⟩ := hr.subtracts (by omega) k le_rfl
      rw [← heq₁] at hr₁ hz
      rw [Option.bind_some, Option.map_some, Option.bind_some, Elimination.reduce, ← heq₁]
      exact normalizeRow_spec hs₁ hr₁ (by omega) hz

/-! ## The second pass -/

theorem clearRow_spec {n row j : Nat} {m inv : List (List Fr)} (hi : Square n inv) (hrow : row < n)
    (hj : j < n) : Square n (clearRow m row inv j) ∧
      rows (clearRow m row inv j) = Elimination.clear (rows m) row (rows inv) j := by
  refine ⟨hi.set _ (hi.length_mapIdx hrow _), hi.rows_set hrow (fun c _ => ?_) fun c hc => ?_⟩
  · rw [toField_sub, toField_mul]
    rfl
  · rw [hi.rows_of_le hrow hc, hi.rows_of_le hj hc, zero_mul, sub_zero]

/-- A loop over steps that keep a property and compute `g` of what `φ` makes of the state. -/
theorem foldl_spec {σ τ α : Type} {P : σ → Prop} {φ : σ → τ} {f : σ → α → σ} {g : τ → α → τ} :
    ∀ {l : List α} {s : σ}, (∀ s, P s → ∀ a ∈ l, P (f s a) ∧ φ (f s a) = g (φ s) a) → P s →
      P (l.foldl f s) ∧ φ (l.foldl f s) = l.foldl g (φ s)
  | [], _, _, hs => ⟨hs, rfl⟩
  | a :: l, s, h, hs => by
    obtain ⟨hs', heq⟩ := h s hs a List.mem_cons_self
    rw [List.foldl_cons, List.foldl_cons, ← heq]
    exact foldl_spec (fun s hs b hb => h s hs b (List.mem_cons_of_mem _ hb)) hs'

/-- The second pass. -/
theorem clearRows_spec {n : Nat} (m : List (List Fr)) {inv : List (List Fr)} (hi : Square n inv) :
    Square n ((List.range n).reverse.foldl (fun inv row =>
      (List.range' (row + 1) (n - (row + 1))).reverse.foldl (clearRow m row) inv) inv) ∧
    rows ((List.range n).reverse.foldl (fun inv row =>
      (List.range' (row + 1) (n - (row + 1))).reverse.foldl (clearRow m row) inv) inv) =
        Elimination.back n (rows m, rows inv) := by
  refine foldl_spec (fun inv hi row hrow => foldl_spec (fun inv hi j hj => ?_) hi) hi
  have hrow : row < n := List.mem_range.mp (List.mem_reverse.mp hrow)
  have hj := List.mem_range'_1.mp (List.mem_reverse.mp hj)
  exact clearRow_spec hi hrow (by omega)

/-! ## The inverse -/

/-- The identity matrix that the elimination starts from. -/
theorem identity_spec (n : Nat) :
    Square n ((List.range n).map fun i => (List.replicate n (0 : Fr)).set i 1) ∧
      rows ((List.range n).map fun i => (List.replicate n (0 : Fr)).set i 1) = Elimination.one n := by
  refine ⟨⟨by simp, fun r hr => ?_⟩, ?_⟩
  · obtain ⟨i, -, rfl⟩ := List.mem_map.mp hr
    simp
  · funext i c
    rw [rows, entry, Elimination.one]
    rcases Nat.lt_or_ge i n with hi | hi
    · have hrow : ((List.range n).map fun i => (List.replicate n (0 : Fr)).set i 1).getD i [] =
          (List.replicate n (0 : Fr)).set i 1 := by simp [List.getD_eq_getElem?_getD, hi]
      rw [hrow, List.getD_eq_getElem?_getD, List.getElem?_set]
      by_cases hic : i = c
      · simp [hic, hic ▸ hi, toField_one]
      · rcases Nat.lt_or_ge c n with hc | hc <;> simp [hic, hc, toField_zero]
    · simp [List.getD_eq_getElem?_getD, Nat.not_lt.mpr hi, toField_zero]

/-- `mat_inverse` is elimination without pivoting. -/
theorem map_matInverse {n : Nat} {mat : List (List Fr)} (h : Square n mat) :
    (matInverse mat).map rows = Elimination.inverse n (rows mat) ∧
      ∀ inv, matInverse mat = some inv → Square n inv := by
  obtain ⟨hone, hrows⟩ := identity_spec n
  obtain ⟨heq, hsquare⟩ := reduceRows_spec (A := rows mat) (s := (mat, _)) ⟨h, hone⟩ (Prod.ext rfl hrows) n le_rfl
  rw [Elimination.inverse, ← heq, matInverse, h.length]
  cases hf : (List.range n).foldlM reduceRow (mat, (List.range n).map fun i => (List.replicate n 0).set i 1) with
  | none => exact ⟨rfl, fun _ h => (Option.some_ne_none _ h.symm).elim⟩
  | some s =>
    obtain ⟨hback, hrows⟩ := clearRows_spec s.1 (hsquare s hf).2
    exact ⟨congrArg some hrows, fun inv hinv => Option.some.inj hinv ▸ hback⟩

/-- `mat_inverse` returns exactly when no leading minor of the matrix is zero, and what it returns is
the inverse. -/
theorem matInverse_spec {n : Nat} {mat : List (List Fr)} (h : Square n mat) :
    ((matInverse mat).isSome ↔ Elimination.StronglyRegular (toMatrix n mat)) ∧
      ∀ inv, matInverse mat = some inv →
        Square n inv ∧ toMatrix n inv * toMatrix n mat = 1 ∧ toMatrix n mat * toMatrix n inv = 1 := by
  obtain ⟨heq, hsquare⟩ := map_matInverse h
  refine ⟨?_, fun inv hinv => ?_⟩
  · rw [← Option.isSome_map (f := rows), heq]
    exact Elimination.inverse_isSome
  · have hrows : Elimination.inverse n (rows mat) = some (rows inv) := by rw [← heq, hinv, Option.map_some]
    exact ⟨hsquare inv hinv, Elimination.inverse_mul hrows, Elimination.mul_inverse hrows⟩

/-- On a square matrix `mat_inverse` panics exactly when a leading principal minor is zero, and else
returns the inverse. -/
theorem matInverse_inverts {n : Nat} {mat : List (List Fr)} (h : Square n mat) :
    (matInverse mat = none ↔ ∃ m, ∃ hm : m ≤ n,
      ((toMatrix n mat).submatrix (Fin.castLE hm) (Fin.castLE hm)).det = 0) ∧
    ∀ inv, matInverse mat = some inv →
      Square n inv ∧ toMatrix n inv * toMatrix n mat = 1 ∧ toMatrix n mat * toMatrix n inv = 1 := by
  obtain ⟨hsome, hinv⟩ := matInverse_spec h
  refine ⟨?_, hinv⟩
  rw [← Option.not_isSome_iff_eq_none, hsome, Elimination.StronglyRegular]
  push Not
  rfl

/-- A matrix that needs its rows swapped is invertible, and panics. -/
example : matInverse [[0, 1], [1, 0]] = none ∧ matMatMul [[0, 1], [1, 0]] [[0, 1], [1, 0]] = [[1, 0], [0, 1]] := by
  decide +kernel

theorem matInverse_inverts_two : (matInverse [[1, 1], [2, 1]] = none ↔ ∃ m, ∃ hm : m ≤ 2,
      ((toMatrix 2 [[1, 1], [2, 1]]).submatrix (Fin.castLE hm) (Fin.castLE hm)).det = 0) ∧
    ∀ inv, matInverse [[1, 1], [2, 1]] = some inv →
      Square 2 inv ∧ toMatrix 2 inv * toMatrix 2 [[1, 1], [2, 1]] = 1 ∧
        toMatrix 2 [[1, 1], [2, 1]] * toMatrix 2 inv = 1 :=
  matInverse_inverts ⟨rfl, by simp⟩

end Railgun.PoseidonParams
