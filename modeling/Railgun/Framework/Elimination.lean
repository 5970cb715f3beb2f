import Mathlib.Algebra.BigOperators.Fin
import Mathlib.Algebra.GroupWithZero.Nat
import Mathlib.LinearAlgebra.Matrix.Block
import Mathlib.LinearAlgebra.Matrix.NonsingularInverse
import Mathlib.Order.Lattice
import Mathlib.Tactic.Common
import Mathlib.Tactic.Ring

/-!
# Elimination without pivoting

Gauss-Jordan elimination on a pair of matrices that starts as `(A, 1)`: every
row operation keeps `W * A = U` (`Reducing.image`), the first pass makes `U`
upper triangular with ones on the diagonal, the second one clears what is above
it. No rows are swapped, so the pivots are quotients of leading minors, and the
inverse is found exactly when no leading minor is zero (`inverse_isSome`);
what is found is the inverse on both sides (`inverse_mul`, `mul_inverse`).
-/

namespace Elimination

open Finset

variable {K : Type*} [Field K]

/-- The rows of a matrix, by index. -/
abbrev Rows (K : Type*) := ℕ → ℕ → K

/-- The matrix of the first `n` rows and columns. -/
def leading (n : ℕ) (A : Rows K) : Matrix (Fin n) (Fin n) K := Matrix.of fun i j => A i j

/-- No leading principal minor is zero. -/
def StronglyRegular {n : ℕ} (A : Matrix (Fin n) (Fin n) K) : Prop :=
  ∀ m (h : m ≤ n), (A.submatrix (Fin.castLE h) (Fin.castLE h)).det ≠ 0

theorem stronglyRegular_transpose {n : ℕ} {A : Matrix (Fin n) (Fin n) K} :
    StronglyRegular A.transpose ↔ StronglyRegular A := by
  have hdet : ∀ m (h : m ≤ n), (A.transpose.submatrix (Fin.castLE h) (Fin.castLE h)).det =
      (A.submatrix (Fin.castLE h) (Fin.castLE h)).det := fun m h => by
    rw [← Matrix.transpose_submatrix, Matrix.det_transpose]
  exact forall₂_congr fun m h => by rw [hdet m h]

/-- The identity matrix of size `n`. -/
def one (n : ℕ) : Rows K := fun i j => if i = j ∧ i < n then 1 else 0

/-! ## The two passes -/

/-- Clears entry `j` of a row with row `j`. -/
def subtract (row : ℕ) (s : Rows K × Rows K) (j : ℕ) : Rows K × Rows K :=
  (Function.update s.1 row fun c => s.1 row c - s.1 j c * s.1 row j,
    Function.update s.2 row fun c => s.2 row c - s.2 j c * s.1 row j)

variable [DecidableEq K]

/-- Makes the pivot of a row one; there is none to make it of where it is zero. -/
def normalize (row : ℕ) (s : Rows K × Rows K) : Option (Rows K × Rows K) :=
  if s.1 row row = 0 then none
  else some (Function.update s.1 row fun c => s.1 row c * (s.1 row row)⁻¹,
    Function.update s.2 row fun c => s.2 row c * (s.1 row row)⁻¹)

/-- A row of the first pass. -/
def reduce (s : Rows K × Rows K) (row : ℕ) : Option (Rows K × Rows K) :=
  normalize row ((List.range row).foldl (subtract row) s)

/-- The first `k` rows of the first pass. -/
def forward (k : ℕ) (s : Rows K × Rows K) : Option (Rows K × Rows K) :=
  (List.range k).foldlM reduce s

omit [DecidableEq K] in
/-- A row of the second pass, less its entry `j` times row `j`. -/
def clear (U : Rows K) (row : ℕ) (W : Rows K) (j : ℕ) : Rows K :=
  Function.update W row fun c => W row c - W j c * U row j

omit [DecidableEq K] in
/-- A row of the second pass: its columns from the last to the one after the diagonal. -/
def backRow (n : ℕ) (U : Rows K) (W : Rows K) (row : ℕ) : Rows K :=
  (List.range' (row + 1) (n - (row + 1))).reverse.foldl (clear U row) W

omit [DecidableEq K] in
/-- The second pass: the rows from the last to the first. -/
def back (n : ℕ) (s : Rows K × Rows K) : Rows K :=
  (List.range n).reverse.foldl (backRow n s.1) s.2

/-- The inverse of the leading matrix of size `n`. -/
def inverse (n : ℕ) (A : Rows K) : Option (Rows K) := (forward n (A, one n)).map (back n)

/-! ## The first pass -/

omit [DecidableEq K]

/-- Row `w` times the leading matrix is row `u`. -/
def Image (n : ℕ) (A : Rows K) (w u : ℕ → K) : Prop :=
  ∀ c < n, ∑ l ∈ range n, w l * A l c = u c

section
variable {n : ℕ} {A : Rows K} {w w' u u' : ℕ → K}

theorem Image.sub_mul (h : Image n A w u) (h' : Image n A w' u') (x : K) :
    Image n A (fun c => w c - w' c * x) fun c => u c - u' c * x := fun c hc => by
  show _ = u c - u' c * x
  rw [← h c hc, ← h' c hc, sum_mul, ← sum_sub_distrib]
  exact sum_congr rfl fun l _ => by ring

theorem Image.mul (h : Image n A w u) (x : K) :
    Image n A (fun c => w c * x) fun c => u c * x := fun c hc => by
  show _ = u c * x
  rw [← h c hc, sum_mul]
  exact sum_congr rfl fun l _ => by ring

theorem Image.congr (h : Image n A w u) (hu : ∀ c < n, u c = u' c) : Image n A w u' :=
  fun c hc => (h c hc).trans (hu c hc)

/-- A row of the identity times a matrix. -/
theorem image_one {i : ℕ} (hi : i < n) : Image n A (one n i) (A i) := fun c _ => by
  rw [sum_eq_single i]
  · simp [one, hi]
  · intro l _ hl
    simp [one, Ne.symm hl]
  · intro h
    exact absurd (mem_range.mpr hi) h

end

/-- Row `i` when the first `k` rows are reduced. -/
structure Row (n : ℕ) (A : Rows K) (k i : ℕ) (w u : ℕ → K) : Prop where
  image : i < n → Image n A w u
  lower : ∀ c, i < c → w c = 0
  unit : i < k → u i = 1
  zero : i < k → ∀ c < i, u c = 0
  scaled : i < k → w i ≠ 0
  fresh : k ≤ i → i < n → w i = 1

/-- The first `k` rows are reduced. -/
def Reducing (n : ℕ) (A : Rows K) (k : ℕ) (s : Rows K × Rows K) : Prop :=
  ∀ i, Row n A k i (s.2 i) (s.1 i)

variable {n k : ℕ} {A : Rows K} {s : Rows K × Rows K}

/-- The rows other than row `k` are as reduced when row `k` is, too. -/
theorem Row.succ {i : ℕ} {w u : ℕ → K} (h : Row n A k i w u) (hik : i ≠ k) :
    Row n A (k + 1) i w u where
  image := h.image
  lower := h.lower
  unit hi := h.unit (by omega)
  zero hi := h.zero (by omega)
  scaled hi := h.scaled (by omega)
  fresh hi := h.fresh (by omega)

theorem reducing_zero : Reducing n A 0 (A, one n) := fun i =>
  { image := image_one
    lower := fun c h => by simp [one, Nat.ne_of_lt h]
    unit := fun h => absurd h (Nat.not_lt_zero _)
    zero := fun h => absurd h (Nat.not_lt_zero _)
    scaled := fun h => absurd h (Nat.not_lt_zero _)
    fresh := fun _ hi => by simp [one, hi] }

/-- Row `k` is cleared up to column `j`. -/
theorem Reducing.subtract (h : Reducing n A k s) (hk : k < n) {j : ℕ} (hj : j < k)
    (hz : ∀ c < j, s.1 k c = 0) :
    Reducing n A k (subtract k s j) ∧ ∀ c < j + 1, (Elimination.subtract k s j).1 k c = 0 := by
  refine ⟨fun i => ?_, fun c hc => ?_⟩
  · by_cases hik : i = k
    · subst hik
      simp only [Elimination.subtract, Function.update_self]
      refine ⟨fun hi => ((h i).image hi).sub_mul ((h j).image (by omega)) _, fun c hc => ?_,
        fun hi => absurd hi (lt_irrefl i), fun hi => absurd hi (lt_irrefl i),
        fun hi => absurd hi (lt_irrefl i), fun _ hi => ?_⟩
      · rw [(h i).lower c hc, (h j).lower c (by omega), zero_mul, sub_zero]
      · rw [(h j).lower i hj, zero_mul, sub_zero]
        exact (h i).fresh le_rfl hi
    · simp only [Elimination.subtract, Function.update_of_ne hik]
      exact h i
  · simp only [Elimination.subtract, Function.update_self]
    rcases Nat.lt_succ_iff_lt_or_eq.mp hc with hc | rfl
    · rw [hz c hc, (h j).zero hj c hc, zero_mul, sub_zero]
    · rw [(h c).unit hj, one_mul, sub_self]

/-- Row `k` is cleared up to its diagonal. -/
theorem Reducing.subtracts (h : Reducing n A k s) (hk : k < n) : ∀ j ≤ k,
    Reducing n A k ((List.range j).foldl (Elimination.subtract k) s) ∧
      ∀ c < j, ((List.range j).foldl (Elimination.subtract k) s).1 k c = 0
  | 0, _ => ⟨h, fun _ hc => absurd hc (Nat.not_lt_zero _)⟩
  | j + 1, hj => by
    obtain ⟨h', hz⟩ := h.subtracts hk j (by omega)
    rw [List.range_succ, List.foldl_append]
    exact h'.subtract hk hj hz

/-- Rows that end at the diagonal meet the leading matrix only. -/
theorem leading_mul {W U : Rows K} (himage : ∀ i < n, Image n A (W i) (U i))
    (hW : ∀ i c, i < c → W i c = 0) {m : ℕ} (hm : m ≤ n) :
    leading m W * leading m A = leading m U := by
  ext i c
  have hi : (i : ℕ) < n := lt_of_lt_of_le i.isLt hm
  have hsub : range m ⊆ range n := range_subset_range.mpr hm
  rw [Matrix.mul_apply]
  show ∑ l : Fin m, W i l * A l c = U i c
  rw [Fin.sum_univ_eq_sum_range (fun l => W i l * A l c), ← himage i hi c (lt_of_lt_of_le c.isLt hm)]
  refine sum_subset hsub fun l _ hl => ?_
  rw [hW i l (lt_of_lt_of_le i.isLt (not_lt.mp (mem_range.not.mp hl))), zero_mul]

/-- The pivot is a quotient of leading minors. -/
theorem Reducing.pivot_ne_zero (h : Reducing n A k s) (hk : k < n) (hz : ∀ c < k, s.1 k c = 0) :
    s.1 k k ≠ 0 ↔ (leading (k + 1) A).det ≠ 0 := by
  have hupper : (leading (k + 1) s.1).IsUpperTriangular := fun i c hc => by
    have hci : (c : ℕ) < i := hc
    rcases Nat.lt_succ_iff_lt_or_eq.mp i.isLt with hi | hi
    · exact (h i).zero hi c hci
    · exact (congrArg (s.1 · c) hi).trans (hz c (by omega))
  have hlower : (leading (k + 1) s.2).IsLowerTriangular := fun i c hc => (h i).lower c hc
  have hU : (leading (k + 1) s.1).det = s.1 k k := by
    rw [Matrix.det_of_isUpperTriangular hupper]
    show ∏ i : Fin (k + 1), s.1 i i = _
    rw [Fin.prod_univ_castSucc, prod_eq_one fun i _ => (h _).unit i.isLt, one_mul, Fin.val_last]
  have hW : (leading (k + 1) s.2).det ≠ 0 := by
    rw [Matrix.det_of_isLowerTriangular _ hlower]
    show ∏ i : Fin (k + 1), s.2 i i ≠ 0
    refine prod_ne_zero_iff.mpr fun i _ => ?_
    rcases Nat.lt_succ_iff_lt_or_eq.mp i.isLt with hi | hi
    · exact (h i).scaled hi
    · rw [(h i).fresh hi.ge (by omega)]
      exact one_ne_zero
  have hdet := congrArg Matrix.det (leading_mul (fun i => (h i).image) (fun i => (h i).lower) hk)
  rw [Matrix.det_mul, hU] at hdet
  rw [← hdet, mul_ne_zero_iff]
  exact ⟨And.right, fun h => ⟨hW, h⟩⟩

/-- Row `k` is reduced. -/
theorem Reducing.normalize [DecidableEq K] (h : Reducing n A k s) (hk : k < n)
    (hz : ∀ c < k, s.1 k c = 0) {s' : Rows K × Rows K} (hs : normalize k s = some s') :
    Reducing n A (k + 1) s' := by
  obtain ⟨hp, rfl⟩ : s.1 k k ≠ 0 ∧ _ := by
    simpa only [Elimination.normalize, Option.ite_none_left_eq_some, Option.some.injEq] using hs
  intro i
  by_cases hik : i = k
  · subst hik
    simp only [Function.update_self]
    refine ⟨fun hi => ((h i).image hi).mul _, fun c hc => ?_, fun _ => mul_inv_cancel₀ hp,
      fun _ c hc => ?_, fun _ => ?_, fun hi => absurd hi (by omega)⟩
    · rw [(h i).lower c hc, zero_mul]
    · rw [hz c hc, zero_mul]
    · rw [(h i).fresh le_rfl hk, one_mul]
      exact inv_ne_zero hp
  · simp only [Function.update_of_ne hik]
    exact (h i).succ hik

theorem forward_succ [DecidableEq K] (k : ℕ) (s : Rows K × Rows K) :
    forward (k + 1) s = (forward k s).bind (reduce · k) := by
  rw [forward, List.range_succ, List.foldlM_append, forward]
  exact bind_congr fun s => bind_pure (reduce s k)

/-- The first pass ends unless a leading minor is zero. -/
theorem forward_spec [DecidableEq K] : ∀ k ≤ n,
    (∀ s, forward k (A, one n) = some s → Reducing n A k s) ∧
      ((forward k (A, one n)).isSome ↔ ∀ m ≤ k, (leading m A).det ≠ 0)
  | 0, _ => by
    refine ⟨fun s hs => ?_, ?_⟩
    · obtain rfl : (A, one n) = s := Option.some.inj hs
      exact reducing_zero
    · refine iff_of_true rfl fun m hm => ?_
      obtain rfl : m = 0 := by omega
      rw [Matrix.det_fin_zero]
      exact one_ne_zero
  | k + 1, hk => by
    obtain ⟨hspec, hsome⟩ := forward_spec k (by omega)
    rw [forward_succ]
    cases hf : forward k (A, one n) with
    | none =>
      rw [hf] at hsome
      refine ⟨fun s hs => (Option.some_ne_none s hs.symm).elim, iff_of_false Bool.false_ne_true fun h => ?_⟩
      exact Bool.false_ne_true (hsome.mpr fun m hm => h m (by omega))
    | some s =>
      rw [hf] at hsome
      have hr := hspec s hf
      obtain ⟨h', hz⟩ := hr.subtracts (by omega) k le_rfl
      have hpivot := h'.pivot_ne_zero (by omega) hz
      refine ⟨fun s' hs' => h'.normalize (by omega) hz hs', ?_⟩
      rw [Option.bind_some, reduce, Elimination.normalize]
      constructor
      · intro h m hm
        rcases Nat.lt_succ_iff_lt_or_eq.mp (Nat.lt_succ_of_le hm) with hm | rfl
        · exact hsome.mp rfl m (by omega)
        · refine hpivot.mp fun h₀ => ?_
          rw [if_pos h₀] at h
          cases h
      · intro h
        rw [if_neg (hpivot.mpr (h (k + 1) le_rfl))]
        rfl

/-! ## The second pass -/

/-- Row `r` is cleared from column `m` on. -/
theorem backRow_image {U W : Rows K} {r : ℕ} (hrow : Image n A (W r) (U r))
    (hdone : ∀ i, r < i → i < n → Image n A (W i) (one n i)) : ∀ d ≤ n - (r + 1),
    Image n A (((List.range' (n - d) d).reverse.foldl (clear U r) W) r)
      (fun c => if c < n - d then U r c else 0) ∧
    ∀ i, i ≠ r → ((List.range' (n - d) d).reverse.foldl (clear U r) W) i = W i
  | 0, _ => ⟨hrow.congr fun c hc => by rw [if_pos (by omega)], fun _ _ => rfl⟩
  | d + 1, hd => by
    obtain ⟨himage, hframe⟩ := backRow_image hrow hdone d (by omega)
    have hnext : n - (d + 1) + 1 = n - d := by omega
    rw [List.range'_succ, hnext, List.reverse_cons, List.foldl_append]
    refine ⟨?_, fun i hi => ?_⟩
    · simp only [List.foldl_cons, List.foldl_nil, clear, Function.update_self]
      rw [hframe (n - (d + 1)) (by omega)]
      refine (himage.sub_mul (hdone _ (by omega) (by omega)) _).congr fun c hc => ?_
      rcases Nat.lt_trichotomy c (n - (d + 1)) with h | rfl | h
      · rw [if_pos (by omega), if_pos h, one, if_neg (by omega), zero_mul, sub_zero]
      · rw [if_pos (by omega), if_neg (by omega), one, if_pos (by omega), one_mul, sub_self]
      · rw [if_neg (by omega), if_neg (by omega), one, if_neg (by omega), zero_mul, sub_zero]
    · simp only [List.foldl_cons, List.foldl_nil, clear, Function.update_of_ne hi]
      exact hframe i hi

/-- The rows from `m` on are those of the inverse. -/
theorem back_image (h : Reducing n A n s) : ∀ d ≤ n,
    (∀ i, n - d ≤ i → i < n →
      Image n A (((List.range' (n - d) d).reverse.foldl (backRow n s.1) s.2) i) (one n i)) ∧
    ∀ i < n - d, ((List.range' (n - d) d).reverse.foldl (backRow n s.1) s.2) i = s.2 i
  | 0, _ => ⟨fun i hi hn => absurd hn (by omega), fun _ _ => rfl⟩
  | d + 1, hd => by
    obtain ⟨hdone, hframe⟩ := back_image h d (by omega)
    have hnext : n - (d + 1) + 1 = n - d := by omega
    have hrow := (h (n - (d + 1))).image (by omega)
    rw [← hframe (n - (d + 1)) (by omega)] at hrow
    obtain ⟨himage, hkept⟩ := backRow_image (r := n - (d + 1)) hrow
      (fun i hi hn => hdone i (by omega) hn) (n - (n - (d + 1) + 1)) le_rfl
    rw [show n - (n - (n - (d + 1) + 1)) = n - (d + 1) + 1 by omega] at himage hkept
    rw [List.range'_succ, hnext, List.reverse_cons, List.foldl_append]
    refine ⟨fun i hi hn => ?_, fun i hi => ?_⟩
    · rw [List.foldl_cons, List.foldl_nil, backRow]
      rcases Nat.eq_or_lt_of_le hi with rfl | hi
      · refine himage.congr fun c hc => ?_
        rcases Nat.lt_trichotomy c (n - (d + 1)) with h' | rfl | h'
        · rw [if_pos (by omega), (h _).zero (by omega) c h', one, if_neg (by omega)]
        · rw [if_pos (by omega), (h _).unit hc, one, if_pos ⟨rfl, hc⟩]
        · rw [if_neg (by omega), one, if_neg (by omega)]
      · rw [hkept i (by omega)]
        exact hdone i (by omega) hn
    · rw [List.foldl_cons, List.foldl_nil, backRow, hkept i (by omega)]
      exact hframe i (by omega)

/-! ## The inverse -/

variable [DecidableEq K]

/-- An inverse is found unless a leading minor is zero. -/
theorem inverse_isSome : (inverse n A).isSome ↔ StronglyRegular (leading n A) := by
  rw [inverse, Option.isSome_map]
  exact (forward_spec n le_rfl).2

/-- What is found is the inverse. -/
theorem inverse_mul {B : Rows K} (h : inverse n A = some B) : leading n B * leading n A = 1 := by
  obtain ⟨s, hs, rfl⟩ := Option.map_eq_some_iff.mp h
  have hr := (forward_spec n le_rfl).1 s hs
  obtain ⟨himage, -⟩ := back_image hr n le_rfl
  ext i c
  have hic := himage i (by omega) i.isLt c c.isLt
  rw [Matrix.mul_apply]
  show ∑ l : Fin n, back n s i l * A l c = _
  rw [Fin.sum_univ_eq_sum_range (fun l => back n s i l * A l c), back, List.range_eq_range',
    ← Nat.sub_self n, hic, one, Matrix.one_apply]
  simp [Fin.ext_iff]

/-- What is found is the inverse on the other side, too. -/
theorem mul_inverse {B : Rows K} (h : inverse n A = some B) : leading n A * leading n B = 1 :=
  mul_eq_one_comm.mp (inverse_mul h)

end Elimination
