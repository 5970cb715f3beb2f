import Mathlib.Algebra.GroupWithZero.Nat
import Mathlib.Data.Matrix.Mul
import Mathlib.FieldTheory.Finite.Basic
import Mathlib.GroupTheory.Perm.Cycle.Type
import Mathlib.LinearAlgebra.Matrix.NonsingularInverse
import Mathlib.Order.Lattice
import Mathlib.Tactic.Abel
import Mathlib.Tactic.Common

/-!
# Partial rounds

Rounds that add a constant, apply an S-box and multiply by a matrix. In a
partial round the S-box acts on one element `o` only, so what leaves `o` alone
commutes with it: constants that are zero at `o` (`sbox_add`), and matrices
that are block diagonal at `o` (`Block.sbox`). A schedule uses this to move the
constants into the first round but for one element each, and to replace the
matrix by sparse ones (`Schedule`); it computes the same rounds
(`Schedule.eq_rounds`), whatever the S-box is. Rounds of either kind with an
invertible matrix are injective exactly when the S-box is
(`rounds_injective_iff`).
-/

namespace Hades

open Matrix

variable {R ι : Type*} [CommRing R] [DecidableEq ι]

/-! ## The S-box of a partial round -/

/-- Applies `f` to element `o`. -/
def sbox (f : R → R) (o : ι) (z : ι → R) : ι → R := Function.update z o (f (z o))

variable {f : R → R} {o : ι}

theorem sbox_eq_add_single (z : ι → R) : sbox f o z = z + Pi.single o (f (z o) - z o) := by
  ext i
  by_cases hi : i = o
  · subst hi
    simp [sbox]
  · simp [sbox, hi]

/-- A constant that is zero at `o` may be added before or after. -/
theorem sbox_add (z : ι → R) {e : ι → R} (he : e o = 0) : sbox f o (z + e) = sbox f o z + e := by
  rw [sbox_eq_add_single, sbox_eq_add_single, Pi.add_apply, he, add_zero]
  abel

/-- A matrix that neither reads nor writes element `o`. -/
structure Block (o : ι) (B : Matrix ι ι R) : Prop where
  self : B o o = 1
  row : ∀ i, i ≠ o → B o i = 0
  col : ∀ i, i ≠ o → B i o = 0

variable [Fintype ι]

theorem Block.mulVec_single {B : Matrix ι ι R} (h : Block o B) (x : R) :
    B *ᵥ Pi.single o x = Pi.single o x := by
  ext i
  rw [Matrix.mulVec_single]
  by_cases hi : i = o
  · subst hi
    simp [h.self]
  · simp [h.col i hi, hi]

omit [DecidableEq ι] in
theorem Block.mulVec_apply {B : Matrix ι ι R} (h : Block o B) (z : ι → R) : (B *ᵥ z) o = z o := by
  rw [mulVec, dotProduct, Finset.sum_eq_single o (fun i _ hi => by rw [h.row i hi, zero_mul])
    (fun ho => absurd (Finset.mem_univ o) ho), h.self, one_mul]

/-- Such a matrix may be applied before or after. -/
theorem Block.sbox {B : Matrix ι ι R} (h : Block o B) (z : ι → R) :
    B *ᵥ Hades.sbox f o z = Hades.sbox f o (B *ᵥ z) := by
  rw [sbox_eq_add_single, sbox_eq_add_single, mulVec_add, h.mulVec_single, h.mulVec_apply]

/-! ## The rounds -/

/-- The state after `i` partial rounds. -/
def rounds (f : R → R) (o : ι) (M : Matrix ι ι R) (c : ℕ → ι → R) (z : ι → R) : ℕ → ι → R
  | 0 => z
  | i + 1 => M *ᵥ sbox f o (rounds f o M c z i + c i)

/-- The state after `i` sparse rounds, of `n`: the S-box, the constant of one
element, and a sparse matrix. -/
def sparseRounds (f : R → R) (o : ι) (n : ℕ) (P : ℕ → Matrix ι ι R) (key : ℕ → R) (z : ι → R) :
    ℕ → ι → R
  | 0 => z
  | i + 1 => P (n - i - 1) *ᵥ (sbox f o (sparseRounds f o n P key z i) + Pi.single o (key (i + 1)))

/-- Constants and matrices for `n` sparse rounds in the place of rounds by `M`
with the constants `c`. -/
structure Schedule (o : ι) (n : ℕ) (M : Matrix ι ι R) (c : ℕ → ι → R) where
  /-- What is left to add before round `i`. -/
  sum : ℕ → ι → R
  /-- The same, moved back through the matrix of the round before. -/
  back : ℕ → ι → R
  block : ℕ → Matrix ι ι R
  sparse : ℕ → Matrix ι ι R
  mulVec_back : ∀ i < n, M *ᵥ back (i + 1) = sum (i + 1)
  sum_eq : ∀ i < n, sum i = c i + Function.update (back (i + 1)) o 0
  sum_last : sum n = 0
  isBlock : ∀ k ≤ n, Block o (block k)
  block_mul : ∀ k < n, block k * M = sparse k * block (k + 1)
  block_zero : block 0 = 1

namespace Schedule

variable {n : ℕ} {M : Matrix ι ι R} {c : ℕ → ι → R} (S : Schedule o n M c)

omit [Fintype ι] in
theorem update_add_single (z : ι → R) : Function.update z o 0 + Pi.single o (z o) = z := by
  ext i
  by_cases hi : i = o
  · subst hi
    simp
  · simp [hi]

/-- The constants moved back: what is added before a round, and after its S-box. -/
theorem shift (z : ι → R) {i : ℕ} (hi : i < n) :
    rounds f o M c z (i + 1) + S.sum (i + 1) =
      M *ᵥ (sbox f o (rounds f o M c z i + S.sum i) + Pi.single o (S.back (i + 1) o)) := by
  rw [rounds, ← S.mulVec_back i hi, ← mulVec_add, S.sum_eq i hi, ← add_assoc,
    sbox_add _ (e := Function.update _ o 0) (Function.update_self o 0 _), add_assoc, update_add_single]

/-- A round and what is left to add, read through a block diagonal matrix, are
a sparse round. -/
theorem sparseRounds_eq (z : ι → R) : ∀ i ≤ n,
    sparseRounds f o n S.sparse (fun i => S.back i o) (S.block n *ᵥ (z + S.sum 0)) i =
      S.block (n - i) *ᵥ (rounds f o M c z i + S.sum i)
  | 0, _ => rfl
  | i + 1, hi => by
    have hk : n - i = n - (i + 1) + 1 := by omega
    rw [sparseRounds, sparseRounds_eq z i (by omega), S.shift z hi, mulVec_mulVec,
      S.block_mul _ (by omega), ← mulVec_mulVec, ← hk,
      ← (S.isBlock (n - i) (by omega)).sbox, mulVec_add (S.block (n - i)) (sbox f o _),
      (S.isBlock _ (by omega)).mulVec_single]
    rfl

/-- The sparse rounds compute the rounds. -/
theorem eq_rounds (z : ι → R) :
    sparseRounds f o n S.sparse (fun i => S.back i o) (S.block n *ᵥ (z + S.sum 0)) n =
      rounds f o M c z n := by
  rw [S.sparseRounds_eq z n le_rfl, Nat.sub_self, S.block_zero, one_mulVec, S.sum_last, add_zero]

end Schedule

/-- The constants moved back: what is left to add before the round that is `d` from the end. -/
def sumFrom (o : ι) (n : ℕ) (Minv : Matrix ι ι R) (c : ℕ → ι → R) : ℕ → ι → R
  | 0 => 0
  | d + 1 => c (n - (d + 1)) + Function.update (Minv *ᵥ sumFrom o n Minv c d) o 0

/-- The schedule of an inverse of the matrix, and sparse matrices. -/
def Schedule.ofInverse {n : ℕ} {M Minv : Matrix ι ι R} (hM : M * Minv = 1) (c : ℕ → ι → R)
    (block sparse : ℕ → Matrix ι ι R) (isBlock : ∀ k ≤ n, Block o (block k))
    (block_mul : ∀ k < n, block k * M = sparse k * block (k + 1)) (block_zero : block 0 = 1) :
    Schedule o n M c where
  sum i := sumFrom o n Minv c (n - i)
  back i := Minv *ᵥ sumFrom o n Minv c (n - i)
  block := block
  sparse := sparse
  mulVec_back i _ := by rw [mulVec_mulVec, hM, one_mulVec]
  sum_eq i hi := by
    have hd : n - i = n - (i + 1) + 1 := by omega
    have hi' : n - (n - (i + 1) + 1) = i := by omega
    rw [hd, sumFrom, hi']
  sum_last := by rw [Nat.sub_self, sumFrom]
  isBlock := isBlock
  block_mul := block_mul
  block_zero := block_zero

/-! ## Sparse matrices

The matrices come from the transposed one: `m` times a block diagonal matrix is
a block diagonal matrix times a sparse one. -/

section
variable {n : ℕ}

/-- The matrix without its first row and column. -/
def hat (A : Matrix (Fin (n + 1)) (Fin (n + 1)) R) : Matrix (Fin n) (Fin n) R :=
  A.submatrix Fin.succ Fin.succ

/-- The block diagonal matrix of a matrix that is one element smaller. -/
def blockOf (N : Matrix (Fin n) (Fin n) R) : Matrix (Fin (n + 1)) (Fin (n + 1)) R :=
  of fun i j => Fin.cases (Fin.cases 1 (fun _ => 0) j) (fun i => Fin.cases 0 (fun j => N i j) j) i

/-- The matrix with row `(a, v)`, column `(a, w)` and ones on the diagonal. -/
def sparseOf (a : R) (v w : Fin n → R) : Matrix (Fin (n + 1)) (Fin (n + 1)) R :=
  of fun i j => Fin.cases (Fin.cases a v j)
    (fun i => Fin.cases (w i) (fun j => if i = j then 1 else 0) j) i

theorem block_blockOf (N : Matrix (Fin n) (Fin n) R) : Block 0 (blockOf N) where
  self := rfl
  row i hi := by
    obtain ⟨i, rfl⟩ := Fin.exists_succ_eq.mpr hi
    rfl
  col i hi := by
    obtain ⟨i, rfl⟩ := Fin.exists_succ_eq.mpr hi
    rfl

theorem blockOf_one : blockOf (1 : Matrix (Fin n) (Fin n) R) = 1 := by
  ext i j
  induction i using Fin.cases <;> induction j using Fin.cases <;> simp [blockOf, one_apply, Fin.ext_iff]

omit [DecidableEq ι] [Fintype ι] in
theorem Block.transpose {B : Matrix ι ι R} (h : Block o B) : Block o Bᵀ where
  self := h.self
  row := h.col
  col := h.row

/-- What a block diagonal matrix on the right leaves of the first column. -/
theorem mul_blockOf_apply_zero (A : Matrix (Fin (n + 1)) (Fin (n + 1)) R)
    (N : Matrix (Fin n) (Fin n) R) (i : Fin (n + 1)) : (A * blockOf N) i 0 = A i 0 := by
  rw [mul_apply, Fin.sum_univ_succ]
  simp [blockOf]

theorem hat_mul_blockOf (A : Matrix (Fin (n + 1)) (Fin (n + 1)) R) (N : Matrix (Fin n) (Fin n) R) :
    hat (A * blockOf N) = hat A * N := by
  ext i j
  rw [hat, submatrix_apply, mul_apply, Fin.sum_univ_succ, mul_apply]
  simp [blockOf, hat]

/-- A matrix is the block diagonal matrix of its rest times a sparse one. -/
theorem blockOf_mul_sparseOf (A : Matrix (Fin (n + 1)) (Fin (n + 1)) R) {w : Fin n → R}
    (hw : hat A *ᵥ w = fun i => A i.succ 0) :
    blockOf (hat A) * sparseOf (A 0 0) (fun j => A 0 j.succ) w = A := by
  ext i j
  rw [mul_apply, Fin.sum_univ_succ]
  induction i using Fin.cases with
  | zero =>
    induction j using Fin.cases <;> simp [blockOf, sparseOf]
  | succ i =>
    induction j using Fin.cases with
    | zero =>
      have hi := congrFun hw i
      rw [mulVec, dotProduct] at hi
      simp [blockOf, sparseOf, hi]
    | succ j => simp [blockOf, sparseOf, hat]

end

/-! ## Bijective rounds -/

section
variable {R ι : Type*} [CommRing R] [DecidableEq ι] {f : R → R} {o : ι}

/-- The S-box of a round, on all elements or on `o` only. -/
def layer (f : R → R) (o : ι) (part : Prop) [Decidable part] (z : ι → R) : ι → R :=
  if part then sbox f o z else fun i => f (z i)

variable {part : Prop} [Decidable part]

omit [CommRing R] in
theorem layer_injective (hf : Function.Injective f) : Function.Injective (layer f o part) := by
  intro z z' h
  funext i
  have hi := congrFun h i
  rw [layer, layer] at hi
  split at hi
  · by_cases hio : i = o
    · subst hio
      rw [sbox, sbox, Function.update_self, Function.update_self] at hi
      exact hf hi
    · rwa [sbox, sbox, Function.update_of_ne hio, Function.update_of_ne hio] at hi
  · exact hf hi

omit [CommRing R] in
/-- An S-box that confuses `x` and `y` confuses them as element `o`. -/
theorem layer_update (z : ι → R) {x y : R} (h : f x = f y) :
    layer f o part (Function.update z o x) = layer f o part (Function.update z o y) := by
  rw [layer, layer]
  split
  · simp [sbox, h]
  · funext i
    by_cases hio : i = o
    · subst hio
      simp [h]
    · simp [hio]

variable [Fintype ι]

/-- A round of either kind. -/
def round (f : R → R) (o : ι) (part : ℕ → Prop) [DecidablePred part] (M : Matrix ι ι R)
    (c : ℕ → ι → R) (z : ι → R) (r : ℕ) : ι → R :=
  M *ᵥ layer f o (part r) (z + c r)

variable {p : ℕ → Prop} [DecidablePred p] {M Minv : Matrix ι ι R} {c : ℕ → ι → R}

theorem round_injective (hM : Minv * M = 1) (hf : Function.Injective f) (r : ℕ) :
    Function.Injective fun z => round f o p M c z r := fun z z' h => by
  have hmul := congrArg (Minv *ᵥ ·) h
  simp only [round, mulVec_mulVec, hM, one_mulVec] at hmul
  exact add_right_cancel (layer_injective hf hmul)

theorem foldl_injective {α σ : Type*} {g : σ → α → σ} (hg : ∀ a, Function.Injective (g · a)) :
    ∀ l : List α, Function.Injective fun s => l.foldl g s
  | [] => fun _ _ h => h
  | a :: l => fun _ _ h => hg a (foldl_injective hg l h)

/-- Rounds with an invertible matrix are injective exactly when the S-box is. -/
theorem rounds_injective_iff (hM : Minv * M = 1) {n : ℕ} (hn : 0 < n) :
    (Function.Injective fun z => (List.range n).foldl (round f o p M c) z) ↔
      Function.Injective f := by
  refine ⟨fun h x y hxy => ?_, fun hf => foldl_injective (round_injective hM hf) _⟩
  obtain ⟨m, rfl⟩ := Nat.exists_eq_succ_of_ne_zero (Nat.ne_of_gt hn)
  have hstart : Function.update (0 : ι → R) o x - c 0 = Function.update (0 : ι → R) o y - c 0 := by
    refine h ?_
    show (List.range (m + 1)).foldl _ _ = (List.range (m + 1)).foldl _ _
    rw [List.range_succ_eq_map, List.foldl_cons, List.foldl_cons, round, round, sub_add_cancel,
      sub_add_cancel, layer_update 0 hxy]
  simpa using congrFun (sub_left_injective hstart) o

end

/-- Powers of a finite field are injective exactly when the exponent is prime to the order of the
units. -/
theorem pow_injective_iff {K : Type*} [Field K] [Fintype K] {d : ℕ} :
    (Function.Injective fun x : K => x ^ d) ↔ d ≠ 0 ∧ d.Coprime (Fintype.card K - 1) := by
  classical
  rw [← Fintype.card_units (α := K)]
  constructor
  · intro h
    refine ⟨?_, ?_⟩
    · rintro rfl
      exact zero_ne_one (h ((pow_zero (0 : K)).trans (pow_zero 1).symm))
    · by_contra hd
      obtain ⟨q, hq, hqd, hqn⟩ := Nat.Prime.not_coprime_iff_dvd.mp hd
      have := Fact.mk hq
      obtain ⟨u, hu⟩ := exists_prime_orderOf_dvd_card q hqn
      have hpow : u ^ d = 1 := orderOf_dvd_iff_pow_eq_one.mp (hu ▸ hqd)
      have hone : (u : K) = 1 := h (by
        show (u : K) ^ d = 1 ^ d
        rw [one_pow, ← Units.val_pow_eq_pow_val, hpow, Units.val_one])
      rw [Units.val_eq_one.mp hone, orderOf_one] at hu
      exact hq.one_lt.ne hu
  · rintro ⟨hd, hcop⟩ x y (hxy : x ^ d = y ^ d)
    rcases eq_or_ne x 0 with rfl | hx
    · rw [zero_pow hd] at hxy
      exact (eq_zero_of_pow_eq_zero hxy.symm).symm
    · have hy : y ≠ 0 := by
        rintro rfl
        rw [zero_pow hd] at hxy
        exact hx (eq_zero_of_pow_eq_zero hxy)
      have hcard : (Nat.card Kˣ).Coprime d := by
        rw [Nat.card_eq_fintype_card]
        exact hcop.symm
      have hunits : Units.mk0 x hx = Units.mk0 y hy :=
        (powCoprime hcard).injective (Units.ext (by simpa using hxy))
      exact congrArg Units.val hunits

end Hades
