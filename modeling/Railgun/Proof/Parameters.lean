import Railgun.Framework.Hades
import Railgun.Proof.Elimination

/-!
# Parameters of the permutation

What `equivalent_matrices` and `equivalent_round_constants` derive, over the
field: the sparse matrices factor the matrix (`factors_spec`), the constants are
those moved back through its inverse (`shifted_spec`), and both are derived
exactly when the pivots of every elimination are there (`new_eq`).
-/

namespace Railgun.PoseidonParams

open BabyJubJub Matrix Hades
open Elimination (StronglyRegular)

/-- A state over the field. -/
def toVec (n : Nat) (s : List Fr) : Fin n → ZMod scalarField := fun i => toField (s.getD i 0)

/-! ## Products -/

section
variable {n : Nat}

theorem toVec_injective : ∀ {n : Nat} {s s' : List Fr}, s.length = n → s'.length = n →
    toVec n s = toVec n s' → s = s'
  | _, [], s', hs, hs', _ => (List.eq_nil_of_length_eq_zero (hs'.trans hs.symm)).symm
  | _, x :: s, [], hs, hs', _ => by
    subst hs
    cases hs'
  | _, x :: s, x' :: s', hs, hs', h => by
    subst hs
    have hx := toField_injective (congrFun h 0)
    have hrest : toVec s.length s = toVec s.length s' := funext fun i => congrFun h i.succ
    rw [show x = x' from hx, toVec_injective rfl (Nat.succ.inj hs') hrest]

/-- A sum of products, from an accumulator on. -/
theorem toField_foldl_zipWith {α : Type} (f : Fr → α → Fr) (d : α) : ∀ {n : Nat} (xs : List Fr)
    (ys : List α) (acc : Fr), xs.length = n → ys.length = n →
      toField ((xs.zipWith f ys).foldl (· + ·) acc) =
        toField acc + ∑ i : Fin n, toField (f (xs.getD i 0) (ys.getD i d))
  | _, [], ys, acc, hx, _ => by
    subst hx
    rw [List.zipWith_nil_left, List.foldl_nil]
    simp
  | _, x :: xs, [], acc, hx, hy => by
    subst hx
    cases hy
  | _, x :: xs, y :: ys, acc, hx, hy => by
    subst hx
    rw [List.zipWith_cons_cons, List.foldl_cons,
      toField_foldl_zipWith f d xs ys _ rfl (Nat.succ.inj hy), toField_add, List.length_cons,
      Fin.sum_univ_succ, add_assoc]
    rfl

theorem getD_map_of_lt {α β : Type} {f : α → β} {l : List α} {i : Nat} (hi : i < l.length) (d : β) :
    (l.map f).getD i d = f l[i] := by
  rw [List.getD_eq_getElem _ _ (by rwa [List.length_map]), List.getElem_map]

theorem toMatrix_apply {m : List (List Fr)} (i j : Fin n) :
    toMatrix n m i j = toField ((m.getD i []).getD j 0) := rfl

theorem length_matVecMul {m : List (List Fr)} (h : Square n m) (s : List Fr) :
    (matVecMul m s).length = n := by
  rw [matVecMul, List.length_map, h.length]

/-- `mat_vec_mul`. -/
theorem toVec_matVecMul {m : List (List Fr)} (h : Square n m) {s : List Fr} (hs : s.length = n) :
    toVec n (matVecMul m s) = toMatrix n m *ᵥ toVec n s := by
  funext i
  have hi : (i : Nat) < m.length := by rw [h.length]; exact i.isLt
  rw [toVec, matVecMul, getD_map_of_lt hi,
    toField_foldl_zipWith _ 0 _ _ _ (h.row _ (List.getElem_mem hi)) hs, toField_zero, zero_add]
  refine Finset.sum_congr rfl fun j _ => ?_
  rw [toField_mul, ← List.getD_eq_getElem m [] hi]
  rfl

/-- `mat_mat_mul`. -/
theorem matMatMul_spec {a b : List (List Fr)} (ha : Square n a) (hb : Square n b) :
    Square n (matMatMul a b) ∧ toMatrix n (matMatMul a b) = toMatrix n a * toMatrix n b := by
  refine ⟨⟨by rw [matMatMul, List.length_map, ha.length], fun r hr => ?_⟩, ?_⟩
  · obtain ⟨row, -, rfl⟩ := List.mem_map.mp hr
    rw [List.length_map, List.length_range, ha.length]
  · ext i j
    have hi : (i : Nat) < a.length := by rw [ha.length]; exact i.isLt
    have hj : (j : Nat) < a.length := by rw [ha.length]; exact j.isLt
    rw [toMatrix_apply, matMatMul, getD_map_of_lt hi, getD_map_of_lt (by rwa [List.length_range]),
      List.getElem_range,
      toField_foldl_zipWith _ [] _ _ _ (ha.row _ (List.getElem_mem hi)) hb.length, toField_zero,
      zero_add, mul_apply]
    refine Finset.sum_congr rfl fun l _ => ?_
    rw [toField_mul, toMatrix_apply, toMatrix_apply, List.getD_eq_getElem a _ hi]

/-- `mat_transpose`. -/
theorem matTranspose_spec {m : List (List Fr)} (h : Square (n + 1) m) : ∃ m',
    matTranspose m = some m' ∧ Square (n + 1) m' ∧ toMatrix (n + 1) m' = (toMatrix (n + 1) m)ᵀ := by
  obtain ⟨first, rest, rfl⟩ : ∃ first rest, m = first :: rest :=
    List.exists_cons_of_length_pos (by rw [h.length]; exact Nat.succ_pos n)
  have hfirst : first.length = n + 1 := h.row _ List.mem_cons_self
  refine ⟨_, rfl, ⟨by rw [List.length_map, List.length_range, hfirst], fun r hr => ?_⟩, ?_⟩
  · obtain ⟨col, -, rfl⟩ := List.mem_map.mp hr
    rw [List.length_map, h.length]
  · ext i j
    have hi : (i : Nat) < (List.range first.length).length := by
      rw [List.length_range, hfirst]
      exact i.isLt
    have hj : (j : Nat) < (first :: rest).length := by rw [h.length]; exact j.isLt
    rw [transpose_apply, toMatrix_apply, toMatrix_apply, getD_map_of_lt hi, List.getElem_range,
      getD_map_of_lt hj, List.getD_eq_getElem (first :: rest) _ hj]

end

/-! ## The sparse matrices -/

section
variable {n : Nat}

/-- The matrix without its first row and column. -/
theorem mHat_spec (m : List (List Fr)) :
    Square n ((List.range' 1 n).map fun row => (List.range' 1 n).map fun col => entry m row col) ∧
      toMatrix n ((List.range' 1 n).map fun row => (List.range' 1 n).map fun col => entry m row col) =
        hat (toMatrix (n + 1) m) := by
  refine ⟨⟨by simp, fun r hr => ?_⟩, ?_⟩
  · obtain ⟨i, -, rfl⟩ := List.mem_map.mp hr
    simp
  · ext i j
    have hlt : ∀ i : Fin n, (i : Nat) < (List.range' 1 n).length := fun i => by
      rw [List.length_range']
      exact i.isLt
    have hsucc : ∀ (i : Fin n) (h : (i : Nat) < (List.range' 1 n).length),
        (List.range' 1 n)[(i : Nat)] = i.succ := fun i h => by
      rw [List.getElem_range', Fin.val_succ]
      omega
    rw [toMatrix_apply, getD_map_of_lt (hlt i), getD_map_of_lt (hlt j), hsucc, hsucc]
    rfl

/-- Its first column. -/
theorem w_spec (m : List (List Fr)) :
    ((List.range' 1 n).map fun row => entry m row 0).length = n ∧
      toVec n ((List.range' 1 n).map fun row => entry m row 0) =
        fun i => toMatrix (n + 1) m i.succ 0 := by
  refine ⟨by simp, funext fun i => ?_⟩
  have hi : (i : Nat) < (List.range' 1 n).length := by
    rw [List.length_range']
    exact i.isLt
  rw [toVec, getD_map_of_lt hi, List.getElem_range', show 1 + 1 * (i : Nat) = i.succ by rw [Fin.val_succ]; omega]
  rfl

/-- Its first row. -/
theorem v_spec {m : List (List Fr)} (h : Square (n + 1) m) : ((m.getD 0 []).drop 1).length = n ∧
    toVec n ((m.getD 0 []).drop 1) = fun j => toMatrix (n + 1) m 0 j.succ := by
  refine ⟨by rw [List.length_drop, h.length_getD (Nat.succ_pos n)]; omega, funext fun j => ?_⟩
  rw [toVec, List.getD_eq_getElem?_getD, List.getElem?_drop, ← List.getD_eq_getElem?_getD,
    show 1 + (j : Nat) = j.succ by rw [Fin.val_succ]; omega]
  rfl

/-- The block diagonal matrix that is left. -/
theorem mI_spec {m : List (List Fr)} (h : Square (n + 1) m) :
    Square (n + 1) (m.mapIdx fun i row => row.mapIdx fun j x =>
      if i = 0 then (if j = 0 then 1 else 0) else if j = 0 then 0 else x) ∧
    toMatrix (n + 1) (m.mapIdx fun i row => row.mapIdx fun j x =>
      if i = 0 then (if j = 0 then 1 else 0) else if j = 0 then 0 else x) =
        blockOf (hat (toMatrix (n + 1) m)) := by
  refine ⟨⟨by rw [List.length_mapIdx, h.length], fun r hr => ?_⟩, ?_⟩
  · obtain ⟨i, hi, rfl⟩ := List.mem_mapIdx.mp hr
    rw [List.length_mapIdx]
    exact h.row _ (List.getElem_mem hi)
  · ext i j
    have hi : (i : Nat) < m.length := by rw [h.length]; exact i.isLt
    have hj : (j : Nat) < m[(i : Nat)].length := by rw [h.row _ (List.getElem_mem hi)]; exact j.isLt
    have hrow : ∀ f : Nat → List Fr → List Fr, (m.mapIdx f).getD i [] = f i m[(i : Nat)] := fun f => by
      rw [List.getD_eq_getElem _ _ (by rwa [List.length_mapIdx]), List.getElem_mapIdx]
    rw [toMatrix_apply, hrow, getD_mapIdx _ hj]
    induction i using Fin.cases with
    | zero => induction j using Fin.cases <;> simp [blockOf, toField_zero, toField_one]
    | succ i =>
      induction j using Fin.cases with
      | zero => simp [blockOf, toField_zero]
      | succ j =>
        have hi₀ : (i.succ : Nat) ≠ 0 := Nat.succ_ne_zero i
        have hj₀ : (j.succ : Nat) ≠ 0 := Nat.succ_ne_zero j
        rw [if_neg hi₀, if_neg hj₀, ← List.getD_eq_getElem m [] hi]
        rfl

/-- What `equivalent_matrices` has derived after `k` of its rounds from the transposed matrix `D`. -/
structure FactorsAt (D : Matrix (Fin (n + 1)) (Fin (n + 1)) (ZMod scalarField)) (k : Nat)
    (s : Factors) : Prop where
  mMul_square : Square (n + 1) s.mMul
  mMul : toMatrix (n + 1) s.mMul = D * blockOf (hat D ^ k)
  mI : 0 < k → Square (n + 1) s.mI ∧ toMatrix (n + 1) s.mI = blockOf (hat D ^ k)
  v_length : s.v.length = k
  v : ∀ i < k, (s.v.getD i []).length = n ∧
    toVec n (s.v.getD i []) = fun j => (D * blockOf (hat D ^ i)) 0 j.succ
  wHat_length : s.wHat.length = k
  wHat : ∀ i < k, (s.wHat.getD i []).length = n ∧
    hat D ^ (i + 1) *ᵥ toVec n (s.wHat.getD i []) = fun r => D r.succ 0

theorem getD_concat {l : List (List Fr)} {k : Nat} (hl : l.length = k) (x : List Fr) {i : Nat}
    (hi : i < k + 1) : (l ++ [x]).getD i [] = if i < k then l.getD i [] else x := by
  subst hl
  split
  · rename_i h
    rw [List.getD_append _ _ _ _ h]
  · rename_i h
    rw [List.getD_append_right _ _ _ _ (not_lt.mp h), show i - l.length = 0 by omega]
    rfl

theorem pow_hat_zero (D : Matrix (Fin (n + 1)) (Fin (n + 1)) (ZMod scalarField)) :
    D * blockOf (hat D ^ 0) = D := by
  rw [pow_zero, blockOf_one, mul_one]

/-- One more sparse matrix, if there is an inverse to find. -/
theorem factor_spec {D : Matrix (Fin (n + 1)) (Fin (n + 1)) (ZMod scalarField)} {k : Nat}
    {mds' : List (List Fr)} {s : Factors} (hD : Square (n + 1) mds') (hDm : toMatrix (n + 1) mds' = D)
    (h : FactorsAt D k s) :
    ((factor mds' (n + 1) s).isSome ↔ StronglyRegular (hat D ^ (k + 1))) ∧
      ∀ s', factor mds' (n + 1) s = some s' → FactorsAt D (k + 1) s' := by
  obtain ⟨hsquare, hhat⟩ := mHat_spec (n := n) s.mMul
  have hpow : hat (toMatrix (n + 1) s.mMul) = hat D ^ (k + 1) := by
    rw [h.mMul, hat_mul_blockOf, pow_succ']
  rw [hpow] at hhat
  obtain ⟨hsome, hinv⟩ := matInverse_spec hsquare
  rw [hhat] at hsome
  rw [factor]
  simp only [Nat.add_sub_cancel]
  cases hmat : matInverse ((List.range' 1 n).map fun row => (List.range' 1 n).map fun col =>
      entry s.mMul row col) with
  | none =>
    rw [hmat] at hsome
    exact ⟨⟨fun h => (Bool.false_ne_true h).elim, fun h => (Bool.false_ne_true (hsome.mpr h)).elim⟩,
      fun _ h => (Option.some_ne_none _ h.symm).elim⟩
  | some inv =>
    rw [hmat] at hsome
    obtain ⟨hinvSquare, -, hmul⟩ := hinv inv hmat
    rw [hhat] at hmul
    obtain ⟨hmI, hmIm⟩ := mI_spec h.mMul_square
    rw [hpow] at hmIm
    obtain ⟨hw, hwv⟩ := w_spec (n := n) s.mMul
    obtain ⟨hv, hvv⟩ := v_spec h.mMul_square
    obtain ⟨hmul₁, hmul₂⟩ := matMatMul_spec hD hmI
    refine ⟨iff_of_true rfl (hsome.mp rfl), fun s' hs' => ?_⟩
    obtain rfl := Option.some.inj hs'
    refine ⟨hmul₁, by rw [hmul₂, hDm, hmIm], fun _ => ⟨hmI, hmIm⟩,
      by rw [List.length_append, h.v_length]; rfl, fun i hi => ?_,
      by rw [List.length_append, h.wHat_length]; rfl, fun i hi => ?_⟩
    · rw [getD_concat h.v_length _ hi]
      split
      · exact h.v i ‹_›
      · obtain rfl : i = k := by omega
        rw [hvv, h.mMul]
        exact ⟨hv, rfl⟩
    · rw [getD_concat h.wHat_length _ hi]
      split
      · exact h.wHat i ‹_›
      · obtain rfl : i = k := by omega
        refine ⟨length_matVecMul hinvSquare _, ?_⟩
        rw [toVec_matVecMul hinvSquare hw, mulVec_mulVec, hmul, one_mulVec, hwv, h.mMul]
        exact funext fun r => mul_blockOf_apply_zero D _ r.succ

/-- The sparse matrices, if there are the inverses to find. -/
theorem factors_spec {D : Matrix (Fin (n + 1)) (Fin (n + 1)) (ZMod scalarField)}
    {mds' : List (List Fr)} (hD : Square (n + 1) mds') (hDm : toMatrix (n + 1) mds' = D)
    (zeros : List (List Fr)) : ∀ k,
    (((List.range k).foldlM (fun s _ => factor mds' (n + 1) s) ⟨zeros, mds', [], []⟩).isSome ↔
      ∀ i < k, StronglyRegular (hat D ^ (i + 1))) ∧
    ∀ s, (List.range k).foldlM (fun s _ => factor mds' (n + 1) s) ⟨zeros, mds', [], []⟩ = some s →
      FactorsAt D k s
  | 0 => by
    refine ⟨iff_of_true rfl fun i hi => absurd hi (Nat.not_lt_zero i), fun s hs => ?_⟩
    obtain rfl := Option.some.inj hs
    exact ⟨hD, by rw [hDm, pow_hat_zero], fun h => absurd h (lt_irrefl 0), rfl,
      fun i hi => absurd hi (Nat.not_lt_zero i), rfl, fun i hi => absurd hi (Nat.not_lt_zero i)⟩
  | k + 1 => by
    obtain ⟨hsome, hspec⟩ := factors_spec hD hDm zeros k
    have hstep : (List.range (k + 1)).foldlM (fun s _ => factor mds' (n + 1) s) ⟨zeros, mds', [], []⟩ =
        ((List.range k).foldlM (fun s _ => factor mds' (n + 1) s) ⟨zeros, mds', [], []⟩).bind
          (factor mds' (n + 1)) := by
      rw [List.range_succ, List.foldlM_append]
      exact bind_congr fun s => bind_pure (factor mds' (n + 1) s)
    rw [hstep]
    cases hf : (List.range k).foldlM (fun s _ => factor mds' (n + 1) s) ⟨zeros, mds', [], []⟩ with
    | none =>
      rw [hf] at hsome
      refine ⟨⟨fun h => (Bool.false_ne_true h).elim, fun h => ?_⟩, fun _ h => (Option.some_ne_none _ h.symm).elim⟩
      exact (Bool.false_ne_true (hsome.mpr fun i hi => h i (by omega))).elim
    | some s =>
      rw [hf] at hsome
      obtain ⟨hfactor, hnext⟩ := factor_spec hD hDm (hspec s hf)
      rw [Option.bind_some]
      refine ⟨hfactor.trans ⟨fun h i hi => ?_, fun h => h k (by omega)⟩, hnext⟩
      rcases Nat.lt_succ_iff_lt_or_eq.mp hi with hi | rfl
      · exact hsome.mp rfl i hi
      · exact h

/-- What `equivalent_matrices` returns: the factors of the matrix `M`. -/
structure Sparse (M : Matrix (Fin (n + 1)) (Fin (n + 1)) (ZMod scalarField)) (roundsP : Nat)
    (mI v wHat : List (List Fr)) : Prop where
  mI_square : Square (n + 1) mI
  mI : toMatrix (n + 1) mI = (blockOf (hat Mᵀ ^ roundsP))ᵀ
  v : ∀ i < roundsP, (v.getD i []).length = n ∧
    toVec n (v.getD i []) = fun j => (Mᵀ * blockOf (hat Mᵀ ^ i)) 0 j.succ
  wHat : ∀ i < roundsP, (wHat.getD i []).length = n ∧
    hat Mᵀ ^ (i + 1) *ᵥ toVec n (wHat.getD i []) = fun r => Mᵀ r.succ 0

theorem equivalentMatrices_spec {mds : List (List Fr)} (h : Square (n + 1) mds) {roundsP : Nat}
    (hp : 0 < roundsP) :
    ((equivalentMatrices mds (n + 1) roundsP).isSome ↔
      ∀ i < roundsP, StronglyRegular (hat (toMatrix (n + 1) mds)ᵀ ^ (i + 1))) ∧
    ∀ mI v wHat, equivalentMatrices mds (n + 1) roundsP = some (mI, v, wHat) →
      Sparse (toMatrix (n + 1) mds) roundsP mI v wHat := by
  obtain ⟨mds', hmds', hsquare, hm⟩ := matTranspose_spec h
  obtain ⟨hsome, hspec⟩ := factors_spec hsquare hm
    (List.replicate (n + 1) (List.replicate (n + 1) 0)) roundsP
  rw [equivalentMatrices, hmds']
  simp only [Option.bind_eq_bind, Option.bind_some]
  cases hf : (List.range roundsP).foldlM (fun s _ => factor mds' (n + 1) s)
      ⟨List.replicate (n + 1) (List.replicate (n + 1) 0), mds', [], []⟩ with
  | none =>
    rw [hf] at hsome
    exact ⟨hsome, fun _ _ _ h => (Option.some_ne_none _ h.symm).elim⟩
  | some s =>
    rw [hf] at hsome
    have hs := hspec s hf
    obtain ⟨hmI, hmIm⟩ := hs.mI hp
    obtain ⟨mI', hmI', hsquare', hm'⟩ := matTranspose_spec hmI
    rw [Option.bind_some, hmI', Option.bind_some]
    refine ⟨iff_of_true rfl (hsome.mp rfl), fun mI v wHat heq => ?_⟩
    cases heq
    exact ⟨hsquare', by rw [hm', hmIm], hs.v, hs.wHat⟩

end

/-! ## The shifted constants -/

section
variable {n roundsF roundsP : Nat} {rc mds mdsInv : List (List Fr)}

/-- The constants of a round, from the first partial round on. -/
def constantsFrom (n : Nat) (rc : List (List Fr)) (r : Nat) (i : Nat) : Fin n → ZMod scalarField :=
  toVec n (rc.getD (r + i) [])

/-- What `equivalent_round_constants` has derived when `d` of the rounds are left of the last one. -/
structure ShiftedAt (n roundsP d : Nat) (Minv : Matrix (Fin (n + 1)) (Fin (n + 1)) (ZMod scalarField))
    (c : Nat → Fin (n + 1) → ZMod scalarField) (s : List (List Fr) × List Fr) : Prop where
  tmp_length : s.2.length = n + 1
  tmp : toVec (n + 1) s.2 = sumFrom 0 roundsP Minv c (d + 1)
  opt_length : s.1.length = roundsP
  opt : ∀ i, roundsP - (d + 1) < i → i < roundsP →
    toField ((s.1.getD i []).getD 0 0) = (Minv *ᵥ sumFrom 0 roundsP Minv c (roundsP - i)) 0

theorem shiftConstant_spec (hinv : Square (n + 1) mdsInv) (hrc : ∀ r ∈ rc, r.length = n + 1)
    {r d : Nat} (hlen : r + roundsP ≤ rc.length) (hd : d + 1 < roundsP) {s : List (List Fr) × List Fr}
    (h : ShiftedAt n roundsP d (toMatrix (n + 1) mdsInv) (constantsFrom (n + 1) rc r) s) :
    ShiftedAt n roundsP (d + 1) (toMatrix (n + 1) mdsInv) (constantsFrom (n + 1) rc r)
      (shiftConstant rc mdsInv r s (roundsP - (d + 2))) := by
  obtain ⟨opt, tmp⟩ := s
  have hindex : roundsP - (d + 2) + 1 = roundsP - (d + 1) := by omega
  have hlt : r + (roundsP - (d + 2)) < rc.length := by omega
  have hrow : (rc.getD (r + (roundsP - (d + 2))) []).length = n + 1 := by
    rw [List.getD_eq_getElem rc _ hlt]
    exact hrc _ (List.getElem_mem hlt)
  have hback : toVec (n + 1) (matVecMul mdsInv tmp) =
      toMatrix (n + 1) mdsInv *ᵥ
        sumFrom 0 roundsP (toMatrix (n + 1) mdsInv) (constantsFrom (n + 1) rc r) (d + 1) := by
    rw [toVec_matVecMul hinv h.tmp_length, h.tmp]
  refine ⟨List.length_mapIdx.trans hrow, funext fun j => ?_, (List.length_set ..).trans h.opt_length,
    fun i hi hlt => ?_⟩
  · rw [sumFrom, ← hback, toVec, shiftConstant, getD_mapIdx _ (by rw [hrow]; exact j.isLt), Pi.add_apply]
    induction j using Fin.cases with
    | zero =>
      rw [Function.update_self, add_zero]
      rfl
    | succ j =>
      have hj₀ : (j.succ : Nat) ≠ 0 := Nat.succ_ne_zero j
      rw [Function.update_of_ne (Fin.succ_ne_zero j), if_neg hj₀, toField_add]
      rfl
  · rw [shiftConstant, hindex, getD_set (by rw [h.opt_length]; omega)]
    split
    · rename_i heq
      rw [heq, show roundsP - (roundsP - (d + 1)) = d + 1 by omega, ← hback]
      rfl
    · exact h.opt i (by omega) hlt

theorem shiftConstants_spec (hinv : Square (n + 1) mdsInv) (hrc : ∀ r ∈ rc, r.length = n + 1) {r : Nat}
    (hlen : r + roundsP ≤ rc.length) (hp : 0 < roundsP) : ∀ d < roundsP,
    ShiftedAt n roundsP d (toMatrix (n + 1) mdsInv) (constantsFrom (n + 1) rc r)
      ((List.range' (roundsP - (d + 1)) d).reverse.foldl (shiftConstant rc mdsInv r)
        (List.replicate roundsP [], rc.getD (r + roundsP - 1) []))
  | 0, _ => by
    have hlt : r + roundsP - 1 < rc.length := by omega
    have hlast : r + roundsP - 1 = r + (roundsP - (0 + 1)) := by omega
    refine ⟨?_, ?_, List.length_replicate, fun i hi hlt => absurd hlt (by omega)⟩
    · show (rc.getD _ []).length = _
      rw [List.getD_eq_getElem rc _ hlt]
      exact hrc _ (List.getElem_mem hlt)
    · have hzero : Function.update (0 : Fin (n + 1) → ZMod scalarField) 0 0 = 0 :=
        Function.update_eq_self (0 : Fin (n + 1)) (0 : Fin (n + 1) → ZMod scalarField)
      rw [sumFrom, sumFrom, mulVec_zero, hzero, add_zero, constantsFrom, ← hlast]
      rfl
  | d + 1, hd => by
    have hnext : roundsP - (d + 1 + 1) + 1 = roundsP - (d + 1) := by omega
    rw [List.range'_succ, hnext, List.reverse_cons, List.foldl_append]
    exact shiftConstant_spec hinv hrc hlen hd (shiftConstants_spec hinv hrc hlen hp d (by omega))

/-- What `equivalent_round_constants` returns, given the inverse of the matrix. -/
structure Shifted (n roundsP : Nat) (Minv : Matrix (Fin (n + 1)) (Fin (n + 1)) (ZMod scalarField))
    (c : Nat → Fin (n + 1) → ZMod scalarField) (opt : List (List Fr)) : Prop where
  first_length : (opt.getD 0 []).length = n + 1
  first : toVec (n + 1) (opt.getD 0 []) = sumFrom 0 roundsP Minv c roundsP
  key : ∀ i, 0 < i → i < roundsP →
    toField ((opt.getD i []).getD 0 0) = (Minv *ᵥ sumFrom 0 roundsP Minv c (roundsP - i)) 0

theorem equivalentRoundConstants_spec (hmds : Square (n + 1) mds) (hrc : ∀ r ∈ rc, r.length = n + 1)
    {r : Nat} (hlen : r + roundsP ≤ rc.length) :
    ((equivalentRoundConstants rc mds r roundsP).isSome ↔
      0 < roundsP ∧ StronglyRegular (toMatrix (n + 1) mds)) ∧
    ∀ opt, equivalentRoundConstants rc mds r roundsP = some opt →
      ∃ Minv, toMatrix (n + 1) mds * Minv = 1 ∧
        Shifted n roundsP Minv (constantsFrom (n + 1) rc r) opt := by
  obtain ⟨hsome, hspec⟩ := matInverse_spec hmds
  rw [equivalentRoundConstants]
  cases hf : matInverse mds with
  | none =>
    rw [hf] at hsome
    exact ⟨⟨fun h => (Bool.false_ne_true h).elim, fun h => (Bool.false_ne_true (hsome.mpr h.2)).elim⟩,
      fun _ h => (Option.some_ne_none _ h.symm).elim⟩
  | some mdsInv =>
    rw [hf] at hsome
    obtain ⟨hinv, -, hmul⟩ := hspec mdsInv hf
    simp only [Option.bind_eq_bind, Option.bind_some]
    by_cases hp : roundsP = 0
    · rw [if_pos hp]
      exact ⟨⟨fun h => (Bool.false_ne_true h).elim, fun h => absurd hp (Nat.ne_of_gt h.1)⟩,
        fun _ h => (Option.some_ne_none _ h.symm).elim⟩
    · have hpos : 0 < roundsP := Nat.pos_of_ne_zero hp
      have hlast : roundsP - (roundsP - 1 + 1) = 0 := by omega
      have h := shiftConstants_spec hinv hrc hlen hpos (roundsP - 1) (by omega)
      rw [hlast, ← List.range_eq_range'] at h
      rw [if_neg hp]
      refine ⟨iff_of_true rfl ⟨hpos, hsome.mp rfl⟩, fun opt hopt => ⟨_, hmul, ?_⟩⟩
      obtain rfl := Option.some.inj hopt
      refine ⟨?_, ?_, fun i hi hlt => ?_⟩
      · rw [getD_set (by rw [h.opt_length]; exact hpos), if_pos rfl]
        exact h.tmp_length
      · rw [getD_set (by rw [h.opt_length]; exact hpos), if_pos rfl, h.tmp,
          show roundsP - 1 + 1 = roundsP by omega]
      · rw [getD_set (by rw [h.opt_length]; exact hpos), if_neg (Nat.ne_of_gt hi)]
        exact h.opt i (by omega) hlt

end

/-! ## `new` -/

/-- What `PoseidonParams::new` checks: the sum of the rounds is one of machine words. -/
structure WellShaped (t roundsF roundsP : Nat) (mds roundConstants : List (List Fr)) : Prop where
  mds : Square t mds
  rounds : roundConstants.length = (roundsF + roundsP) % 2 ^ 64
  constants : ∀ row ∈ roundConstants, row.length = t
  even : roundsF % 2 = 0

/-- The eliminations all find their pivots: those of the matrix, and of the powers of what is left
without its first row and column. -/
def Eliminable (t roundsP : Nat) (mds : List (List Fr)) : Prop :=
  ∃ n, t = n + 1 ∧ StronglyRegular (toMatrix (n + 1) mds) ∧
    ∀ k, 1 ≤ k → k ≤ roundsP → StronglyRegular (hat (toMatrix (n + 1) mds) ^ k)

variable {t d roundsF roundsP : Nat} {mds rc : List (List Fr)}

theorem new_of_not_wellShaped (h : ¬ WellShaped t roundsF roundsP mds rc) :
    new t d roundsF roundsP mds rc = .error .invalidParameters := by
  rw [new]
  split_ifs with h₁ h₂ h₃ h₄ h₅
  any_goals rfl
  all_goals
    refine absurd ⟨⟨not_not.mp h₁, fun row hrow => ?_⟩, not_not.mp h₃, fun row hrow => ?_, not_not.mp h₅⟩ h
    · exact not_not.mp fun hne => h₂ ⟨row, hrow, hne⟩
    · exact not_not.mp fun hne => h₄ ⟨row, hrow, hne⟩

theorem new_of_wellShaped (h : WellShaped t roundsF roundsP mds rc) :
    new t d roundsF roundsP mds rc =
      if 2 ^ 64 ≤ roundsF + roundsP then .error .panicked
      else match equivalentMatrices mds t roundsP,
          equivalentRoundConstants rc mds (roundsF / 2) roundsP with
        | some (mI, v, wHat), some optRoundConstants =>
          .ok {
            t, d, roundsFBeginning := roundsF / 2, roundsP, rounds := roundsF + roundsP, mds
            roundConstants := rc, optRoundConstants, wHat, v, mI }
        | _, _ => .error .panicked := by
  have hrows : ¬ ∃ row ∈ mds, row.length ≠ t := fun ⟨row, hrow, hne⟩ => hne (h.mds.row row hrow)
  have hconstants : ¬ ∃ row ∈ rc, row.length ≠ t := fun ⟨row, hrow, hne⟩ => hne (h.constants row hrow)
  exact (if_neg (not_not.mpr h.mds.length)).trans <| (if_neg hrows).trans <|
    (if_neg (not_not.mpr h.rounds)).trans <| (if_neg hconstants).trans <|
    if_neg (not_not.mpr h.even)

/-- Every round has its constants where the sum of the rounds has not wrapped. -/
theorem WellShaped.length_eq (h : WellShaped t roundsF roundsP mds rc)
    (hrounds : roundsF + roundsP < 2 ^ 64) : rc.length = roundsF + roundsP :=
  h.rounds.trans (Nat.mod_eq_of_lt hrounds)

theorem hat_transpose_pow {n : Nat} (M : Matrix (Fin (n + 1)) (Fin (n + 1)) (ZMod scalarField)) (k : Nat) :
    hat Mᵀ ^ k = (hat M ^ k)ᵀ := (transpose_pow (hat M) k).symm

/-- Both derivations succeed exactly when the eliminations do. -/
theorem derivations_isSome {n : Nat} (h : WellShaped (n + 1) roundsF roundsP mds rc)
    (hrounds : roundsF + roundsP < 2 ^ 64) :
    ((equivalentMatrices mds (n + 1) roundsP).isSome ∧
      (equivalentRoundConstants rc mds (roundsF / 2) roundsP).isSome) ↔
      0 < roundsP ∧ Eliminable (n + 1) roundsP mds := by
  have hlen : roundsF / 2 + roundsP ≤ rc.length := by
    rw [h.length_eq hrounds]
    omega
  rw [(equivalentRoundConstants_spec h.mds h.constants hlen).1]
  constructor
  · rintro ⟨hmat, hp, hregular⟩
    refine ⟨hp, n, rfl, hregular, fun k hk hkp => ?_⟩
    have hpow := ((equivalentMatrices_spec h.mds hp).1.mp hmat) (k - 1) (by omega)
    rwa [show k - 1 + 1 = k by omega, hat_transpose_pow, Elimination.stronglyRegular_transpose] at hpow
  · rintro ⟨hp, n', hn, hregular, hpow⟩
    obtain rfl := Nat.succ.inj hn
    refine ⟨(equivalentMatrices_spec h.mds hp).1.mpr fun i hi => ?_, hp, hregular⟩
    rw [hat_transpose_pow, Elimination.stronglyRegular_transpose]
    exact hpow (i + 1) (by omega) (by omega)

/-- With the right shapes, `new` succeeds or panics. -/
theorem new_cases (h : WellShaped t roundsF roundsP mds rc) :
    (roundsF + roundsP < 2 ^ 64 ∧ 0 < roundsP ∧ Eliminable t roundsP mds →
      ∃ params, new t d roundsF roundsP mds rc = .ok params) ∧
    (¬ (roundsF + roundsP < 2 ^ 64 ∧ 0 < roundsP ∧ Eliminable t roundsP mds) →
      new t d roundsF roundsP mds rc = .error .panicked) := by
  rw [new_of_wellShaped h]
  by_cases hrounds : 2 ^ 64 ≤ roundsF + roundsP
  · rw [if_pos hrounds]
    exact ⟨fun h => absurd h.1 (not_lt.mpr hrounds), fun _ => rfl⟩
  rw [if_neg hrounds]
  replace hrounds := not_le.mp hrounds
  cases t with
  | zero =>
    obtain rfl := List.eq_nil_of_length_eq_zero h.mds.length
    exact ⟨fun ⟨_, _, n, hn, _⟩ => absurd hn (Nat.succ_ne_zero n).symm, fun _ => rfl⟩
  | succ n =>
    rw [← derivations_isSome h hrounds]
    cases equivalentMatrices mds (n + 1) roundsP with
    | none => exact ⟨fun h => (Bool.false_ne_true h.2.1).elim, fun _ => rfl⟩
    | some factors =>
      cases equivalentRoundConstants rc mds (roundsF / 2) roundsP with
      | none => exact ⟨fun h => (Bool.false_ne_true h.2.2).elim, fun _ => rfl⟩
      | some opt => exact ⟨fun _ => ⟨_, rfl⟩, fun h => absurd ⟨hrounds, rfl, rfl⟩ h⟩

/-- What `new` returns. -/
structure Derived (n : Nat) (params : PoseidonParams) : Prop where
  t_eq : params.t = n + 1
  mds : Square (n + 1) params.mds
  constants : ∀ row ∈ params.roundConstants, row.length = n + 1
  length : params.roundConstants.length = params.rounds
  rounds : params.rounds = 2 * params.roundsFBeginning + params.roundsP
  pos : 0 < params.roundsP
  sparse : Sparse (toMatrix (n + 1) params.mds) params.roundsP params.mI params.v params.wHat
  shifted : ∃ Minv, toMatrix (n + 1) params.mds * Minv = 1 ∧
    Shifted n params.roundsP Minv (constantsFrom (n + 1) params.roundConstants params.roundsFBeginning)
      params.optRoundConstants

/-- The parameters `new` is given are those it returns. -/
structure Given (params : PoseidonParams) (t d roundsF roundsP : Nat) (mds rc : List (List Fr)) :
    Prop where
  t : params.t = t
  d : params.d = d
  rounds : params.rounds = roundsF + roundsP
  roundsFBeginning : params.roundsFBeginning = roundsF / 2
  roundsP : params.roundsP = roundsP
  mds : params.mds = mds
  roundConstants : params.roundConstants = rc

/-- Parameters that `new` returns are derived from its matrix and constants. -/
theorem derived_of_new {params : PoseidonParams} (h : new t d roundsF roundsP mds rc = .ok params) :
    Given params t d roundsF roundsP mds rc ∧ ∃ n, t = n + 1 ∧ Derived n params := by
  by_cases hw : WellShaped t roundsF roundsP mds rc
  · by_cases he : roundsF + roundsP < 2 ^ 64 ∧ 0 < roundsP ∧ Eliminable t roundsP mds
    · obtain ⟨hrounds, hp, n, rfl, -⟩ := id he
      have hlength := hw.length_eq hrounds
      have heven := hw.even
      have hlen : roundsF / 2 + roundsP ≤ rc.length := by
        rw [hlength]
        omega
      have hsome := (derivations_isSome hw hrounds).mpr he.2
      rw [new_of_wellShaped hw, if_neg (not_le.mpr hrounds)] at h
      cases hm : equivalentMatrices mds (n + 1) roundsP with
      | none =>
        rw [hm] at hsome
        exact (Bool.false_ne_true hsome.1).elim
      | some factors =>
        obtain ⟨mI, v, wHat⟩ := factors
        cases hc : equivalentRoundConstants rc mds (roundsF / 2) roundsP with
        | none =>
          rw [hc] at hsome
          exact (Bool.false_ne_true hsome.2).elim
        | some opt =>
          rw [hm, hc] at h
          obtain rfl := Except.ok.inj h
          refine ⟨⟨rfl, rfl, rfl, rfl, rfl, rfl, rfl⟩, n, rfl, ?_⟩
          exact {
            t_eq := rfl
            mds := hw.mds
            constants := hw.constants
            length := hlength
            rounds := show roundsF + roundsP = 2 * (roundsF / 2) + roundsP by omega
            pos := hp
            sparse := (equivalentMatrices_spec hw.mds hp).2 mI v wHat hm
            shifted := (equivalentRoundConstants_spec hw.mds hw.constants hlen).2 opt hc }
    · rw [(new_cases hw).2 he] at h
      cases h
  · rw [new_of_not_wellShaped hw] at h
    cases h

end Railgun.PoseidonParams
