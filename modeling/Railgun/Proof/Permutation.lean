import Railgun.Impl.PoseidonT3
import Railgun.Proof.Parameters
import Railgun.Spec.Poseidon

/-!
# The permutation

With the parameters that `PoseidonParams::new` derives, the optimised
permutation is the plain one on every state (`permutation_eq_plain`): the sparse
rounds of the code are those of a schedule (`partialRounds_spec`). It is a
permutation of the states exactly when the S-box is one of the field
(`plainPermutation_injective_iff`).
-/

namespace Railgun.PoseidonParams

open BabyJubJub Matrix Hades
open Elimination (StronglyRegular)

variable {n : Nat} {params : PoseidonParams}

/-! ## The pieces of a round -/

theorem toField_pow (x : Fr) : ∀ d : Nat,
    toField ((List.replicate d x).foldl (· * ·) 1) = toField x ^ d := by
  have hfrom : ∀ (d : Nat) (acc : Fr),
      toField ((List.replicate d x).foldl (· * ·) acc) = toField acc * toField x ^ d := by
    intro d
    induction d with
    | zero =>
      intro acc
      rw [pow_zero, mul_one]
      rfl
    | succ d ih =>
      intro acc
      rw [List.replicate_succ, List.foldl_cons, ih, toField_mul, pow_succ', mul_assoc]
  intro d
  rw [hfrom, toField_one, one_mul]

/-- `sbox_p`: the cases of 3, 5 and 7 are powers, too. -/
theorem toField_sboxP (params : PoseidonParams) (x : Fr) :
    toField (params.sboxP x) = toField x ^ params.d := by
  rw [sboxP]
  split
  · rename_i h
    rw [h, toField_mul, toField_mul]
    ring
  · rename_i h
    rw [h, toField_mul, toField_mul, toField_mul]
    ring
  · rename_i h
    rw [h, toField_mul, toField_mul, toField_mul, toField_mul]
    ring
  · exact toField_pow x _

theorem length_addRc {s c : List Fr} (hs : s.length = n) (hc : c.length = n) :
    (addRc s c).length = n := by
  rw [addRc, List.length_zipWith, hs, hc, Nat.min_self]

theorem toVec_addRc {s c : List Fr} (hs : s.length = n) (hc : c.length = n) :
    toVec n (addRc s c) = toVec n s + toVec n c := by
  funext i
  have his : (i : Nat) < s.length := by rw [hs]; exact i.isLt
  have hic : (i : Nat) < c.length := by rw [hc]; exact i.isLt
  have hia : (i : Nat) < (List.zipWith (· + ·) s c).length := by
    rw [List.length_zipWith, hs, hc, Nat.min_self]
    exact i.isLt
  rw [Pi.add_apply, toVec, toVec, toVec, addRc, List.getD_eq_getElem _ _ hia, List.getElem_zipWith,
    List.getD_eq_getElem _ _ his, List.getD_eq_getElem _ _ hic, toField_add]

theorem toVec_map_sboxP (params : PoseidonParams) {s : List Fr} (hs : s.length = n) :
    toVec n (s.map params.sboxP) = fun i => toVec n s i ^ params.d := by
  funext i
  have hi : (i : Nat) < s.length := by rw [hs]; exact i.isLt
  rw [toVec, getD_map_of_lt hi, toField_sboxP, toVec, List.getD_eq_getElem _ _ hi]

theorem toField_power (x : Fr) : ∀ d : Nat, toField (power x d) = toField x ^ d
  | 0 => toField_one
  | d + 1 => by rw [power, toField_mul, toField_power x d, pow_succ]

theorem toField_sum : ∀ l : List Fr, toField (l.foldr (· + ·) 0) = (l.map toField).sum
  | [] => toField_zero
  | x :: l => by rw [List.foldr_cons, toField_add, toField_sum l, List.map_cons, List.sum_cons]

/-- The sum of a list of the right length. -/
theorem sum_eq_sum_getD : ∀ {n : Nat} (l : List (ZMod scalarField)), l.length = n →
    l.sum = ∑ i : Fin n, l.getD i 0
  | _, [], h => by
    subst h
    simp
  | _, x :: l, h => by
    subst h
    rw [List.sum_cons, sum_eq_sum_getD l rfl, List.length_cons, Fin.sum_univ_succ]
    rfl

/-- The rounds of the definition, over the field. -/
theorem plainRound_spec (h : Derived n params) (r : Nat) {s : List Fr}
    (hs : s.length = n + 1) : (params.plainRound s r).length = n + 1 ∧
      toVec (n + 1) (params.plainRound s r) =
        Hades.round (· ^ params.d) 0 params.IsPartial (toMatrix (n + 1) params.mds)
          (fun r => toVec (n + 1) (params.roundConstants.getD r [])) (toVec (n + 1) s) r := by
  have hbox : ∀ j : Fin (n + 1), toField ((s.mapIdx fun i x =>
      params.plainSbox r i (x + (params.roundConstants.getD r []).getD i 0)).getD j 0) =
        layer (· ^ params.d) 0 (params.IsPartial r)
          (toVec (n + 1) s + toVec (n + 1) (params.roundConstants.getD r [])) j := by
    intro j
    have hj : (j : Nat) < s.length := by rw [hs]; exact j.isLt
    have hadd : toField (s.getD j 0 + (params.roundConstants.getD r []).getD j 0) =
        (toVec (n + 1) s + toVec (n + 1) (params.roundConstants.getD r [])) j := toField_add _ _
    rw [getD_mapIdx _ hj, plainSbox, layer]
    by_cases hr : params.IsPartial r
    · rw [if_pos hr, sbox]
      induction j using Fin.cases with
      | zero => rw [if_neg (fun h => absurd h.2 (lt_irrefl 0)), toField_power, hadd, Function.update_self]
      | succ j =>
        rw [if_pos ⟨hr, Nat.succ_pos _⟩, hadd, Function.update_of_ne (Fin.succ_ne_zero j)]
    · rw [if_neg (fun h => hr h.1), if_neg hr, toField_power, hadd]
  refine ⟨(List.length_map _).trans h.mds.length, funext fun i => ?_⟩
  have hi : (i : Nat) < params.mds.length := by rw [h.mds.length]; exact i.isLt
  have hrow : params.mds[(i : Nat)].length = n + 1 := h.mds.row _ (List.getElem_mem hi)
  rw [toVec, plainRound, getD_map_of_lt hi, toField_sum,
    sum_eq_sum_getD _ (by rw [List.length_map, List.length_mapIdx, hrow]), Hades.round, mulVec, dotProduct]
  refine Finset.sum_congr rfl fun j _ => ?_
  have hj : (j : Nat) < params.mds[(i : Nat)].length := by rw [hrow]; exact j.isLt
  rw [getD_map_of_lt (by rwa [List.length_mapIdx]), List.getElem_mapIdx, toField_mul, hbox, toMatrix_apply,
    List.getD_eq_getElem params.mds [] hi, List.getD_eq_getElem _ 0 hj]

theorem length_constants (h : Derived n params) {r : Nat} (hr : r < params.rounds) :
    (params.roundConstants.getD r []).length = n + 1 := by
  rw [List.getD_eq_getElem _ _ (by rwa [h.length])]
  exact h.constants _ (List.getElem_mem _)

/-- A full round is a round of the definition. -/
theorem fullRound_eq (h : Derived n params) {r : Nat} (hr : r < params.rounds)
    (hfull : ¬ params.IsPartial r) {s : List Fr} (hs : s.length = n + 1) :
    params.fullRound s r = params.plainRound s r := by
  have hc := length_constants h hr
  have hboxed := (List.length_map params.sboxP).trans (length_addRc hs hc)
  obtain ⟨hlen, hvec⟩ := plainRound_spec h r hs
  refine toVec_injective (length_matVecMul h.mds _) hlen ?_
  rw [hvec, fullRound, toVec_matVecMul h.mds hboxed, toVec_map_sboxP params (length_addRc hs hc),
    toVec_addRc hs hc, Hades.round, layer, if_neg hfull]

/-! ## The partial rounds -/

/-- The sparse matrix of round `k` from the end. -/
def sparseAt (n : Nat) (params : PoseidonParams) (k : Nat) :
    Matrix (Fin (n + 1)) (Fin (n + 1)) (ZMod scalarField) :=
  (sparseOf (toMatrix (n + 1) params.mds 0 0) (toVec n (params.v.getD k []))
    (toVec n (params.wHat.getD k [])))ᵀ

theorem cheapMatmul_spec {x : Fr} {rest : List Fr} (hrest : rest.length = n) {k : Nat}
    (hv : (params.v.getD k []).length = n) (hw : (params.wHat.getD k []).length = n) :
    (params.cheapMatmul (x :: rest) k).length = n + 1 ∧
      toVec (n + 1) (params.cheapMatmul (x :: rest) k) =
        sparseAt n params k *ᵥ toVec (n + 1) (x :: rest) := by
  have hlen : (List.zipWith (fun v y => x * v + y) (params.v.getD k []) rest).length = n := by
    rw [List.length_zipWith, hv, hrest, Nat.min_self]
  refine ⟨congrArg Nat.succ hlen, funext fun i => ?_⟩
  rw [mulVec, dotProduct, Fin.sum_univ_succ]
  induction i using Fin.cases with
  | zero =>
    show toField ((List.zipWith (· * ·) (params.wHat.getD k []) rest).foldl _ _) = _
    rw [toField_foldl_zipWith _ 0 _ _ _ hw hrest, toField_mul]
    refine congrArg₂ _ rfl (Finset.sum_congr rfl fun j _ => ?_)
    rw [toField_mul]
    rfl
  | succ i =>
    have hi : (i : Nat) < (params.v.getD k []).length := by rw [hv]; exact i.isLt
    have hir : (i : Nat) < rest.length := by rw [hrest]; exact i.isLt
    show toField ((List.zipWith (fun v y => x * v + y) (params.v.getD k []) rest).getD i 0) = _
    rw [List.getD_eq_getElem _ _ (by rw [hlen]; exact i.isLt), List.getElem_zipWith, toField_add,
      toField_mul, Finset.sum_eq_single i]
    · simp only [sparseAt, sparseOf, transpose_apply, of_apply, Fin.cases_zero, Fin.cases_succ, if_true,
        one_mul, toVec, Fin.val_zero, Fin.val_succ, List.getD_cons_zero, List.getD_cons_succ]
      rw [List.getD_eq_getElem _ _ hi, List.getD_eq_getElem _ _ hir, mul_comm]
    · intro j _ hj
      simp [sparseAt, sparseOf, hj]
    · intro hi
      exact absurd (Finset.mem_univ i) hi

/-- The constants of the partial rounds. -/
def partialConstants (n : Nat) (params : PoseidonParams) : Nat → Fin (n + 1) → ZMod scalarField :=
  constantsFrom (n + 1) params.roundConstants params.roundsFBeginning

/-- The sparse matrices take the matrix through the block diagonal ones. -/
theorem block_mul_mds (h : Derived n params) {k : Nat} (hk : k < params.roundsP) :
    (blockOf (hat (toMatrix (n + 1) params.mds)ᵀ ^ k))ᵀ * toMatrix (n + 1) params.mds =
      sparseAt n params k * (blockOf (hat (toMatrix (n + 1) params.mds)ᵀ ^ (k + 1)))ᵀ := by
  have hfactor := congrArg transpose (blockOf_mul_sparseOf ((toMatrix (n + 1) params.mds)ᵀ *
    blockOf (hat (toMatrix (n + 1) params.mds)ᵀ ^ k)) (w := toVec n (params.wHat.getD k [])) (by
      rw [hat_mul_blockOf, ← pow_succ', (h.sparse.wHat k hk).2]
      exact funext fun r => (mul_blockOf_apply_zero _ _ r.succ).symm))
  rw [hat_mul_blockOf, ← pow_succ', mul_blockOf_apply_zero, transpose_mul, transpose_mul,
    transpose_transpose, ← (h.sparse.v k hk).2] at hfactor
  exact hfactor.symm

/-- The sparse matrices and shifted constants of the parameters are a schedule. -/
def schedule (h : Derived n params) {Minv : Matrix (Fin (n + 1)) (Fin (n + 1)) (ZMod scalarField)}
    (hM : toMatrix (n + 1) params.mds * Minv = 1) :
    Schedule 0 params.roundsP (toMatrix (n + 1) params.mds) (partialConstants n params) :=
  Schedule.ofInverse hM _ (fun k => (blockOf (hat (toMatrix (n + 1) params.mds)ᵀ ^ k))ᵀ)
    (sparseAt n params) (fun _ _ => (block_blockOf _).transpose) (fun _ hk => block_mul_mds h hk)
    (by rw [pow_zero, blockOf_one, transpose_one])

/-- The sparse rounds of the code. -/
theorem partialRounds_spec (h : Derived n params)
    {Minv : Matrix (Fin (n + 1)) (Fin (n + 1)) (ZMod scalarField)}
    (hs : Shifted n params.roundsP Minv (partialConstants n params) params.optRoundConstants)
    {s : List Fr} (hlen : s.length = n + 1) : ∀ i ≤ params.roundsP,
    ((List.range' params.roundsFBeginning i).foldl
      (params.partialRound (params.roundsFBeginning + params.roundsP)) s).length = n + 1 ∧
    toVec (n + 1) ((List.range' params.roundsFBeginning i).foldl
      (params.partialRound (params.roundsFBeginning + params.roundsP)) s) =
        sparseRounds (· ^ params.d) 0 params.roundsP (sparseAt n params)
          (fun i => (Minv *ᵥ sumFrom 0 params.roundsP Minv (partialConstants n params) (params.roundsP - i)) 0)
          (toVec (n + 1) s) i
  | 0, _ => ⟨hlen, rfl⟩
  | i + 1, hi => by
    obtain ⟨ihlen, ihvec⟩ := partialRounds_spec h hs hlen i (by omega)
    rw [List.range'_1_concat, List.foldl_append, List.foldl_cons, List.foldl_nil, sparseRounds, ← ihvec]
    generalize (List.range' params.roundsFBeginning i).foldl
      (params.partialRound (params.roundsFBeginning + params.roundsP)) s = s' at ihlen
    obtain ⟨x, rest, rfl⟩ : ∃ x rest, s' = x :: rest :=
      List.exists_cons_of_length_pos (by rw [ihlen]; exact Nat.succ_pos n)
    have hk : params.roundsFBeginning + params.roundsP - (params.roundsFBeginning + i) - 1 =
        params.roundsP - i - 1 := by omega
    have hkey : params.roundsFBeginning + i + 1 - params.roundsFBeginning = i + 1 := by omega
    have hstate : ∀ y : Fr, toField y = toField x ^ params.d + (Minv *ᵥ sumFrom 0 params.roundsP Minv
          (partialConstants n params) (params.roundsP - (i + 1))) 0 →
        toVec (n + 1) (y :: rest) = sbox (· ^ params.d) 0 (toVec (n + 1) (x :: rest)) +
          Pi.single 0 ((Minv *ᵥ sumFrom 0 params.roundsP Minv (partialConstants n params)
            (params.roundsP - (i + 1))) 0) := fun y hy => by
      funext j
      induction j using Fin.cases with
      | zero =>
        rw [Pi.add_apply, sbox, Function.update_self, Pi.single_eq_same]
        exact hy
      | succ j =>
        rw [Pi.add_apply, sbox, Function.update_of_ne (Fin.succ_ne_zero j),
          Pi.single_eq_of_ne (Fin.succ_ne_zero j), add_zero]
        rfl
    rw [partialRound]
    simp only [hk, hkey]
    obtain ⟨hlen', hvec'⟩ := cheapMatmul_spec
      (x := if params.roundsFBeginning + i < params.roundsFBeginning + params.roundsP - 1 then
        params.sboxP x + (params.optRoundConstants.getD (i + 1) []).getD 0 0 else params.sboxP x)
      (Nat.succ.inj ihlen) (h.sparse.v (params.roundsP - i - 1) (by omega)).1
      (h.sparse.wHat (params.roundsP - i - 1) (by omega)).1
    refine ⟨hlen', hvec'.trans (congrArg _ (hstate _ ?_))⟩
    split
    · rw [toField_add, toField_sboxP, hs.key (i + 1) (Nat.succ_pos i) (by omega)]
    · rw [show params.roundsP - (i + 1) = 0 by omega, sumFrom, mulVec_zero, Pi.zero_apply, add_zero,
        toField_sboxP]

/-- The partial rounds of the definition. -/
theorem plainRounds_spec (h : Derived n params) {s : List Fr} (hlen : s.length = n + 1) :
    ∀ i ≤ params.roundsP,
    ((List.range' params.roundsFBeginning i).foldl params.plainRound s).length = n + 1 ∧
    toVec (n + 1) ((List.range' params.roundsFBeginning i).foldl params.plainRound s) =
      Hades.rounds (· ^ params.d) 0 (toMatrix (n + 1) params.mds) (partialConstants n params) (toVec (n + 1) s) i
  | 0, _ => ⟨hlen, rfl⟩
  | i + 1, hi => by
    obtain ⟨ihlen, ihvec⟩ := plainRounds_spec h hlen i (by omega)
    have hpart : params.IsPartial (params.roundsFBeginning + i) := ⟨by omega, by omega⟩
    rw [List.range'_1_concat, List.foldl_append, List.foldl_cons, List.foldl_nil, Hades.rounds, ← ihvec]
    obtain ⟨hlen', hvec'⟩ := plainRound_spec h _ ihlen
    exact ⟨hlen', hvec'.trans (by rw [Hades.round, layer, if_pos hpart]; rfl)⟩

/-- All sparse rounds: those of the definition. -/
theorem partialRounds_eq (h : Derived n params) {s : List Fr} (hlen : s.length = n + 1) :
    (List.range' params.roundsFBeginning params.roundsP).foldl
      (params.partialRound (params.roundsFBeginning + params.roundsP))
      (matVecMul params.mI (addRc s (params.optRoundConstants.getD 0 []))) =
    (List.range' params.roundsFBeginning params.roundsP).foldl params.plainRound s := by
  obtain ⟨Minv, hM, hs⟩ := h.shifted
  have hadd := length_addRc hlen hs.first_length
  have hstart := length_matVecMul h.sparse.mI_square (addRc s (params.optRoundConstants.getD 0 []))
  obtain ⟨hlen₁, hvec₁⟩ := partialRounds_spec h hs hstart params.roundsP le_rfl
  obtain ⟨hlen₂, hvec₂⟩ := plainRounds_spec h hlen params.roundsP le_rfl
  refine toVec_injective hlen₁ hlen₂ ?_
  rw [hvec₁, hvec₂, ← (schedule h hM).eq_rounds, toVec_matVecMul h.sparse.mI_square hadd,
    toVec_addRc hlen hs.first_length, hs.first, h.sparse.mI]
  rfl

/-! ## The whole permutation -/

/-- Rounds of the definition keep the size of the state. -/
theorem length_plainRounds (h : Derived n params) : ∀ (l : List Nat) {s : List Fr},
    s.length = n + 1 → (l.foldl params.plainRound s).length = n + 1
  | [], _, hs => hs
  | r :: l, _, hs => length_plainRounds h l (plainRound_spec h r hs).1

/-- Full rounds, one after the other. -/
theorem fullRounds_eq (h : Derived n params) : ∀ (l : List Nat) {s : List Fr},
    (∀ r ∈ l, r < params.rounds ∧ ¬ params.IsPartial r) → s.length = n + 1 →
      l.foldl params.fullRound s = l.foldl params.plainRound s
  | [], _, _, _ => rfl
  | r :: l, s, hl, hs => by
    obtain ⟨hr, hfull⟩ := hl r List.mem_cons_self
    rw [List.foldl_cons, List.foldl_cons, fullRound_eq h hr hfull hs]
    exact fullRounds_eq h l (fun r hr => hl r (List.mem_cons_of_mem _ hr)) (plainRound_spec h r hs).1

/-- The optimised permutation is the plain one. -/
theorem permutation_eq_plain (h : Derived n params) {input : List Fr} (hlen : input.length = n + 1) :
    params.permutation input = .ok (params.plainPermutation input) := by
  have hrounds := h.rounds
  have hsplit : List.range params.rounds = List.range params.roundsFBeginning ++
      (List.range' params.roundsFBeginning params.roundsP ++
        List.range' (params.roundsFBeginning + params.roundsP)
          (params.rounds - (params.roundsFBeginning + params.roundsP))) := by
    have happend : ∀ a b, List.range' 0 a ++ List.range' a b = List.range' 0 (a + b) := fun a b => by
      simpa only [Nat.zero_add] using List.range'_append_1 (s := 0) (m := a) (n := b)
    rw [List.range_eq_range', List.range_eq_range', List.range'_append_1, happend]
    congr 1
    omega
  have hbeginning : ∀ r ∈ List.range params.roundsFBeginning, r < params.rounds ∧ ¬ params.IsPartial r := by
    intro r hr
    have hlt := List.mem_range.mp hr
    exact ⟨by omega, fun hp => absurd hlt (not_lt.mpr hp.1)⟩
  have hend : ∀ r ∈ List.range' (params.roundsFBeginning + params.roundsP)
      (params.rounds - (params.roundsFBeginning + params.roundsP)),
      r < params.rounds ∧ ¬ params.IsPartial r := by
    intro r hr
    have hmem := List.mem_range'_1.mp hr
    exact ⟨by omega, fun hp => absurd hp.2 (not_lt.mpr hmem.1)⟩
  have hstate := length_plainRounds h (List.range params.roundsFBeginning) hlen
  have hpartial := length_plainRounds h (List.range' params.roundsFBeginning params.roundsP) hstate
  rw [permutation, if_neg (not_not.mpr (hlen.trans h.t_eq.symm)), plainPermutation, hsplit,
    List.foldl_append, List.foldl_append, ← fullRounds_eq h _ hend hpartial, ← partialRounds_eq h hstate,
    ← fullRounds_eq h _ hbeginning hlen]

/-! ## Bijective on the states -/

/-- The state of a vector. -/
def ofVec (z : Fin n → ZMod scalarField) : List Fr :=
  List.ofFn fun i => (⟨(z i).val, ZMod.val_lt (z i)⟩ : Fr)

theorem length_ofVec (z : Fin n → ZMod scalarField) : (ofVec z).length = n := List.length_ofFn

theorem toVec_ofVec (z : Fin n → ZMod scalarField) : toVec n (ofVec z) = z := by
  funext i
  rw [toVec, ofVec, List.getD_eq_getElem _ _ (by rw [List.length_ofFn]; exact i.isLt), List.getElem_ofFn]
  exact ZMod.natCast_zmod_val (z i)

/-- The permutation by its definition, over the field. -/
theorem plainPermutation_spec (h : Derived n params) {s : List Fr} (hs : s.length = n + 1) :
    (params.plainPermutation s).length = n + 1 ∧
      toVec (n + 1) (params.plainPermutation s) = (List.range params.rounds).foldl
        (Hades.round (· ^ params.d) 0 params.IsPartial (toMatrix (n + 1) params.mds)
          fun r => toVec (n + 1) (params.roundConstants.getD r [])) (toVec (n + 1) s) := by
  have hrun : ∀ (l : List Nat) {s : List Fr}, s.length = n + 1 →
      (l.foldl params.plainRound s).length = n + 1 ∧
        toVec (n + 1) (l.foldl params.plainRound s) = l.foldl
          (Hades.round (· ^ params.d) 0 params.IsPartial (toMatrix (n + 1) params.mds)
            fun r => toVec (n + 1) (params.roundConstants.getD r [])) (toVec (n + 1) s) := by
    intro l
    induction l with
    | nil => exact fun hs => ⟨hs, rfl⟩
    | cons r l ih =>
      intro s hs
      obtain ⟨hlen, hvec⟩ := plainRound_spec h r hs
      rw [List.foldl_cons, List.foldl_cons, ← hvec]
      exact ih hlen
  exact hrun _ hs

/-- A permutation of the states exactly when the S-box is one of the field. -/
theorem plainPermutation_bijective_iff (h : Derived n params) :
    (∀ output : List Fr, output.length = n + 1 →
      ∃! input : List Fr, input.length = n + 1 ∧ params.plainPermutation input = output) ↔
      params.d ≠ 0 ∧ params.d.Coprime (scalarField - 1) := by
  obtain ⟨Minv, hM, -⟩ := h.shifted
  have hiff := rounds_injective_iff (f := fun x : ZMod scalarField => x ^ params.d) (o := 0)
    (p := params.IsPartial) (c := fun r => toVec (n + 1) (params.roundConstants.getD r []))
    (mul_eq_one_comm.mp hM) (n := params.rounds) (by rw [h.rounds]; have := h.pos; omega)
  rw [pow_injective_iff, ZMod.card] at hiff
  rw [← hiff]
  constructor
  · intro hbij z z' heq
    obtain ⟨hlen, hvec⟩ := plainPermutation_spec h (length_ofVec z)
    obtain ⟨hlen', hvec'⟩ := plainPermutation_spec h (length_ofVec z')
    rw [toVec_ofVec] at hvec hvec'
    have hout := toVec_injective hlen hlen' (hvec.trans (heq.trans hvec'.symm))
    have hin := (hbij _ hlen').unique ⟨length_ofVec z, hout⟩ ⟨length_ofVec z', rfl⟩
    rw [← toVec_ofVec z, hin, toVec_ofVec]
  · intro hinj output hlen
    obtain ⟨z, hz⟩ := (Finite.injective_iff_surjective.mp hinj) (toVec (n + 1) output)
    obtain ⟨hlenz, hvec⟩ := plainPermutation_spec h (length_ofVec z)
    rw [toVec_ofVec] at hvec
    refine ⟨ofVec z, ⟨length_ofVec z, toVec_injective hlenz hlen (hvec.trans hz)⟩, ?_⟩
    rintro input ⟨hin, rfl⟩
    obtain ⟨-, hvec'⟩ := plainPermutation_spec h hin
    refine toVec_injective hin (length_ofVec z) ?_
    rw [toVec_ofVec]
    exact hinj (hvec'.symm.trans hz.symm)

/-! ## The parameters of `new` -/

section
variable {t d roundsF roundsP : Nat} {mds rc : List (List Fr)}

/-- With the parameters `new` derives, the optimised permutation is the plain one of the matrix and
the constants it was given. -/
theorem new_permutation (h : new t d roundsF roundsP mds rc = .ok params) :
    Given params t d roundsF roundsP mds rc ∧ ∀ input, params.permutation input =
      if input.length = t then .ok (params.plainPermutation input) else .error .invalidParameters := by
  obtain ⟨hgiven, n, rfl, hderived⟩ := derived_of_new h
  refine ⟨hgiven, fun input => ?_⟩
  split
  · exact permutation_eq_plain hderived ‹_›
  · rw [permutation, if_pos (by rwa [hgiven.t])]

/-- A matrix and constants for two elements. -/
theorem new_two : ∃ params, new 2 5 2 2 [[1, 1], [2, 1]] [[1, 2], [3, 4], [5, 6], [7, 8]] = .ok params := by
  have hisOk : (new 2 5 2 2 [[1, 1], [2, 1]] [[1, 2], [3, 4], [5, 6], [7, 8]]).toOption.isSome := by
    decide +kernel
  cases h : new 2 5 2 2 [[1, 1], [2, 1]] [[1, 2], [3, 4], [5, 6], [7, 8]] with
  | error e =>
    rw [h] at hisOk
    cases hisOk
  | ok params => exact ⟨params, rfl⟩

theorem new_permutation_two : ∃ params,
    new 2 5 2 2 [[1, 1], [2, 1]] [[1, 2], [3, 4], [5, 6], [7, 8]] = .ok params ∧
      Given params 2 5 2 2 [[1, 1], [2, 1]] [[1, 2], [3, 4], [5, 6], [7, 8]] ∧
      ∀ input, params.permutation input =
        if input.length = 2 then .ok (params.plainPermutation input) else .error .invalidParameters := by
  obtain ⟨params, h⟩ := new_two
  exact ⟨params, h, new_permutation h⟩

/-- The permutation takes every state to one state, and each state is taken from one, exactly when
the S-box has an exponent prime to the order of the field's units. -/
theorem new_bijective_iff (h : new t d roundsF roundsP mds rc = .ok params) :
    (∀ output : List Fr, output.length = t →
      ∃! input : List Fr, input.length = t ∧ params.permutation input = .ok output) ↔
      d ≠ 0 ∧ d.Coprime (scalarField - 1) := by
  obtain ⟨hgiven, n, rfl, hderived⟩ := derived_of_new h
  rw [← hgiven.d, ← plainPermutation_bijective_iff hderived]
  refine forall₂_congr fun output _ => existsUnique_congr fun input => and_congr_right fun hlen => ?_
  rw [permutation_eq_plain hderived hlen, Except.ok.injEq]

theorem new_bijective_iff_two : ∃ params,
    new 2 5 2 2 [[1, 1], [2, 1]] [[1, 2], [3, 4], [5, 6], [7, 8]] = .ok params ∧
      ((∀ output : List Fr, output.length = 2 →
        ∃! input : List Fr, input.length = 2 ∧ params.permutation input = .ok output) ↔
        5 ≠ 0 ∧ Nat.Coprime 5 (scalarField - 1)) := by
  obtain ⟨params, h⟩ := new_two
  exact ⟨params, h, new_bijective_iff h⟩

end

/-! ## The parameters of the tree's hash -/

/-- The stored tables are those `new` derives. -/
theorem poseidonT3_eq_new : new 3 5 8 57 poseidonT3.mds poseidonT3.roundConstants = .ok poseidonT3 := by
  decide +kernel

/-- On three elements the engine computes the plain permutation, and is a permutation. -/
theorem poseidonT3_permutation :
    (∀ x y z : Fr, poseidonT3.permutation [x, y, z] = .ok (poseidonT3.plainPermutation [x, y, z])) ∧
    ∀ x y z : Fr, ∃! input : Fr × Fr × Fr,
      poseidonT3.permutation [input.1, input.2.1, input.2.2] = .ok [x, y, z] := by
  obtain ⟨-, n, hn, hderived⟩ := derived_of_new poseidonT3_eq_new
  obtain rfl : n = 2 := (Nat.succ.inj hn).symm
  refine ⟨fun x y z => permutation_eq_plain hderived rfl, fun x y z => ?_⟩
  obtain ⟨input, ⟨hlen, hinput⟩, hunique⟩ :=
    (plainPermutation_bijective_iff hderived).mpr ⟨by decide, by decide +kernel⟩ [x, y, z] rfl
  obtain ⟨a, b, c, rfl⟩ := List.length_eq_three.mp hlen
  refine ⟨(a, b, c), (permutation_eq_plain hderived rfl).trans (congrArg _ hinput), fun p hp => ?_⟩
  have heq := hunique [p.1, p.2.1, p.2.2]
    ⟨rfl, Except.ok.inj ((permutation_eq_plain hderived rfl).symm.trans hp)⟩
  simp only [List.cons.injEq, and_true] at heq
  exact Prod.ext heq.1 (Prod.ext heq.2.1 heq.2.2)

end Railgun.PoseidonParams
