import Railgun.Impl.BabyJubJub
import Railgun.Impl.Poseidon

/-!
# Parameters of the permutation

`PoseidonParams::new`: from the matrix and the round constants of the plain
permutation it derives what the optimised partial rounds use, the sparse
matrices and the constants moved back through the matrix. The inverses it needs
for that are found by elimination without pivoting, which panics on a pivot
that is zero.
-/

namespace Railgun

/-- Errors of `PoseidonParams::new`, and its panics: a pivot without an inverse
and an index out of bounds. -/
inductive ParametersError
  | invalidParameters
  | panicked
  deriving DecidableEq, Repr

deriving instance DecidableEq for PoseidonParams

namespace PoseidonParams

open BabyJubJub (inverse)

/-- `mat[row][col]`. -/
def entry (mat : List (List Fr)) (row col : Nat) : Fr := (mat.getD row []).getD col 0

/-! ## The inverse of a matrix -/

/-- The loop over `col` of the first pass: row `row` of both matrices less `m[row][j]` times row `j`,
but for the entries known to be zero. -/
def subtractRow (row : Nat) (s : List (List Fr) × List (List Fr)) (j : Nat) :
    List (List Fr) × List (List Fr) :=
  let (m, inv) := s
  let el := entry m row j
  (m.set row ((m.getD row []).mapIdx fun col x => if col < j then 0 else x - entry m j col * el),
    inv.set row ((inv.getD row []).mapIdx fun col x => if row < col then 0 else x - entry inv j col * el))

/-- "make 1 in diag": nothing where `inverse().unwrap()` panics. -/
def normalizeRow (row : Nat) (s : List (List Fr) × List (List Fr)) :
    Option (List (List Fr) × List (List Fr)) :=
  let (m, inv) := s
  if entry m row row = 0 then none
  else
    let elInv := inverse (entry m row row)
    some (m.set row ((m.getD row []).mapIdx fun col x =>
        if col < row then x else if col = row then 1 else x * elInv),
      inv.set row ((inv.getD row []).mapIdx fun col x => if row < col then x else x * elInv))

/-- A row of the first pass. -/
def reduceRow (s : List (List Fr) × List (List Fr)) (row : Nat) :
    Option (List (List Fr) × List (List Fr)) :=
  normalizeRow row ((List.range row).foldl (subtractRow row) s)

/-- The loop over `col` of the second pass: row `row` of the inverse less `m[row][j]` times row `j`. -/
def clearRow (m : List (List Fr)) (row : Nat) (inv : List (List Fr)) (j : Nat) : List (List Fr) :=
  let el := entry m row j
  inv.set row ((inv.getD row []).mapIdx fun col x => x - entry inv j col * el)

/-- `mat_inverse`: nothing where it panics in release builds. (In debug builds a matrix without rows
panics, too, as an assertion looks at its first.) -/
def matInverse (mat : List (List Fr)) : Option (List (List Fr)) := do
  let n := mat.length
  let inv := (List.range n).map fun i => (List.replicate n (0 : Fr)).set i 1
  let (m, inv) ← (List.range n).foldlM reduceRow (mat, inv)
  return (List.range n).reverse.foldl
    (fun inv row => (List.range' (row + 1) (n - (row + 1))).reverse.foldl (clearRow m row) inv) inv

/-! ## Matrices -/

/-- `mat_transpose`: the index of the first row panics on no rows. -/
def matTranspose (mat : List (List Fr)) : Option (List (List Fr)) :=
  match mat with
  | [] => none
  | first :: _ => some ((List.range first.length).map fun col => mat.map fun row => row.getD col 0)

def matMatMul (mat1 mat2 : List (List Fr)) : List (List Fr) :=
  mat1.map fun row => (List.range mat1.length).map fun col =>
    (row.zipWith (fun x m2 => x * m2.getD col 0) mat2).foldl (· + ·) 0

/-! ## The optimised rounds -/

/-- The state of `equivalent_matrices`. -/
structure Factors where
  mI : List (List Fr)
  mMul : List (List Fr)
  v : List (List Fr)
  wHat : List (List Fr)

/-- One sparse matrix: splits `m_mul`, and multiplies what is left by the matrix again. -/
def factor (mds' : List (List Fr)) (t : Nat) (s : Factors) : Option Factors := do
  let v := (s.mMul.getD 0 []).drop 1
  let mHat := (List.range' 1 (t - 1)).map fun row => (List.range' 1 (t - 1)).map fun col =>
    entry s.mMul row col
  let w := (List.range' 1 (t - 1)).map fun row => entry s.mMul row 0
  let mHatInv ← matInverse mHat
  let mI := s.mMul.mapIdx fun i row => row.mapIdx fun j x =>
    if i = 0 then (if j = 0 then 1 else 0) else if j = 0 then 0 else x
  return {
    mI
    mMul := matMatMul mds' mI
    v := s.v ++ [v]
    wHat := s.wHat ++ [matVecMul mHatInv w] }

/-- `equivalent_matrices`: `m_i`, `v` and `w_hat`. -/
def equivalentMatrices (mds : List (List Fr)) (t roundsP : Nat) :
    Option (List (List Fr) × List (List Fr) × List (List Fr)) := do
  let mds' ← matTranspose mds
  let s ← (List.range roundsP).foldlM (fun s _ => factor mds' t s)
    { mI := List.replicate t (List.replicate t 0), mMul := mds', v := [], wHat := [] }
  let mI ← matTranspose s.mI
  return (mI, s.v, s.wHat)

/-- A round constant moved back through the matrix: its first element stays, the rest joins the
constant of the round before. -/
def shiftConstant (roundConstants mdsInv : List (List Fr)) (roundsFBeginning : Nat)
    (s : List (List Fr) × List Fr) (i : Nat) : List (List Fr) × List Fr :=
  let (opt, tmp) := s
  let invCip := matVecMul mdsInv tmp
  (opt.set (i + 1) [invCip.getD 0 0],
    (roundConstants.getD (roundsFBeginning + i) []).mapIdx fun j x =>
      if j = 0 then x else x + invCip.getD j 0)

/-- `equivalent_round_constants`: without partial rounds `rounds_p - 1` panics, or wraps to an
index that does. -/
def equivalentRoundConstants (roundConstants mds : List (List Fr)) (roundsFBeginning roundsP : Nat) :
    Option (List (List Fr)) := do
  let mdsInv ← matInverse mds
  if roundsP = 0 then none
  else
    let pEnd := roundsFBeginning + roundsP - 1
    let (opt, tmp) := (List.range (roundsP - 1)).reverse.foldl
      (shiftConstant roundConstants mdsInv roundsFBeginning)
      (List.replicate roundsP [], roundConstants.getD pEnd [])
    return opt.set 0 tmp

/-- `PoseidonParams::new`, of release builds: the sum of the rounds wraps. -/
def new (t d roundsF roundsP : Nat) (mds roundConstants : List (List Fr)) :
    Except ParametersError PoseidonParams :=
  if mds.length ≠ t then .error .invalidParameters
  else if ∃ row ∈ mds, row.length ≠ t then .error .invalidParameters
  else if roundConstants.length ≠ (roundsF + roundsP) % 2 ^ 64 then .error .invalidParameters
  else if ∃ row ∈ roundConstants, row.length ≠ t then .error .invalidParameters
  else if roundsF % 2 ≠ 0 then .error .invalidParameters
  -- The sum wrapped: there are fewer constants than rounds. The constant of the last partial round
  -- is not among them, or `rounds_p` exceeds every vector's capacity.
  else if 2 ^ 64 ≤ roundsF + roundsP then .error .panicked
  else
    let r := roundsF / 2
    match equivalentMatrices mds t roundsP, equivalentRoundConstants roundConstants mds r roundsP with
    | some (mI, v, wHat), some optRoundConstants =>
      .ok {
        t, d, roundsFBeginning := r, roundsP, rounds := roundsF + roundsP, mds, roundConstants
        optRoundConstants, wHat, v, mI }
    | _, _ => .error .panicked

end PoseidonParams

end Railgun
