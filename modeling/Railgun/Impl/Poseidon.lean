import Mathlib.Tactic.Common
import Railgun.Impl.Types

/-!
# Poseidon

The vendored engine: the permutation with its optimised partial rounds, the
hash of one to thirteen inputs, each with the parameters of its own state
size, and the wrapper that takes 256-bit words modulo the scalar field. The
parameters (the constants read from `params/*.bin` and the matrices derived
from them) are a table, `PoseidonTables`: nothing in the development but a
concrete run depends on what is in it.
-/

namespace Railgun

/-- The order of the BN254 scalar field. -/
def scalarField : Nat :=
  21888242871839275222246405745257275088548364400416034343698204186575808495617

instance : NeZero scalarField := ⟨by decide⟩

/-- The BN254 scalar field, with the operations of `Fin`: those modulo its order. -/
abbrev Fr := Fin scalarField

/-- Errors of the engine (those the modelled functions raise). -/
inductive PoseidonError
  | invalidParameters
  | unsupportedInputLength (len : Nat)
  deriving DecidableEq, Repr

structure PoseidonParams where
  t : Nat
  d : Nat
  roundsFBeginning : Nat
  roundsP : Nat
  rounds : Nat
  mds : List (List Fr)
  roundConstants : List (List Fr)
  optRoundConstants : List (List Fr)
  wHat : List (List Fr)
  v : List (List Fr)
  mI : List (List Fr)

namespace PoseidonParams

variable (params : PoseidonParams)

def matVecMul (mat : List (List Fr)) (input : List Fr) : List Fr :=
  mat.map fun row => (row.zipWith (· * ·) input).foldl (· + ·) 0

def sboxP (x : Fr) : Fr :=
  match params.d with
  | 3 => x * x * x
  | 5 => let x2 := x * x; x2 * x2 * x
  | 7 => let x2 := x * x; x2 * x2 * x2 * x
  | d => (List.replicate d x).foldl (· * ·) 1

def addRc (input rc : List Fr) : List Fr := input.zipWith (· + ·) rc

/-- A full round. -/
def fullRound (state : List Fr) (r : Nat) : List Fr :=
  matVecMul params.mds ((addRc state (params.roundConstants.getD r [])).map params.sboxP)

def cheapMatmul (input : List Fr) (r : Nat) : List Fr :=
  let v := params.v.getD r []
  let wHat := params.wHat.getD r []
  match input with
  | [] => []
  | x :: rest =>
    ((wHat.zipWith (· * ·) rest).foldl (· + ·) ((params.mds.getD 0 []).getD 0 0 * x)) ::
      (v.zipWith (fun v y => x * v + y) rest)

/-- A partial round: the S-box on the first element only. -/
def partialRound (pEnd : Nat) (state : List Fr) (r : Nat) : List Fr :=
  match state with
  | [] => []
  | x :: rest =>
    let x := params.sboxP x
    let x := if r < pEnd - 1 then
      x + (params.optRoundConstants.getD (r + 1 - params.roundsFBeginning) []).getD 0 0 else x
    params.cheapMatmul (x :: rest) (pEnd - r - 1)

def permutation (input : List Fr) : Except PoseidonError (List Fr) :=
  if input.length ≠ params.t then .error .invalidParameters
  else
    let state := (List.range params.roundsFBeginning).foldl params.fullRound input
    let pEnd := params.roundsFBeginning + params.roundsP
    let state := matVecMul params.mI (addRc state (params.optRoundConstants.getD 0 []))
    let state := (List.range' params.roundsFBeginning params.roundsP).foldl
      (params.partialRound pEnd) state
    .ok ((List.range' pEnd (params.rounds - pEnd)).foldl params.fullRound state)

end PoseidonParams

/-- The parameters of each state size, two to fourteen elements. -/
structure PoseidonTables where
  params : Nat → PoseidonParams
  t_eq : ∀ t, (params t).t = t

/-- The vendored `poseidon_hash`: the capacity element, then the inputs. -/
def poseidonHash (tables : PoseidonTables) (inputs : List Fr) : Except PoseidonError Fr :=
  let state := 0 :: inputs
  if 2 ≤ state.length ∧ state.length ≤ 14 then do
    let out ← (tables.params state.length).permutation state
    return out.headD 0
  else .error (.unsupportedInputLength state.length)

def maxPoseidonInputs : Nat := 13

/-- `hash_field_inputs`: the hash of 256-bit words, each taken modulo the field. -/
def hashFieldInputs (tables : PoseidonTables) (inputs : List U256) :
    Except PoseidonError PoseidonHash :=
  if maxPoseidonInputs < inputs.length then
    .error (.unsupportedInputLength (inputs.length + 1))
  else do
    let hash ← poseidonHash tables (inputs.map fun input => Fin.ofNat scalarField input.toNat)
    return BitVec.ofNat 256 hash.val

/-- One to thirteen elements always hash. -/
theorem poseidonHash_ok (tables : PoseidonTables) (inputs : List Fr) (h : inputs ≠ [])
    (hl : inputs.length ≤ 13) : ∃ hash, poseidonHash tables inputs = .ok hash := by
  have h1 : 1 ≤ inputs.length := List.length_pos_iff.mpr h
  rw [poseidonHash]
  simp only [List.length_cons]
  rw [if_pos (by omega), PoseidonParams.permutation, if_neg]
  · exact ⟨_, rfl⟩
  · rw [tables.t_eq, List.length_cons]
    simp

/-- One to thirteen inputs always hash. -/
theorem hashFieldInputs_ok (tables : PoseidonTables) {inputs : List U256} (h : inputs ≠ [])
    (hl : inputs.length ≤ 13) : ∃ hash, hashFieldInputs tables inputs = .ok hash := by
  obtain ⟨hash, hok⟩ := poseidonHash_ok tables
    (inputs.map fun input => Fin.ofNat scalarField input.toNat) (by rwa [ne_eq, List.map_eq_nil_iff])
    (by rwa [List.length_map])
  rw [hashFieldInputs, if_neg (by rw [maxPoseidonInputs]; omega), hok]
  exact ⟨_, rfl⟩

end Railgun
