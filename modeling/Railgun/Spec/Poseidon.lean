import Railgun.Impl.Poseidon

/-!
# The plain permutation

The permutation by its definition: in every round the constants of the round,
the S-box, on all elements or in a partial round on the first one, and the
matrix. Neither the sparse matrices nor the shifted constants occur in it, and
none of the engine's own steps.
-/

namespace Railgun.PoseidonParams

/-- A power, by repeated multiplication. -/
def power (x : Fr) : Nat → Fr
  | 0 => 1
  | d + 1 => power x d * x

variable (params : PoseidonParams)

/-- The rounds in the middle are partial. -/
def IsPartial (r : Nat) : Prop :=
  params.roundsFBeginning ≤ r ∧ r < params.roundsFBeginning + params.roundsP

instance (r : Nat) : Decidable (params.IsPartial r) := inferInstanceAs (Decidable (_ ∧ _))

/-- The S-box, the power of exponent `d`: in a partial round of the first element only. -/
def plainSbox (r i : Nat) (x : Fr) : Fr :=
  if params.IsPartial r ∧ 0 < i then x else power x params.d

def plainRound (state : List Fr) (r : Nat) : List Fr :=
  let state := state.mapIdx fun i x =>
    params.plainSbox r i (x + (params.roundConstants.getD r []).getD i 0)
  params.mds.map fun row => (row.mapIdx fun j m => m * state.getD j 0).foldr (· + ·) 0

def plainPermutation (input : List Fr) : List Fr :=
  (List.range params.rounds).foldl params.plainRound input

end Railgun.PoseidonParams
