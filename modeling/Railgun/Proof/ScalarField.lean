import Mathlib.FieldTheory.Finite.Basic
import Mathlib.Tactic.NormNum.Prime
import Railgun.Framework.Edwards
import Railgun.Framework.Ladder
import Railgun.Impl.BabyJubJub

/-!
# The scalar field

The order of the scalar field is prime (`scalarField_prime`), so its elements
are those of a field (`toField`), over which Baby Jubjub is a complete twisted
Edwards curve (`babyJubJub`): 168700 is a square and 168696 is not.
-/

namespace Railgun.BabyJubJub

open Ladder

/-! ## The order -/

/-- Lucas's test for the order, and for the primes it rests on. -/
def certificates : List Certificate :=
  [⟨scalarField, 5, [(2, 28), (3, 2), (13, 1), (29, 1), (983, 1), (11003, 1),
      (237073, 1), (405928799, 1), (1670836401704629, 1), (13818364434197438864469338081, 1)]⟩,
    ⟨13818364434197438864469338081, 3, [(2, 5), (5, 1), (823, 1), (1593227, 1), (65865678001877903, 1)]⟩,
    ⟨65865678001877903, 5, [(2, 1), (83, 1), (379, 1), (1637, 1), (639533339, 1)]⟩,
    ⟨1670836401704629, 2, [(2, 2), (3, 4), (5156902474397, 1)]⟩,
    ⟨5156902474397, 2, [(2, 2), (107, 1), (12048837557, 1)]⟩,
    ⟨12048837557, 2, [(2, 2), (7, 2), (661, 1), (93001, 1)]⟩,
    ⟨639533339, 2, [(2, 1), (229, 1), (853, 1), (1637, 1)]⟩,
    ⟨405928799, 22, [(2, 1), (11, 1), (3691, 1), (4999, 1)]⟩,
    ⟨1593227, 2, [(2, 1), (19, 1), (41927, 1)]⟩, ⟨237073, 15, [(2, 4), (3, 1), (11, 1), (449, 1)]⟩,
    ⟨93001, 14, [(2, 3), (3, 1), (5, 3), (31, 1)]⟩, ⟨41927, 5, [(2, 1), (20963, 1)]⟩,
    ⟨20963, 2, [(2, 1), (47, 1), (223, 1)]⟩, ⟨11003, 2, [(2, 1), (5501, 1)]⟩,
    ⟨5501, 2, [(2, 2), (5, 3), (11, 1)]⟩, ⟨4999, 3, [(2, 1), (3, 1), (7, 2), (17, 1)]⟩,
    ⟨3691, 2, [(2, 1), (3, 2), (5, 1), (41, 1)]⟩, ⟨1637, 2, [(2, 2), (409, 1)]⟩,
    ⟨983, 5, [(2, 1), (491, 1)]⟩, ⟨853, 2, [(2, 2), (3, 1), (71, 1)]⟩,
    ⟨823, 3, [(2, 1), (3, 1), (137, 1)]⟩, ⟨661, 2, [(2, 2), (3, 1), (5, 1), (11, 1)]⟩,
    ⟨491, 2, [(2, 1), (5, 1), (7, 2)]⟩, ⟨449, 3, [(2, 6), (7, 1)]⟩,
    ⟨409, 21, [(2, 3), (3, 1), (17, 1)]⟩, ⟨379, 2, [(2, 1), (3, 3), (7, 1)]⟩,
    ⟨229, 6, [(2, 2), (3, 1), (19, 1)]⟩, ⟨223, 3, [(2, 1), (3, 1), (37, 1)]⟩,
    ⟨137, 3, [(2, 3), (17, 1)]⟩, ⟨107, 2, [(2, 1), (53, 1)]⟩, ⟨83, 2, [(2, 1), (41, 1)]⟩,
    ⟨71, 7, [(2, 1), (5, 1), (7, 1)]⟩, ⟨53, 2, [(2, 2), (13, 1)]⟩, ⟨47, 5, [(2, 1), (23, 1)]⟩,
    ⟨41, 6, [(2, 3), (5, 1)]⟩, ⟨37, 2, [(2, 2), (3, 2)]⟩, ⟨31, 3, [(2, 1), (3, 1), (5, 1)]⟩,
    ⟨29, 2, [(2, 2), (7, 1)]⟩, ⟨23, 5, [(2, 1), (11, 1)]⟩, ⟨19, 2, [(2, 1), (3, 2)]⟩,
    ⟨17, 3, [(2, 4)]⟩, ⟨13, 2, [(2, 2), (3, 1)]⟩, ⟨11, 2, [(2, 1), (5, 1)]⟩,
    ⟨7, 3, [(2, 1), (3, 1)]⟩, ⟨5, 2, [(2, 2)]⟩, ⟨3, 2, [(2, 1)]⟩, ⟨2, 1, []⟩]

/-- The order of the scalar field is prime. -/
theorem scalarField_prime : scalarField.Prime :=
  have hcert : Certified certificates := by decide +kernel
  hcert.prime scalarField List.mem_cons_self

instance : Fact scalarField.Prime := ⟨scalarField_prime⟩

/-! ## Elements -/

/-- An element of the scalar field. -/
def toField (x : Fr) : ZMod scalarField := (x.val : ZMod scalarField)

theorem toField_ofNat (n : Nat) : toField (Fin.ofNat scalarField n) = (n : ZMod scalarField) :=
  ZMod.natCast_mod n scalarField

theorem toField_zero : toField 0 = 0 := Nat.cast_zero

theorem toField_one : toField 1 = 1 := Nat.cast_one

theorem toField_add (x y : Fr) : toField (x + y) = toField x + toField y := by
  rw [toField, Fin.val_add, ZMod.natCast_mod, Nat.cast_add, toField, toField]

theorem toField_mul (x y : Fr) : toField (x * y) = toField x * toField y := by
  rw [toField, Fin.val_mul, ZMod.natCast_mod, Nat.cast_mul, toField, toField]

theorem toField_sub (x y : Fr) : toField (x - y) = toField x - toField y := by
  have h : toField (x - y) + toField y = toField x := by
    rw [← toField_add, sub_add_cancel]
  exact eq_sub_of_add_eq h

theorem toField_injective {x y : Fr} (h : toField x = toField y) : x = y := by
  rw [toField, toField, ZMod.natCast_eq_natCast_iff', Nat.mod_eq_of_lt x.isLt, Nat.mod_eq_of_lt y.isLt] at h
  exact Fin.ext h

theorem toField_ne_zero {x : Fr} (h : x ≠ 0) : toField x ≠ 0 := fun h₀ =>
  h (toField_injective (h₀.trans toField_zero.symm))

/-- The inverse is found by the extended Euclidean algorithm. -/
theorem toField_inverse {x : Fr} (h : x ≠ 0) : toField (inverse x) = (toField x)⁻¹ := by
  have hpos : 0 < x.val := Nat.pos_of_ne_zero fun h₀ => h (Fin.ext h₀)
  have hgcd : Nat.gcd x.val scalarField = 1 :=
    Nat.coprime_comm.mp (Nat.coprime_of_lt_prime (Nat.ne_of_gt hpos) x.isLt scalarField_prime)
  have hmod : 0 ≤ Nat.gcdA x.val scalarField % scalarField := Int.emod_nonneg _ (by decide)
  have hbezout := congrArg (Int.cast : Int → ZMod scalarField) (Nat.gcd_eq_gcd_ab x.val scalarField)
  simp only [hgcd, Nat.cast_one, Int.cast_one, Int.cast_add, Int.cast_mul, Int.cast_natCast,
    ZMod.natCast_self, zero_mul, add_zero] at hbezout
  refine eq_inv_of_mul_eq_one_right ?_
  rw [inverse, toField_ofNat, ← Int.cast_natCast (R := ZMod scalarField), Int.toNat_of_nonneg hmod,
    ZMod.intCast_mod, toField]
  exact hbezout.symm

/-! ## The curve -/

theorem isSquare_a : IsSquare (toField (frFromU64 A)) := by
  have h : frFromU64 A = (7214280148105020021932206872019688659210616427216992810330019057549499971851 : Fr) *
      (7214280148105020021932206872019688659210616427216992810330019057549499971851 : Fr) := by
    decide +kernel
  exact ⟨_, (congrArg toField h).trans (toField_mul _ _)⟩

/-- 168696 is not a square: to the power of half the group's order it is -1. -/
theorem not_isSquare_d : ¬ IsSquare (toField (frFromU64 D)) := by
  rintro ⟨t, ht⟩
  have hd : toField (frFromU64 D) = (D.toNat : ZMod scalarField) := toField_ofNat _
  have ht₀ : t ≠ 0 := fun h₀ => toField_ne_zero (x := frFromU64 D) (by decide +kernel) (by rw [ht, h₀, zero_mul])
  have hhalf : 2 * ((scalarField - 1) / 2) = scalarField - 1 := by decide
  have hpow : (powMod scalarField 256 D.toNat ((scalarField - 1) / 2) : ZMod scalarField) = (1 : Nat) := by
    rw [powMod_eq (by decide), ← hd, ht, ← sq, ← pow_mul, hhalf, ZMod.pow_card_sub_one_eq_one ht₀,
      Nat.cast_one]
  rw [ZMod.natCast_eq_natCast_iff'] at hpow
  exact absurd hpow (by decide +kernel)

/-- Baby Jubjub. -/
def babyJubJub : Edwards.Curve (ZMod scalarField) where
  a := toField (frFromU64 A)
  d := toField (frFromU64 D)
  isSquare_a := isSquare_a
  not_isSquare_d := not_isSquare_d
  two_ne_zero := toField_ne_zero (x := 2) (by decide)

end Railgun.BabyJubJub
