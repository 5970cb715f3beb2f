import Mathlib.Algebra.GroupWithZero.Nat
import Mathlib.Data.Nat.Digits.Lemmas
import Mathlib.Order.Lattice
import Mathlib.Tactic.Common

/-!
# Positional numbers

The number that digits spell, most significant first (`value`), and the loop
that finds it in a machine word with a check at every step (`mulAdd`): it fails
exactly when the number does not fit (`foldlM_mulAdd`). The digits of a number
are those that spell it but for leading zeros (`digits_value`).
-/

namespace Positional

/-- The number that digits spell in a base, most significant first. -/
def value (base : Nat) (ds : List Nat) : Nat := Nat.ofDigits base ds.reverse

theorem value_nil (base : Nat) : value base [] = 0 := rfl

theorem value_append_singleton (base : Nat) (ds : List Nat) (d : Nat) :
    value base (ds ++ [d]) = base * value base ds + d := by
  rw [value, List.reverse_append, List.reverse_singleton, List.singleton_append, Nat.ofDigits_cons,
    Nat.add_comm, value]

/-- A leading zero counts for nothing. -/
theorem value_zero_cons (base : Nat) (ds : List Nat) : value base (0 :: ds) = value base ds := by
  rw [value, List.reverse_cons, Nat.ofDigits_append_zero, value]

theorem value_dropWhile (base : Nat) : ∀ ds : List Nat,
    value base (ds.dropWhile (· = 0)) = value base ds
  | [] => rfl
  | d :: ds => by
    rw [List.dropWhile_cons]
    by_cases hd : d = 0
    · rw [if_pos (decide_eq_true hd), value_dropWhile base ds, hd, value_zero_cons]
    · rw [if_neg (by simpa using hd)]

/-- The digits of what digits spell are those, from the first that is not zero. -/
theorem digits_value {base : Nat} (hb : 1 < base) {ds : List Nat} (hds : ∀ d ∈ ds, d < base) :
    (Nat.digits base (value base ds)).reverse = ds.dropWhile (· = 0) := by
  rw [← value_dropWhile, value, Nat.digits_ofDigits base hb _ (fun d hd => ?_) (fun hne => ?_),
    List.reverse_reverse]
  · exact hds d ((List.dropWhile_sublist _).subset (List.mem_reverse.mp hd))
  · rw [List.getLast_reverse]
    have := List.head_dropWhile_not (fun d : Nat => decide (d = 0)) (List.reverse_ne_nil_iff.mp hne)
    simpa using this

/-- What the digits of a number spell. -/
theorem value_digits (base n : Nat) : value base (Nat.digits base n).reverse = n := by
  rw [value, List.reverse_reverse, Nat.ofDigits_digits]

/-! ## Checked words -/

section
variable {w : Nat}

def checkedMul (a b : BitVec w) : Option (BitVec w) :=
  if a.toNat * b.toNat < 2 ^ w then some (a * b) else none

def checkedAdd (a b : BitVec w) : Option (BitVec w) :=
  if a.toNat + b.toNat < 2 ^ w then some (a + b) else none

/-- Another digit: `v.checked_mul(base)`, then `checked_add(d)`. -/
def mulAdd (base v d : BitVec w) : Option (BitVec w) := (checkedMul v base).bind (checkedAdd · d)

theorem mulAdd_eq_some {base v d v' : BitVec w} :
    mulAdd base v d = some v' ↔ v'.toNat = base.toNat * v.toNat + d.toNat := by
  have hv' := v'.isLt
  rw [mulAdd, checkedMul, Nat.mul_comm base.toNat]
  constructor
  · intro h
    split at h
    · rename_i hmul
      rw [Option.bind_some, checkedAdd, BitVec.toNat_mul, Nat.mod_eq_of_lt hmul] at h
      split at h
      · rename_i hadd
        rw [← Option.some.inj h, BitVec.toNat_add, BitVec.toNat_mul, Nat.mod_eq_of_lt hmul,
          Nat.mod_eq_of_lt hadd]
      · cases h
    · cases h
  · intro h
    have hmul : v.toNat * base.toNat < 2 ^ w := by omega
    rw [if_pos hmul, Option.bind_some, checkedAdd, BitVec.toNat_mul, Nat.mod_eq_of_lt hmul,
      if_pos (by omega), Option.some.injEq]
    refine BitVec.eq_of_toNat_eq ?_
    rw [BitVec.toNat_add, BitVec.toNat_mul, Nat.mod_eq_of_lt hmul, Nat.mod_eq_of_lt (by omega), h]

/-- The loop finds the number if it fits the word, and fails if not: a number
is at least the one its first digits spell. -/
theorem foldlM_mulAdd {base : BitVec w} (hb : 0 < base.toNat) (ds : List (BitVec w)) {v : BitVec w} :
    ds.foldlM (mulAdd base) 0#w = some v ↔ v.toNat = value base.toNat (ds.map BitVec.toNat) := by
  induction ds using List.reverseRecOn generalizing v with
  | nil =>
    rw [List.foldlM_nil, Option.pure_def, Option.some.injEq, List.map_nil, value_nil, eq_comm]
    exact ⟨fun h => h ▸ rfl, fun h => BitVec.eq_of_toNat_eq h⟩
  | append_singleton ds d ih =>
    rw [List.foldlM_append, Option.bind_eq_bind, Option.bind_eq_some_iff, List.map_append,
      List.map_singleton, value_append_singleton]
    simp only [List.foldlM_cons, List.foldlM_nil, bind_pure]
    constructor
    · rintro ⟨u, hu, h⟩
      rw [mulAdd_eq_some.mp h, ih.mp hu]
    · intro h
      have hlt : value base.toNat (ds.map BitVec.toNat) < 2 ^ w := by
        have hle := Nat.le_mul_of_pos_left (value base.toNat (ds.map BitVec.toNat)) hb
        have := v.isLt
        omega
      have hu : (BitVec.ofNat w (value base.toNat (ds.map BitVec.toNat))).toNat =
          value base.toNat (ds.map BitVec.toNat) := by
        rw [BitVec.toNat_ofNat, Nat.mod_eq_of_lt hlt]
      exact ⟨_, ih.mpr hu, mulAdd_eq_some.mpr (by rw [h, hu])⟩

end

end Positional
