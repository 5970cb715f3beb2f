import Mathlib.FieldTheory.Finite.Basic
import Railgun.Framework.Edwards
import Railgun.Framework.Ladder

/-!
# Ed25519

The complete twisted Edwards curve with `a = -1` over the integers modulo
`2^255 - 19` (`modulus_prime`), and its base point, whose order divides a prime
(`order_base`). A point is compressed to its second coordinate and the parity of
its first, which is found again by a root that is a power
(`decompress_compress`).
-/

namespace Ed25519

open Ladder Edwards

/-! ## The field -/

def modulus : Nat := 2 ^ 255 - 19

/-- Lucas's test for the modulus, and for the primes it rests on. -/
def certificates : List Certificate :=
  [⟨2 ^ 255 - 19, 2, [(2, 2), (3, 1), (65147, 1),
      (74058212732561358302231226437062788676166966415465897661863160754340907, 1)]⟩,
    ⟨74058212732561358302231226437062788676166966415465897661863160754340907, 2, [(2, 1), (3, 1),
      (353, 1), (57467, 1), (132049, 1), (1923133, 1), (31757755568855353, 1),
      (75445702479781427272750846543864801, 1)]⟩,
    ⟨75445702479781427272750846543864801, 7, [(2, 5), (3, 2), (5, 2), (75707, 1), (72106336199, 1),
      (1919519569386763, 1)]⟩,
    ⟨31757755568855353, 10, [(2, 3), (3, 1), (31, 1), (107, 1), (223, 1), (4153, 1), (430751, 1)]⟩,
    ⟨1919519569386763, 2, [(2, 1), (3, 1), (7, 1), (19, 1), (47, 2), (127, 1), (8574133, 1)]⟩,
    ⟨72106336199, 7, [(2, 1), (13, 1), (2773320623, 1)]⟩,
    ⟨2773320623, 5, [(2, 1), (2437, 1), (569003, 1)]⟩,
    ⟨8574133, 2, [(2, 2), (3, 1), (7, 1), (103, 1), (991, 1)]⟩,
    ⟨1923133, 2, [(2, 2), (3, 1), (43, 1), (3727, 1)]⟩,
    ⟨569003, 2, [(2, 1), (7, 1), (97, 1), (419, 1)]⟩, ⟨430751, 17, [(2, 1), (5, 3), (1723, 1)]⟩,
    ⟨132049, 26, [(2, 4), (3, 2), (7, 1), (131, 1)]⟩, ⟨75707, 2, [(2, 1), (37853, 1)]⟩,
    ⟨65147, 2, [(2, 1), (32573, 1)]⟩, ⟨57467, 2, [(2, 1), (59, 1), (487, 1)]⟩,
    ⟨37853, 2, [(2, 2), (9463, 1)]⟩, ⟨32573, 2, [(2, 2), (17, 1), (479, 1)]⟩,
    ⟨9463, 3, [(2, 1), (3, 1), (19, 1), (83, 1)]⟩, ⟨4153, 5, [(2, 3), (3, 1), (173, 1)]⟩,
    ⟨3727, 3, [(2, 1), (3, 4), (23, 1)]⟩, ⟨2437, 2, [(2, 2), (3, 1), (7, 1), (29, 1)]⟩,
    ⟨1723, 3, [(2, 1), (3, 1), (7, 1), (41, 1)]⟩, ⟨991, 6, [(2, 1), (3, 2), (5, 1), (11, 1)]⟩,
    ⟨487, 3, [(2, 1), (3, 5)]⟩, ⟨479, 13, [(2, 1), (239, 1)]⟩, ⟨419, 2, [(2, 1), (11, 1), (19, 1)]⟩,
    ⟨353, 3, [(2, 5), (11, 1)]⟩, ⟨239, 7, [(2, 1), (7, 1), (17, 1)]⟩,
    ⟨223, 3, [(2, 1), (3, 1), (37, 1)]⟩, ⟨173, 2, [(2, 2), (43, 1)]⟩,
    ⟨131, 2, [(2, 1), (5, 1), (13, 1)]⟩, ⟨127, 3, [(2, 1), (3, 2), (7, 1)]⟩,
    ⟨107, 2, [(2, 1), (53, 1)]⟩, ⟨103, 5, [(2, 1), (3, 1), (17, 1)]⟩, ⟨97, 5, [(2, 5), (3, 1)]⟩,
    ⟨83, 2, [(2, 1), (41, 1)]⟩, ⟨59, 2, [(2, 1), (29, 1)]⟩, ⟨53, 2, [(2, 2), (13, 1)]⟩,
    ⟨47, 5, [(2, 1), (23, 1)]⟩, ⟨43, 3, [(2, 1), (3, 1), (7, 1)]⟩, ⟨41, 6, [(2, 3), (5, 1)]⟩,
    ⟨37, 2, [(2, 2), (3, 2)]⟩, ⟨31, 3, [(2, 1), (3, 1), (5, 1)]⟩, ⟨29, 2, [(2, 2), (7, 1)]⟩,
    ⟨23, 5, [(2, 1), (11, 1)]⟩, ⟨19, 2, [(2, 1), (3, 2)]⟩, ⟨17, 3, [(2, 4)]⟩,
    ⟨13, 2, [(2, 2), (3, 1)]⟩, ⟨11, 2, [(2, 1), (5, 1)]⟩, ⟨7, 3, [(2, 1), (3, 1)]⟩, ⟨5, 2, [(2, 2)]⟩,
    ⟨3, 2, [(2, 1)]⟩, ⟨2, 1, []⟩]

theorem modulus_prime : modulus.Prime :=
  have hcert : Certified certificates := by decide +kernel
  hcert.prime modulus List.mem_cons_self

instance : Fact modulus.Prime := ⟨modulus_prime⟩

/-! ## The curve -/

/-- A root of -1. -/
def rootMinusOne : Nat := 19681161376707505956807079304988542015446066515923890162744021073123829784752

/-- -121665 / 121666. -/
def d : Nat := 37095705934669439343138083508754565189542113879843219016388785533085940283555

theorem sq_rootMinusOne : (rootMinusOne : ZMod modulus) ^ 2 = -1 := by
  have h : ((rootMinusOne ^ 2 + 1 : Nat) : ZMod modulus) = (0 : Nat) := by
    rw [ZMod.natCast_eq_natCast_iff']
    decide +kernel
  rw [Nat.cast_add, Nat.cast_pow, Nat.cast_one, Nat.cast_zero] at h
  exact eq_neg_of_add_eq_zero_left h

/-- To the power of half the group's order it is -1. -/
theorem not_isSquare_d : ¬ IsSquare (d : ZMod modulus) := by
  rintro ⟨t, ht⟩
  have ht₀ : t ≠ 0 := by
    rintro rfl
    rw [zero_mul, ZMod.natCast_eq_zero_iff] at ht
    exact absurd (Nat.mod_eq_zero_of_dvd ht) (by decide +kernel)
  have hhalf : 2 * ((modulus - 1) / 2) = modulus - 1 := by decide
  have hpow : (powMod modulus 255 d ((modulus - 1) / 2) : ZMod modulus) = (1 : Nat) := by
    rw [powMod_eq (by decide), ht, ← sq, ← pow_mul, hhalf, ZMod.pow_card_sub_one_eq_one ht₀, Nat.cast_one]
  rw [ZMod.natCast_eq_natCast_iff'] at hpow
  exact absurd hpow (by decide +kernel)

theorem two_ne_zero : (2 : ZMod modulus) ≠ 0 := fun h => by
  have h : ((2 : Nat) : ZMod modulus) = (0 : Nat) := by simpa using h
  rw [ZMod.natCast_eq_natCast_iff'] at h
  exact absurd h (by decide)

def curve : Curve (ZMod modulus) where
  a := -1
  d := d
  isSquare_a := ⟨rootMinusOne, by rw [← sq, sq_rootMinusOne]⟩
  not_isSquare_d := not_isSquare_d
  two_ne_zero := two_ne_zero

/-! ## The base point -/

def baseX : Nat := 15112221349535400772501151409588531511454012693041857206046113283949847762202
def baseY : Nat := 46316835694926478169428394003475163141307993866256225615783033603165251855960

def base : Point curve where
  x := baseX
  y := baseY
  onCurve := by
    have h : ((baseY ^ 2 : Nat) : ZMod modulus) =
        ((baseX ^ 2 + 1 + d * baseX ^ 2 * baseY ^ 2 : Nat) : ZMod modulus) := by
      rw [ZMod.natCast_eq_natCast_iff']
      decide +kernel
    push_cast at h
    show -1 * (baseX : ZMod modulus) ^ 2 + (baseY : ZMod modulus) ^ 2 =
      1 + d * (baseX : ZMod modulus) ^ 2 * (baseY : ZMod modulus) ^ 2
    linear_combination h

/-- Residues that are projective coordinates. -/
structure Coordinates where
  x : Nat
  y : Nat
  z : Nat

def Coordinates.Is (p : Coordinates) (P : Point curve) : Prop :=
  Represents (p.x : ZMod modulus) p.y p.z P

def Coordinates.add (p q : Coordinates) : Coordinates :=
  let xx := p.x * q.x % modulus
  let yy := p.y * q.y % modulus
  let zz := p.z * q.z % modulus
  let minus := (zz ^ 2 + (modulus - d) * (xx * yy)) % modulus
  let plus := (zz ^ 2 + d * (xx * yy)) % modulus
  ⟨zz * minus * (p.x * q.y + p.y * q.x) % modulus, zz * plus * (yy + xx) % modulus,
    minus * plus % modulus⟩

theorem Coordinates.Is.add {p q : Coordinates} {P Q : Point curve} (hp : p.Is P) (hq : q.Is Q) :
    (p.add q).Is (P + Q) := by
  have h := Represents.add hp hq
  have hneg : ((modulus - d : Nat) : ZMod modulus) = -d := by
    rw [Nat.cast_sub (by decide), ZMod.natCast_self, zero_sub]
  simp only [Coordinates.Is, Coordinates.add, ZMod.natCast_mod, Nat.cast_mul, Nat.cast_add, Nat.cast_pow,
    hneg]
  convert h using 1 <;> simp only [curve] <;> ring

/-- The order of the base point, a prime. -/
def order : Nat := 2 ^ 252 + 27742317777372353535851937790883648493

def orderLadder : Coordinates := ladder Coordinates.add 253 order ⟨0, 1, 1⟩ ⟨baseX, baseY, 1⟩

theorem orderLadder_neutral : orderLadder.x = 0 ∧ orderLadder.y = orderLadder.z := by
  decide +kernel

theorem order_base : order • base = 0 := by
  have hzero : Coordinates.Is ⟨0, 1, 1⟩ (0 : Point curve) := by
    simpa [Coordinates.Is] using represents_zero (C := curve)
  have hbase : Coordinates.Is ⟨baseX, baseY, 1⟩ base := by
    simpa [Coordinates.Is, base] using represents_affine base
  have h : orderLadder.Is (order • base) := by
    have h := ladder_represents Coordinates.Is.add (k := 253) (n := order) (by decide) hzero hbase
    rwa [zero_add] at h
  obtain ⟨hz, hx, hy⟩ := h
  obtain ⟨hx₀, hyz⟩ := orderLadder_neutral
  rw [hx₀, Nat.cast_zero, zero_eq_mul] at hx
  rw [hyz] at hy
  exact Point.ext (hx.resolve_right hz) (mul_right_cancel₀ hz (hy.symm.trans (one_mul _).symm))

/-! ## Compressed points -/

/-- The second coordinate, and above it the parity of the first. -/
def compress (P : Point curve) : BitVec 256 := BitVec.ofNat 256 (P.y.val + 2 ^ 255 * (P.x.val % 2))

/-- A first coordinate for the second, if there is one. -/
def candidate (y : ZMod modulus) : ZMod modulus :=
  let u := y ^ 2 - 1
  let v := d * y ^ 2 + 1
  let r := u * v ^ 3 * (u * v ^ 7) ^ ((modulus - 5) / 8)
  if v * r ^ 2 = u then r else r * rootMinusOne

def decompress (word : BitVec 256) : Option (Point curve) :=
  let y : ZMod modulus := (word.toNat % 2 ^ 255 : Nat)
  let x := if (candidate y).val % 2 = word.toNat / 2 ^ 255 then candidate y else -candidate y
  if h : curve.a * x ^ 2 + y ^ 2 = 1 + curve.d * x ^ 2 * y ^ 2 then some ⟨x, y, h⟩ else none

/-- The square of the candidate is that of the coordinate of a point. -/
theorem sq_candidate (P : Point curve) : candidate P.y ^ 2 = P.x ^ 2 := by
  obtain ⟨x, y, hcurve⟩ := P
  have hcurve : -1 * x ^ 2 + y ^ 2 = 1 + d * x ^ 2 * y ^ 2 := hcurve
  have hv : (d : ZMod modulus) * y ^ 2 + 1 ≠ 0 := fun h => by
    have hy : y ≠ 0 := by
      rintro rfl
      simp at h
    refine not_isSquare_d ⟨rootMinusOne / y, ?_⟩
    rw [div_mul_div_comm, ← sq, ← sq, sq_rootMinusOne, eq_div_iff (pow_ne_zero 2 hy)]
    exact eq_neg_of_add_eq_zero_left h
  have hu : y ^ 2 - 1 = (d * y ^ 2 + 1) * x ^ 2 := by linear_combination hcurve
  simp only [candidate, hu]
  generalize (d : ZMod modulus) * y ^ 2 + 1 = v at hv
  -- The power is one of `x`: what there is of `v` has the order of the group for its exponent.
  have hk : 8 * ((modulus - 5) / 8) + 4 = modulus - 1 := by decide
  have hhalf : 4 * ((modulus - 5) / 8) + 2 + (4 * ((modulus - 5) / 8) + 2) = modulus - 1 := by decide
  generalize (modulus - 5) / 8 = k at hk hhalf
  have hpow : v * x ^ 2 * v ^ 3 * (v * x ^ 2 * v ^ 7) ^ k = x ^ (2 * k + 2) := by
    have hone : v ^ (8 * k + 4) = 1 := by rw [hk, ZMod.pow_card_sub_one_eq_one hv]
    calc v * x ^ 2 * v ^ 3 * (v * x ^ 2 * v ^ 7) ^ k = v ^ (8 * k + 4) * x ^ (2 * k + 2) := by
          rw [show v * x ^ 2 * v ^ 7 = v ^ 8 * x ^ 2 by ring, mul_pow, ← pow_mul, ← pow_mul, pow_add,
            pow_add]
          ring
      _ = x ^ (2 * k + 2) := by rw [hone, one_mul]
  rw [hpow]
  by_cases hx : x = 0
  · simp [hx]
  have hsq : (x ^ (2 * k + 2)) ^ 2 = x ^ (4 * k + 2) * x ^ 2 := by ring
  have hunit : (x ^ (4 * k + 2)) ^ 2 = 1 := by
    rw [sq, ← pow_add, hhalf, ZMod.pow_card_sub_one_eq_one hx]
  rcases mul_self_eq_one_iff.mp ((sq _).symm.trans hunit) with h | h
  · rw [hsq, h, one_mul, if_pos rfl, hsq, h, one_mul]
  · have hne : v * (x ^ (2 * k + 2)) ^ 2 ≠ v * x ^ 2 := by
      rw [hsq, h]
      intro he
      have hzero : 2 * (v * x ^ 2) = 0 := by linear_combination -he
      exact mul_ne_zero two_ne_zero (mul_ne_zero hv (pow_ne_zero 2 hx)) hzero
    rw [if_neg hne, mul_pow, sq_rootMinusOne, hsq, h]
    ring

/-- A compressed point is decompressed to the point. -/
theorem decompress_compress (P : Point curve) : decompress (compress P) = some P := by
  have hlt : modulus < 2 ^ 255 := by decide
  have hy := ZMod.val_lt P.y
  have hword : (compress P).toNat = P.y.val + 2 ^ 255 * (P.x.val % 2) := by
    rw [compress, BitVec.toNat_ofNat, Nat.mod_eq_of_lt (by omega)]
  have hlow : (((compress P).toNat % 2 ^ 255 : Nat) : ZMod modulus) = P.y := by
    rw [hword, Nat.add_mul_mod_self_left, Nat.mod_eq_of_lt (by omega), ZMod.natCast_zmod_val]
  have hhigh : (compress P).toNat / 2 ^ 255 = P.x.val % 2 := by omega
  have hroot : (if (candidate P.y).val % 2 = P.x.val % 2 then candidate P.y else -candidate P.y) = P.x := by
    rcases sq_eq_sq_iff_eq_or_eq_neg.mp (sq_candidate P) with h | h
    · rw [h, if_pos rfl]
    · by_cases hx : P.x = 0
      · rw [h, hx, neg_zero, if_pos rfl]
      · -- The modulus is odd, so the negative of an element has the other parity.
        have hodd : modulus % 2 = 1 := by decide
        have hval : (-P.x).val = modulus - P.x.val := by
          rw [ZMod.neg_val, if_neg hx]
        have hpos : P.x.val ≠ 0 := fun h₀ => hx ((ZMod.val_eq_zero P.x).mp h₀)
        have := ZMod.val_lt P.x
        rw [h, if_neg (by rw [hval]; omega), neg_neg]
  simp only [decompress, hlow, hhigh, hroot]
  exact dif_pos P.onCurve

end Ed25519
