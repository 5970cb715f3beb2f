import Mathlib.Algebra.Field.Basic
import Mathlib.Algebra.Group.Even
import Mathlib.Algebra.GroupWithZero.Nat
import Mathlib.Order.Lattice
import Mathlib.Tactic.FieldSimp
import Mathlib.Tactic.LinearCombination
import Mathlib.Tactic.Ring

/-!
# Complete twisted Edwards curves

The points of `a x² + y² = 1 + d x² y²` over a field in which `a` is a square
and `d` is not. No denominator of the addition law vanishes on them
(`sq_ne_one`), so they are a commutative group; and on projective coordinates
the law needs no division (`Represents.add`).
-/

namespace Edwards

variable {F : Type*} [Field F]

/-- The coefficients of a complete curve. -/
structure Curve (F : Type*) [Field F] where
  a : F
  d : F
  isSquare_a : IsSquare a
  not_isSquare_d : ¬ IsSquare d
  two_ne_zero : (2 : F) ≠ 0

@[ext]
structure Point (C : Curve F) where
  x : F
  y : F
  onCurve : C.a * x ^ 2 + y ^ 2 = 1 + C.d * x ^ 2 * y ^ 2

variable {C : Curve F}

/-! ## Completeness -/

/-- No two points make a denominator vanish. -/
theorem sq_ne_one (P Q : Point C) : (C.d * P.x * Q.x * P.y * Q.y) ^ 2 ≠ 1 := by
  obtain ⟨x₁, y₁, h₁⟩ := P
  obtain ⟨x₂, y₂, h₂⟩ := Q
  obtain ⟨s, hs⟩ := C.isSquare_a
  intro h
  simp only at h
  have hne : C.d * x₁ * x₂ * y₁ * y₂ ≠ 0 := fun h₀ => by
    rw [h₀] at h
    norm_num at h
  have hx₁ : x₁ ≠ 0 := fun h₀ => hne (by rw [h₀]; ring)
  have hy₁ : y₁ ≠ 0 := fun h₀ => hne (by rw [h₀]; ring)
  have hy₂ : y₂ ≠ 0 := fun h₀ => hne (by rw [h₀]; ring)
  rw [hs] at h₁ h₂
  -- `d` is no quotient of squares, so a square that is `d` times another is zero.
  have hzero : ∀ t u : F, t ^ 2 = C.d * (x₁ * y₁ * u) ^ 2 → u = 0 := by
    intro t u ht
    by_contra hu
    have hw : x₁ * y₁ * u ≠ 0 := mul_ne_zero (mul_ne_zero hx₁ hy₁) hu
    refine C.not_isSquare_d ⟨t / (x₁ * y₁ * u), ?_⟩
    rw [div_mul_div_comm, eq_div_iff (mul_ne_zero hw hw)]
    linear_combination -ht
  have hplus : s * x₂ + y₂ = 0 := hzero (s * x₁ + C.d * x₁ * x₂ * y₁ * y₂ * y₁) _ (by
    linear_combination h₁ + (y₁ ^ 2 - 1) * h - C.d * x₁ ^ 2 * y₁ ^ 2 * h₂)
  have hminus : s * x₂ - y₂ = 0 := hzero (s * x₁ - C.d * x₁ * x₂ * y₁ * y₂ * y₁) _ (by
    linear_combination h₁ + (y₁ ^ 2 - 1) * h - C.d * x₁ ^ 2 * y₁ ^ 2 * h₂)
  have hdouble : 2 * y₂ = 0 := by linear_combination hplus - hminus
  exact (mul_ne_zero C.two_ne_zero hy₂) hdouble

theorem one_add_ne_zero (P Q : Point C) : 1 + C.d * P.x * Q.x * P.y * Q.y ≠ 0 := fun h =>
  sq_ne_one P Q (by linear_combination (C.d * P.x * Q.x * P.y * Q.y - 1) * h)

theorem one_sub_ne_zero (P Q : Point C) : 1 - C.d * P.x * Q.x * P.y * Q.y ≠ 0 := fun h =>
  sq_ne_one P Q (by linear_combination -(C.d * P.x * Q.x * P.y * Q.y + 1) * h)

/-! ## The group -/

section
variable {a d A B u v x y : F}

/-- A quotient on the curve, without its denominators. -/
theorem onCurve_div (hu : u ≠ 0) (hv : v ≠ 0)
    (h : a * (A * v) ^ 2 + (B * u) ^ 2 = (u * v) ^ 2 + d * A ^ 2 * B ^ 2) :
    a * (A / u) ^ 2 + (B / v) ^ 2 = 1 + d * (A / u) ^ 2 * (B / v) ^ 2 := by
  field_simp
  linear_combination h

/-- The first coordinate of a sum with a quotient, in one fraction. -/
theorem add_div_x (hu : u ≠ 0) (hv : v ≠ 0) (hden : 1 + d * (A / u) * x * (B / v) * y ≠ 0) :
    u * v + d * A * B * x * y ≠ 0 ∧
      (A / u * y + B / v * x) / (1 + d * (A / u) * x * (B / v) * y) =
        (A * v * y + B * u * x) / (u * v + d * A * B * x * y) := by
  have hd : u * v + d * A * B * x * y = u * v * (1 + d * (A / u) * x * (B / v) * y) := by field_simp
  have hn : A * v * y + B * u * x = u * v * (A / u * y + B / v * x) := by field_simp
  rw [hd, hn, mul_div_mul_left _ _ (mul_ne_zero hu hv)]
  exact ⟨mul_ne_zero (mul_ne_zero hu hv) hden, rfl⟩

/-- The second coordinate of a sum with a quotient, in one fraction. -/
theorem add_div_y (hu : u ≠ 0) (hv : v ≠ 0) (hden : 1 - d * (A / u) * x * (B / v) * y ≠ 0) :
    u * v - d * A * B * x * y ≠ 0 ∧
      (B / v * y - a * (A / u) * x) / (1 - d * (A / u) * x * (B / v) * y) =
        (B * u * y - a * A * v * x) / (u * v - d * A * B * x * y) := by
  have hd : u * v - d * A * B * x * y = u * v * (1 - d * (A / u) * x * (B / v) * y) := by field_simp
  have hn : B * u * y - a * A * v * x = u * v * (B / v * y - a * (A / u) * x) := by field_simp
  rw [hd, hn, mul_div_mul_left _ _ (mul_ne_zero hu hv)]
  exact ⟨mul_ne_zero (mul_ne_zero hu hv) hden, rfl⟩

/-- The first coordinates of the two ways to add three points, crosswise. -/
theorem assoc_x {x₁ y₁ x₂ y₂ x₃ y₃ : F} (h₁ : a * x₁ ^ 2 + y₁ ^ 2 = 1 + d * x₁ ^ 2 * y₁ ^ 2)
    (h₂ : a * x₂ ^ 2 + y₂ ^ 2 = 1 + d * x₂ ^ 2 * y₂ ^ 2)
    (h₃ : a * x₃ ^ 2 + y₃ ^ 2 = 1 + d * x₃ ^ 2 * y₃ ^ 2) :
    ((x₁ * y₂ + y₁ * x₂) * (1 - d * x₁ * x₂ * y₁ * y₂) * y₃ +
        (y₁ * y₂ - a * x₁ * x₂) * (1 + d * x₁ * x₂ * y₁ * y₂) * x₃) *
      ((1 + d * x₃ * x₂ * y₃ * y₂) * (1 - d * x₃ * x₂ * y₃ * y₂) +
        d * (x₃ * y₂ + y₃ * x₂) * (y₃ * y₂ - a * x₃ * x₂) * x₁ * y₁) =
    ((x₃ * y₂ + y₃ * x₂) * (1 - d * x₃ * x₂ * y₃ * y₂) * y₁ +
        (y₃ * y₂ - a * x₃ * x₂) * (1 + d * x₃ * x₂ * y₃ * y₂) * x₁) *
      ((1 + d * x₁ * x₂ * y₁ * y₂) * (1 - d * x₁ * x₂ * y₁ * y₂) +
        d * (x₁ * y₂ + y₁ * x₂) * (y₁ * y₂ - a * x₁ * x₂) * x₃ * y₃) := by
  grind

/-- The second coordinates of the two ways to add three points, crosswise. -/
theorem assoc_y {x₁ y₁ x₂ y₂ x₃ y₃ : F} (h₁ : a * x₁ ^ 2 + y₁ ^ 2 = 1 + d * x₁ ^ 2 * y₁ ^ 2)
    (h₂ : a * x₂ ^ 2 + y₂ ^ 2 = 1 + d * x₂ ^ 2 * y₂ ^ 2)
    (h₃ : a * x₃ ^ 2 + y₃ ^ 2 = 1 + d * x₃ ^ 2 * y₃ ^ 2) :
    ((y₁ * y₂ - a * x₁ * x₂) * (1 + d * x₁ * x₂ * y₁ * y₂) * y₃ -
        a * (x₁ * y₂ + y₁ * x₂) * (1 - d * x₁ * x₂ * y₁ * y₂) * x₃) *
      ((1 + d * x₃ * x₂ * y₃ * y₂) * (1 - d * x₃ * x₂ * y₃ * y₂) -
        d * (x₃ * y₂ + y₃ * x₂) * (y₃ * y₂ - a * x₃ * x₂) * x₁ * y₁) =
    ((y₃ * y₂ - a * x₃ * x₂) * (1 + d * x₃ * x₂ * y₃ * y₂) * y₁ -
        a * (x₃ * y₂ + y₃ * x₂) * (1 - d * x₃ * x₂ * y₃ * y₂) * x₁) *
      ((1 + d * x₁ * x₂ * y₁ * y₂) * (1 - d * x₁ * x₂ * y₁ * y₂) -
        d * (x₁ * y₂ + y₁ * x₂) * (y₁ * y₂ - a * x₁ * x₂) * x₃ * y₃) := by
  grind

end

namespace Point

instance : Zero (Point C) := ⟨⟨0, 1, by ring⟩⟩

instance : Neg (Point C) := ⟨fun P => ⟨-P.x, P.y, by rw [neg_sq]; exact P.onCurve⟩⟩

instance : Add (Point C) := ⟨fun P Q =>
  ⟨(P.x * Q.y + P.y * Q.x) / (1 + C.d * P.x * Q.x * P.y * Q.y),
    (P.y * Q.y - C.a * P.x * Q.x) / (1 - C.d * P.x * Q.x * P.y * Q.y),
    onCurve_div (one_add_ne_zero P Q) (one_sub_ne_zero P Q) (by
      have h₁ := P.onCurve
      have h₂ := Q.onCurve
      grind)⟩⟩

@[simp] theorem zero_x : (0 : Point C).x = 0 := rfl

@[simp] theorem zero_y : (0 : Point C).y = 1 := rfl

@[simp] theorem neg_x (P : Point C) : (-P).x = -P.x := rfl

@[simp] theorem neg_y (P : Point C) : (-P).y = P.y := rfl

theorem add_x (P Q : Point C) :
    (P + Q).x = (P.x * Q.y + P.y * Q.x) / (1 + C.d * P.x * Q.x * P.y * Q.y) := rfl

theorem add_y (P Q : Point C) :
    (P + Q).y = (P.y * Q.y - C.a * P.x * Q.x) / (1 - C.d * P.x * Q.x * P.y * Q.y) := rfl

protected theorem add_comm (P Q : Point C) : P + Q = Q + P := by
  ext
  · rw [add_x, add_x]
    congr 1 <;> ring
  · rw [add_y, add_y]
    congr 1 <;> ring

/-- The sum in the other order is that of `R`, `Q` and `P`, so both sides are one
fraction of the same shape. -/
protected theorem add_assoc (P Q R : Point C) : P + Q + R = P + (Q + R) := by
  rw [Point.add_comm P (Q + R), Point.add_comm Q R]
  ext
  · obtain ⟨hne, h⟩ := add_div_x (one_add_ne_zero P Q) (one_sub_ne_zero P Q) (one_add_ne_zero (P + Q) R)
    obtain ⟨hne', h'⟩ := add_div_x (one_add_ne_zero R Q) (one_sub_ne_zero R Q) (one_add_ne_zero (R + Q) P)
    exact h.trans (((div_eq_div_iff hne hne').mpr (assoc_x P.onCurve Q.onCurve R.onCurve)).trans h'.symm)
  · obtain ⟨hne, h⟩ := add_div_y (a := C.a) (one_add_ne_zero P Q) (one_sub_ne_zero P Q)
      (one_sub_ne_zero (P + Q) R)
    obtain ⟨hne', h'⟩ := add_div_y (a := C.a) (one_add_ne_zero R Q) (one_sub_ne_zero R Q)
      (one_sub_ne_zero (R + Q) P)
    exact h.trans (((div_eq_div_iff hne hne').mpr (assoc_y P.onCurve Q.onCurve R.onCurve)).trans h'.symm)

instance : AddCommGroup (Point C) where
  add_assoc := Point.add_assoc
  add_comm := Point.add_comm
  zero_add P := by ext <;> simp [add_x, add_y]
  add_zero P := by ext <;> simp [add_x, add_y]
  neg_add_cancel P := by
    have hden : 1 - C.d * -P.x * P.x * P.y * P.y ≠ 0 := one_sub_ne_zero (-P) P
    ext
    · rw [add_x, neg_x, neg_y, zero_x]
      exact div_eq_zero_iff.mpr (.inl (by ring))
    · rw [add_y, neg_x, neg_y, zero_y, div_eq_one_iff_eq hden]
      linear_combination P.onCurve
  nsmul := nsmulRec
  zsmul := zsmulRec

end Point

/-! ## Projective coordinates -/

/-- Projective coordinates of a point. -/
structure Represents (X Y Z : F) (P : Point C) : Prop where
  z_ne_zero : Z ≠ 0
  x_eq : X = P.x * Z
  y_eq : Y = P.y * Z

theorem represents_zero : Represents 0 1 1 (0 : Point C) where
  z_ne_zero := one_ne_zero
  x_eq := by rw [Point.zero_x, zero_mul]
  y_eq := by rw [Point.zero_y, one_mul]

theorem represents_affine (P : Point C) : Represents P.x P.y 1 P where
  z_ne_zero := one_ne_zero
  x_eq := (mul_one _).symm
  y_eq := (mul_one _).symm

/-- The sum, on projective coordinates. -/
theorem Represents.add {X₁ Y₁ Z₁ X₂ Y₂ Z₂ : F} {P Q : Point C} (hP : Represents X₁ Y₁ Z₁ P)
    (hQ : Represents X₂ Y₂ Z₂ Q) :
    Represents
      (Z₁ * Z₂ * ((Z₁ * Z₂) ^ 2 - C.d * (X₁ * X₂) * (Y₁ * Y₂)) *
        ((X₁ + Y₁) * (X₂ + Y₂) - X₁ * X₂ - Y₁ * Y₂))
      (Z₁ * Z₂ * ((Z₁ * Z₂) ^ 2 + C.d * (X₁ * X₂) * (Y₁ * Y₂)) * (Y₁ * Y₂ - C.a * (X₁ * X₂)))
      (((Z₁ * Z₂) ^ 2 - C.d * (X₁ * X₂) * (Y₁ * Y₂)) * ((Z₁ * Z₂) ^ 2 + C.d * (X₁ * X₂) * (Y₁ * Y₂)))
      (P + Q) := by
  obtain ⟨hz₁, rfl, rfl⟩ := hP
  obtain ⟨hz₂, rfl, rfl⟩ := hQ
  have hu := one_add_ne_zero P Q
  have hv := one_sub_ne_zero P Q
  have hz := mul_ne_zero hz₁ hz₂
  have hplus : (Z₁ * Z₂) ^ 2 + C.d * (P.x * Z₁ * (Q.x * Z₂)) * (P.y * Z₁ * (Q.y * Z₂)) =
      (Z₁ * Z₂) ^ 2 * (1 + C.d * P.x * Q.x * P.y * Q.y) := by ring
  have hminus : (Z₁ * Z₂) ^ 2 - C.d * (P.x * Z₁ * (Q.x * Z₂)) * (P.y * Z₁ * (Q.y * Z₂)) =
      (Z₁ * Z₂) ^ 2 * (1 - C.d * P.x * Q.x * P.y * Q.y) := by ring
  rw [hplus, hminus]
  refine ⟨?_, ?_, ?_⟩
  · exact mul_ne_zero (mul_ne_zero (pow_ne_zero 2 hz) hv) (mul_ne_zero (pow_ne_zero 2 hz) hu)
  · rw [Point.add_x, div_mul_eq_mul_div, eq_div_iff hu]
    ring
  · rw [Point.add_y, div_mul_eq_mul_div, eq_div_iff hv]
    ring

/-- A point is what its projective coordinates are divided to. -/
theorem Represents.affine {X Y Z : F} {P : Point C} (h : Represents X Y Z P) :
    X * Z⁻¹ = P.x ∧ Y * Z⁻¹ = P.y := by
  obtain ⟨hz, rfl, rfl⟩ := h
  exact ⟨mul_inv_cancel_right₀ hz _, mul_inv_cancel_right₀ hz _⟩

end Edwards
