import Railgun.Proof.Signature

/-!
# Multiples of a point

The affine addition law on the code's own coordinates, with the curve's own
coefficients. It is the addition of the curve's group (`Point.Is.add`), so
double-and-add gives the repeated sum, on the curve, and no projective point of
the loop is at infinity (`mulScalar_eq_sum`).
-/

namespace Railgun.BabyJubJub

open Edwards

namespace Point

/-- `A x² + y² = 1 + D x² y²`. -/
def OnCurve (p : Point) : Prop :=
  frFromU64 A * (p.x * p.x) + p.y * p.y = 1 + frFromU64 D * (p.x * p.x) * (p.y * p.y)

def neutral : Point := { x := 0, y := 1 }

/-- The affine addition law. -/
def add (p q : Point) : Point :=
  let t := frFromU64 D * p.x * q.x * p.y * q.y
  { x := (p.x * q.y + p.y * q.x) * inverse (1 + t)
    y := (p.y * q.y - frFromU64 A * p.x * q.x) * inverse (1 - t) }

/-- `n` times the point, one after the other. -/
def sum (p : Point) : Nat → Point
  | 0 => neutral
  | n + 1 => (sum p n).add p

/-! ## The group of the curve -/

/-- The point of the curve with these coordinates. -/
def onto (p : Point) (h : p.OnCurve) : Edwards.Point babyJubJub where
  x := toField p.x
  y := toField p.y
  onCurve := by
    have h := congrArg toField h
    simp only [toField_add, toField_mul, toField_one] at h
    rw [sq, sq]
    exact h

theorem onto_is (p : Point) (h : p.OnCurve) : p.Is (p.onto h) := ⟨rfl, rfl⟩

variable {p q : Point} {P Q : Edwards.Point babyJubJub}

theorem Is.onCurve (h : p.Is P) : p.OnCurve := by
  have hcurve := P.onCurve
  rw [← h.x, ← h.y] at hcurve
  refine toField_injective ?_
  simp only [toField_add, toField_mul, toField_one]
  rw [sq, sq] at hcurve
  exact hcurve

/-- A point of the curve has its coordinates only. -/
theorem Is.unique (hp : p.Is P) (hq : q.Is P) : p = q := by
  obtain ⟨px, py⟩ := p
  obtain ⟨qx, qy⟩ := q
  obtain rfl : px = qx := toField_injective (hp.x.trans hq.x.symm)
  obtain rfl : py = qy := toField_injective (hp.y.trans hq.y.symm)
  rfl

theorem neutral_is : neutral.Is 0 := ⟨toField_zero, toField_one⟩

/-- The affine law is the group's addition: no denominator vanishes. -/
theorem Is.add (hp : p.Is P) (hq : q.Is Q) : (p.add q).Is (P + Q) := by
  have ht : toField (frFromU64 D * p.x * q.x * p.y * q.y) = babyJubJub.d * P.x * Q.x * P.y * Q.y := by
    simp only [toField_mul, hp.x, hp.y, hq.x, hq.y]
    rfl
  have hplus : toField (1 + frFromU64 D * p.x * q.x * p.y * q.y) =
      1 + babyJubJub.d * P.x * Q.x * P.y * Q.y := by
    rw [toField_add, toField_one, ht]
  have hminus : toField (1 - frFromU64 D * p.x * q.x * p.y * q.y) =
      1 - babyJubJub.d * P.x * Q.x * P.y * Q.y := by
    rw [toField_sub, toField_one, ht]
  have hplus₀ : 1 + frFromU64 D * p.x * q.x * p.y * q.y ≠ 0 := fun h₀ =>
    one_add_ne_zero P Q (by rw [← hplus, h₀, toField_zero])
  have hminus₀ : 1 - frFromU64 D * p.x * q.x * p.y * q.y ≠ 0 := fun h₀ =>
    one_sub_ne_zero P Q (by rw [← hminus, h₀, toField_zero])
  refine ⟨?_, ?_⟩
  · rw [Edwards.Point.add_x, ← hplus, div_eq_mul_inv, ← toField_inverse hplus₀, ← hp.x, ← hp.y, ← hq.x,
      ← hq.y]
    simp only [Point.add, toField_mul, toField_add]
  · rw [Edwards.Point.add_y, ← hminus, div_eq_mul_inv, ← toField_inverse hminus₀, ← hp.x, ← hp.y, ← hq.x,
      ← hq.y]
    simp only [Point.add, toField_mul, toField_sub]
    rfl

theorem Is.sum (h : p.Is P) : ∀ n : Nat, (p.sum n).Is (n • P)
  | 0 => by
    rw [zero_nsmul]
    exact neutral_is
  | n + 1 => by
    rw [succ_nsmul]
    exact (h.sum n).add h

end Point

/-! ## The loop -/

/-- Both points of the loop stay points of the curve, whatever the bits. -/
theorem foldl_mulStep_is (bytes : Bytes) : ∀ (is : List Nat) {r exp : PointProjective},
    (∃ R, r.Is R) → (∃ E, exp.Is E) →
    (∃ R, (is.foldl (Point.mulStep bytes) (r, exp)).1.Is R) ∧
      ∃ E, (is.foldl (Point.mulStep bytes) (r, exp)).2.Is E
  | [], _, _, hr, hexp => ⟨hr, hexp⟩
  | i :: is, r, exp, ⟨R, hr⟩, ⟨E, hexp⟩ => by
    rw [List.foldl_cons, Point.mulStep]
    refine foldl_mulStep_is bytes is ?_ ⟨_, hexp.add hexp⟩
    split
    · exact ⟨_, hr.add hexp⟩
    · exact ⟨_, hr⟩

/-- A scalar of any size gives that multiple, on the curve, and after any number
of turns neither point of the loop has `z = 0`. -/
theorem mulScalar_eq_sum (p : Point) (hp : p.OnCurve) (n : NumBigInt) (hn : 0 ≤ n) :
    p.mulScalar n = p.sum n.toNat ∧ (p.mulScalar n).OnCurve ∧
    ∀ k, ∀ r exp, (List.range k).foldl (Point.mulStep (toBytesLe n))
      ({ x := 0, y := 1, z := 1 }, p.projective) = (r, exp) → r.z ≠ 0 ∧ exp.z ≠ 0 := by
  have h := p.onto_is hp
  have hmul := mulScalar_is h hn
  have hsum : (p.sum n.toNat).Is (n • p.onto hp) := by
    have := h.sum n.toNat
    rwa [← natCast_zsmul, Int.toNat_of_nonneg hn] at this
  refine ⟨hmul.unique hsum, hmul.onCurve, fun k r exp hstate => ?_⟩
  obtain ⟨⟨R, hr⟩, E, hexp⟩ := foldl_mulStep_is (toBytesLe n) (List.range k) ⟨0, zero_is⟩ ⟨_, h.projective⟩
  rw [hstate] at hr hexp
  exact ⟨hr.z_ne_zero, hexp.z_ne_zero⟩

/-- The base point, a number of times that takes two bytes. -/
theorem mulScalar_eq_sum_b8 : b8.mulScalar 12345 = b8.sum 12345 ∧ (b8.mulScalar 12345).OnCurve := by
  obtain ⟨hsum, hcurve, -⟩ := mulScalar_eq_sum b8 b8_is.onCurve 12345 (by decide)
  exact ⟨hsum, hcurve⟩

end Railgun.BabyJubJub
