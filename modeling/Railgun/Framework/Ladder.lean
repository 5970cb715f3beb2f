import Mathlib.Algebra.Group.TypeTags.Basic
import Mathlib.Algebra.GroupWithZero.Nat
import Mathlib.Data.List.Prime
import Mathlib.NumberTheory.LucasPrimality
import Mathlib.Order.Lattice
import Mathlib.Tactic.Common

/-!
# Double and add

The bits of a number, from the lowest up, choose which doublings of one element
are added to another (`ladder`). On representations of the elements of a monoid
whose addition the operation computes, this represents a multiple
(`ladder_represents`). Square and multiply modulo `m` is the same ladder
(`powMod_eq`), and makes Lucas's test one of evaluation (`prime_of_lucas`), also
where the factors have to be tested in turn (`Certified.prime`).
-/

namespace Ladder

variable {α M : Type*}

/-- Adds to `r` the doublings of `e` at the `k` low bits of `n`. -/
def ladder (op : α → α → α) : Nat → Nat → α → α → α
  | 0, _, r, _ => r
  | k + 1, n, r, e => ladder op k (n / 2) (if n % 2 = 1 then op r e else r) (op e e)

/-- A ladder on what represents `g` and `h` represents `g + n • h`. -/
theorem ladder_represents [AddMonoid M] {f : α → α → α} {R : α → M → Prop}
    (hop : ∀ {x y g h}, R x g → R y h → R (f x y) (g + h)) :
    ∀ {k n : Nat} {r e : α} {g h : M}, n < 2 ^ k → R r g → R e h →
      R (ladder f k n r e) (g + n • h)
  | 0, n, r, e, g, h, hn, hr, he => by
    obtain rfl : n = 0 := by omega
    rw [ladder, zero_nsmul, add_zero]
    exact hr
  | k + 1, n, r, e, g, h, hn, hr, he => by
    have ih := fun {r g} (hr : R r g) =>
      ladder_represents hop (k := k) (n := n / 2) (by rw [pow_succ] at hn; omega) hr (hop he he)
    have hsplit : n • h = (n % 2) • h + (n / 2) • (h + h) := by
      rw [← two_nsmul, ← mul_nsmul, ← add_nsmul]
      congr 1
      omega
    rw [ladder, hsplit, ← add_assoc]
    rcases Nat.mod_two_eq_zero_or_one n with hbit | hbit
    · rw [if_neg (by omega), hbit, zero_nsmul, add_zero]
      exact ih hr
    · rw [if_pos hbit, hbit, one_nsmul]
      exact ih (hop hr he)

/-! ## Powers -/

/-- `a ^ n` modulo `m`, for `n` of `k` bits. -/
def powMod (m k a n : Nat) : Nat := ladder (fun x y => x * y % m) k n (1 % m) a

/-- The residue represents the element of `ZMod m`. -/
theorem powMod_eq {m k a n : Nat} (hn : n < 2 ^ k) :
    (powMod m k a n : ZMod m) = (a : ZMod m) ^ n := by
  have h := ladder_represents (f := fun x y => x * y % m)
    (R := fun x (g : Additive (ZMod m)) => (x : ZMod m) = g.toMul)
    (fun {x y g h} hx hy => by rw [ZMod.natCast_mod, Nat.cast_mul, hx, hy, toMul_add])
    (r := 1 % m) (e := a) (g := 0) (h := Additive.ofMul (a : ZMod m)) hn
    (by rw [ZMod.natCast_mod, Nat.cast_one]; rfl) rfl
  rwa [zero_add] at h

/-- Lucas's test: `p - 1` is a product of powers of primes, and `a` has order
`p - 1` modulo `p`. -/
theorem prime_of_lucas {p : Nat} (k a : Nat) (factors : List (Nat × Nat)) (hp : 1 < p)
    (hk : p ≤ 2 ^ k)
    (hprime : factors.Forall fun f => f.1.Prime)
    (hprod : (factors.map fun f => f.1 ^ f.2).prod = p - 1) (hfull : powMod p k a (p - 1) = 1)
    (hpart : ∀ f ∈ factors, powMod p k a ((p - 1) / f.1) % p ≠ 1) : p.Prime := by
  rw [List.forall_iff_forall_mem] at hprime
  refine lucas_primality p (a : ZMod p) ?_ fun q hq hdvd h => ?_
  · rw [← powMod_eq (k := k) (by omega), hfull, Nat.cast_one]
  · rw [← hprod] at hdvd
    obtain ⟨power, hmem, hdvd⟩ := (Prime.dvd_prod_iff hq.prime).mp hdvd
    obtain ⟨f, hf, rfl⟩ := List.mem_map.mp hmem
    obtain rfl := (Nat.prime_dvd_prime_iff_eq hq (hprime f hf)).mp (hq.dvd_of_dvd_pow hdvd)
    have hle := Nat.div_le_self (p - 1) f.1
    have hone : (powMod p k a ((p - 1) / f.1) : ZMod p) = (1 : Nat) := by
      rw [powMod_eq (by omega), Nat.cast_one]
      exact h
    rw [ZMod.natCast_eq_natCast_iff', Nat.mod_eq_of_lt hp] at hone
    exact hpart f hf hone

/-- What Lucas's test needs of a number: an element of order one less, and the
primes that order is a product of, with their powers. -/
structure Certificate where
  number : Nat
  root : Nat
  factors : List (Nat × Nat)

def Certificate.bits (c : Certificate) : Nat := c.number.log2 + 1

/-- The evaluations of Lucas's test. -/
def Certificate.Passes (c : Certificate) : Prop :=
  1 < c.number ∧ (c.factors.map fun f => f.1 ^ f.2).prod = c.number - 1 ∧
    powMod c.number c.bits c.root (c.number - 1) = 1 ∧
      ∀ f ∈ c.factors, powMod c.number c.bits c.root ((c.number - 1) / f.1) % c.number ≠ 1

instance (c : Certificate) : Decidable c.Passes := inferInstanceAs (Decidable (_ ∧ _))

/-- Each certificate passes, and its factors have certificates after it. -/
def Certified : List Certificate → Prop
  | [] => True
  | c :: cs => c.Passes ∧ (∀ f ∈ c.factors, f.1 ∈ cs.map Certificate.number) ∧ Certified cs

instance : ∀ cs, Decidable (Certified cs)
  | [] => .isTrue trivial
  | _ :: cs =>
    have := instDecidableCertified cs
    inferInstanceAs (Decidable (_ ∧ _))

/-- A number with a certificate is prime. -/
theorem Certified.prime : ∀ {cs : List Certificate}, Certified cs →
    ∀ n ∈ cs.map Certificate.number, n.Prime
  | [], _, _, hn => absurd hn List.not_mem_nil
  | c :: cs, ⟨⟨hone, hprod, hfull, hpart⟩, hfactors, hcs⟩, n, hn => by
    rcases List.mem_cons.mp hn with rfl | hn
    · exact prime_of_lucas c.bits c.root c.factors hone Nat.lt_log2_self.le
        (List.forall_iff_forall_mem.mpr fun f hf => hcs.prime _ (hfactors f hf)) hprod hfull hpart
    · exact hcs.prime n hn

end Ladder
