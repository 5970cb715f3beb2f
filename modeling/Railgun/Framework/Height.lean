import Mathlib.Algebra.GroupWithZero.Nat
import Mathlib.Data.Nat.Find
import Mathlib.Order.Lattice
import Mathlib.Tactic.Common

/-!
# Heights

One past the highest element of a set of numbers, or 0 if the set is empty.
A counter of what has been seen so far is such a height: adding an element
raises it to one past that element, if it was not as high already
(`IsHeight.insert`).
-/

namespace Height

/-- `n` is one past the highest element of `S`, or 0 if there is none. -/
structure IsHeight (S : Nat → Prop) (n : Nat) : Prop where
  lt : ∀ p, S p → p < n
  top : n = 0 ∨ S (n - 1)

open Classical in
/-- The height of a bounded set. -/
noncomputable def height (S : Nat → Prop) : Nat :=
  if h : ∃ n, ∀ p, S p → p < n then Nat.find h else 0

theorem IsHeight.unique {S : Nat → Prop} {m n : Nat} (hm : IsHeight S m) (hn : IsHeight S n) :
    m = n := by
  have h₁ : m ≤ n := by
    rcases hm.top with h | h
    · omega
    · have := hn.lt _ h
      omega
  have h₂ : n ≤ m := by
    rcases hn.top with h | h
    · omega
    · have := hm.lt _ h
      omega
  omega

open Classical in
theorem isHeight_height {S : Nat → Prop} {b : Nat} (hb : ∀ p, S p → p < b) :
    IsHeight S (height S) := by
  have h : ∃ n, ∀ p, S p → p < n := ⟨b, hb⟩
  rw [height, dif_pos h]
  refine ⟨Nat.find_spec h, ?_⟩
  rcases Nat.eq_zero_or_pos (Nat.find h) with h0 | hpos
  · exact .inl h0
  -- Otherwise one less would bound the set as well.
  · refine .inr (by_contra fun hn => ?_)
    refine Nat.find_min h (Nat.sub_one_lt_of_lt hpos) fun p hp => ?_
    have := Nat.find_spec h p hp
    have : p ≠ Nat.find h - 1 := fun he => hn (he ▸ hp)
    omega

theorem height_eq {S : Nat → Prop} {n : Nat} (h : IsHeight S n) : height S = n :=
  (isHeight_height h.lt).unique h

theorem isHeight_empty {S : Nat → Prop} (h : ∀ p, ¬ S p) : IsHeight S 0 :=
  ⟨fun p hp => absurd hp (h p), .inl rfl⟩

theorem IsHeight.congr {S T : Nat → Prop} {n : Nat} (h : IsHeight S n) (hT : ∀ q, S q ↔ T q) :
    IsHeight T n :=
  ⟨fun q hq => h.lt q ((hT q).mpr hq), h.top.imp_right (hT _).mp⟩

theorem IsHeight.insert {S T : Nat → Prop} {n p : Nat} (h : IsHeight S n)
    (hT : ∀ q, T q ↔ q = p ∨ S q) : IsHeight T (max n (p + 1)) := by
  refine ⟨fun q hq => ?_, .inr ?_⟩
  · rcases (hT q).mp hq with rfl | hq
    · omega
    · have := h.lt q hq
      omega
  · by_cases hp : n ≤ p + 1
    · rw [Nat.max_eq_right hp]
      exact (hT _).mpr (.inl rfl)
    · rw [Nat.max_eq_left (by omega)]
      exact (hT _).mpr (.inr (h.top.resolve_left (by omega)))

theorem IsHeight.union {S T U : Nat → Prop} {m n : Nat} (hS : IsHeight S m) (hT : IsHeight T n)
    (hU : ∀ q, U q ↔ S q ∨ T q) : IsHeight U (max m n) := by
  refine ⟨fun q hq => ?_, ?_⟩
  · rcases (hU q).mp hq with hq | hq
    · have := hS.lt q hq
      omega
    · have := hT.lt q hq
      omega
  · rcases Nat.le_total m n with h | h
    · rw [Nat.max_eq_right h]
      exact hT.top.imp_right fun ht => (hU _).mpr (.inr ht)
    · rw [Nat.max_eq_left h]
      exact hS.top.imp_right fun hs => (hU _).mpr (.inl hs)

/-- Heights grow with the set. -/
theorem IsHeight.mono {S T : Nat → Prop} {m n : Nat} (hS : IsHeight S m) (hT : IsHeight T n)
    (h : ∀ p, S p → T p) : m ≤ n := by
  rcases hS.top with h0 | ht
  · omega
  · have := hT.lt _ (h _ ht)
    omega

end Height
