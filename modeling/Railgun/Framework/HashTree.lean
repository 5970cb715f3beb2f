import Mathlib.Algebra.GroupWithZero.Nat
import Mathlib.Data.Nat.Basic
import Mathlib.Order.Lattice
import Mathlib.Tactic.Common

/-!
# Hash trees

Full binary trees over a sequence of leaf values, hashed pairwise (`root`), and
the subtrees of each level (`node`). A leaf appended on the right climbs the
levels: with an empty subtree where it is on the left, with the finished
subtree to its left where it is on the right. What has to be kept for this is
the frontier: for each bit set in the number of leaves, the finished subtree of
that level (`Frontier`, `Frontier.append`). A root determines its leaves as far
as the hash determines its arguments (`leaves_of_root`).
-/

namespace HashTree

variable {α : Type} (hash : α → α → α)

/-- The root of the full tree of a depth over leaf values. -/
def root : Nat → (Nat → α) → α
  | 0, f => f 0
  | d + 1, f => hash (root d f) (root d fun i => f (2 ^ d + i))

/-- The `k`-th subtree of a level. -/
def node (f : Nat → α) (l k : Nat) : α := root hash l fun i => f (k * 2 ^ l + i)

/-- The root of a tree of empty leaves. -/
def emptyRoot (z : α) : Nat → α
  | 0 => z
  | d + 1 => hash (emptyRoot z d) (emptyRoot z d)

variable {hash} {f g : Nat → α} {z : α} {l k n : Nat}

theorem root_congr : ∀ {d : Nat} {f g : Nat → α}, (∀ i, i < 2 ^ d → f i = g i) →
    root hash d f = root hash d g
  | 0, _, _, h => h 0 Nat.one_pos
  | d + 1, f, g, h => by
    rw [root, root, root_congr fun i hi => h i (by rw [Nat.pow_succ]; omega),
      root_congr fun i hi => h (2 ^ d + i) (by rw [Nat.pow_succ]; omega)]

theorem root_empty : ∀ d : Nat, root hash d (fun _ => z) = emptyRoot hash z d
  | 0 => rfl
  | d + 1 => by rw [root, emptyRoot, root_empty d]

theorem node_congr (h : ∀ i, k * 2 ^ l ≤ i → i < (k + 1) * 2 ^ l → f i = g i) :
    node hash f l k = node hash g l k :=
  root_congr fun i hi => h _ (Nat.le_add_right ..) (by rw [Nat.succ_mul]; omega)

@[simp] theorem node_zero : node hash f 0 k = f k := by
  rw [node, root, Nat.pow_zero, Nat.mul_one, Nat.add_zero]

theorem node_top (d : Nat) : node hash f d 0 = root hash d f :=
  root_congr fun i _ => by rw [Nat.zero_mul, Nat.zero_add]

/-- A subtree is the hash of its halves. -/
theorem node_succ : node hash f (l + 1) k =
    hash (node hash f l (2 * k)) (node hash f l (2 * k + 1)) := by
  have h₀ : k * 2 ^ (l + 1) = 2 * k * 2 ^ l := by rw [Nat.pow_succ]; ac_rfl
  have h₁ : 2 * k * 2 ^ l + 2 ^ l = (2 * k + 1) * 2 ^ l := (Nat.succ_mul ..).symm
  rw [node, root, h₀, node, node]
  simp only [← Nat.add_assoc, h₁]

/-- A subtree past every leaf is empty. -/
theorem node_empty (h : ∀ i, n ≤ i → f i = z) (hk : n ≤ k * 2 ^ l) :
    node hash f l k = emptyRoot hash z l := by
  rw [← root_empty]
  exact root_congr fun i _ => h _ (by omega)

/-! ## The climb of a leaf -/

theorem node_of_even (h : k % 2 = 0) :
    hash (node hash f l k) (node hash f l (k + 1)) = node hash f (l + 1) (k / 2) := by
  rw [node_succ, show 2 * (k / 2) = k by omega]

theorem node_of_odd (h : k % 2 = 1) :
    hash (node hash f l (k - 1)) (node hash f l k) = node hash f (l + 1) (k / 2) := by
  rw [node_succ, show 2 * (k / 2) = k - 1 by omega, show k - 1 + 1 = k by omega]

variable (hash) in
/-- The finished subtrees left of position `n`, one for each bit set in `n`. -/
def Frontier (f : Nat → α) (depth n : Nat) (filled : Nat → α) : Prop :=
  ∀ l, l < depth → n / 2 ^ l % 2 = 1 → filled l = node hash f l (n / 2 ^ l - 1)

theorem pow_le_of_odd (h : n / 2 ^ l % 2 = 1) : (n / 2 ^ l - 1 + 1) * 2 ^ l ≤ n := by
  have hpos : 1 ≤ n / 2 ^ l := Nat.one_le_iff_ne_zero.mpr fun h0 => by rw [h0] at h; cases h
  rw [Nat.sub_add_cancel hpos]
  exact Nat.div_mul_le_self n (2 ^ l)

/-- The finished subtrees do not depend on later leaves. -/
theorem Frontier.congr {depth : Nat} {filled : Nat → α} (h : Frontier hash f depth n filled)
    (hfg : ∀ i, i < n → f i = g i) : Frontier hash g depth n filled := fun l hl hbit => by
  have := pow_le_of_odd hbit
  rw [h l hl hbit]
  exact node_congr fun i _ hi => hfg i (by omega)

/-- A leaf at position `n` finishes the subtrees it is the left part of. -/
theorem Frontier.append {depth : Nat} {filled filled' : Nat → α}
    (h : Frontier hash f depth n filled)
    (hfilled : ∀ l, l < depth → filled' l =
      if n / 2 ^ l % 2 = 0 then node hash f l (n / 2 ^ l) else filled l) :
    Frontier hash f depth (n + 1) filled' := fun l hl hbit => by
  -- The carry reaches a level or it does not.
  have hsucc : (n + 1) / 2 ^ l = n / 2 ^ l ∨ (n + 1) / 2 ^ l = n / 2 ^ l + 1 := by
    rw [Nat.succ_div]
    split
    · exact .inr rfl
    · exact .inl rfl
  rw [hfilled l hl]
  generalize (n + 1) / 2 ^ l = m at hbit hsucc
  split
  · rename_i heven
    obtain rfl : m = n / 2 ^ l + 1 := hsucc.resolve_left fun h => by rw [h, heven] at hbit; cases hbit
    rw [Nat.add_sub_cancel]
  · rename_i hodd
    obtain rfl : m = n / 2 ^ l := hsucc.resolve_right fun h => by
      rw [h] at hbit
      generalize n / 2 ^ l = k at hbit hodd
      omega
    exact h l hl hbit

/-! ## What a root determines -/

/-- A relation that the hash respects passes from the leaves to the root. -/
theorem root_respects {r : α → α → Prop}
    (hr : ∀ {a a' b b'}, r a a' → r b b' → r (hash a b) (hash a' b')) :
    ∀ {d : Nat} {f g : Nat → α}, (∀ i, i < 2 ^ d → r (f i) (g i)) → r (root hash d f) (root hash d g)
  | 0, _, _, h => h 0 Nat.one_pos
  | d + 1, f, g, h => hr (root_respects hr fun i hi => h i (by rw [Nat.pow_succ]; omega))
      (root_respects hr fun i hi => h (2 ^ d + i) (by rw [Nat.pow_succ]; omega))

/-- If, at each place of two trees, the hash determines its arguments up to
`r`, and subtrees up to `r` determine themselves, one root means leaves that
are the same up to `r`. -/
theorem leaves_of_root {r : α → α → Prop} : ∀ {d : Nat},
    (∀ l k, l < d → node hash f (l + 1) k = node hash g (l + 1) k →
      r (node hash f l (2 * k)) (node hash g l (2 * k)) ∧
      r (node hash f l (2 * k + 1)) (node hash g l (2 * k + 1))) →
    (∀ l k, r (node hash f (l + 1) k) (node hash g (l + 1) k) →
      node hash f (l + 1) k = node hash g (l + 1) k) →
    ∀ {k : Nat}, r (node hash f d k) (node hash g d k) →
    ∀ i, i < 2 ^ d → r (f (k * 2 ^ d + i)) (g (k * 2 ^ d + i))
  | 0, _, _, k, h, i, hi => by
    obtain rfl : i = 0 := by simpa using hi
    simpa using h
  | d + 1, hdet, hself, k, h, i, hi => by
    obtain ⟨hleft, hright⟩ := hdet d k (Nat.lt_succ_self d) (hself d k h)
    have ih := fun {k : Nat} => leaves_of_root (d := d) (k := k)
      (fun l k hl => hdet l k (Nat.lt_succ_of_lt hl)) hself
    rw [Nat.pow_succ] at hi ⊢
    by_cases hlt : i < 2 ^ d
    · have := ih hleft i hlt
      rwa [show 2 * k * 2 ^ d = k * (2 ^ d * 2) by ac_rfl] at this
    · have := ih hright (i - 2 ^ d) (by omega)
      rwa [show (2 * k + 1) * 2 ^ d + (i - 2 ^ d) = k * (2 ^ d * 2) + i by
        rw [Nat.succ_mul, show 2 * k * 2 ^ d = k * (2 ^ d * 2) by ac_rfl]; omega] at this

end HashTree
