import Mathlib.Algebra.GroupWithZero.Nat
import Mathlib.Data.List.Basic
import Mathlib.Order.Lattice
import Mathlib.Tactic.Common

/-!
# Regrouping bits

Words of one width rewritten as words of another: their bits in a row, most
significant first (`spread`), cut into groups. Whole groups only are kept by
`pack`; `pad` fills the last group with zeros. Wide words padded into narrow
ones are packed back (`pack_pad`); narrow words are what their packed words are
padded to exactly when `pack` dropped less than a narrow word, all zeros
(`pad_pack_iff`).
-/

namespace Regroup

variable {v w : Nat}

/-- The bits of a word, most significant first. -/
def bits (x : BitVec w) : List Bool := (List.range w).map x.getMsbD

/-- The word of `w` bits, most significant first. -/
def word (w : Nat) (bs : List Bool) : BitVec w := (BitVec.ofBoolListBE bs).setWidth w

@[simp] theorem length_bits (x : BitVec w) : (bits x).length = w := by
  rw [bits, List.length_map, List.length_range]

theorem bits_word {bs : List Bool} (h : bs.length = w) : bits (word w bs) = bs := by
  subst h
  refine List.ext_getElem (length_bits _) fun i h₁ h₂ => ?_
  simp only [bits, word, List.getElem_map, List.getElem_range, BitVec.setWidth_eq,
    BitVec.getMsbD_ofBoolListBE, List.getD_eq_getElem?_getD, List.getElem?_eq_getElem h₂]
  rfl

theorem word_bits (x : BitVec w) : word w (bits x) = x := by
  refine BitVec.eq_of_getMsbD_eq fun i hi => ?_
  have h := congrArg (·[i]?) (bits_word (length_bits x))
  simp only [bits, List.getElem?_map, List.getElem?_range hi, Option.map_some, Option.some.injEq] at h
  exact h

/-- The bits of words, in a row. -/
def spread (xs : List (BitVec w)) : List Bool := xs.flatMap bits

@[simp] theorem spread_nil : spread ([] : List (BitVec w)) = [] := rfl

@[simp] theorem spread_cons (x : BitVec w) (xs : List (BitVec w)) : spread (x :: xs) = bits x ++ spread xs :=
  rfl

theorem length_spread : ∀ xs : List (BitVec w), (spread xs).length = xs.length * w
  | [] => by rw [spread_nil, List.length_nil, List.length_nil, Nat.zero_mul]
  | x :: xs => by
    rw [spread_cons, List.length_append, length_bits, length_spread xs, List.length_cons, Nat.succ_mul,
      Nat.add_comm]

/-- The first `n` groups of `w` bits. -/
def groups (w : Nat) : Nat → List Bool → List (BitVec w)
  | 0, _ => []
  | n + 1, bs => word w (bs.take w) :: groups w n (bs.drop w)

@[simp] theorem length_groups : ∀ n bs, (groups w n bs).length = n
  | 0, _ => rfl
  | n + 1, bs => by rw [groups, List.length_cons, length_groups n]

/-- Groups spread to the bits they were cut from. -/
theorem spread_groups : ∀ {n : Nat} {bs : List Bool}, n * w ≤ bs.length →
    spread (groups w n bs) = bs.take (n * w)
  | 0, bs, _ => by rw [groups, spread_nil, Nat.zero_mul, List.take_zero]
  | n + 1, bs, h => by
    rw [Nat.succ_mul] at h ⊢
    rw [groups, spread_cons, bits_word (by rw [List.length_take]; omega),
      spread_groups (by rw [List.length_drop]; omega), Nat.add_comm, List.take_add]

/-- Words are the groups of their bits, whatever follows. -/
theorem groups_spread (rest : List Bool) : ∀ xs : List (BitVec w),
    groups w xs.length (spread xs ++ rest) = xs
  | [] => rfl
  | x :: xs => by
    rw [List.length_cons, groups, spread_cons, List.append_assoc, List.take_left' (length_bits x),
      List.drop_left' (length_bits x), word_bits, groups_spread rest xs]

theorem spread_injective {xs ys : List (BitVec w)} (hw : 0 < w) (h : spread xs = spread ys) : xs = ys := by
  have hlen : xs.length = ys.length := by
    have := congrArg List.length h
    rw [length_spread, length_spread] at this
    exact Nat.eq_of_mul_eq_mul_right hw this
  rw [← groups_spread [] xs, ← groups_spread [] ys, h, hlen]

/-! ## Packing and padding -/

/-- Words of width `v` from the bits of words of width `w`; an incomplete last
group is dropped. -/
def pack (v : Nat) (xs : List (BitVec w)) : List (BitVec v) :=
  groups v ((spread xs).length / v) (spread xs)

/-- Words of width `v` from the bits of words of width `w`; an incomplete last
group is filled with zeros. -/
def pad (v : Nat) (xs : List (BitVec w)) : List (BitVec v) :=
  groups v (((spread xs).length + (v - 1)) / v) (spread xs ++ List.replicate (v - 1) false)

theorem length_pad (xs : List (BitVec w)) : (pad v xs).length = (xs.length * w + (v - 1)) / v := by
  rw [pad, length_groups, length_spread]

theorem spread_pack (xs : List (BitVec w)) :
    spread (pack v xs) = (spread xs).take ((spread xs).length / v * v) :=
  spread_groups (Nat.div_mul_le_self _ _)

theorem spread_pad (xs : List (BitVec w)) : spread (pad v xs) =
    (spread xs ++ List.replicate (v - 1) false).take (((spread xs).length + (v - 1)) / v * v) := by
  refine spread_groups ?_
  rw [List.length_append, List.length_replicate]
  exact Nat.div_mul_le_self _ _

/-- Bytes in narrower words, padded, are packed back. -/
theorem pack_pad (hv : 0 < v) (hvw : v ≤ w) (xs : List (BitVec w)) : pack w (pad v xs) = xs := by
  have hlen := length_spread xs
  have hle := Nat.div_mul_le_self ((spread xs).length + (v - 1)) v
  have hge := Nat.lt_div_mul_add hv (a := (spread xs).length + (v - 1))
  have hn : (spread (pad v xs)).length / w = xs.length := by
    rw [spread_pad, List.length_take, List.length_append, List.length_replicate, Nat.min_eq_left hle]
    refine Nat.div_eq_of_lt_le ?_ ?_
    · omega
    · rw [Nat.succ_mul]
      omega
  refine spread_injective (Nat.lt_of_lt_of_le hv hvw) ?_
  rw [spread_pack, hn, spread_pad, ← hlen, List.take_take, Nat.min_eq_left (by omega), List.take_left]

/-- Fewer bits than a word are left over after the last whole group of `v`,
and they are zeros. -/
def Canonical (v : Nat) (xs : List (BitVec w)) : Prop :=
  (spread xs).length % v < w ∧ ∀ b ∈ (spread xs).drop ((spread xs).length / v * v), b = false

/-- Words are what their packed words are padded to exactly when nothing but
padding was dropped. -/
theorem pad_pack_iff (hw : 0 < w) (xs : List (BitVec w)) : pad w (pack v xs) = xs ↔ Canonical v xs := by
  have hlen := length_spread xs
  have hdiv := Nat.div_add_mod' (spread xs).length v
  have htake : ((spread xs).take ((spread xs).length / v * v)).length = (spread xs).length / v * v := by
    rw [List.length_take, Nat.min_eq_left (Nat.div_mul_le_self _ _)]
  have hpack : (spread (pack v xs)).length = (spread xs).length / v * v := by
    rw [spread_pack, htake]
  have hcount : (pad w (pack v xs)).length = xs.length ↔ (spread xs).length % v < w := by
    rw [pad, length_groups, hpack]
    constructor
    · intro h
      have := Nat.div_mul_le_self ((spread xs).length / v * v + (w - 1)) w
      rw [h] at this
      omega
    · intro h
      refine Nat.div_eq_of_lt_le ?_ ?_
      · omega
      · rw [Nat.succ_mul]
        omega
  have hspread : (pad w (pack v xs)).length = xs.length →
      spread (pad w (pack v xs)) = (spread xs).take ((spread xs).length / v * v) ++
        List.replicate ((spread xs).length % v) false := fun h => by
    have hmod := hcount.mp h
    rw [pad, length_groups, hpack] at h
    rw [spread_pad, hpack, h, ← hlen, spread_pack, List.take_append, List.take_take, htake,
      Nat.min_eq_right (Nat.div_mul_le_self _ _), List.take_replicate]
    congr 2
    omega
  constructor
  · intro h
    have hl := congrArg List.length h
    refine ⟨hcount.mp hl, fun b hb => ?_⟩
    have hbits := hspread hl
    rw [h] at hbits
    have hdrop : (spread xs).drop ((spread xs).length / v * v) =
        List.replicate ((spread xs).length % v) false :=
      List.append_cancel_left ((List.take_append_drop _ _).trans hbits)
    rw [hdrop] at hb
    exact List.eq_of_mem_replicate hb
  · rintro ⟨hmod, hzero⟩
    refine spread_injective hw ?_
    rw [hspread (hcount.mpr hmod)]
    conv_rhs => rw [← List.take_append_drop ((spread xs).length / v * v) (spread xs)]
    congr 1
    refine (List.eq_replicate_iff.mpr ⟨?_, hzero⟩).symm
    rw [List.length_drop]
    omega

end Regroup
