import Mathlib.Algebra.GroupWithZero.Nat
import Mathlib.Data.List.Basic
import Mathlib.Order.Lattice
import Mathlib.Tactic.Common

/-!
# Big-endian byte strings

A number in `n` bytes, most significant first (`toBE`), and back (`ofBE`).
The two are inverse on numbers below `256 ^ n` and strings of `n` bytes
(`ofBE_toBE`, `toBE_ofBE`). Byte strings are ordered as lists, so strings of
equal length compare as the numbers they spell (`compare_toBE`), and a
concatenation compares by its first parts, then by its second
(`compare_append`): keys built from fixed-width fields sort field by field.
-/

/-- A byte. -/
abbrev Byte := BitVec 8

/-- A byte string, ordered lexicographically. -/
abbrev Bytes := List Byte

instance : Std.TransOrd Bytes := inferInstance

namespace BigEndian

/-- The low `n` bytes of `x`, most significant first. -/
def toBE : Nat → Nat → Bytes
  | 0, _ => []
  | n + 1, x => BitVec.ofNat 8 (x / 256 ^ n) :: toBE n x

/-- The number a byte string spells, most significant byte first. -/
def ofBE : Bytes → Nat
  | [] => 0
  | b :: bs => b.toNat * 256 ^ bs.length + ofBE bs

@[simp] theorem length_toBE : ∀ n x, (toBE n x).length = n
  | 0, _ => rfl
  | n + 1, x => by rw [toBE, List.length_cons, length_toBE n x]

theorem ofBE_lt : ∀ bs : Bytes, ofBE bs < 256 ^ bs.length
  | [] => by decide
  | b :: bs => by
    have hb := b.isLt
    have ih := ofBE_lt bs
    have h : (b.toNat + 1) * 256 ^ bs.length ≤ 256 * 256 ^ bs.length :=
      Nat.mul_le_mul_right _ (by omega)
    rw [Nat.add_mul, Nat.one_mul] at h
    rw [ofBE, List.length_cons, Nat.pow_succ, Nat.mul_comm _ 256]
    omega

theorem ofBE_toBE_mod : ∀ n x, ofBE (toBE n x) = x % 256 ^ n
  | 0, x => by simp [toBE, ofBE, Nat.mod_one]
  | n + 1, x => by
    rw [toBE, ofBE, length_toBE, ofBE_toBE_mod n x, BitVec.toNat_ofNat, Nat.pow_succ 256 n,
      Nat.mod_mul, Nat.mul_comm _ (256 ^ n), Nat.add_comm]

theorem ofBE_toBE {n x : Nat} (h : x < 256 ^ n) : ofBE (toBE n x) = x := by
  rw [ofBE_toBE_mod, Nat.mod_eq_of_lt h]

theorem toBE_congr : ∀ {n x y : Nat}, x % 256 ^ n = y % 256 ^ n → toBE n x = toBE n y
  | 0, _, _, _ => rfl
  | n + 1, x, y, h => by
    rw [Nat.pow_succ, Nat.mod_mul, Nat.mod_mul] at h
    have hx := Nat.mod_lt x (Nat.pow_pos (n := n) (show 0 < 256 by decide))
    have hy := Nat.mod_lt y (Nat.pow_pos (n := n) (show 0 < 256 by decide))
    have hlow : x % 256 ^ n = y % 256 ^ n := by
      have := congrArg (· % 256 ^ n) h
      simpa [Nat.add_mul_mod_self_left, Nat.mod_mod] using this
    have hhigh : x / 256 ^ n % 256 = y / 256 ^ n % 256 := by
      rw [hlow, Nat.add_left_cancel_iff] at h
      exact Nat.eq_of_mul_eq_mul_left (Nat.pow_pos (by decide)) h
    rw [toBE, toBE, toBE_congr hlow]
    exact congrArg (· :: _) (BitVec.eq_of_toNat_eq (by simpa using hhigh))

theorem toBE_ofBE : ∀ bs : Bytes, toBE bs.length (ofBE bs) = bs
  | [] => rfl
  | b :: bs => by
    have hlt := ofBE_lt bs
    have hpos : 0 < 256 ^ bs.length := Nat.pow_pos (by decide)
    rw [List.length_cons, toBE, ofBE]
    refine List.cons_eq_cons.mpr ⟨BitVec.eq_of_toNat_eq ?_, ?_⟩
    · rw [Nat.mul_comm, Nat.mul_add_div hpos, Nat.div_eq_of_lt hlt, BitVec.toNat_ofNat,
        Nat.add_zero, Nat.mod_eq_of_lt b.isLt]
    · conv_rhs => rw [← toBE_ofBE bs]
      exact toBE_congr (by rw [Nat.mul_comm, Nat.mul_add_mod])

/-! ## Machine words -/

/-- A machine word in `n` bytes (`to_be_bytes`). -/
def beBytes (n : Nat) {w : Nat} (x : BitVec w) : Bytes := toBE n x.toNat

/-- The machine word a byte string spells (`from_be_bytes`). -/
def fromBeBytes (w : Nat) (bs : Bytes) : BitVec w := BitVec.ofNat w (ofBE bs)

@[simp] theorem length_beBytes (n : Nat) {w : Nat} (x : BitVec w) : (beBytes n x).length = n :=
  length_toBE n _

theorem fromBeBytes_beBytes {n w : Nat} (h : 2 ^ w ≤ 256 ^ n) (x : BitVec w) :
    fromBeBytes w (beBytes n x) = x := by
  rw [fromBeBytes, beBytes, ofBE_toBE (Nat.lt_of_lt_of_le x.isLt h), BitVec.ofNat_toNat,
    BitVec.setWidth_eq]

theorem beBytes_fromBeBytes {n w : Nat} (h : 256 ^ n ≤ 2 ^ w) {bs : Bytes} (hl : bs.length = n) :
    beBytes n (fromBeBytes w bs) = bs := by
  subst hl
  rw [beBytes, fromBeBytes, BitVec.toNat_ofNat,
    Nat.mod_eq_of_lt (Nat.lt_of_lt_of_le (ofBE_lt bs) h), toBE_ofBE]

theorem beBytes_inj {n w : Nat} (h : 2 ^ w ≤ 256 ^ n) {x y : BitVec w}
    (he : beBytes n x = beBytes n y) : x = y := by
  rw [← fromBeBytes_beBytes h x, he, fromBeBytes_beBytes h]

/-! ## Order -/

/-- Concatenations whose first parts have one length compare part by part. -/
theorem compare_append : ∀ {as bs : Bytes}, as.length = bs.length → ∀ cs ds : Bytes,
    compare (as ++ cs) (bs ++ ds) = (compare as bs).then (compare cs ds)
  | [], [], _, cs, ds => by simp [Std.ReflOrd.compare_self]
  | a :: as, b :: bs, h, cs, ds => by
    rw [List.cons_append, List.cons_append, List.compare_cons_cons, List.compare_cons_cons,
      compare_append (Nat.succ.inj h), Ordering.then_assoc]

/-- Big-endian strings of one width compare as their numbers. -/
theorem compare_toBE : ∀ {n x y : Nat}, x < 256 ^ n → y < 256 ^ n →
    compare (toBE n x) (toBE n y) = compare x y
  | 0, x, y, hx, hy => by
    obtain rfl : x = 0 := by simpa using hx
    obtain rfl : y = 0 := by simpa using hy
    rfl
  | n + 1, x, y, hx, hy => by
    have hpos : 0 < 256 ^ n := Nat.pow_pos (by decide)
    rw [Nat.pow_succ] at hx hy
    have qx : x / 256 ^ n < 256 := Nat.div_lt_of_lt_mul hx
    have qy : y / 256 ^ n < 256 := Nat.div_lt_of_lt_mul hy
    have ex := Nat.div_add_mod x (256 ^ n)
    have ey := Nat.div_add_mod y (256 ^ n)
    have mx := Nat.mod_lt x hpos
    have my := Nat.mod_lt y hpos
    have low : compare (toBE n x) (toBE n y) = compare (x % 256 ^ n) (y % 256 ^ n) := by
      rw [← compare_toBE (n := n) mx my, toBE_congr (Nat.mod_mod x _).symm,
        toBE_congr (Nat.mod_mod y _).symm]
    have head : compare (BitVec.ofNat 8 (x / 256 ^ n)) (BitVec.ofNat 8 (y / 256 ^ n)) =
        compare (x / 256 ^ n) (y / 256 ^ n) := by
      simp only [compare, compareOfLessAndEq, BitVec.lt_def, BitVec.toNat_ofNat, ← BitVec.toNat_inj,
        Nat.mod_eq_of_lt qx, Nat.mod_eq_of_lt qy]
    rw [toBE, toBE, List.compare_cons_cons, low, head]
    rcases Nat.lt_trichotomy (x / 256 ^ n) (y / 256 ^ n) with h | h | h
    · have hxy : x < y := Nat.lt_of_not_ge fun hle => absurd (Nat.div_le_div_right (c := 256 ^ n) hle) (by omega)
      rw [Nat.compare_eq_lt.mpr h, Nat.compare_eq_lt.mpr hxy]; rfl
    · rw [h, Nat.compare_eq_eq.mpr rfl, Ordering.eq_then]
      rw [h] at ex
      rcases Nat.lt_trichotomy (x % 256 ^ n) (y % 256 ^ n) with l | l | l
      · rw [Nat.compare_eq_lt.mpr l, Nat.compare_eq_lt.mpr (by omega)]
      · rw [Nat.compare_eq_eq.mpr l, Nat.compare_eq_eq.mpr (by omega)]
      · rw [Nat.compare_eq_gt.mpr l, Nat.compare_eq_gt.mpr (by omega)]
    · have hxy : y < x := Nat.lt_of_not_ge fun hle => absurd (Nat.div_le_div_right (c := 256 ^ n) hle) (by omega)
      rw [Nat.compare_eq_gt.mpr h, Nat.compare_eq_gt.mpr hxy]; rfl

theorem compare_beBytes {n w : Nat} (h : 2 ^ w ≤ 256 ^ n) (x y : BitVec w) :
    compare (beBytes n x) (beBytes n y) = compare x.toNat y.toNat :=
  compare_toBE (Nat.lt_of_lt_of_le x.isLt h) (Nat.lt_of_lt_of_le y.isLt h)

end BigEndian
