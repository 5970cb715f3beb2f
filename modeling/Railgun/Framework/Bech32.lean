import Mathlib.Data.List.Basic
import Mathlib.Tactic.Common
import Railgun.Framework.Regroup

/-!
# Bech32 strings

A human-readable part, the separator `1` and base-32 symbols, the last six of
which are a checksum. There are two checksums, bech32 and bech32m, with one
generator and two target residues. A checksum is valid exactly when it is the
one created for what precedes it (`residue_eq_target_iff`), so a string spells
one variant, one human-readable part and one list of symbols at most
(`Spells.inj`), and `parse` finds them (`parse_eq_some`).
-/

namespace Bech32

open Regroup

/-- A base-32 symbol. -/
abbrev Symbol := BitVec 5

inductive Variant
  | bech32
  | bech32m
  deriving DecidableEq

/-- The residue of a valid string. -/
def Variant.target : Variant → BitVec 30
  | .bech32 => 1
  | .bech32m => 0x2bc830a3

/-! ## The checksum -/

def select (b : Bool) (generator : BitVec 30) : BitVec 30 := if b then generator else 0

/-- What the five bits shifted out add to the residue. -/
def feedback (c : BitVec 30) : BitVec 30 :=
  select (c.getLsbD 25) 0x3b6a57b2 ^^^ select (c.getLsbD 26) 0x26508e6d ^^^
    select (c.getLsbD 27) 0x1ea119fa ^^^ select (c.getLsbD 28) 0x3d4233dd ^^^
    select (c.getLsbD 29) 0x2a1462b3

def shift (c : BitVec 30) : BitVec 30 := c <<< 5 ^^^ feedback c

def step (c : BitVec 30) (x : Symbol) : BitVec 30 := shift c ^^^ x.setWidth 30

def run (c : BitVec 30) (xs : List Symbol) : BitVec 30 := xs.foldl step c

/-- The high bits of the characters, a zero, their low bits. -/
def expand (hrp : List Char) : List Symbol :=
  hrp.map (fun c => BitVec.ofNat 5 (c.toNat / 32)) ++ 0 :: hrp.map fun c => BitVec.ofNat 5 c.toNat

def residue (hrp : List Char) (xs : List Symbol) : BitVec 30 := run 1 (expand hrp ++ xs)

/-- The six symbols of a residue. -/
def symbols (c : BitVec 30) : List Symbol :=
  [(c >>> 25).setWidth 5, (c >>> 20).setWidth 5, (c >>> 15).setWidth 5, (c >>> 10).setWidth 5,
    (c >>> 5).setWidth 5, c.setWidth 5]

def checksum (variant : Variant) (hrp : List Char) (xs : List Symbol) : List Symbol :=
  symbols (residue hrp (xs ++ List.replicate 6 0#5) ^^^ variant.target)

theorem select_xor (a b : Bool) (g : BitVec 30) : select (a ^^ b) g = select a g ^^^ select b g := by
  cases a <;> cases b <;> simp [select]

theorem shift_xor (a b : BitVec 30) : shift (a ^^^ b) = shift a ^^^ shift b := by
  simp only [shift, feedback, BitVec.shiftLeft_xor_distrib, BitVec.getLsbD_xor, select_xor]
  ac_rfl

/-- The checksum is linear. -/
theorem run_xor : ∀ (xs : List Symbol) (a b : BitVec 30),
    run (a ^^^ b) xs = run a (List.replicate xs.length 0#5) ^^^ run b xs
  | [], _, _ => rfl
  | x :: xs, a, b => by
    have hstep : step (a ^^^ b) x = step a 0#5 ^^^ step b x := by
      rw [step, step, step, shift_xor, BitVec.setWidth_zero, BitVec.xor_zero, BitVec.xor_assoc]
    exact (congrArg (run · xs) hstep).trans (run_xor xs _ _)

/-- A symbol after a residue that is not full. -/
theorem toNat_step {c : BitVec 30} (hc : c.toNat < 2 ^ 25) (x : Symbol) :
    (step c x).toNat = 2 ^ 5 * c.toNat + x.toNat := by
  have hlow : ∀ i, 25 ≤ i → c.getLsbD i = false := fun i hi => by
    rw [← BitVec.testBit_toNat]
    exact Nat.testBit_lt_two_pow (Nat.lt_of_lt_of_le hc (Nat.pow_le_pow_right (by decide) hi))
  have hfeedback : feedback c = 0#30 := by
    rw [feedback, hlow 25 (by decide), hlow 26 (by decide), hlow 27 (by decide), hlow 28 (by decide),
      hlow 29 (by decide)]
    rfl
  refine Nat.eq_of_testBit_eq fun i => ?_
  rw [Nat.testBit_two_pow_mul_add _ x.isLt, step, shift, hfeedback, BitVec.xor_zero, BitVec.testBit_toNat,
    BitVec.getLsbD_xor, BitVec.getLsbD_shiftLeft, BitVec.getLsbD_setWidth]
  by_cases hi : i < 5
  · rw [if_pos hi, BitVec.testBit_toNat]
    simp [hi, show i < 30 by omega]
  · rw [if_neg hi, BitVec.testBit_toNat, BitVec.getLsbD_of_ge x i (by omega)]
    by_cases h30 : i < 30
    · simp [hi, h30]
    · simp [h30, hlow (i - 5) (by omega)]

/-- What six symbols leave, from a zero residue, in base 32. -/
theorem toNat_run (x₁ x₂ x₃ x₄ x₅ x₆ : Symbol) : (run 0#30 [x₁, x₂, x₃, x₄, x₅, x₆]).toNat =
    2 ^ 5 * (2 ^ 5 * (2 ^ 5 * (2 ^ 5 * (2 ^ 5 * x₁.toNat + x₂.toNat) + x₃.toNat) + x₄.toNat) + x₅.toNat) +
      x₆.toNat := by
  have hnext : ∀ {c : BitVec 30} {n : Nat} (x : Symbol), c.toNat < 2 ^ n → n ≤ 25 →
      (step c x).toNat = 2 ^ 5 * c.toNat + x.toNat ∧ (step c x).toNat < 2 ^ (n + 5) := fun {c n} x hc hn => by
    have hx := x.isLt
    have h := toNat_step (Nat.lt_of_lt_of_le hc (Nat.pow_le_pow_right (by decide) hn)) x
    refine ⟨h, ?_⟩
    rw [h, Nat.pow_add]
    omega
  obtain ⟨h₁, l₁⟩ := hnext (c := 0#30) (n := 0) x₁ (by decide) (by decide)
  obtain ⟨h₂, l₂⟩ := hnext x₂ l₁ (by decide)
  obtain ⟨h₃, l₃⟩ := hnext x₃ l₂ (by decide)
  obtain ⟨h₄, l₄⟩ := hnext x₄ l₃ (by decide)
  obtain ⟨h₅, l₅⟩ := hnext x₅ l₄ (by decide)
  obtain ⟨h₆, -⟩ := hnext x₆ l₅ (by decide)
  rw [run, List.foldl_cons, List.foldl_cons, List.foldl_cons, List.foldl_cons, List.foldl_cons,
    List.foldl_cons, List.foldl_nil, h₆, h₅, h₄, h₃, h₂, h₁, show (0#30).toNat = 0 from rfl, Nat.mul_zero,
    Nat.zero_add]

/-- Six symbols are those of the residue they leave. -/
theorem symbols_run : ∀ {xs : List Symbol}, xs.length = 6 → symbols (run 0#30 xs) = xs
  | [x₁, x₂, x₃, x₄, x₅, x₆], _ => by
    have h := toNat_run x₁ x₂ x₃ x₄ x₅ x₆
    have hx₂ := x₂.isLt
    have hx₃ := x₃.isLt
    have hx₄ := x₄.isLt
    have hx₅ := x₅.isLt
    have hx₆ := x₆.isLt
    simp only [symbols, List.cons.injEq, and_true]
    refine ⟨?_, ?_, ?_, ?_, ?_, ?_⟩
    all_goals
      refine BitVec.eq_of_toNat_eq ?_
      simp only [BitVec.toNat_setWidth, BitVec.toNat_ushiftRight, Nat.shiftRight_eq_div_pow, h]
      omega

theorem run_symbols (c : BitVec 30) : run 0#30 (symbols c) = c := by
  have hc := c.isLt
  refine BitVec.eq_of_toNat_eq ?_
  rw [symbols, toNat_run]
  simp only [BitVec.toNat_setWidth, BitVec.toNat_ushiftRight, Nat.shiftRight_eq_div_pow]
  omega

/-- A checksum is valid exactly when it is the one that is created. -/
theorem residue_eq_target_iff {variant : Variant} {hrp : List Char} {xs check : List Symbol}
    (hlen : check.length = 6) :
    residue hrp (xs ++ check) = variant.target ↔ check = checksum variant hrp xs := by
  have hzero : residue hrp (xs ++ List.replicate 6 0#5) =
      run (run 1 (expand hrp ++ xs)) (List.replicate 6 0#5) := by
    rw [residue, run, run, run, ← List.append_assoc, List.foldl_append]
  have hrun : residue hrp (xs ++ check) =
      residue hrp (xs ++ List.replicate 6 0#5) ^^^ run 0#30 check := by
    rw [hzero, residue, run, ← List.append_assoc, List.foldl_append, ← run, ← run]
    have := run_xor check (run 1 (expand hrp ++ xs)) 0#30
    rwa [BitVec.xor_zero, hlen] at this
  rw [hrun, checksum]
  constructor
  · intro h
    rw [← h, ← BitVec.xor_assoc, BitVec.xor_self, BitVec.zero_xor, symbols_run hlen]
  · rintro rfl
    rw [run_symbols, ← BitVec.xor_assoc, BitVec.xor_self, BitVec.zero_xor]

theorem length_checksum (variant : Variant) (hrp : List Char) (xs : List Symbol) :
    (checksum variant hrp xs).length = 6 := rfl

/-! ## Strings -/

def alphabet : List Char :=
  ['q', 'p', 'z', 'r', 'y', '9', 'x', '8', 'g', 'f', '2', 't', 'v', 'd', 'w', '0',
   's', '3', 'j', 'n', '5', '4', 'k', 'h', 'c', 'e', '6', 'm', 'u', 'a', '7', 'l']

def toChar (x : Symbol) : Char := alphabet.getD x.toNat 'q'

def ofChar (c : Char) : Option Symbol := (alphabet.idxOf? c).map (BitVec.ofNat 5)

/-- The character is one of those from `!` to `~`. -/
def Printable (c : Char) : Prop := 33 ≤ c.toNat ∧ c.toNat ≤ 126

instance (c : Char) : Decidable (Printable c) := inferInstanceAs (Decidable (_ ∧ _))

/-- One to 83 printable characters. -/
def IsHrp (cs : List Char) : Prop := cs ≠ [] ∧ cs.length ≤ 83 ∧ ∀ c ∈ cs, Printable c

instance (cs : List Char) : Decidable (IsHrp cs) :=
  have := List.decidableBAll Printable cs
  inferInstanceAs (Decidable (_ ∧ _))

/-- A human-readable part. -/
def Hrp : Type := { cs : List Char // IsHrp cs }

instance : DecidableEq Hrp := fun a b => decidable_of_iff (a.1 = b.1) Subtype.ext_iff.symm

/-- Human-readable parts are compared in lower case. -/
def Hrp.lower (hrp : Hrp) : List Char := hrp.1.map Char.toLower

/-- The string of a human-readable part and symbols, in lower case. -/
def text (variant : Variant) (hrp : List Char) (xs : List Symbol) : List Char :=
  hrp ++ '1' :: (xs ++ checksum variant hrp xs).map toChar

def codeLength : Nat := 1023

/-- The letters are of one case. -/
def OneCase (s : List Char) : Prop := (∀ c ∈ s, c.isUpper = false) ∨ ∀ c ∈ s, c.isLower = false

instance (s : List Char) : Decidable (OneCase s) :=
  have : Decidable (∀ c ∈ s, c.isUpper = false) := List.decidableBAll _ s
  have : Decidable (∀ c ∈ s, c.isLower = false) := List.decidableBAll _ s
  inferInstanceAs (Decidable (_ ∨ _))

/-- The string holds the human-readable part and the symbols, under a valid
checksum of the variant. -/
structure Spells (s : List Char) (variant : Variant) (hrp : Hrp) (xs : List Symbol) : Prop where
  length_le : s.length ≤ codeLength
  oneCase : OneCase s
  parts : ∃ rest, s = hrp.1 ++ '1' :: rest ∧
    rest.map Char.toLower = (xs ++ checksum variant hrp.lower xs).map toChar

/-- The parts of a string around the last `c`. -/
def splitLast (c : Char) : List Char → Option (List Char × List Char)
  | [] => none
  | x :: s =>
    match splitLast c s with
    | some (front, back) => some (x :: front, back)
    | none => if x = c then some ([], s) else none

/-- The variant whose checksum is valid. -/
def variantOf (c : BitVec 30) : Option Variant :=
  if c = Variant.bech32m.target then some .bech32m
  else if c = Variant.bech32.target then some .bech32
  else none

/-- The variant, the human-readable part and the symbols before the checksum. -/
def parse (s : List Char) : Option (Variant × Hrp × List Symbol) :=
  if OneCase s ∧ s.length ≤ codeLength then do
    let (front, rest) ← splitLast '1' s
    let xs ← rest.mapM fun c => ofChar c.toLower
    if h : IsHrp front then
      if 6 ≤ xs.length then do
        let hrp : Hrp := ⟨front, h⟩
        let variant ← variantOf (residue hrp.lower xs)
        return (variant, hrp, xs.take (xs.length - 6))
      else none
    else none
  else none

/-! ### Characters -/

/-- A character in lower case is itself, unless it is one of the 26 capitals. -/
theorem toNat_toLower (c : Char) :
    c.toLower = c ∨ (65 ≤ c.toNat ∧ c.toNat ≤ 90 ∧ c.toLower.toNat = c.toNat + 32) := by
  by_cases h : c.val ≥ 'A'.val ∧ c.val ≤ 'Z'.val
  · have h₁ : 65 ≤ c.toNat := h.1
    have h₂ : c.toNat ≤ 90 := h.2
    refine .inr ⟨h₁, h₂, (congrArg Char.toNat (dif_pos h)).trans ?_⟩
    show (c.val + 32).toNat = c.val.toNat + 32
    rw [UInt32.toNat_add]
    exact Nat.mod_eq_of_lt (show c.toNat + 32 < 2 ^ 32 by omega)
  · exact .inl (dif_neg h)

theorem toLower_of_not_isUpper {c : Char} (h : c.isUpper = false) : c.toLower = c := by
  rcases toNat_toLower c with hc | ⟨h₁, h₂, -⟩
  · exact hc
  · have : c.isUpper = true := decide_eq_true (show 65 ≤ c.toNat ∧ c.toNat ≤ 90 from ⟨h₁, h₂⟩)
    rw [h] at this
    cases this

theorem toLower_eq_one {c : Char} (h : c.toLower = '1') : c = '1' := by
  rcases toNat_toLower c with hc | ⟨h₁, h₂, hc⟩
  · exact hc ▸ h
  · rw [h] at hc
    have : 49 = c.toNat + 32 := hc
    omega

/-- A character is printable if its lower case is a printable one's. -/
theorem printable_of_toLower {c d : Char} (h : c.toLower = d.toLower) (hd : Printable d) :
    Printable c := by
  obtain ⟨hlow, hhigh⟩ := hd
  rw [Printable]
  rcases toNat_toLower c with hc | ⟨h₁, h₂, -⟩
  · rw [hc] at h
    rcases toNat_toLower d with hd | ⟨-, h₂, hd⟩
    · rw [h, hd]
      exact ⟨hlow, hhigh⟩
    · rw [h, hd]
      omega
  · omega

theorem toLower_toChar : ∀ x, (toChar x).toLower = toChar x := by decide

theorem isUpper_toChar : ∀ x, (toChar x).isUpper = false := by decide

theorem splitLast_eq_none {c : Char} : ∀ {s : List Char}, splitLast c s = none ↔ c ∉ s
  | [] => by simp [splitLast]
  | x :: s => by
    have ih := splitLast_eq_none (c := c) (s := s)
    rw [splitLast]
    cases h : splitLast c s with
    | some p =>
      rw [h] at ih
      simp only [reduceCtorEq, false_iff, Decidable.not_not] at ih ⊢
      exact List.mem_cons_of_mem _ ih
    | none =>
      rw [h] at ih
      have hs := ih.mp rfl
      by_cases hx : x = c
      · simp [hx]
      · simp [hx, hs, Ne.symm hx]

theorem splitLast_eq_some {c : Char} : ∀ {s front back : List Char},
    splitLast c s = some (front, back) ↔ s = front ++ c :: back ∧ c ∉ back
  | [], front, back => by simp [splitLast]
  | x :: s, front, back => by
    have ih := fun front back => @splitLast_eq_some c s front back
    rw [splitLast]
    cases h : splitLast c s with
    | some p =>
      obtain ⟨front', back'⟩ := p
      obtain ⟨hs, hb⟩ := (ih front' back').mp h
      simp only [Option.some.injEq, Prod.mk.injEq]
      constructor
      · rintro ⟨rfl, rfl⟩
        exact ⟨congrArg (x :: ·) hs, hb⟩
      · rintro ⟨hx, hback⟩
        cases front with
        | nil =>
          obtain ⟨-, rfl⟩ := List.cons.inj hx
          exact absurd (hs ▸ List.mem_append_right _ (List.mem_cons_self ..)) hback
        | cons y front =>
          obtain ⟨rfl, hs'⟩ := List.cons.inj hx
          have := h.symm.trans ((ih front back).mpr ⟨hs', hback⟩)
          simp only [Option.some.injEq, Prod.mk.injEq] at this
          exact ⟨congrArg (x :: ·) this.1, this.2⟩
    | none =>
      have hs := splitLast_eq_none.mp h
      show (if x = c then some ([], s) else none) = some (front, back) ↔ _
      constructor
      · intro hx
        by_cases hc : x = c
        · rw [if_pos hc, Option.some.injEq, Prod.mk.injEq] at hx
          obtain ⟨rfl, rfl⟩ := hx
          exact ⟨congrArg (· :: s) hc, hs⟩
        · rw [if_neg hc] at hx
          cases hx
      · rintro ⟨hx, -⟩
        cases front with
        | nil =>
          obtain ⟨rfl, rfl⟩ := List.cons.inj hx
          exact if_pos rfl
        | cons y front =>
          obtain ⟨rfl, rfl⟩ := List.cons.inj hx
          exact absurd (List.mem_append_right _ (List.mem_cons_self ..)) hs

theorem ofChar_toChar : ∀ x, ofChar (toChar x) = some x := by decide

theorem toChar_ne_one : ∀ x, toChar x ≠ '1' := by decide

theorem ofChar_eq_some {c : Char} {x : Symbol} : ofChar c = some x ↔ c = toChar x := by
  constructor
  · intro h
    rw [ofChar, Option.map_eq_some_iff] at h
    obtain ⟨i, hi, rfl⟩ := h
    obtain ⟨hlt, rfl, -⟩ := List.idxOf?_eq_some_iff.mp hi
    rw [toChar, BitVec.toNat_ofNat, Nat.mod_eq_of_lt (show i < 2 ^ 5 from hlt), List.getD_eq_getElem?_getD,
      List.getElem?_eq_getElem hlt, Option.getD_some]
  · rintro rfl
    exact ofChar_toChar x

theorem toChar_injective {xs ys : List Symbol} (h : xs.map toChar = ys.map toChar) : xs = ys :=
  List.map_injective_iff.mpr (fun x y hxy => Option.some.inj
    ((ofChar_toChar x).symm.trans ((congrArg ofChar hxy).trans (ofChar_toChar y)))) h

/-- The symbols that characters stand for, in either case. -/
theorem mapM_ofChar : ∀ {rest : List Char} {xs : List Symbol},
    rest.mapM (fun c => ofChar c.toLower) = some xs ↔ rest.map Char.toLower = xs.map toChar
  | [], xs => by
    rw [List.mapM_nil, List.map_nil]
    exact ⟨fun h => Option.some.inj h ▸ rfl, fun h => by rw [List.map_eq_nil_iff.mp h.symm]; rfl⟩
  | c :: rest, xs => by
    simp only [List.mapM_cons, Option.bind_eq_bind, Option.bind_eq_some_iff, ofChar_eq_some, mapM_ofChar,
      Option.pure_def, Option.some.injEq]
    constructor
    · rintro ⟨x, hx, ys, hys, rfl⟩
      rw [List.map_cons, List.map_cons, hx, hys]
    · intro h
      cases xs with
      | nil => cases h
      | cons x xs =>
        obtain ⟨hx, hxs⟩ := List.cons.inj h
        exact ⟨x, hx, xs, hxs, rfl⟩

theorem variantOf_eq_some {c : BitVec 30} {variant : Variant} :
    variantOf c = some variant ↔ c = variant.target := by
  rw [variantOf]
  split
  · rename_i h
    subst h
    cases variant <;> simp [Variant.target]
  · rename_i h
    split
    · rename_i h'
      subst h'
      cases variant <;> simp [Variant.target]
    · rename_i h'
      cases variant
      · simpa using h'
      · simpa using h

/-- The checksum tells its variant. -/
theorem append_checksum_inj {hrp : List Char} {variant variant' : Variant} {xs xs' : List Symbol}
    (h : xs ++ checksum variant hrp xs = xs' ++ checksum variant' hrp xs') :
    variant = variant' ∧ xs = xs' := by
  obtain ⟨rfl, hcheck⟩ := List.append_inj' h rfl
  have hv := (residue_eq_target_iff (length_checksum ..)).mpr hcheck
  rw [(residue_eq_target_iff (length_checksum ..)).mpr rfl] at hv
  exact ⟨Option.some.inj ((variantOf_eq_some.mpr rfl).symm.trans (variantOf_eq_some.mpr hv)), rfl⟩

theorem text_inj {hrp : List Char} {variant variant' : Variant} {xs xs' : List Symbol}
    (h : text variant hrp xs = text variant' hrp xs') : variant = variant' ∧ xs = xs' :=
  append_checksum_inj (toChar_injective (List.cons.inj (List.append_cancel_left h)).2)

theorem length_text (variant : Variant) (hrp : List Char) (xs : List Symbol) :
    (text variant hrp xs).length = hrp.length + xs.length + 7 := by
  rw [text, List.length_append, List.length_cons, List.length_map, List.length_append, length_checksum]
  omega

/-- The separator is the last `1`. -/
theorem Spells.splitLast {s : List Char} {variant : Variant} {hrp : Hrp} {xs : List Symbol}
    (h : Spells s variant hrp xs) : ∃ rest, splitLast '1' s = some (hrp.1, rest) ∧
      rest.map Char.toLower = (xs ++ checksum variant hrp.lower xs).map toChar := by
  obtain ⟨rest, hs, hrest⟩ := h.parts
  refine ⟨rest, splitLast_eq_some.mpr ⟨hs, fun hone => ?_⟩, hrest⟩
  have : '1' ∈ rest.map Char.toLower := List.mem_map.mpr ⟨'1', hone, rfl⟩
  rw [hrest, List.mem_map] at this
  obtain ⟨x, -, hx⟩ := this
  exact toChar_ne_one x hx

/-- A string spells one thing. -/
theorem Spells.inj {s : List Char} {variant variant' : Variant} {hrp hrp' : Hrp} {xs xs' : List Symbol}
    (h : Spells s variant hrp xs) (h' : Spells s variant' hrp' xs') :
    variant = variant' ∧ hrp = hrp' ∧ xs = xs' := by
  obtain ⟨rest, hsplit, hrest⟩ := h.splitLast
  obtain ⟨rest', hsplit', hrest'⟩ := h'.splitLast
  rw [hsplit, Option.some.injEq, Prod.mk.injEq] at hsplit'
  obtain ⟨hhrp, rfl⟩ := hsplit'
  obtain rfl : hrp = hrp' := Subtype.ext hhrp
  obtain ⟨rfl, rfl⟩ := append_checksum_inj (toChar_injective (hrest.symm.trans hrest'))
  exact ⟨rfl, rfl, rfl⟩

/-- A string spells what it is the text of, in lower or in upper case. -/
theorem spells_iff {s : List Char} {variant : Variant} {hrp : Hrp} {xs : List Symbol} :
    (∃ hrp' : Hrp, hrp'.lower = hrp.lower ∧ Spells s variant hrp' xs) ↔
      OneCase s ∧ s.length ≤ codeLength ∧ s.map Char.toLower = text variant hrp.lower xs := by
  constructor
  · rintro ⟨hrp', hlower, h⟩
    obtain ⟨rest, hs, hrest⟩ := h.parts
    refine ⟨h.oneCase, h.length_le, ?_⟩
    rw [hs, List.map_append, List.map_cons, hrest, text, ← hlower]
    rfl
  · rintro ⟨hcase, hlen, hs⟩
    obtain ⟨front, back, rfl, hfront, hback⟩ := List.map_eq_append_iff.mp hs
    obtain ⟨one, rest, rfl, hone, hrest⟩ := List.map_eq_cons_iff.mp hback
    obtain rfl := toLower_eq_one hone
    have hlength : front.length = hrp.1.length := by
      have := congrArg List.length hfront
      rwa [Hrp.lower, List.length_map, List.length_map] at this
    refine ⟨⟨front, ?_, ?_, ?_⟩, hfront, hlen, hcase, rest, rfl, ?_⟩
    · intro h
      rw [h] at hlength
      exact hrp.2.1 (List.length_eq_zero_iff.mp hlength.symm)
    · rw [hlength]
      exact hrp.2.2.1
    · intro c hc
      have : c.toLower ∈ hrp.lower := hfront ▸ List.mem_map_of_mem hc
      obtain ⟨d, hd, hcd⟩ := List.mem_map.mp this
      exact printable_of_toLower hcd.symm (hrp.2.2.2 d hd)
    · exact hrest.trans (congrArg (fun part => (xs ++ checksum variant part xs).map toChar) hfront.symm)

/-- The text of a part without capitals spells it. -/
theorem spells_text (variant : Variant) (hrp : Hrp) (xs : List Symbol)
    (hupper : hrp.lower.any Char.isUpper = false) (hlower : hrp.lower.map Char.toLower = hrp.lower)
    (hlen : (text variant hrp.lower xs).length ≤ codeLength) :
    ∃ hrp' : Hrp, hrp'.lower = hrp.lower ∧ Spells (text variant hrp.lower xs) variant hrp' xs := by
  refine spells_iff.mpr ⟨.inl fun c hc => ?_, hlen, ?_⟩
  · rw [text, List.mem_append, List.mem_cons, List.mem_map] at hc
    rcases hc with hc | rfl | ⟨x, -, rfl⟩
    · exact Bool.eq_false_iff.mpr (List.any_eq_false.mp hupper c hc)
    · rfl
    · exact isUpper_toChar x
  · rw [text, List.map_append, hlower, List.map_cons, List.map_map]
    congr 2
    exact List.map_congr_left fun x _ => toLower_toChar x

/-- What a string spells is what is parsed. -/
theorem parse_eq_some {s : List Char} {variant : Variant} {hrp : Hrp} {xs : List Symbol} :
    parse s = some (variant, hrp, xs) ↔ Spells s variant hrp xs := by
  rw [parse]
  constructor
  · intro h
    split at h
    · rename_i hs
      simp only [Option.bind_eq_bind, Option.bind_eq_some_iff, Prod.exists] at h
      obtain ⟨front, rest, hsplit, ys, hys, h⟩ := h
      split at h
      · split at h
        · rename_i hfront hlen
          simp only [Option.bind_eq_some_iff, Option.pure_def, Option.some.injEq, Prod.mk.injEq] at h
          obtain ⟨_, hvariant, rfl, rfl, rfl⟩ := h
          have hcut := List.take_append_drop (ys.length - 6) ys
          have hcheck := (residue_eq_target_iff (by rw [List.length_drop]; omega)).mp
            ((congrArg (residue _) hcut).trans (variantOf_eq_some.mp hvariant))
          refine ⟨hs.2, hs.1, rest, (splitLast_eq_some.mp hsplit).1, ?_⟩
          rw [← hcheck, hcut]
          exact mapM_ofChar.mp hys
        · cases h
      · cases h
    · cases h
  · intro h
    obtain ⟨rest, hsplit, hrest⟩ := h.splitLast
    rw [if_pos ⟨h.oneCase, h.length_le⟩, hsplit]
    have hlen : (xs ++ checksum variant hrp.lower xs).length = xs.length + 6 := by
      rw [List.length_append, length_checksum]
    simp only [Option.bind_eq_bind, Option.bind_some, mapM_ofChar.mpr hrest]
    rw [dif_pos hrp.2, if_pos (by omega), hlen, Nat.add_sub_cancel, List.take_left]
    rw [show variantOf (residue (Hrp.lower ⟨hrp.1, hrp.2⟩) (xs ++ checksum variant hrp.lower xs)) =
      some variant from variantOf_eq_some.mpr ((residue_eq_target_iff (length_checksum ..)).mpr rfl)]
    rfl

end Bech32
