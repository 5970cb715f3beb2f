import Mathlib.Data.Nat.Digits.Defs
import Railgun.Framework.BigEndian

/-!
# Numerals

Numbers as ASCII text in a base up to sixteen, without leading zeros, and the
reader that takes as many digits as there are. A numeral followed by something
else is read back (`takeNumeral_numeral`).
-/

namespace Numeral

/-- `0` to `9`, then `a` to `f`. -/
def digit (d : Nat) : Byte := if d < 10 then BitVec.ofNat 8 (48 + d) else BitVec.ofNat 8 (87 + d)

def digitValue (c : Byte) : Option Nat :=
  if 48 ≤ c.toNat ∧ c.toNat ≤ 57 then some (c.toNat - 48)
  else if 97 ≤ c.toNat ∧ c.toNat ≤ 102 then some (c.toNat - 87)
  else none

/-- The digits of a number, most significant first; zero has one. -/
def digits (base n : Nat) : List Nat := if n = 0 then [0] else (Nat.digits base n).reverse

def numeral (base n : Nat) : Bytes := (digits base n).map digit

/-- The digits at the front, and what is left. -/
def takeDigits : Bytes → List Nat × Bytes
  | [] => ([], [])
  | c :: cs =>
    match digitValue c with
    | some d => (d :: (takeDigits cs).1, (takeDigits cs).2)
    | none => ([], c :: cs)

def takeNumeral (base : Nat) (bs : Bytes) : Nat × Bytes :=
  (Nat.ofDigits base (takeDigits bs).1.reverse, (takeDigits bs).2)

theorem digitValue_digit {d : Nat} (h : d < 16) : digitValue (digit d) = some d := by
  rw [digitValue, digit]
  split <;> simp only [BitVec.toNat_ofNat]
  · rw [if_pos (by omega)]
    exact congrArg some (by omega)
  · rw [if_neg (by omega), if_pos (by omega)]
    exact congrArg some (by omega)

theorem digits_lt {base n d : Nat} (hb : 1 < base) (h : d ∈ digits base n) : d < base := by
  rw [digits] at h
  split at h
  · rw [List.mem_singleton.mp h]
    omega
  · exact Nat.digits_lt_base hb (List.mem_reverse.mp h)

theorem ofDigits_digits (base n : Nat) : Nat.ofDigits base (digits base n).reverse = n := by
  rw [digits]
  split
  · rename_i h
    rw [h]
    simp
  · rw [List.reverse_reverse, Nat.ofDigits_digits]

/-- Text that does not go on with a digit. -/
def Stops (bs : Bytes) : Prop := ∀ c cs, bs = c :: cs → digitValue c = none

theorem takeDigits_map : ∀ {ds : List Nat} {rest : Bytes}, (∀ d ∈ ds, d < 16) → Stops rest →
    takeDigits (ds.map digit ++ rest) = (ds, rest)
  | [], [], _, _ => rfl
  | [], c :: rest, _, h => by
    rw [List.map_nil, List.nil_append, takeDigits, h c rest rfl]
  | d :: ds, rest, hd, h => by
    rw [List.map_cons, List.cons_append, takeDigits, digitValue_digit (hd d List.mem_cons_self),
      takeDigits_map (fun e he => hd e (List.mem_cons_of_mem _ he)) h]

theorem takeNumeral_numeral {base : Nat} (hb : 1 < base) (hb' : base ≤ 16) (n : Nat) {rest : Bytes}
    (h : Stops rest) : takeNumeral base (numeral base n ++ rest) = (n, rest) := by
  rw [takeNumeral, numeral,
    takeDigits_map (fun d hd => Nat.lt_of_lt_of_le (digits_lt hb hd) hb') h, ofDigits_digits]

end Numeral
