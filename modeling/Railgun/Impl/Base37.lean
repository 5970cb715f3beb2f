import Railgun.Framework.Ascii
import Railgun.Framework.Positional
import Railgun.Impl.Types

/-!
# Base 37

Short lower-case texts as numbers in 16 bytes: a space is the digit 0, then
come the digits and the letters.
-/

namespace Railgun

open Positional BigEndian

/-- Errors of the encoder. -/
inductive Base37Error
  | invalidCharacter (c : Char)
  | outputTooLong (bytes : Nat)
  deriving DecidableEq, Repr

abbrev RailgunBase37 := ByteArr 16

namespace RailgunBase37

/-- `b" 0123456789abcdefghijklmnopqrstuvwxyz"`. -/
def charset : Bytes := [0x20,
  0x30, 0x31, 0x32, 0x33, 0x34, 0x35, 0x36, 0x37, 0x38, 0x39,
  0x61, 0x62, 0x63, 0x64, 0x65, 0x66, 0x67, 0x68, 0x69, 0x6a, 0x6b, 0x6c, 0x6d,
  0x6e, 0x6f, 0x70, 0x71, 0x72, 0x73, 0x74, 0x75, 0x76, 0x77, 0x78, 0x79, 0x7a]

def base : U128 := 37

def maxDecodedLen : Nat := 32

/-- The index of a character in the charset. -/
def charsetIndex (c : Char) : Option Byte :=
  if c = ' ' then some 0
  else if '0'.toNat ≤ c.toNat ∧ c.toNat ≤ '9'.toNat then some (Ascii.code c - 0x30 + 1)
  else if 'a'.toNat ≤ c.toNat ∧ c.toNat ≤ 'z'.toNat then some (Ascii.code c - 0x61 + 11)
  else none

/-- The encoder's turn: another character, and the number so far. -/
def encodeChar (value : U128) (c : Char) : Except Base37Error U128 :=
  match charsetIndex c with
  | none => .error (.invalidCharacter c)
  | some idx =>
    match mulAdd base value (idx.setWidth 128) with
    | some value => .ok value
    | none => .error (.outputTooLong 16)

def encode (text : String) : Except Base37Error RailgunBase37 := do
  let value ← text.toList.foldlM encodeChar 0
  return ⟨beBytes 16 value, length_beBytes 16 value⟩

/-- A buffer that is filled from its end. -/
structure Decoded where
  bytes : Bytes
  len : Nat

/-- The division loop; nothing where an index is out of range. -/
def decodeDigits (value : U128) (decoded : Decoded) : Option Decoded :=
  if _h : 0 < value then do
    let digit ← charset[(value % base).toNat]?
    if decoded.len < maxDecodedLen then
      decodeDigits (value / base)
        { bytes := decoded.bytes.set (maxDecodedLen - 1 - decoded.len) digit
          len := decoded.len + 1 }
    else none
  else some decoded
termination_by value.toNat
decreasing_by
  rw [BitVec.toNat_udiv]
  exact Nat.div_lt_self ‹0 < value› (by decide)

def tryDecode (self : RailgunBase37) : Option Decoded :=
  decodeDigits (fromBeBytes 128 self.1) { bytes := List.replicate maxDecodedLen 0, len := 0 }

namespace Decoded

/-- `&self.bytes[MAX_DECODED_LEN - self.len..]`; nothing where that underflows. -/
def asBytes (self : Decoded) : Option Bytes :=
  if self.len ≤ maxDecodedLen then some (self.bytes.drop (maxDecodedLen - self.len)) else none

/-- The bytes as text; nothing where they are not UTF-8. -/
def asStr (self : Decoded) : Option String := do
  String.fromUTF8? (Ascii.ofBytes (← self.asBytes))

end Decoded

/-- `to_string`: what is decoded, as text. -/
def toString (self : RailgunBase37) : Option String := do (← self.tryDecode).asStr

end RailgunBase37

end Railgun
