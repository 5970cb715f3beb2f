import Railgun.Framework.Ascii
import Railgun.Framework.Positional
import Railgun.Impl.Types

/-!
# Derivation paths and keys

Hardened BIP32 paths, `m/44'/1984'/0'/0'/7'`: their text, the parser that goes
over its bytes by index, and the keys that a node derives along a path.
HMAC-SHA512 is a parameter.
-/

namespace Railgun

open Positional BigEndian

/-! ## Paths -/

/-- Errors of the parser, and the panic of an index that is out of range. -/
inductive DerivationPathError
  | invalidDerivationPath
  | derivationPathTooDeep
  | outOfRange
  deriving DecidableEq, Repr

def maxDerivationDepth : Nat := 8

/-- An array of segments of which the first `len` are used; the others are zero. -/
structure DerivationPath where
  array : List U32
  len : Nat
  length_array : array.length = maxDerivationDepth
  len_le : len ≤ maxDerivationDepth
  unused : array.drop len = List.replicate (maxDerivationDepth - len) 0

namespace DerivationPath

/-- `&self.segments[..self.len]`. -/
def segments (self : DerivationPath) : List U32 := self.array.take self.len

/-- The path of some segments; the copy of more than eight panics. -/
def fromSegments (segments : List U32) (h : segments.length ≤ maxDerivationDepth) : DerivationPath where
  array := segments ++ List.replicate (maxDerivationDepth - segments.length) 0
  len := segments.length
  length_array := by rw [List.length_append, List.length_replicate, Nat.add_sub_cancel' h]
  len_le := h
  unused := List.drop_left

/-- `segments[len] = value; len += 1`. -/
def push (self : DerivationPath) (value : U32) (h : self.len ≠ maxDerivationDepth) : DerivationPath where
  array := self.array.set self.len value
  len := self.len + 1
  length_array := by rw [List.length_set, self.length_array]
  len_le := Nat.lt_of_le_of_ne self.len_le h
  unused := by
    rw [List.drop_set_of_lt (Nat.lt_succ_self _), Nat.succ_eq_add_one, ← List.drop_drop, self.unused,
      List.drop_replicate, Nat.sub_sub]

/-! ## The parser -/

def isAsciiDigit (b : Byte) : Bool := 0x30 ≤ b && b ≤ 0x39

/-- `bytes[idx]`. -/
def byteAt (bytes : Bytes) (idx : Nat) : Except DerivationPathError Byte :=
  match bytes[idx]? with
  | some b => .ok b
  | none => .error .outOfRange

/-- The digit loop: where it ends, the value, and whether it saw a digit. -/
def parseDigits (bytes : Bytes) (idx : Nat) (value : U32) (sawDigit : Bool) :
    Except DerivationPathError (Nat × U32 × Bool) :=
  if idx < bytes.length then do
    let b ← byteAt bytes idx
    if isAsciiDigit b then
      match mulAdd 10 value ((b - 0x30).setWidth 32) with
      | some value => parseDigits bytes (idx + 1) value true
      | none => throw .invalidDerivationPath
    else return (idx, value, sawDigit)
  else return (idx, value, sawDigit)
termination_by bytes.length - idx

/-- The loop over segments, each followed by an apostrophe. -/
def parseSegments (bytes : Bytes) (path : DerivationPath) (idx : Nat) :
    Except DerivationPathError DerivationPath :=
  if idx < bytes.length then
    if h : path.len = maxDerivationDepth then .error .derivationPathTooDeep
    else do
      let (idx, value, sawDigit) ← parseDigits bytes idx 0 false
      if !sawDigit || bytes.length ≤ idx then throw .invalidDerivationPath
      if (← byteAt bytes idx) ≠ 0x27 then throw .invalidDerivationPath
      let idx := idx + 1
      if idx = bytes.length then return path.push value h
      if (← byteAt bytes idx) ≠ 0x2f then throw .invalidDerivationPath
      parseSegments bytes (path.push value h) (idx + 1)
  else .ok path
termination_by maxDerivationDepth - path.len
decreasing_by
  have := path.len_le
  show maxDerivationDepth - (path.len + 1) < maxDerivationDepth - path.len
  omega

/-- The path without segments. -/
def root : DerivationPath := .fromSegments [] (Nat.zero_le _)

/-- `bytes.len() < 4 || bytes[0] != b'm' || bytes[1] != b'/'`. -/
def badStart (bytes : Bytes) : Except DerivationPathError Bool := do
  if bytes.length < 4 then return true
  if (← byteAt bytes 0) ≠ 0x6d then return true
  return (← byteAt bytes 1) ≠ 0x2f

/-- Parses what is not `"m"`. -/
def fromBytes (bytes : Bytes) : Except DerivationPathError DerivationPath := do
  if ← badStart bytes then throw .invalidDerivationPath
  parseSegments bytes root 2

def fromStr (path : String) : Except DerivationPathError DerivationPath :=
  if path = "m" then .ok root else fromBytes (Ascii.utf8 path)

/-- A segment in decimal, after a slash and before an apostrophe. -/
def segmentText (segment : U32) : String := "/" ++ segment.toNat.repr ++ "'"

def toString (self : DerivationPath) : String :=
  self.segments.foldl (fun text segment => text ++ segmentText segment) "m"

end DerivationPath

/-! ## Accounts -/

/-- `RailgunAccountIndex`. -/
abbrev RailgunAccountIndex := U32

def RailgunAccountIndex.spendingPath (self : RailgunAccountIndex) : DerivationPath :=
  .fromSegments [44, 1984, 0, 0, self] (of_decide_eq_true rfl)

def RailgunAccountIndex.viewingPath (self : RailgunAccountIndex) : DerivationPath :=
  .fromSegments [420, 1984, 0, 0, self] (of_decide_eq_true rfl)

/-! ## Keys -/

def hardenedOffset : U32 := 0x80000000

structure KeyNode where
  chainKey : ByteArr 32
  chainCode : ByteArr 32
  deriving DecidableEq

namespace KeyNode

/-- The message of a child: a zero byte, the chain key and the child's index. -/
def preimage (self : KeyNode) (index : U32) : Bytes := 0 :: (self.chainKey.1 ++ beBytes 4 index)

def fromDigest (digest : ByteArr 64) : KeyNode where
  chainKey := ⟨digest.1.take 32, by rw [List.length_take, digest.2]; rfl⟩
  chainCode := ⟨digest.1.drop 32, by rw [List.length_drop, digest.2]⟩

variable (hmacSha512 : Bytes → Bytes → ByteArr 64)

def deriveHardened (self : KeyNode) (index : U32) : KeyNode :=
  let index := index + hardenedOffset
  fromDigest (hmacSha512 self.chainCode.1 (self.preimage index))

def derivePath (self : KeyNode) (path : DerivationPath) : KeyNode :=
  path.segments.foldl (deriveHardened hmacSha512) self

end KeyNode

end Railgun
