import Mathlib.Data.Int.GCD
import Mathlib.Data.Nat.Digits.Defs
import Mathlib.Data.Nat.Size
import Railgun.Impl.Note

/-!
# Signatures on Baby Jubjub

The EdDSA-Poseidon signer: keys and nonces hashed with Blake512 (a parameter),
points doubled and added on projective coordinates over the scalar field.
Big integers are integers, with the truncating remainder.
-/

namespace Railgun.BabyJubJub

/-! ## Conversions -/

abbrev NumBigInt := Int

def Q : U256 := 21888242871839275222246405745257275088548364400416034343698204186575808495617

def ORDER : U256 := 21888242871839275222246405745257275088614511777268538073601725287587578984328

def A : U64 := 168700

def D : U64 := 168696

def frFromU64 (x : U64) : Fr := Fin.ofNat scalarField x.toNat

def frFromU256 (x : U256) : Fr := Fin.ofNat scalarField x.toNat

def u256ToNumBigInt (x : U256) : NumBigInt := x.toNat

def frToNumBigInt (f : Fr) : NumBigInt := f.val

/-- The number little-endian bytes spell. -/
def fromBytesLe (bytes : Bytes) : NumBigInt := (Nat.ofDigits 256 (bytes.map BitVec.toNat) : Nat)

/-- The little-endian bytes of a magnitude; zero has one. -/
def toBytesLe (n : NumBigInt) : Bytes :=
  if n = 0 then [0] else (Nat.digits 256 n.natAbs).map (BitVec.ofNat 8)

/-- `bits`: the bits of a magnitude. -/
def bits (n : NumBigInt) : Nat := n.natAbs.size

def testBit (bytes : Bytes) (i : Nat) : Bool := bytes.getD (i / 8) 0 &&& ((1 : Byte) <<< (i % 8)) ≠ 0

/-- `from_str` of a number in decimal: of any, a sign before it or not, modulo the field. -/
def frFromDecimal (n : NumBigInt) : Option Fr := some (Fin.ofNat scalarField (n % scalarField).toNat)

/-- `inverse().unwrap()` of an element that is not zero. -/
def inverse (x : Fr) : Fr := Fin.ofNat scalarField (Nat.gcdA x.val scalarField % scalarField).toNat

/-! ## Points -/

structure Point where
  x : Fr
  y : Fr

structure PointProjective where
  x : Fr
  y : Fr
  z : Fr

def B8_X : U256 := 5299619240641551281634865583518297030282874472190772894086521144482721001553

def B8_Y : U256 := 16950150798460657717958625567821834550301663161624707787222815936182638968203

def b8 : Point := { x := frFromU256 B8_X, y := frFromU256 B8_Y }

namespace PointProjective

def affine (self : PointProjective) : Point :=
  if self.z = 0 then { x := 0, y := 0 }
  else
    let zinv := inverse self.z
    { x := self.x * zinv, y := self.y * zinv }

def add (self q : PointProjective) : PointProjective :=
  let d := frFromU64 D
  let aCoeff := frFromU64 A
  let a := self.z * q.z
  let b := a * a
  let c := self.x * q.x
  let dxy := self.y * q.y
  let e := d * c * dxy
  let f := b - e
  let g := b + e
  let aux := (self.x + self.y) * (q.x + q.y) - c - dxy
  let x3 := a * f * aux
  let ac := aCoeff * c
  let dac := dxy - ac
  let y3 := a * g * dac
  let z3 := f * g
  { x := x3, y := y3, z := z3 }

end PointProjective

namespace Point

def projective (self : Point) : PointProjective := { x := self.x, y := self.y, z := 1 }

/-- One bit of the scalar: the sum so far and the doubled point. -/
def mulStep (bytes : Bytes) (state : PointProjective × PointProjective) (i : Nat) :
    PointProjective × PointProjective :=
  let (r, exp) := state
  (if testBit bytes i then r.add exp else r, exp.add exp)

def mulScalar (self : Point) (n : NumBigInt) : Point :=
  let (r, _) := (List.range (bits n)).foldl (mulStep (toBytesLe n)) ({ x := 0, y := 1, z := 1 }, self.projective)
  r.affine

end Point

/-! ## Keys and signatures -/

abbrev SpendingKey := ByteArr 32

structure Signature where
  r_b8 : Point
  s : NumBigInt

/-- Errors of signing: those with a text, those of the hash, and the panic of
copying a message that is longer than its buffer. -/
inductive SignError
  | text (message : String)
  | poseidon (e : PoseidonError)
  | outOfRange

section
variable (blake512 : Bytes → ByteArr 64)

def blake512Digest (key : SpendingKey) : ByteArr 64 := blake512 key.1

def scalarKey (key : SpendingKey) : NumBigInt :=
  let h := (blake512Digest blake512 key).1.take 32
  let h := h.modify 0 (· &&& 0xf8)
  let h := h.modify 31 (· &&& 0x7f)
  let h := h.modify 31 (· ||| 0x40)
  fromBytesLe h >>> (3 : Nat)

def publicPoint (key : SpendingKey) : Point := b8.mulScalar (scalarKey blake512 key)

def publicKey (key : SpendingKey) : BabyJubJubPoint :=
  let point := publicPoint blake512 key
  { x := BitVec.ofNat 256 point.x.val, y := BitVec.ofNat 256 point.y.val }

/-- The message in 32 little-endian bytes. -/
def msg32 (msg : NumBigInt) : Except SignError Bytes :=
  let msgBytes := toBytesLe msg
  if msgBytes.length ≤ 32 then .ok (msgBytes ++ List.replicate (32 - msgBytes.length) 0)
  else .error .outOfRange

/-- `u256_to_num_bigint(ORDER >> 3)`. -/
def suborder : NumBigInt := u256ToNumBigInt (ORDER >>> 3)

/-- The scalar `r` of a message: the hash of the key's second half and the message. -/
def nonce (key : SpendingKey) (msg32 : Bytes) : NumBigInt :=
  let h := blake512Digest blake512 key
  let rBytes := (h.1.drop 32).take 32 ++ msg32
  (fromBytesLe (blake512 rBytes).1).tmod suborder

def sign (tables : PoseidonTables) (key : SpendingKey) (msg : NumBigInt) : Except SignError Signature := do
  if u256ToNumBigInt Q ≤ msg then throw (.text "msg outside field")
  let r := nonce blake512 key (← msg32 msg)
  let r_b8 := b8.mulScalar r
  let pk := publicPoint blake512 key
  let msgFr ← match frFromDecimal msg with
    | some f => pure f
    | none => throw (.text "msg cannot be converted to field element")
  let hm ← (poseidonHash tables [r_b8.x, r_b8.y, pk.x, pk.y, msgFr]).mapError .poseidon
  let s := scalarKey blake512 key <<< (3 : Nat)
  let s := s * frToNumBigInt hm
  let s := s + r
  return { r_b8, s := s.tmod suborder }

end

end Railgun.BabyJubJub
