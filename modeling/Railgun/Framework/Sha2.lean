import Railgun.Framework.BigEndian

/-!
# SHA-2

The hashes of the family over words of a width, SHA-256 and SHA-512, and HMAC
over one of them. A round takes the first word of a window of the schedule, which
then moves on by one.
-/

namespace Sha2

open BigEndian

/-! ## One block -/

/-- What the hashes of the family differ in. -/
structure Variant (w : Nat) where
  initial : List (BitVec w)
  constants : List (BitVec w)
  /-- On words of the state, and of the schedule. -/
  bigSigma₀ : BitVec w → BitVec w
  bigSigma₁ : BitVec w → BitVec w
  smallSigma₀ : BitVec w → BitVec w
  smallSigma₁ : BitVec w → BitVec w

structure State (w : Nat) where
  a : BitVec w
  b : BitVec w
  c : BitVec w
  d : BitVec w
  e : BitVec w
  f : BitVec w
  g : BitVec w
  h : BitVec w

def State.ofWords {w : Nat} (words : List (BitVec w)) : State w :=
  let word i := words.getD i 0
  ⟨word 0, word 1, word 2, word 3, word 4, word 5, word 6, word 7⟩

def State.words {w : Nat} (s : State w) : List (BitVec w) := [s.a, s.b, s.c, s.d, s.e, s.f, s.g, s.h]

section
variable {w : Nat} (V : Variant w)

/-- A round, and the next word of the schedule. -/
def round : State w × List (BitVec w) → BitVec w → State w × List (BitVec w)
  | (⟨a, b, c, d, e, f, g, h⟩, window), constant =>
    let word i := window.getD i 0
    let t₁ := h + V.bigSigma₁ e + ((e &&& f) ^^^ (~~~e &&& g)) + constant + word 0
    let t₂ := V.bigSigma₀ a + ((a &&& b) ^^^ (a &&& c) ^^^ (b &&& c))
    (⟨t₁ + t₂, a, b, c, d + t₁, e, f, g⟩,
      window.drop 1 ++ [V.smallSigma₁ (word 14) + word 9 + V.smallSigma₀ (word 1) + word 0])

def compress (s : State w) (block : List (BitVec w)) : State w :=
  .ofWords (List.zipWith (· + ·) s.words (V.constants.foldl (round V) (s, block)).1.words)

/-! ## A message -/

/-- `k` pieces of `n` bytes. -/
def pieces (n : Nat) : Nat → Bytes → List Bytes
  | 0, _ => []
  | k + 1, bytes => bytes.take n :: pieces n k (bytes.drop n)

/-- A one bit, zeros up to a whole block, and at its end the length. -/
def pad (w : Nat) (message : Bytes) : Bytes :=
  let block := 2 * w
  let zeros := (block - (message.length + 1 + w / 4) % block) % block
  message ++ [0x80] ++ List.replicate zeros 0 ++ toBE (w / 4) (8 * message.length)

def hash (message : Bytes) : Bytes :=
  let padded := pad w message
  let blocks := pieces (2 * w) (padded.length / (2 * w)) padded
  let state := blocks.foldl (fun s block => compress V s ((pieces (w / 8) 16 block).map (fromBeBytes w)))
    (.ofWords V.initial)
  state.words.flatMap (beBytes (w / 8))

@[simp] theorem length_hash (message : Bytes) : (hash V message).length = 8 * (w / 8) := by
  simp only [hash, State.words, List.flatMap_cons, List.flatMap_nil, List.length_append, length_beBytes,
    List.length_nil]
  omega

def hmac (key message : Bytes) : Bytes :=
  let key := if 2 * w < key.length then hash V key else key
  let key := key ++ List.replicate (2 * w - key.length) 0
  hash V (key.map (· ^^^ 0x5c) ++ hash V (key.map (· ^^^ 0x36) ++ message))

end

/-! ## SHA-512 and SHA-256 -/

/-- From the square roots of the first primes. -/
def initial : List (BitVec 64) :=
  [0x6a09e667f3bcc908, 0xbb67ae8584caa73b, 0x3c6ef372fe94f82b, 0xa54ff53a5f1d36f1,
   0x510e527fade682d1, 0x9b05688c2b3e6c1f, 0x1f83d9abfb41bd6b, 0x5be0cd19137e2179]

/-- From the cube roots of the first primes. -/
def constants : List (BitVec 64) :=
  [0x428a2f98d728ae22, 0x7137449123ef65cd, 0xb5c0fbcfec4d3b2f, 0xe9b5dba58189dbbc,
   0x3956c25bf348b538, 0x59f111f1b605d019, 0x923f82a4af194f9b, 0xab1c5ed5da6d8118,
   0xd807aa98a3030242, 0x12835b0145706fbe, 0x243185be4ee4b28c, 0x550c7dc3d5ffb4e2,
   0x72be5d74f27b896f, 0x80deb1fe3b1696b1, 0x9bdc06a725c71235, 0xc19bf174cf692694,
   0xe49b69c19ef14ad2, 0xefbe4786384f25e3, 0x0fc19dc68b8cd5b5, 0x240ca1cc77ac9c65,
   0x2de92c6f592b0275, 0x4a7484aa6ea6e483, 0x5cb0a9dcbd41fbd4, 0x76f988da831153b5,
   0x983e5152ee66dfab, 0xa831c66d2db43210, 0xb00327c898fb213f, 0xbf597fc7beef0ee4,
   0xc6e00bf33da88fc2, 0xd5a79147930aa725, 0x06ca6351e003826f, 0x142929670a0e6e70,
   0x27b70a8546d22ffc, 0x2e1b21385c26c926, 0x4d2c6dfc5ac42aed, 0x53380d139d95b3df,
   0x650a73548baf63de, 0x766a0abb3c77b2a8, 0x81c2c92e47edaee6, 0x92722c851482353b,
   0xa2bfe8a14cf10364, 0xa81a664bbc423001, 0xc24b8b70d0f89791, 0xc76c51a30654be30,
   0xd192e819d6ef5218, 0xd69906245565a910, 0xf40e35855771202a, 0x106aa07032bbd1b8,
   0x19a4c116b8d2d0c8, 0x1e376c085141ab53, 0x2748774cdf8eeb99, 0x34b0bcb5e19b48a8,
   0x391c0cb3c5c95a63, 0x4ed8aa4ae3418acb, 0x5b9cca4f7763e373, 0x682e6ff3d6b2b8a3,
   0x748f82ee5defb2fc, 0x78a5636f43172f60, 0x84c87814a1f0ab72, 0x8cc702081a6439ec,
   0x90befffa23631e28, 0xa4506cebde82bde9, 0xbef9a3f7b2c67915, 0xc67178f2e372532b,
   0xca273eceea26619c, 0xd186b8c721c0c207, 0xeada7dd6cde0eb1e, 0xf57d4f7fee6ed178,
   0x06f067aa72176fba, 0x0a637dc5a2c898a6, 0x113f9804bef90dae, 0x1b710b35131c471b,
   0x28db77f523047d84, 0x32caab7b40c72493, 0x3c9ebe0a15c9bebc, 0x431d67c49c100d4c,
   0x4cc5d4becb3e42b6, 0x597f299cfc657e2a, 0x5fcb6fab3ad6faec, 0x6c44198c4a475817]

def sha512 : Variant 64 where
  initial := initial
  constants := constants
  bigSigma₀ x := x.rotateRight 28 ^^^ x.rotateRight 34 ^^^ x.rotateRight 39
  bigSigma₁ x := x.rotateRight 14 ^^^ x.rotateRight 18 ^^^ x.rotateRight 41
  smallSigma₀ x := x.rotateRight 1 ^^^ x.rotateRight 8 ^^^ x >>> 7
  smallSigma₁ x := x.rotateRight 19 ^^^ x.rotateRight 61 ^^^ x >>> 6

/-- Its words are the upper halves of those of SHA-512. -/
def sha256 : Variant 32 where
  initial := initial.map (·.extractLsb' 32 32)
  constants := (constants.take 64).map (·.extractLsb' 32 32)
  bigSigma₀ x := x.rotateRight 2 ^^^ x.rotateRight 13 ^^^ x.rotateRight 22
  bigSigma₁ x := x.rotateRight 6 ^^^ x.rotateRight 11 ^^^ x.rotateRight 25
  smallSigma₀ x := x.rotateRight 7 ^^^ x.rotateRight 18 ^^^ x >>> 3
  smallSigma₁ x := x.rotateRight 17 ^^^ x.rotateRight 19 ^^^ x >>> 10

/-- Of the letters `abc`. -/
example : fromBeBytes 256 (hash sha256 [0x61, 0x62, 0x63]) =
    0xba7816bf8f01cfea414140de5dae2223b00361a396177a9cb410ff61f20015ad#256 := by
  decide +kernel

end Sha2
