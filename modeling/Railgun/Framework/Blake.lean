import Railgun.Framework.Sha2

/-!
# BLAKE-512

The finalist of the SHA-3 competition, without a salt. Its initial words are those
of SHA-512; each of its rounds mixes the columns and then the diagonals of a square
of words, with the words of the block in one of ten orders.
-/

namespace Blake

open BigEndian

/-- From the digits of pi. -/
def constants : List (BitVec 64) :=
  [0x243f6a8885a308d3, 0x13198a2e03707344, 0xa4093822299f31d0, 0x082efa98ec4e6c89,
   0x452821e638d01377, 0xbe5466cf34e90c6c, 0xc0ac29b7c97c50dd, 0x3f84d5b5b5470917,
   0x9216d5d98979fb1b, 0xd1310ba698dfb5ac, 0x2ffd72dbd01adfb7, 0xb8e1afed6a267e96,
   0xba7c9045f12c7f99, 0x24a19947b3916cf7, 0x0801f2e2858efc16, 0x636920d871574e69]

/-- The orders of a block's words. -/
def orders : List (List Nat) :=
  [[0, 1, 2, 3, 4, 5, 6, 7, 8, 9, 10, 11, 12, 13, 14, 15],
   [14, 10, 4, 8, 9, 15, 13, 6, 1, 12, 0, 2, 11, 7, 5, 3],
   [11, 8, 12, 0, 5, 2, 15, 13, 10, 14, 3, 6, 7, 1, 9, 4],
   [7, 9, 3, 1, 13, 12, 11, 14, 2, 6, 5, 10, 4, 0, 15, 8],
   [9, 0, 5, 7, 2, 4, 10, 15, 14, 1, 11, 12, 6, 8, 3, 13],
   [2, 12, 6, 10, 0, 11, 8, 3, 4, 13, 7, 5, 15, 14, 1, 9],
   [12, 5, 1, 15, 14, 13, 4, 10, 0, 7, 6, 3, 9, 2, 8, 11],
   [13, 11, 7, 14, 12, 1, 3, 9, 5, 0, 15, 4, 8, 6, 2, 10],
   [6, 15, 14, 9, 11, 3, 0, 8, 12, 2, 13, 7, 1, 4, 10, 5],
   [10, 2, 8, 4, 7, 6, 1, 5, 15, 11, 9, 14, 3, 12, 13, 0]]

/-- The places that are mixed: four columns, and four diagonals. -/
def quarters : List (Nat × Nat × Nat × Nat) :=
  [(0, 4, 8, 12), (1, 5, 9, 13), (2, 6, 10, 14), (3, 7, 11, 15),
   (0, 5, 10, 15), (1, 6, 11, 12), (2, 7, 8, 13), (3, 4, 9, 14)]

/-- Mixes four words, with the next two of the block's. -/
def mix (block : List (BitVec 64)) :
    List (BitVec 64) × List Nat → Nat × Nat × Nat × Nat → List (BitVec 64) × List Nat
  | (v, order), (i, j, k, l) =>
    let (m, n) := (order.getD 0 0, order.getD 1 0)
    let word (words : List (BitVec 64)) x := words.getD x 0
    let a := word v i + word v j + (word block m ^^^ word constants n)
    let d := (word v l ^^^ a).rotateRight 32
    let c := word v k + d
    let b := (word v j ^^^ c).rotateRight 25
    let a := a + b + (word block n ^^^ word constants m)
    let d := (d ^^^ a).rotateRight 16
    let c := c + d
    let b := (b ^^^ c).rotateRight 11
    ((((v.set i a).set j b).set k c).set l d, order.drop 2)

/-- A block, after which the message has gone on for that many bits. -/
def compress (h block : List (BitVec 64)) (bits : Nat) : List (BitVec 64) :=
  let counter := [0, 0, 0, 0, BitVec.ofNat 64 bits, BitVec.ofNat 64 bits, BitVec.ofNat 64 (bits / 2 ^ 64),
    BitVec.ofNat 64 (bits / 2 ^ 64)]
  let v := h ++ List.zipWith (· ^^^ ·) counter constants
  let v := (List.range 16).foldl
    (fun v r => (quarters.foldl (mix block) (v, orders.getD (r % 10) [])).1) v
  (List.range 8).map fun i => h.getD i 0 ^^^ v.getD i 0 ^^^ v.getD (i + 8) 0

/-- A one bit, zeros up to a whole block, and at its end a one bit and the length. -/
def pad (message : Bytes) : Bytes :=
  let zeros := (239 - message.length % 128) % 128
  let marks := if zeros = 0 then [0x81] else [0x80] ++ List.replicate (zeros - 1) 0 ++ [0x01]
  message ++ marks ++ toBE 16 (8 * message.length)

def blake512 (message : Bytes) : Bytes :=
  let padded := pad message
  let blocks := (Sha2.pieces 128 (padded.length / 128) padded).zipIdx
  -- A block without a bit of the message has no count.
  let bits i := if 128 * i < message.length ∨ i = 0 then 8 * min (128 * (i + 1)) message.length else 0
  let h := blocks.foldl
    (fun h block => compress h ((Sha2.pieces 8 16 block.1).map (fromBeBytes 64)) (bits block.2)) Sha2.initial
  (List.range 8).flatMap fun i => beBytes 8 (h.getD i 0)

@[simp] theorem length_blake512 (message : Bytes) : (blake512 message).length = 64 := by
  simp [blake512, List.length_flatMap]

/-- Of one zero byte. -/
example : fromBeBytes 512 (blake512 [0]) =
    0x97961587f6d970faba6d2478045de6d1fabd09b61ae50932054d52bc29d31be4#256 ++
      0xff9102b9f69e2bbdb83be13d4b9c06091e5fa0b48bd081b634058be0ec49beb3#256 := by
  decide +kernel

end Blake
