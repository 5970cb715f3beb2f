import Railgun.Framework.BigEndian

/-!
# AES-256 in Galois/counter mode

The mode over any function of blocks: a message is added to a stream of blocks made
of a counter, and the tag is a polynomial in what comes of it. What is sealed opens
(`decrypt_encrypt`), whatever the function is; `aes256` is the one it is used with.
-/

namespace Gcm

open BigEndian

/-! ## The mode -/

/-- The product of polynomials modulo `x^128 + x^7 + x^2 + x + 1`, lowest coefficients first. -/
def mul (a b : BitVec 128) : BitVec 128 :=
  ((List.range 128).foldl (fun (p : BitVec 128 × BitVec 128) i =>
    (if a.getMsbD i then p.1 ^^^ p.2 else p.1,
      if p.2.getLsbD 0 then p.2 >>> 1 ^^^ 0xe1000000000000000000000000000000 else p.2 >>> 1)) (0, b)).1

def ghash (key : BitVec 128) (blocks : List (BitVec 128)) : BitVec 128 :=
  blocks.foldl (fun y block => mul (y ^^^ block) key) 0

/-- Whole blocks, the last filled with zeros. -/
def blocks : Nat → Bytes → List (BitVec 128)
  | 0, _ => []
  | n + 1, bytes =>
    fromBeBytes 128 (bytes.take 16 ++ List.replicate (16 - bytes.length) 0) :: blocks n (bytes.drop 16)

section
variable (cipher : BitVec 128 → BitVec 128) (nonce : BitVec 128)

/-- The counter that a nonce of a block starts from. -/
def start : BitVec 128 := ghash (cipher 0) [nonce, 128]

/-- Only the last word counts. -/
def next (counter : BitVec 128) : BitVec 128 :=
  counter.extractLsb' 32 96 ++ (counter.extractLsb' 0 32 + 1)

def stream : Nat → BitVec 128 → Bytes
  | 0, _ => []
  | n + 1, counter => beBytes 16 (cipher (next counter)) ++ stream n (next counter)

def crypt (message : Bytes) : Bytes :=
  List.zipWith (· ^^^ ·) message (stream cipher (message.length / 16 + 1) (start cipher nonce))

def tag (ciphertext : Bytes) : BitVec 128 :=
  let size : BitVec 128 := BitVec.ofNat 128 (8 * ciphertext.length)
  ghash (cipher 0) (blocks ((ciphertext.length + 15) / 16) ciphertext ++ [size]) ^^^
    cipher (start cipher nonce)

/-- The ciphertext, and the tag. -/
def encrypt (message : Bytes) : Bytes × BitVec 128 :=
  (crypt cipher nonce message, tag cipher nonce (crypt cipher nonce message))

/-- The message, if the last 16 bytes are the tag of the others. -/
def decrypt (sealed : Bytes) : Option Bytes :=
  let ciphertext := sealed.take (sealed.length - 16)
  if 16 ≤ sealed.length ∧ sealed.drop (sealed.length - 16) = beBytes 16 (tag cipher nonce ciphertext)
  then some (crypt cipher nonce ciphertext) else none

@[simp] theorem length_stream : ∀ (n : Nat) (counter : BitVec 128), (stream cipher n counter).length = 16 * n
  | 0, _ => rfl
  | n + 1, counter => by
    rw [stream, List.length_append, length_beBytes, length_stream n]
    omega

@[simp] theorem length_crypt (message : Bytes) : (crypt cipher nonce message).length = message.length := by
  rw [crypt, List.length_zipWith, length_stream]
  omega

theorem zipWith_xor : ∀ (message keys : Bytes), message.length ≤ keys.length →
    List.zipWith (· ^^^ ·) (List.zipWith (· ^^^ ·) message keys) keys = message
  | [], keys, _ => by simp
  | b :: message, key :: keys, h => by
    simp only [List.zipWith_cons_cons, BitVec.xor_assoc, BitVec.xor_self, BitVec.xor_zero]
    exact congrArg (b :: ·) (zipWith_xor message keys (Nat.le_of_succ_le_succ h))

/-- The stream is added twice. -/
theorem crypt_crypt (message : Bytes) : crypt cipher nonce (crypt cipher nonce message) = message := by
  rw [crypt, length_crypt]
  refine zipWith_xor _ _ ?_
  rw [length_stream]
  omega

/-- What is sealed opens. -/
theorem decrypt_encrypt (message : Bytes) :
    decrypt cipher nonce ((encrypt cipher nonce message).1 ++ beBytes 16 (encrypt cipher nonce message).2) =
      some message := by
  have hlen : ∀ ciphertext tag : Bytes, tag.length = 16 →
      (ciphertext ++ tag).length - 16 = ciphertext.length := fun ciphertext tag h => by
    rw [List.length_append, h, Nat.add_sub_cancel]
  rw [decrypt, hlen _ _ (length_beBytes 16 _), List.take_left, List.drop_left, if_pos, encrypt, crypt_crypt]
  exact ⟨by rw [List.length_append, length_beBytes]; omega, rfl⟩

end

/-! ## The cipher -/

/-- The substitution of bytes, in sixteen rows. -/
def substitution : List (BitVec 128) :=
  [0x637c777bf26b6fc53001672bfed7ab76, 0xca82c97dfa5947f0add4a2af9ca472c0,
   0xb7fd9326363ff7cc34a5e5f171d83115, 0x04c723c31896059a071280e2eb27b275,
   0x09832c1a1b6e5aa0523bd6b329e32f84, 0x53d100ed20fcb15b6acbbe394a4c58cf,
   0xd0efaafb434d338545f9027f503c9fa8, 0x51a3408f929d38f5bcb6da2110fff3d2,
   0xcd0c13ec5f974417c4a77e3d645d1973, 0x60814fdc222a908846eeb814de5e0bdb,
   0xe0323a0a4906245cc2d3ac629195e479, 0xe7c8376d8dd54ea96c56f4ea657aae08,
   0xba78252e1ca6b4c6e8dd741f4bbd8b8a, 0x703eb5664803f60e613557b986c11d9e,
   0xe1f8981169d98e949b1e87e9ce5528df, 0x8ca1890dbfe6426841992d0fb054bb16]

def sub (b : Byte) : Byte :=
  (substitution.getD (b.toNat / 16) 0 >>> (8 * (15 - b.toNat % 16))).setWidth 8

def subWord (word : BitVec 32) : BitVec 32 := fromBeBytes 32 ((beBytes 4 word).map sub)

/-- The product with `x`, modulo `x^8 + x^4 + x^3 + x + 1`. -/
def double (b : Byte) : Byte := if b.getMsbD 0 then b <<< 1 ^^^ 0x1b else b <<< 1

/-- The words of the key schedule, newest first. -/
def expand (key : Bytes) : List (BitVec 32) :=
  let word i := fromBeBytes 32 ((key.drop (4 * i)).take 4)
  ((List.range' 8 52).foldl (fun (words, constant) i =>
    let last := words.getD 0 0
    if i % 8 = 0 then
      ((words.getD 7 0 ^^^ subWord (last.rotateLeft 8) ^^^ constant.setWidth 32 <<< 24) :: words,
        double constant)
    else if i % 8 = 4 then ((words.getD 7 0 ^^^ subWord last) :: words, constant)
    else ((words.getD 7 0 ^^^ last) :: words, constant))
    ((List.range 8).reverse.map word, (1 : Byte))).1

def shiftRows (state : Bytes) : Bytes := (List.range 16).map fun i => state.getD (5 * i % 16) 0

def mixColumns (state : Bytes) : Bytes := (List.range 16).map fun i =>
  let entry k := state.getD (4 * (i / 4) + (i + k) % 4) 0
  double (entry 0) ^^^ double (entry 1) ^^^ entry 1 ^^^ entry 2 ^^^ entry 3

def addRoundKey (state : Bytes) (words : List (BitVec 32)) (round : Nat) : Bytes :=
  List.zipWith (· ^^^ ·) state (((words.drop (4 * round)).take 4).flatMap (beBytes 4))

def aes256 (key : Bytes) (block : BitVec 128) : BitVec 128 :=
  let words := (expand key).reverse
  let state := (List.range' 1 13).foldl
    (fun state round => addRoundKey (mixColumns (shiftRows (state.map sub))) words round)
    (addRoundKey (beBytes 16 block) words 0)
  fromBeBytes 128 (addRoundKey (shiftRows (state.map sub)) words 14)

/-- The appendix of the standard: the key and the block count up in bytes. -/
example : aes256 ((List.range 32).map (BitVec.ofNat 8)) 0x00112233445566778899aabbccddeeff =
    0x8ea2b7ca516745bfeafc49904b496089 := by
  decide +kernel

end Gcm
