import Railgun.Framework.Numeral
import Railgun.Impl.Merkle

/-!
# Snapshots as JSON

What `serde_json` makes of a `MerkleAccumulatorState`: one compact object, its
fields in order, words as minimal hexadecimal strings, and the reader of such
texts. A witness runs on these; the theorems hold for every pair of functions
that round-trips.
-/

namespace Railgun

open Numeral

/-- The UTF-8 bytes of a text. -/
def textBytes (text : String) : Bytes := text.toUTF8.data.toList.map UInt8.toBitVec

/-- A word: `"0x…"`. -/
def wordJson (x : U256) : Bytes := textBytes "\"0x" ++ (numeral 16 x.toNat ++ textBytes "\"")

/-- The words of a list after the first, and its end. -/
def wordsJson : List U256 → Bytes
  | [] => textBytes "]"
  | x :: xs => textBytes "," ++ (wordJson x ++ wordsJson xs)

def listJson : List U256 → Bytes
  | [] => textBytes "[]"
  | x :: xs => textBytes "[" ++ (wordJson x ++ wordsJson xs)

def stateJson (state : MerkleAccumulatorState) : Bytes :=
  textBytes "\x7b\"filled_subtrees\":" ++ (listJson state.filledSubtrees ++
    (textBytes ",\"next_index\":" ++ (numeral 10 state.nextIndex.toNat ++
      (textBytes ",\"root\":" ++ (wordJson state.root ++ textBytes "\x7d")))))

/-- Takes a fixed text. -/
def skip (text : Bytes) (bs : Bytes) : Except String Bytes :=
  if bs.take text.length = text then .ok (bs.drop text.length) else .error "expected value"

def takeWord (bs : Bytes) : Except String (U256 × Bytes) := do
  let bs ← skip (textBytes "\"0x") bs
  let bs' ← skip (textBytes "\"") (takeNumeral 16 bs).2
  return (BitVec.ofNat 256 (takeNumeral 16 bs).1, bs')

/-- The words of a list after the first, as many as the fuel allows. -/
def takeWords : Nat → Bytes → Except String (List U256 × Bytes)
  | 0, _ => .error "recursion limit exceeded"
  | fuel + 1, bs =>
    match skip (textBytes ",") bs with
    | .ok bs => do
      let (x, bs) ← takeWord bs
      let (xs, bs) ← takeWords fuel bs
      return (x :: xs, bs)
    | .error _ => do
      let bs ← skip (textBytes "]") bs
      return ([], bs)

def takeList (bs : Bytes) : Except String (List U256 × Bytes) :=
  match skip (textBytes "[]") bs with
  | .ok bs => .ok ([], bs)
  | .error _ => do
    let bs ← skip (textBytes "[") bs
    let (x, bs) ← takeWord bs
    let (xs, bs) ← takeWords (bs.length + 1) bs
    return (x :: xs, bs)

def stateOfJson (bs : Bytes) : Except String MerkleAccumulatorState := do
  let bs ← skip (textBytes "\x7b\"filled_subtrees\":") bs
  let (filledSubtrees, bs) ← takeList bs
  let bs ← skip (textBytes ",\"next_index\":") bs
  let (nextIndex, bs) := takeNumeral 10 bs
  let bs ← skip (textBytes ",\"root\":") bs
  let (root, bs) ← takeWord bs
  let _ ← skip (textBytes "\x7d") bs
  return { filledSubtrees, nextIndex := BitVec.ofNat 64 nextIndex, root }

def snapshotSerde : Serde MerkleAccumulatorState := ⟨fun state => .ok (stateJson state), stateOfJson⟩

end Railgun
