import Railgun.Impl.Derivation

/-!
# The grammar of derivation paths

`m`, then segments: each a slash, digits of a number that fits 32 bits, and an
apostrophe. And what a derivation feeds HMAC along a path.
-/

namespace Railgun

/-! ## Paths -/

/-- The digits of a segment. Leading zeros are allowed. -/
structure PathSegment where
  digits : List Char
  ne_nil : digits ≠ []
  isDigit : ∀ c ∈ digits, c.isDigit = true
  fits : Nat.ofDigitChars 10 digits 0 < 2 ^ 32

namespace PathSegment

def value (segment : PathSegment) : U32 := BitVec.ofNat 32 (Nat.ofDigitChars 10 segment.digits 0)

/-- A slash, the digits and an apostrophe. -/
def text (segment : PathSegment) : List Char := '/' :: (segment.digits ++ [Char.ofNat 0x27])

end PathSegment

/-- The text of some segments, after `m`. -/
def pathText (segments : List PathSegment) : String := .ofList ('m' :: segments.flatMap PathSegment.text)

/-- A path of the grammar: at most eight segments, and nothing else. -/
def InGrammar (s : String) : Prop :=
  ∃ segments : List PathSegment, segments.length ≤ maxDerivationDepth ∧ s = pathText segments

/-- A path of the grammar, with a segment at least, and a slash after it. -/
def EndsInSlash (s : String) : Prop :=
  ∃ segments : List PathSegment, segments ≠ [] ∧ segments.length ≤ maxDerivationDepth ∧
    s = pathText segments ++ "/"

/-! ## Derivations -/

/-- A step from a node feeds HMAC this key and this message: the child is what
HMAC makes of them, whatever it computes. -/
def KeyNode.Feeds (node : KeyNode) (segment : U32) (call : Bytes × Bytes) : Prop :=
  ∀ hmacSha512 : Bytes → Bytes → ByteArr 64,
    node.deriveHardened hmacSha512 segment = .fromDigest (hmacSha512 call.1 call.2)

/-- The index a message of a derivation ends in. -/
def childIndex (message : Bytes) : U32 := BigEndian.fromBeBytes 32 (message.drop 33)

/-- A derivation along segments, from a node to a node, each step of which feeds
HMAC the segment plus 2^31, the index of a hardened child. -/
inductive KeyNode.DerivesHardened (hmacSha512 : Bytes → Bytes → ByteArr 64) :
    KeyNode → List U32 → KeyNode → Prop
  | nil (node : KeyNode) : DerivesHardened hmacSha512 node [] node
  | cons {node node' : KeyNode} {segment : U32} {segments : List U32} {call : Bytes × Bytes} :
    node.Feeds segment call →
    (childIndex call.2).toNat = segment.toNat + 2 ^ 31 → 2 ^ 31 ≤ (childIndex call.2).toNat →
    DerivesHardened hmacSha512 (.fromDigest (hmacSha512 call.1 call.2)) segments node' →
    DerivesHardened hmacSha512 node (segment :: segments) node'

/-- Every step of the derivation of a path is hardened. -/
def Hardened (hmacSha512 : Bytes → Bytes → ByteArr 64) (node : KeyNode) (path : DerivationPath) : Prop :=
  node.DerivesHardened hmacSha512 path.segments (node.derivePath hmacSha512 path)

/-- At some step of two derivations HMAC is fed two different inputs, and gives both one left half. -/
def KeyNode.Collide (hmacSha512 : Bytes → Bytes → ByteArr 64) (node node' : KeyNode)
    (segments segments' : List U32) : Prop :=
  ∃ k i j call call', segments[k]? = some i ∧ segments'[k]? = some j ∧
    ((segments.take k).foldl (KeyNode.deriveHardened hmacSha512) node).Feeds i call ∧
    ((segments'.take k).foldl (KeyNode.deriveHardened hmacSha512) node').Feeds j call' ∧
    call ≠ call' ∧ (hmacSha512 call.1 call.2).1.take 32 = (hmacSha512 call'.1 call'.2).1.take 32

end Railgun
