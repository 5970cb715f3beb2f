import Railgun.Impl.PoseidonT3
import Railgun.Proof.Accumulator

/-!
# Roots of two leaves

Two leaves are hashed to the root along the left edge of the tree, with an
empty subtree at each level (`root_pair`). With the parameters of the code, the
path is computed level by level (`risen_follows`), so that two roots can be
told apart (`roots_differ`).
-/

namespace Railgun

open MerkleAccumulator

section
variable {C : MerkleConfig}

/-- A leaf at index zero is hashed with empty subtrees, and stays cached. -/
theorem climb_left (zeros : List U256) : ∀ {levels : List Nat} {climb : Climb}, 0 ∉ levels →
    climb.index = 0 →
    (levels.foldl (Climb.level (C := C) zeros) climb).current =
      levels.foldl (fun c l => C.hash c (zeros.getD l 0)) climb.current ∧
    (levels.foldl (Climb.level (C := C) zeros) climb).filledSubtrees.getD 0 0 =
      climb.filledSubtrees.getD 0 0
  | [], _, _, _ => ⟨rfl, rfl⟩
  | l :: levels, climb, h0, hi => by
    obtain ⟨hl, hls⟩ : l ≠ 0 ∧ 0 ∉ levels := by simpa [eq_comm] using h0
    obtain ⟨hc, hf⟩ := climb_left zeros hls
      (show (Climb.level (C := C) zeros climb l).index = 0 by simp [Climb.level, hi])
    rw [List.foldl_cons, List.foldl_cons, hc, hf]
    simp [Climb.level, hi, List.getD_eq_getElem?_getD, hl]

/-- The path of a left pair to the root. -/
def spine (C : MerkleConfig) (levels : Nat) (c : U256) : U256 :=
  (List.range' 1 levels).foldl (fun c l => C.hash c ((zeroValueLevels C).getD l 0)) c

theorem root_pair {d : Nat} (hd : C.depth = d + 1) (a b : U256) :
    ((new : MerkleAccumulator C).insertAll [a, b]).root = spine C d (C.hash a b) := by
  have h0 : 0 ∉ List.range' 1 d := by simp
  have hrange : List.range C.depth = 0 :: List.range' 1 d := by
    rw [hd, List.range_eq_range', List.range'_succ]
  have hfirst : (new.insert a : MerkleAccumulator C).filledSubtrees.getD 0 0 = a := by
    have hlen : 0 < (new : MerkleAccumulator C).filledSubtrees.length := by
      rw [MerkleAccumulator.depth_eq, hd]
      exact Nat.succ_pos d
    show (climb new a C.depth).filledSubtrees.getD 0 0 = a
    rw [climb, hrange, List.foldl_cons, (climb_left _ h0 (by simp [Climb.level, new])).2]
    simp [Climb.level, new, List.getD_eq_getElem?_getD] at hlen ⊢
    simp [hlen]
  have hindex : (new.insert a : MerkleAccumulator C).nextIndex = 1 := rfl
  rw [insertAll_cons, insertAll_cons, insertAll_nil]
  show (climb (new.insert a) b C.depth).current = _
  rw [climb, hrange, List.foldl_cons, hindex,
    (climb_left _ h0 (by simp [Climb.level])).1, spine, (new.insert a).zeros_eq]
  congr 1
  simpa [Climb.level] using congrArg (C.hash · b) hfirst

/-- Two paths on their way up, and the empty subtree of their height. -/
structure Rise where
  zero : U256
  left : U256
  right : U256
  deriving DecidableEq

def Rise.step (C : MerkleConfig) (r : Rise) : Rise :=
  ⟨C.hash r.zero r.zero, C.hash r.left r.zero, C.hash r.right r.zero⟩

theorem rise_iterate (x y : U256) : ∀ {k : Nat}, k < C.depth →
    (Rise.step C)^[k] ⟨C.hash C.zero C.zero, x, y⟩ =
      ⟨(zeroValueLevels C).getD (k + 1) 0, spine C k x, spine C k y⟩
  | 0, h => by
    rw [zeroValueLevels, getD_zeroLevels _ _ _ (by omega)]
    rfl
  | k + 1, h => by
    rw [Function.iterate_succ_apply', rise_iterate x y (by omega), Rise.step, spine, spine, spine,
      spine, List.range'_concat, List.foldl_append, List.foldl_append, zeroValueLevels,
      getD_zeroLevels _ _ _ (by omega), getD_zeroLevels _ _ _ (by omega), Nat.one_mul, Nat.add_comm 1 k,
      List.foldl_cons, List.foldl_cons, getD_zeroLevels _ _ _ (by omega)]
    rfl

/-- A list of the values a function goes through. -/
def Follows {α : Type} [DecidableEq α] (f : α → α) : α → List α → Bool
  | _, [] => true
  | a, b :: l => decide (f a = b) && Follows f b l

theorem iterate_of_follows {α : Type} [DecidableEq α] {f : α → α} : ∀ {l : List α} {a : α},
    Follows f a l → f^[l.length] a = l.getLastD a
  | [], _, _ => rfl
  | b :: l, a, h => by
    obtain ⟨hab, hl⟩ := Bool.and_eq_true_iff.mp h
    rw [List.length_cons, Function.iterate_succ_apply, of_decide_eq_true hab, iterate_of_follows hl,
      List.getLastD_cons]

end

/-! ## Computed roots -/

/-- The roots of an empty leaf and 2, and of 1 and 2, from the pairs up. -/
def risen : List Rise :=
  [⟨0x1c405064436affeae1fc8e30b2e417b4243bbb819adca3b55bb32efc3e43a4f,
      0x19a47e4b8939585ab898a488371b7f288e0d8e59d60d566a8ac7a72fe752524f,
      0x115cc0f5e7d690413df64c6b9662e9cf2a3617f2743245519e19607a4417189a⟩,
    ⟨0x888d37652d10d1781db54b70af87b42a2916e87118f507218f9a42a58e85ed2,
      0x60c191fbf7c6a4fb40289644ea52df410b46690536ce7109e3165be32646e5e,
      0x2d7e91ad3603afdedd14182fbf55aaf19024995bc78fa78be250f8c298130646⟩,
    ⟨0x183f531ead7217ebc316b4c02a2aad5ad87a1d56d4fb9ed81bf84f644549eaf5,
      0x2c50c827f83c7e3443251140814bfbea9d726781a6f853928d2a236c002b20a1,
      0x2f000e33e65b243666e06667ef097e1d18fea168ef19f655e9268c13003e385b⟩,
    ⟨0x93c48f1ecedf2baec231f0af848a57a76c6cf05b290a396707972e1defd17df,
      0x1e5803750f3862f32ac0c8f2be8f9fb46270cb1f06052a47650087ab21abaf90,
      0x13188f6d120b98721ef210adb093d9e0716df618ce20691483640a8f8730464e⟩,
    ⟨0x1437bb465994e0453357c17a676b9fdba554e215795ebc17ea5012770dfb77c7,
      0x2f1d790f5d4c6d25c46fb3f6df572f4427ae53457d6d362fa93c889e709d0006,
      0x19f744e37e96604266732dec48349f10c20dd220d3cd2b8b8392410d83b1632e⟩,
    ⟨0x12359ef9572912b49f44556b8bbbfa69318955352f54cfa35cb0f41309ed445a,
      0x234462c9be5ba2d6723befaeabfdfbe4956db40cd10381875c930e703ccb4210,
      0x12f3642f7b405dd055f45988963c2e62858f70201cbf4e18a0373ff1f16abede⟩,
    ⟨0x2dc656dadc82cf7a4707786f4d682b0f130b6515f7927bde48214d37ec25a46c,
      0xc257349834dfbd9486952029078b170162e0441f9cc6bdf60fcf3967283e90f,
      0x8039d884d3f3fccaa5fe8dddb9d26216a3f5046870ba5833d64e813ae99247f⟩,
    ⟨0x2500bdfc1592791583acefd050bc439a87f1d8e8697eb773e8e69b44973e6fdc,
      0x85745058f33c89a93d7830066428b810e3b2979c1c59ba7b8c6b0caf712ac80,
      0x1377a11494807279a088d7a155f635eab8146e4857d73912940b1876a856991d⟩,
    ⟨0x244ae3b19397e842778b254cd15c037ed49190141b288ff10eb1390b34dc2c31,
      0x178cc73c5c494e62cc1147f0e2c416b634a48a9fba110d902e52a05985240160,
      0x2c733b9efed4f1a995bf82cd39a84f21b7c6605f2e054b9ffbb5bd28ff00766f⟩,
    ⟨0xca2b107491c8ca6e5f7e22403ea8529c1e349a1057b8713e09ca9f5b9294d46,
      0x1ef0a58f5152358c0be277594cd7c155d02fe64d1fbfde5cfda97ead8720b07,
      0x25bcdb9dee454c445616de5b5247f92e52d5d22fed22572092285bcd9e1b82c5⟩,
    ⟨0x18593c75a9e42af27b5e5b56b99c4c6a5d7e7d6e362f00c8e3f69aeebce52313,
      0x1018f16c1964c1800529fd11a663176ecc751baaa6afe91b120fd89ac3471c16,
      0x216ba940f3fd5e261c67274373ae034e5a2c0e5f9357bfbd55d798e153acc35f⟩,
    ⟨0x17aca915b237b04f873518947a1f440f0c1477a6ac79299b3be46858137d4bfb,
      0x165cf3a04bd9cff6a19c676f927bdf18af7eb41760fae14c6cd743a208feba06,
      0x148782345dded880013ad189e7c1d80a532abb071983aea7b48d044b15ca1798⟩,
    ⟨0x2726c22ad3d9e23414887e8233ee83cc51603f58c48a9c9e33cb1f306d4365c0,
      0x2b8d5b27a192f6f1ae89144c065356679e72edf1f88ce72a8abe28bf49f66bed,
      0x1e247e62df1aef270e703ee158f9ecd3b54e48f3ac8da5ef851aa0d127eaab05⟩,
    ⟨0x8c5bd0f85cef2f8c3c1412a2b69ee943c6925ecf79798bb2b84e1b76d26871f,
      0x219fdf5892806b3fa9d22a947e7a1da18438d6d3c1a9fbde0700d1a73169a96f,
      0x1b6677c03edb8e0ad61584b938e1ad2232f023d4fd136df19c476f09d418aecb⟩,
    ⟨0x27f7c465045e0a4d8bec7c13e41d793734c50006ca08920732ce8c3096261435,
      0x184dcdb4755c4dcac143288dfb4ba4287dfb5e6d77af4d6642a90744616afe57,
      0x5197c0b1ed98b6e9154d6dc8f312ba4e66f60a10a25212d2fa2e9ef14431e3f⟩,
    ⟨0x14fceeac99eb8419a2796d1958fc2050d489bf5a3eb170ef16a667060344ba90,
      0x1eaf558b302868e0987b6b890f4621dfd5ebbf4797b6fe9cf6d1175701fe2a1f,
      0x29ba27d899ea5fa29c44ee50a46ffa94537196c18f96e639804ca7757266d2cb⟩]

/-- The tree configuration of the code. -/
abbrev railgunTree : MerkleConfig := railgunMerkleConfig poseidonTables

/-- The pairs, and the empty pair. -/
def paired : Rise :=
  ⟨railgunTree.hash railgunMerkleZero railgunMerkleZero, railgunTree.hash railgunMerkleZero 2,
    railgunTree.hash 1 2⟩

set_option maxRecDepth 100000 in
/-- Each level is hashed from the one below. -/
theorem risen_follows : paired = risen.headD paired ∧
    Follows (Rise.step railgunTree) (risen.headD paired) risen.tail = true := by
  decide +kernel

/-- What appending the leaf 2 to no snapshot gives, after a gap. -/
def gappedAccumulator : MerkleAccumulator railgunTree := new.insertAll [railgunMerkleZero, 2]

/-- Leaving the leaf 1 out changes the root. -/
theorem roots_differ : gappedAccumulator.root ≠
    ((new : MerkleAccumulator railgunTree).insertAll [1, 2]).root := by
  obtain ⟨hpaired, hfollows⟩ := risen_follows
  have hlast := iterate_of_follows hfollows
  rw [← hpaired] at hlast
  have hrise := (rise_iterate (C := railgunTree) (railgunTree.hash railgunMerkleZero 2)
    (railgunTree.hash 1 2) (show 15 < 16 by decide)).symm.trans hlast
  obtain ⟨-, hleft, hright⟩ := Rise.mk.inj hrise
  rw [gappedAccumulator, root_pair (C := railgunTree) (d := 15) rfl,
    root_pair (C := railgunTree) (d := 15) rfl, hleft, hright]
  decide

end Railgun
