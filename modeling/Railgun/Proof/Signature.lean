import Railgun.Impl.PoseidonT3
import Railgun.Proof.ScalarField

/-!
# Signatures verify

The code's points are those of the curve's group: projective addition adds
(`PointProjective.Is.add`), and double-and-add over the bits of a scalar
multiplies (`mulScalar_is`). The base point's order divides the suborder
(`suborder_smul_b8`), so reducing `s` changes nothing and the equation that
verifiers check holds (`sign_verifies`).
-/

namespace Railgun.BabyJubJub

open Ladder Edwards Outcome

/-! ## Points -/

/-- The coordinates are those of the point of the curve. -/
structure Point.Is (p : Point) (P : Edwards.Point babyJubJub) : Prop where
  x : toField p.x = P.x
  y : toField p.y = P.y

/-- The projective coordinates are some of the point of the curve. -/
def PointProjective.Is (p : PointProjective) (P : Edwards.Point babyJubJub) : Prop :=
  Represents (toField p.x) (toField p.y) (toField p.z) P

theorem Point.Is.projective {p : Point} {P : Edwards.Point babyJubJub} (h : p.Is P) :
    p.projective.Is P := by
  show Represents (toField p.x) (toField p.y) (toField 1) P
  rw [h.x, h.y, toField_one]
  exact represents_affine P

theorem PointProjective.Is.add {p q : PointProjective} {P Q : Edwards.Point babyJubJub} (hp : p.Is P)
    (hq : q.Is Q) : (p.add q).Is (P + Q) := by
  have h := Represents.add hp hq
  rw [sq] at h
  simp only [PointProjective.Is, PointProjective.add, toField_mul, toField_add, toField_sub]
  exact h

theorem PointProjective.Is.z_ne_zero {p : PointProjective} {P : Edwards.Point babyJubJub} (h : p.Is P) :
    p.z ≠ 0 := fun h₀ => Represents.z_ne_zero h (by rw [h₀, toField_zero])

theorem PointProjective.Is.affine {p : PointProjective} {P : Edwards.Point babyJubJub} (h : p.Is P) :
    p.affine.Is P := by
  obtain ⟨hx, hy⟩ := Represents.affine h
  rw [PointProjective.affine, if_neg h.z_ne_zero]
  exact ⟨by rw [toField_mul, toField_inverse h.z_ne_zero, hx],
    by rw [toField_mul, toField_inverse h.z_ne_zero, hy]⟩

/-! ## Scalars -/

/-- A byte under a mask of one bit. -/
theorem and_one_shiftLeft (b : Byte) (k : Nat) : decide (b &&& ((1 : Byte) <<< k) ≠ 0) = b.getLsbD k := by
  have hpow : (1 : Byte) <<< k = BitVec.twoPow 8 k := (BitVec.twoPow_eq 8 k).symm
  rw [hpow, BitVec.and_twoPow]
  cases hk : b.getLsbD k with
  | false => rfl
  | true =>
    have hlt := BitVec.lt_of_getLsbD hk
    have hone : (BitVec.twoPow 8 k).getLsbD k = true := by simp [hlt]
    rw [if_pos rfl, decide_eq_true_eq]
    intro h₀
    rw [h₀] at hone
    simp at hone

/-- The bytes are the base-256 digits. -/
theorem getD_toBytesLe (n : NumBigInt) (i : Nat) :
    (toBytesLe n).getD i 0 = BitVec.ofNat 8 (n.natAbs / 256 ^ i % 256) := by
  rw [toBytesLe]
  split
  · rename_i h₀
    subst h₀
    cases i <;> simp
  · rw [← Nat.getD_digits n.natAbs i (by decide : 2 ≤ 256), List.getD_eq_getElem?_getD, List.getElem?_map,
      List.getD_eq_getElem?_getD]
    cases (Nat.digits 256 n.natAbs)[i]? <;> rfl

/-- The bits of the bytes are those of the number. -/
theorem testBit_toBytesLe (n : NumBigInt) (i : Nat) : testBit (toBytesLe n) i = n.natAbs.testBit i := by
  have hpow : 256 ^ (i / 8) = 2 ^ (8 * (i / 8)) := by rw [pow_mul, show 2 ^ 8 = 256 from rfl]
  rw [testBit, and_one_shiftLeft, getD_toBytesLe, ← BitVec.testBit_toNat, BitVec.toNat_ofNat, Nat.mod_mod,
    hpow, show 256 = 2 ^ 8 from rfl, Nat.testBit_mod_two_pow, Nat.testBit_div_two_pow,
    decide_eq_true (Nat.mod_lt i (by decide)), Bool.true_and, Nat.mod_add_div]

/-- The loop over the bits is a ladder. -/
theorem foldl_mulStep {bytes : Bytes} {n : Nat} (hbits : ∀ i, testBit bytes i = n.testBit i) :
    ∀ (k i : Nat) (r exp : PointProjective),
      ((List.range' i k).foldl (Point.mulStep bytes) (r, exp)).1 =
        ladder PointProjective.add k (n / 2 ^ i) r exp
  | 0, _, _, _ => rfl
  | k + 1, i, r, exp => by
    rw [List.range'_succ, List.foldl_cons, Point.mulStep, foldl_mulStep hbits k, ladder, hbits,
      Nat.testBit_eq_decide_div_mod_eq, Nat.div_div_eq_div_mul, pow_succ]
    simp only [decide_eq_true_eq]

theorem zero_is : PointProjective.Is { x := 0, y := 1, z := 1 } 0 := by
  show Represents (toField 0) (toField 1) (toField 1) 0
  rw [toField_zero, toField_one]
  exact represents_zero

/-- A ladder from the neutral element multiplies. -/
theorem ladder_is {p : PointProjective} {P : Edwards.Point babyJubJub} (h : p.Is P) {k n : Nat}
    (hn : n < 2 ^ k) : (ladder PointProjective.add k n { x := 0, y := 1, z := 1 } p).Is (n • P) := by
  have := ladder_represents PointProjective.Is.add hn zero_is h
  rwa [zero_add] at this

theorem mulScalar_is {p : Point} {P : Edwards.Point babyJubJub} (h : p.Is P) {n : NumBigInt} (hn : 0 ≤ n) :
    (p.mulScalar n).Is (n • P) := by
  have hladder := ladder_is h.projective (Nat.lt_size_self n.natAbs)
  rw [← natCast_zsmul, Int.natAbs_of_nonneg hn] at hladder
  have hloop := foldl_mulStep (testBit_toBytesLe n) (bits n) 0 { x := 0, y := 1, z := 1 } p.projective
  rw [pow_zero, Nat.div_one, ← List.range_eq_range'] at hloop
  rw [Point.mulScalar]
  simp only [hloop]
  exact hladder.affine

/-! ## The base point -/

/-- The base point, on the curve. -/
def B8 : Edwards.Point babyJubJub where
  x := toField b8.x
  y := toField b8.y
  onCurve := by
    have h : frFromU64 A * (b8.x * b8.x) + b8.y * b8.y =
        1 + frFromU64 D * (b8.x * b8.x) * (b8.y * b8.y) := by
      decide +kernel
    have h := congrArg toField h
    simp only [toField_add, toField_mul, toField_one] at h
    rw [sq, sq]
    exact h

theorem b8_is : b8.Is B8 := ⟨rfl, rfl⟩

theorem suborder_eq :
    suborder = 2736030358979909402780800718157159386076813972158567259200215660948447373041 := by
  decide +kernel

theorem suborder_pos : 0 < suborder := by
  rw [suborder_eq]
  decide

/-- The multiple of the base point by the suborder, on projective coordinates. -/
def suborderLadder : PointProjective :=
  ladder PointProjective.add 256 suborder.toNat { x := 0, y := 1, z := 1 } b8.projective

theorem suborderLadder_neutral : suborderLadder.x = 0 ∧ suborderLadder.y = suborderLadder.z := by
  decide +kernel

/-- The order of the base point divides the suborder. -/
theorem suborder_smul_b8 : suborder • B8 = 0 := by
  have hlt : suborder.toNat < 2 ^ 256 := by
    rw [suborder_eq]
    decide
  have h : suborderLadder.Is (suborder.toNat • B8) := ladder_is b8_is.projective hlt
  rw [← natCast_zsmul, Int.toNat_of_nonneg (Int.le_of_lt suborder_pos)] at h
  obtain ⟨hz, hx, hy⟩ := h
  obtain ⟨hx₀, hyz⟩ := suborderLadder_neutral
  rw [hx₀, toField_zero, zero_eq_mul] at hx
  rw [hyz] at hy
  refine Edwards.Point.ext ?_ ?_
  · exact hx.resolve_right hz
  · exact mul_right_cancel₀ hz (hy.symm.trans (one_mul _).symm)

theorem smul_b8_tmod (n : NumBigInt) : n.tmod suborder • B8 = n • B8 := by
  have h := Int.mul_tdiv_add_tmod n suborder
  conv_rhs => rw [← h, add_zsmul, mul_comm, mul_zsmul, suborder_smul_b8, zsmul_zero, zero_add]

/-! ## Signing -/

theorem fromBytesLe_nonneg (bytes : Bytes) : 0 ≤ fromBytesLe bytes := Int.natCast_nonneg _

variable (blake512 : Bytes → ByteArr 64)

theorem scalarKey_nonneg (key : SpendingKey) : 0 ≤ scalarKey blake512 key := by
  rw [scalarKey, Int.shiftRight_eq_div_pow]
  exact Int.ediv_nonneg (fromBytesLe_nonneg _) (Int.natCast_nonneg _)

theorem publicPoint_is (key : SpendingKey) :
    (publicPoint blake512 key).Is (scalarKey blake512 key • B8) :=
  mulScalar_is b8_is (scalarKey_nonneg blake512 key)

/-- A message below the field's order fits the buffer. -/
theorem msg32_ok {msg : NumBigInt} (hmsg : 0 ≤ msg) (hlt : msg < u256ToNumBigInt Q) :
    ∃ bytes, msg32 msg = .ok bytes := by
  have hlen : (toBytesLe msg).length ≤ 32 := by
    rw [toBytesLe]
    split
    · decide
    · rw [List.length_map, Nat.digits_length_le_iff (by decide)]
      exact Nat.lt_trans (Int.natAbs_lt_natAbs_of_nonneg_of_lt hmsg hlt) (by decide)
  exact ⟨_, if_pos hlen⟩

theorem nonce_nonneg (key : SpendingKey) (bytes : Bytes) : 0 ≤ nonce blake512 key bytes := by
  rw [nonce]
  exact Int.tmod_nonneg _ (fromBytesLe_nonneg _)

/-- The scalar of a signature before it is reduced. -/
def response (key : SpendingKey) (r : NumBigInt) (hm : Fr) : NumBigInt :=
  scalarKey blake512 key <<< (3 : Nat) * frToNumBigInt hm + r

theorem response_nonneg (key : SpendingKey) {r : NumBigInt} (hr : 0 ≤ r) (hm : Fr) :
    0 ≤ response blake512 key r hm := by
  rw [response, Int.shiftLeft_eq]
  exact Int.add_nonneg (Int.mul_nonneg (Int.mul_nonneg (scalarKey_nonneg blake512 key) (by decide))
    (Int.natCast_nonneg _)) hr

theorem frFromDecimal_of_nonneg {n : NumBigInt} (hn : 0 ≤ n) :
    frFromDecimal n = some (Fin.ofNat scalarField n.toNat) := by
  rw [frFromDecimal, Int.toNat_emod hn (by decide)]
  exact congrArg some (Fin.ext (Nat.mod_mod n.toNat scalarField))

theorem sign_ok {tables : PoseidonTables} {key : SpendingKey} {msg : NumBigInt} {bytes : Bytes} {hm : Fr}
    (hmsg : 0 ≤ msg) (hlt : msg < u256ToNumBigInt Q) (hbytes : msg32 msg = .ok bytes)
    (hhm : poseidonHash tables [(b8.mulScalar (nonce blake512 key bytes)).x,
      (b8.mulScalar (nonce blake512 key bytes)).y, (publicPoint blake512 key).x,
      (publicPoint blake512 key).y, Fin.ofNat scalarField msg.toNat] = .ok hm) :
    sign blake512 tables key msg = .ok ⟨b8.mulScalar (nonce blake512 key bytes),
      (response blake512 key (nonce blake512 key bytes) hm).tmod suborder⟩ := by
  simp only [sign]
  rw [if_neg (Int.not_le.mpr hlt), hbytes, frFromDecimal_of_nonneg hmsg]
  simp only [ok_bind, pure_bind]
  rw [hhm]
  rfl

/-- A signature of a message in the field is made, its scalar is below the
suborder, and it meets the verifiers' equation under the public key. -/
theorem sign_verifies (tables : PoseidonTables) (key : SpendingKey) (msg : NumBigInt) (hmsg : 0 ≤ msg)
    (hlt : msg < u256ToNumBigInt Q) :
    ∃ sig hm, ∃ R A : Edwards.Point babyJubJub,
      sign blake512 tables key msg = .ok sig ∧ 0 ≤ sig.s ∧ sig.s < u256ToNumBigInt (ORDER >>> 3) ∧
      sig.r_b8.Is R ∧ (publicPoint blake512 key).Is A ∧
      publicKey blake512 key = ⟨BitVec.ofNat 256 A.x.val, BitVec.ofNat 256 A.y.val⟩ ∧
      poseidonHash tables [sig.r_b8.x, sig.r_b8.y, (publicPoint blake512 key).x,
        (publicPoint blake512 key).y, Fin.ofNat scalarField msg.toNat] = .ok hm ∧
      sig.s • B8 = R + (8 * frToNumBigInt hm) • A := by
  obtain ⟨bytes, hbytes⟩ := msg32_ok hmsg hlt
  have hr := nonce_nonneg blake512 key bytes
  have hA := publicPoint_is blake512 key
  have hval : ∀ x : Fr, (toField x).val = x.val := fun x => ZMod.val_natCast_of_lt x.isLt
  obtain ⟨hm, hhm⟩ := poseidonHash_ok tables [(b8.mulScalar (nonce blake512 key bytes)).x,
    (b8.mulScalar (nonce blake512 key bytes)).y, (publicPoint blake512 key).x,
    (publicPoint blake512 key).y, Fin.ofNat scalarField msg.toNat] (by simp) (by simp)
  refine ⟨_, hm, _, _, sign_ok blake512 hmsg hlt hbytes hhm, ?_, ?_, mulScalar_is b8_is hr, hA, ?_, hhm, ?_⟩
  · dsimp only
    exact Int.tmod_nonneg _ (response_nonneg blake512 key hr hm)
  · rw [← suborder]
    dsimp only
    exact Int.tmod_lt_of_pos _ suborder_pos
  · rw [publicKey, ← hA.x, ← hA.y, hval, hval]
  · dsimp only
    rw [smul_b8_tmod, response, Int.shiftLeft_eq, add_zsmul, add_comm, ← mul_zsmul]
    congr 2
    ring

/-- The first 64 bytes, filled with zeros. -/
def headDigest (bytes : Bytes) : ByteArr 64 :=
  ⟨(bytes ++ List.replicate 64 0).take 64, by
    rw [List.length_take, List.length_append, List.length_replicate]; omega⟩

/-- The message 12345 under the key `[1; 32]`. -/
theorem sign_verifies_12345 : ∃ sig hm, ∃ R A : Edwards.Point babyJubJub,
    sign headDigest poseidonTables (.replicate 32 1) 12345 = .ok sig ∧ sig.r_b8.Is R ∧
      (publicPoint headDigest (.replicate 32 1)).Is A ∧
      poseidonHash poseidonTables [sig.r_b8.x, sig.r_b8.y, (publicPoint headDigest (.replicate 32 1)).x,
        (publicPoint headDigest (.replicate 32 1)).y, Fin.ofNat scalarField 12345] = .ok hm ∧
      sig.s • B8 = R + (8 * frToNumBigInt hm) • A := by
  obtain ⟨sig, hm, R, A, hsign, -, -, hR, hA, -, hhash, h⟩ :=
    sign_verifies headDigest poseidonTables (.replicate 32 1) 12345 (by decide) (by decide)
  exact ⟨sig, hm, R, A, hsign, hR, hA, hhash, h⟩

end Railgun.BabyJubJub
