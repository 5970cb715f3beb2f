import Railgun.Framework.Outcome
import Railgun.Spec.Derivation

/-!
# The path parser

The parser's loops go by index. On what is left of the bytes, a turn takes
digits, an apostrophe and, unless the bytes end there, a slash
(`parseSegments_turn`); the loop takes what may follow the slash, and no index
is out of range (`parseSegments_spec`, `fromBytes_spec`).
-/

namespace Railgun

open Positional Outcome

namespace DerivationPath

/-! ## Segments -/

theorem length_segments (p : DerivationPath) : p.segments.length = p.len := by
  rw [segments, List.length_take, p.length_array, Nat.min_eq_left p.len_le]

/-- The unused slots are zero, so the segments say it all. -/
theorem ext_segments {p q : DerivationPath} (h : p.segments = q.segments) : p = q := by
  have hlen : p.len = q.len := by rw [← p.length_segments, h, q.length_segments]
  have harray : p.array = q.array := by
    have hp := (List.take_append_drop p.len p.array).symm
    have hq := (List.take_append_drop q.len q.array).symm
    rw [p.unused] at hp
    rw [q.unused, ← hlen] at hq
    rw [hp, hq]
    exact congrArg (· ++ _) (h.trans (by rw [segments, hlen]))
  cases p
  cases q
  cases hlen
  cases harray
  rfl

@[simp] theorem segments_fromSegments (segments : List U32) (h : segments.length ≤ maxDerivationDepth) :
    (fromSegments segments h).segments = segments := List.take_left

@[simp] theorem segments_push (p : DerivationPath) (value : U32) (h : p.len ≠ maxDerivationDepth) :
    (p.push value h).segments = p.segments ++ [value] := by
  have hlt : p.len < p.array.length := by
    rw [p.length_array]
    exact Nat.lt_of_le_of_ne p.len_le h
  rw [segments, push, List.take_add_one, List.take_set_of_le (Nat.le_refl _),
    List.getElem?_set_self hlt]
  rfl

/-! ## The digit loop -/

/-- What is left of the bytes from an index on. -/
theorem drop_cons {bytes rest : Bytes} {idx : Nat} {b : Byte} (h : bytes.drop idx = b :: rest) :
    idx < bytes.length ∧ byteAt bytes idx = .ok b ∧ bytes.drop (idx + 1) = rest := by
  have hlt : idx < bytes.length := by
    by_contra hge
    rw [List.drop_eq_nil_of_le (Nat.not_lt.mp hge)] at h
    cases h
  rw [List.drop_eq_getElem_cons hlt] at h
  obtain ⟨hb, hrest⟩ := List.cons.inj h
  exact ⟨hlt, by rw [byteAt, List.getElem?_eq_getElem hlt, hb], hrest⟩

/-- The number of a digit. -/
def digitWord (b : Byte) : U32 := (b - 0x30).setWidth 32

theorem isAsciiDigit_iff {b : Byte} : isAsciiDigit b = true ↔ 48 ≤ b.toNat ∧ b.toNat ≤ 57 := by
  rw [isAsciiDigit, Bool.and_eq_true, decide_eq_true_eq, decide_eq_true_eq]
  rfl

theorem toNat_digitWord {b : Byte} (h : isAsciiDigit b = true) : (digitWord b).toNat = b.toNat - 48 := by
  have hle := (isAsciiDigit_iff.mp h).1
  have hb := b.isLt
  rw [digitWord, BitVec.toNat_setWidth, BitVec.toNat_sub_of_le (show (0x30 : Byte).toNat ≤ _ from hle)]
  exact Nat.mod_eq_of_lt (Nat.lt_of_le_of_lt (Nat.sub_le _ _) (Nat.lt_trans hb (by decide)))

/-- The loop takes the digits at the front, and fails if their number does not fit. -/
theorem parseDigits_eq (bytes : Bytes) (idx : Nat) (value : U32) (sawDigit : Bool) :
    parseDigits bytes idx value sawDigit =
      let ds := (bytes.drop idx).takeWhile isAsciiDigit
      match (ds.map digitWord).foldlM (mulAdd 10) value with
      | some value => .ok (idx + ds.length, value, sawDigit || !ds.isEmpty)
      | none => .error .invalidDerivationPath := by
  generalize hrest : bytes.drop idx = rest
  induction rest generalizing idx value sawDigit with
  | nil =>
    rw [parseDigits, if_neg (Nat.not_lt.mpr (List.drop_eq_nil_iff.mp hrest))]
    simp [pure, Except.pure]
  | cons b rest ih =>
    obtain ⟨hlt, hbyte, hdrop⟩ := drop_cons hrest
    rw [parseDigits, if_pos hlt, hbyte, ok_bind]
    by_cases hb : isAsciiDigit b = true
    · rw [if_pos hb, List.takeWhile_cons_of_pos hb]
      simp only [List.map_cons, List.foldlM_cons]
      cases hv : mulAdd 10 value (digitWord b) with
      | none =>
        rw [digitWord] at hv
        rw [hv]
        rfl
      | some v =>
        rw [digitWord] at hv
        simp only [hv, ih (idx + 1) v true hdrop, Option.bind_eq_bind, Option.bind_some]
        cases (List.map digitWord (List.takeWhile isAsciiDigit rest)).foldlM (mulAdd 10) v with
        | none => rfl
        | some v' => simp [Nat.add_assoc, Nat.add_comm 1]
    · rw [if_neg hb, List.takeWhile_cons_of_neg hb]
      simp [pure, Except.pure]

/-! ## The segment loop -/

/-- Digits of a number that fits. -/
structure Spells (ds : Bytes) (v : U32) : Prop where
  ne_nil : ds ≠ []
  isDigit : ∀ b ∈ ds, isAsciiDigit b = true
  value : v.toNat = Positional.value 10 (ds.map fun b => b.toNat - 48)

theorem foldlM_digitWord {ds : Bytes} (hds : ∀ b ∈ ds, isAsciiDigit b = true) {v : U32} :
    (ds.map digitWord).foldlM (mulAdd 10) 0 = some v ↔
      v.toNat = Positional.value 10 (ds.map fun b => b.toNat - 48) := by
  have hmap : (ds.map digitWord).map BitVec.toNat = ds.map fun b => b.toNat - 48 := by
    rw [List.map_map]
    exact List.map_congr_left fun b hb => toNat_digitWord (hds b hb)
  have hten : 0 < (10 : U32).toNat := by decide
  rw [← hmap]
  exact foldlM_mulAdd hten _

/-- The number of the segment at the front and, unless the bytes end there, what
is left after the slash. -/
def turn (rest : Bytes) : Option (U32 × Option Bytes) :=
  if rest.takeWhile isAsciiDigit = [] then none
  else
    match ((rest.takeWhile isAsciiDigit).map digitWord).foldlM (mulAdd 10) 0,
      rest.dropWhile isAsciiDigit with
    | some v, [c] => if c = 0x27 then some (v, none) else none
    | some v, c :: d :: rest => if c = 0x27 ∧ d = 0x2f then some (v, some rest) else none
    | _, _ => none

/-- The bytes after a segment: an apostrophe, and a slash before what is left. -/
def turnTail : Option Bytes → Bytes
  | none => [0x27]
  | some rest => 0x27 :: 0x2f :: rest

theorem turn_eq_some {rest : Bytes} {v : U32} {after : Option Bytes} :
    turn rest = some (v, after) ↔ ∃ ds, Spells ds v ∧ rest = ds ++ turnTail after := by
  constructor
  · intro h
    have hdigits : ∀ c ∈ rest.takeWhile isAsciiDigit, isAsciiDigit c = true := fun c hc =>
      List.all_eq_true.mp List.all_takeWhile c hc
    have hsplit := (List.takeWhile_append_dropWhile (p := isAsciiDigit) (l := rest)).symm
    rw [turn] at h
    split at h
    · cases h
    · rename_i hne
      split at h
      · rename_i w c hw hdrop
        split at h
        · rename_i hc
          cases h
          rw [hdrop, hc] at hsplit
          exact ⟨_, ⟨hne, hdigits, (foldlM_digitWord hdigits).mp hw⟩, hsplit⟩
        · cases h
      · rename_i w c d tail hw hdrop
        split at h
        · rename_i hcd
          cases h
          rw [hdrop, hcd.1, hcd.2] at hsplit
          exact ⟨_, ⟨hne, hdigits, (foldlM_digitWord hdigits).mp hw⟩, hsplit⟩
        · cases h
      · cases h
  · rintro ⟨ds, hds, rfl⟩
    have hquote : ¬ isAsciiDigit 0x27 = true := by decide
    have htake : (ds ++ turnTail after).takeWhile isAsciiDigit = ds := by
      rw [List.takeWhile_append_of_pos hds.isDigit]
      cases after <;> rw [turnTail, List.takeWhile_cons_of_neg hquote, List.append_nil]
    have hdrop : (ds ++ turnTail after).dropWhile isAsciiDigit = turnTail after := by
      rw [List.dropWhile_append_of_pos hds.isDigit]
      cases after <;> rw [turnTail, List.dropWhile_cons_of_neg hquote]
    rw [turn, htake, hdrop, if_neg hds.ne_nil, (foldlM_digitWord hds.isDigit).mpr hds.value]
    cases after <;> simp [turnTail]

/-- A turn of the loop takes a segment, or fails; no index is out of range. -/
theorem parseSegments_turn {bytes rest : Bytes} {b : Byte} {path : DerivationPath} {idx : Nat}
    (hrest : bytes.drop idx = b :: rest) (h : path.len ≠ maxDerivationDepth) :
    parseSegments bytes path idx = .error .invalidDerivationPath ∧ turn (b :: rest) = none ∨
    ∃ v, parseSegments bytes path idx = .ok (path.push v h) ∧ turn (b :: rest) = some (v, none) ∨
      ∃ idx', parseSegments bytes path idx = parseSegments bytes (path.push v h) idx' ∧
        turn (b :: rest) = some (v, some (bytes.drop idx')) := by
  obtain ⟨hlt, -, -⟩ := drop_cons hrest
  rw [parseSegments, if_pos hlt, dif_neg h, parseDigits_eq, hrest, turn]
  simp only
  generalize hds : (b :: rest).takeWhile isAsciiDigit = ds
  generalize htail : (b :: rest).dropWhile isAsciiDigit = tail
  have hsplit := List.takeWhile_append_dropWhile (p := isAsciiDigit) (l := b :: rest)
  rw [hds, htail, ← hrest] at hsplit
  have hdrop : bytes.drop (idx + ds.length) = tail := by
    rw [← List.drop_drop, ← hsplit, List.drop_left]
  cases (ds.map digitWord).foldlM (mulAdd 10) 0 with
  | none => exact .inl ⟨rfl, by simp⟩
  | some v =>
    simp only [ok_bind, Bool.false_or, Bool.not_not]
    by_cases hnil : ds = []
    · exact .inl ⟨by simp [hnil]; rfl, by simp [hnil]⟩
    cases tail with
    | nil =>
      have hge : bytes.length ≤ idx + ds.length := List.drop_eq_nil_iff.mp hdrop
      exact .inl ⟨by simp [hge]; rfl, by simp⟩
    | cons c tail =>
      obtain ⟨hlt, hbyte, hafter⟩ := drop_cons hdrop
      by_cases hc : c = 39#8
      swap
      · refine .inl ⟨by simp [hnil, hc, hbyte, Nat.not_le.mpr hlt]; rfl, ?_⟩
        cases tail <;> simp [hc]
      subst hc
      cases tail with
      | nil =>
        have hend : idx + ds.length + 1 = bytes.length :=
          Nat.le_antisymm hlt (List.drop_eq_nil_iff.mp hafter)
        exact .inr ⟨v, .inl ⟨by simp [hnil, hbyte, hend, Nat.not_le.mpr hlt]; rfl, by simp [hnil]⟩⟩
      | cons d tail =>
        obtain ⟨hlt', hbyte', hafter'⟩ := drop_cons hafter
        by_cases hd : d = 47#8
        · refine .inr ⟨v, .inr ⟨idx + ds.length + 2, ?_, ?_⟩⟩
          · simp [hnil, hbyte, hbyte', hd, Nat.ne_of_lt hlt', Nat.not_le.mpr hlt]
          · simp [hnil, hd, hafter']
        · refine .inl ⟨?_, by simp [hd]⟩
          simp [hnil, hbyte, hbyte', hd, Nat.ne_of_lt hlt', Nat.not_le.mpr hlt]
          rfl

/-- What may follow the slash before a segment, and the path after it. -/
inductive Follows : Bytes → DerivationPath → DerivationPath → Prop
  | stop (path : DerivationPath) : Follows [] path path
  | last {rest : Bytes} {v : U32} {path : DerivationPath} (ht : turn rest = some (v, none))
      (h : path.len ≠ maxDerivationDepth) : Follows rest path (path.push v h)
  | more {rest rest' : Bytes} {v : U32} {path p : DerivationPath}
      (ht : turn rest = some (v, some rest')) (h : path.len ≠ maxDerivationDepth)
      (hrest : Follows rest' (path.push v h) p) : Follows rest path p

/-- The loop accepts what may follow, and no index is out of range. -/
theorem parseSegments_spec (bytes : Bytes) (path : DerivationPath) (idx : Nat) :
    (∀ p, parseSegments bytes path idx = .ok p ↔ Follows (bytes.drop idx) path p) ∧
      parseSegments bytes path idx ≠ .error .outOfRange := by
  cases hrest : bytes.drop idx with
  | nil =>
    rw [parseSegments, if_neg (Nat.not_lt.mpr (List.drop_eq_nil_iff.mp hrest))]
    refine ⟨fun p => ⟨fun h => ?_, fun h => ?_⟩, nofun⟩
    · rw [Except.ok.inj h]
      exact .stop p
    · cases h with
      | stop => rfl
      | last ht => simp [turn] at ht
      | more ht => simp [turn] at ht
  | cons b rest =>
    by_cases h : path.len = maxDerivationDepth
    · rw [parseSegments, if_pos (drop_cons hrest).1, dif_pos h]
      refine ⟨fun p => iff_of_false nofun fun hf => ?_, nofun⟩
      cases hf with
      | last _ hne => exact hne h
      | more _ hne => exact hne h
    obtain ⟨hrun, hturn⟩ | ⟨v, ⟨hrun, hturn⟩ | ⟨idx', hrun, hturn⟩⟩ := parseSegments_turn hrest h
    · rw [hrun]
      refine ⟨fun p => iff_of_false nofun fun hf => ?_, nofun⟩
      cases hf with
      | last ht => cases hturn.symm.trans ht
      | more ht => cases hturn.symm.trans ht
    · rw [hrun]
      refine ⟨fun p => ⟨fun hp => ?_, fun hf => ?_⟩, nofun⟩
      · rw [← Except.ok.inj hp]
        exact .last hturn h
      · cases hf with
        | last ht => cases hturn.symm.trans ht; rfl
        | more ht => cases hturn.symm.trans ht
    · obtain ⟨hok, hin⟩ := parseSegments_spec bytes (path.push v h) idx'
      rw [hrun]
      refine ⟨fun p => ⟨fun hp => .more hturn h ((hok p).mp hp), fun hf => ?_⟩, hin⟩
      cases hf with
      | last ht => cases hturn.symm.trans ht
      | more ht _ hrest =>
        cases hturn.symm.trans ht
        exact (hok p).mpr hrest
termination_by maxDerivationDepth - path.len
decreasing_by
  have := path.len_le
  show maxDerivationDepth - (path.len + 1) < maxDerivationDepth - path.len
  omega

/-! ## The start -/

theorem badStart_eq (bytes : Bytes) :
    badStart bytes = .ok (bytes.length < 4 || bytes.take 2 ≠ [0x6d, 0x2f]) := by
  rw [badStart]
  by_cases hlen : bytes.length < 4
  · rw [if_pos hlen, decide_eq_true hlen]
    rfl
  rw [if_neg hlen, decide_eq_false hlen, Bool.false_or]
  match bytes, hlen with
  | [], hlen => exact absurd (Nat.zero_lt_succ 3) hlen
  | [_], hlen => exact absurd (Nat.one_lt_succ_succ 2) hlen
  | a :: b :: rest, _ =>
    have hfirst : byteAt (a :: b :: rest) 0 = .ok a := rfl
    have hsecond : byteAt (a :: b :: rest) 1 = .ok b := rfl
    simp only [hfirst, hsecond, ok_bind]
    by_cases ha : a = 109#8
    · by_cases hb : b = 47#8 <;> simp [ha, hb] <;> rfl
    · simp [ha]
      rfl

/-- After `m/` come two bytes at least, that follow a slash. -/
theorem fromBytes_spec (bytes : Bytes) :
    (∀ p, fromBytes bytes = .ok p ↔
      ∃ rest, bytes = 0x6d :: 0x2f :: rest ∧ 2 ≤ rest.length ∧ Follows rest root p) ∧
      fromBytes bytes ≠ .error .outOfRange := by
  rw [fromBytes, badStart_eq, ok_bind]
  by_cases hbad : (bytes.length < 4 || bytes.take 2 ≠ [0x6d, 0x2f]) = true
  · rw [if_pos hbad]
    refine ⟨fun p => iff_of_false nofun ?_, nofun⟩
    rintro ⟨rest, rfl, hlen, -⟩
    simp at hbad
    omega
  · obtain ⟨hok, hin⟩ := parseSegments_spec bytes root 2
    rw [if_neg hbad]
    refine ⟨fun p => (hok p).trans ?_, hin⟩
    rw [Bool.or_eq_true, not_or, decide_eq_true_eq, decide_eq_true_eq, not_not, Nat.not_lt] at hbad
    obtain ⟨hlen, htake⟩ := hbad
    have hbytes : bytes = 0x6d :: 0x2f :: bytes.drop 2 := by
      have := (List.take_append_drop 2 bytes).symm
      rwa [htake] at this
    constructor
    · intro h
      refine ⟨bytes.drop 2, hbytes, ?_, h⟩
      rw [List.length_drop]
      omega
    · rintro ⟨rest, rfl, -, h⟩
      exact h

end DerivationPath

end Railgun
