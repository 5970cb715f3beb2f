import Railgun.Proof.Path

/-!
# The grammar of paths

The strings that are parsed are those of the grammar, and those with a slash
after their segments (`fromStr_iff`): the loop ends when nothing follows a
slash, so it accepts these (`accepts_inGrammar_iff`). What a path is rendered to
is parsed to the path (`fromStr_complete`).
-/

namespace Railgun

open Positional Ascii DerivationPath

/-! ## Segments -/

theorem isDigit_iff {c : Char} : c.isDigit = true ↔ 48 ≤ c.toNat ∧ c.toNat ≤ 57 := by
  rw [Char.isDigit, Bool.and_eq_true, decide_eq_true_eq, decide_eq_true_eq]
  rfl

theorem isAscii_of_isDigit {c : Char} (h : c.isDigit = true) : IsAscii c :=
  Nat.lt_of_le_of_lt (isDigit_iff.mp h).2 (by decide)

theorem ofDigitChars_eq (cs : List Char) :
    Nat.ofDigitChars 10 cs 0 = Positional.value 10 (cs.map fun c => c.toNat - 48) := by
  induction cs using List.reverseRecOn with
  | nil => rfl
  | append_singleton cs c ih =>
    rw [Nat.ofDigitChars_append, ih, List.map_append, List.map_singleton, value_append_singleton,
      Nat.ofDigitChars_cons, Nat.ofDigitChars_nil]
    rfl

namespace PathSegment

theorem toNat_value (segment : PathSegment) :
    segment.value.toNat = Nat.ofDigitChars 10 segment.digits 0 := by
  rw [value, BitVec.toNat_ofNat, Nat.mod_eq_of_lt segment.fits]

/-- The bytes of the digits spell the value. -/
theorem spells (segment : PathSegment) : Spells (segment.digits.map code) segment.value where
  ne_nil h := segment.ne_nil (List.map_eq_nil_iff.mp h)
  isDigit b hb := by
    obtain ⟨c, hc, rfl⟩ := List.mem_map.mp hb
    have hdigit := segment.isDigit c hc
    rw [isAsciiDigit_iff, toNat_code (isAscii_of_isDigit hdigit)]
    exact isDigit_iff.mp hdigit
  value := by
    rw [segment.toNat_value, ofDigitChars_eq, List.map_map]
    refine congrArg _ (List.map_congr_left fun c hc => ?_)
    rw [Function.comp_apply, toNat_code (isAscii_of_isDigit (segment.isDigit c hc))]

theorem isAscii_text (segment : PathSegment) : ∀ c ∈ segment.text, IsAscii c := by
  intro c hc
  rw [text, List.mem_cons, List.mem_append, List.mem_singleton] at hc
  rcases hc with rfl | hc | rfl
  · decide
  · exact isAscii_of_isDigit (segment.isDigit c hc)
  · decide

theorem map_text (segment : PathSegment) :
    segment.text.map code = 0x2f :: (segment.digits.map code ++ [0x27]) := by
  rw [text, List.map_cons, List.map_append]
  rfl

end PathSegment

/-- Bytes that spell a number are the digits of a segment. -/
theorem exists_segment {ds : Bytes} {v : U32} (h : Spells ds v) :
    ∃ segment : PathSegment, segment.digits.map code = ds ∧ segment.value = v := by
  have hvalue : Nat.ofDigitChars 10 (ds.map char) 0 = v.toNat := by
    rw [ofDigitChars_eq, h.value, List.map_map]
    exact congrArg _ (List.map_congr_left fun b _ => by rw [Function.comp_apply, toNat_char])
  refine ⟨⟨ds.map char, fun hnil => h.ne_nil (List.map_eq_nil_iff.mp hnil), fun c hc => ?_,
    by rw [hvalue]; exact v.isLt⟩, ?_, ?_⟩
  · obtain ⟨b, hb, rfl⟩ := List.mem_map.mp hc
    rw [isDigit_iff, toNat_char]
    exact isAsciiDigit_iff.mp (h.isDigit b hb)
  · rw [List.map_map]
    exact (List.map_congr_left fun b _ => code_char b).trans (List.map_id _)
  · refine BitVec.eq_of_toNat_eq ?_
    rw [PathSegment.toNat_value, hvalue]

/-- The bytes of some segments. -/
def segmentBytes (segments : List PathSegment) : Bytes := (segments.flatMap PathSegment.text).map code

theorem segmentBytes_cons (segment : PathSegment) (segments : List PathSegment) :
    segmentBytes (segment :: segments) =
      0x2f :: (segment.digits.map code ++ 0x27 :: segmentBytes segments) := by
  rw [segmentBytes, List.flatMap_cons, List.map_append, segment.map_text, List.cons_append,
    List.append_assoc]
  rfl

/-- Segments, and perhaps a slash after them. -/
def Closes (bytes : Bytes) (segments : List PathSegment) : Prop :=
  bytes = segmentBytes segments ∨ bytes = segmentBytes segments ++ [0x2f]

theorem closes_cons {bytes : Bytes} {segment : PathSegment} {segments : List PathSegment} :
    Closes (0x2f :: bytes) (segment :: segments) ↔
      ∃ tail, bytes = segment.digits.map code ++ 0x27 :: tail ∧ Closes tail segments := by
  rw [Closes, segmentBytes_cons, List.cons_append, List.cons.injEq, List.cons.injEq, List.append_assoc,
    List.cons_append]
  constructor
  · rintro (⟨-, rfl⟩ | ⟨-, rfl⟩)
    · exact ⟨_, rfl, .inl rfl⟩
    · exact ⟨_, rfl, .inr rfl⟩
  · rintro ⟨tail, rfl, rfl | rfl⟩
    · exact .inl ⟨rfl, rfl⟩
    · exact .inr ⟨rfl, rfl⟩

theorem Closes.nil_eq {segments : List PathSegment} (h : Closes [] segments) : segments = [] := by
  cases segments with
  | nil => rfl
  | cons segment segments =>
    rw [Closes, segmentBytes_cons] at h
    rcases h with h | h <;> cases h

theorem Closes.head_eq {d : Byte} {rest : Bytes} {segments : List PathSegment}
    (h : Closes (d :: rest) segments) : d = 0x2f := by
  cases segments with
  | nil =>
    rcases h with h | h
    · cases h
    · exact (List.cons.inj h).1
  | cons segment segments =>
    rw [Closes, segmentBytes_cons] at h
    rcases h with h | h <;> exact (List.cons.inj h).1

theorem closes_of_follows {rest : Bytes} {path p : DerivationPath} (h : Follows rest path p) :
    ∃ segments : List PathSegment, path.len + segments.length ≤ maxDerivationDepth ∧
      p.segments = path.segments ++ segments.map PathSegment.value ∧ Closes (0x2f :: rest) segments := by
  induction h with
  | stop path => exact ⟨[], path.len_le, (List.append_nil _).symm, .inr rfl⟩
  | @last rest v path ht h =>
    obtain ⟨ds, hds, rfl⟩ := turn_eq_some.mp ht
    obtain ⟨segment, rfl, rfl⟩ := exists_segment hds
    have hlt := Nat.lt_of_le_of_ne path.len_le h
    exact ⟨[segment], hlt, segments_push .., .inl (segmentBytes_cons segment []).symm⟩
  | @more rest rest' v path p ht h _ ih =>
    obtain ⟨ds, hds, rfl⟩ := turn_eq_some.mp ht
    obtain ⟨segment, rfl, rfl⟩ := exists_segment hds
    obtain ⟨segments, hlen, hsegments, hrest⟩ := ih
    have hpush : (path.push segment.value h).len = path.len + 1 := rfl
    refine ⟨segment :: segments, ?_, ?_, closes_cons.mpr ⟨_, rfl, hrest⟩⟩
    · rw [List.length_cons]
      omega
    · rw [hsegments, segments_push, List.append_assoc]
      rfl

theorem follows_of_closes : ∀ {segments : List PathSegment} {rest : Bytes} {path p : DerivationPath},
    path.len + segments.length ≤ maxDerivationDepth →
    p.segments = path.segments ++ segments.map PathSegment.value → Closes (0x2f :: rest) segments →
    Follows rest path p
  | [], rest, path, p, _, hsegments, hrest => by
    obtain rfl : rest = [] := by
      rcases hrest with hrest | hrest
      · cases hrest
      · exact (List.cons.inj hrest).2
    rw [List.map_nil, List.append_nil] at hsegments
    rw [ext_segments hsegments]
    exact .stop path
  | segment :: segments, rest, path, p, hlen, hsegments, hrest => by
    rw [List.length_cons] at hlen
    have h : path.len ≠ maxDerivationDepth := by omega
    have hpush : (path.push segment.value h).len = path.len + 1 := rfl
    have hnext : p.segments =
        (path.push segment.value h).segments ++ segments.map PathSegment.value := by
      rw [segments_push, List.append_assoc]
      exact hsegments
    -- After the apostrophe comes the end, or the slash of what follows.
    obtain ⟨tail, rfl, htail⟩ := closes_cons.mp hrest
    cases tail with
    | nil =>
      obtain rfl := htail.nil_eq
      rw [List.map_nil, List.append_nil] at hnext
      rw [ext_segments hnext]
      exact .last (turn_eq_some.mpr ⟨_, segment.spells, rfl⟩) h
    | cons d rest =>
      obtain rfl := htail.head_eq
      exact .more (turn_eq_some.mpr ⟨_, segment.spells, rfl⟩) h
        (follows_of_closes (by omega) hnext htail)

/-- What follows is segments, and perhaps a slash after them. -/
theorem follows_iff {rest : Bytes} {path p : DerivationPath} : Follows rest path p ↔
    ∃ segments : List PathSegment, path.len + segments.length ≤ maxDerivationDepth ∧
      p.segments = path.segments ++ segments.map PathSegment.value ∧ Closes (0x2f :: rest) segments :=
  ⟨closes_of_follows, fun ⟨_, hlen, hsegments, hrest⟩ => follows_of_closes hlen hsegments hrest⟩

/-! ## Strings -/

theorem isAscii_segments {segments : List PathSegment} :
    ∀ c ∈ segments.flatMap PathSegment.text, IsAscii c := by
  intro c hc
  obtain ⟨segment, -, hc⟩ := List.mem_flatMap.mp hc
  exact segment.isAscii_text c hc

/-- A text of `m`, segments and more ASCII characters, in bytes. -/
theorem utf8_path (s : String) (segments : List PathSegment) {more : List Char}
    (hmore : ∀ c ∈ more, IsAscii c) :
    s = pathText segments ++ .ofList more ↔ utf8 s = 0x6d :: (segmentBytes segments ++ more.map code) := by
  have hascii : ∀ c ∈ 'm' :: (segments.flatMap PathSegment.text ++ more), IsAscii c := by
    intro c hc
    rw [List.mem_cons, List.mem_append] at hc
    rcases hc with rfl | hc | hc
    · decide
    · exact isAscii_segments c hc
    · exact hmore c hc
  have htext : pathText segments ++ .ofList more =
      .ofList ('m' :: (segments.flatMap PathSegment.text ++ more)) := by
    rw [pathText, ← String.ofList_append, List.cons_append]
  rw [htext, ← eq_ofList hascii, List.map_cons, List.map_append]
  rfl

theorem eq_pathText (s : String) (segments : List PathSegment) :
    s = pathText segments ↔ utf8 s = 0x6d :: segmentBytes segments := by
  have h := utf8_path s segments (List.forall_mem_nil IsAscii)
  rwa [String.ofList_nil, String.append_empty, List.map_nil, List.append_nil] at h

theorem eq_pathText_slash (s : String) (segments : List PathSegment) :
    s = pathText segments ++ "/" ↔ utf8 s = 0x6d :: (segmentBytes segments ++ [0x2f]) :=
  utf8_path s segments (List.forall_mem_singleton.mpr (by decide : IsAscii '/'))

/-- Segments start with a slash, and are not just that. -/
theorem exists_segmentBytes : ∀ {segments : List PathSegment}, segments ≠ [] →
    ∃ rest, segmentBytes segments = 0x2f :: rest ∧ 2 ≤ rest.length
  | [], h => absurd rfl h
  | segment :: segments, _ => by
    have hpos := List.length_pos_iff.mpr segment.ne_nil
    refine ⟨_, segmentBytes_cons segment segments, ?_⟩
    rw [List.length_append, List.length_map, List.length_cons]
    omega

theorem utf8_m : utf8 "m" = [0x6d] := by decide

/-- A string is parsed to the values of a path of the grammar, and so is one
with a slash after its segments. -/
theorem fromStr_iff {s : String} {p : DerivationPath} : fromStr s = .ok p ↔
    ∃ segments : List PathSegment, segments.length ≤ maxDerivationDepth ∧
      p.segments = segments.map PathSegment.value ∧
      (s = pathText segments ∨ segments ≠ [] ∧ s = pathText segments ++ "/") := by
  have hroot : root.segments = [] := rfl
  have hlen : root.len = 0 := rfl
  simp only [eq_pathText, eq_pathText_slash]
  rw [fromStr]
  by_cases hm : s = "m"
  · subst hm
    rw [if_pos rfl, utf8_m]
    constructor
    · intro h
      rw [← Except.ok.inj h]
      exact ⟨[], Nat.zero_le _, rfl, .inl rfl⟩
    · rintro ⟨segments, -, hsegments, h | ⟨-, h⟩⟩
      · cases segments with
        | nil => exact congrArg Except.ok (ext_segments hsegments.symm)
        | cons segment segments =>
          rw [segmentBytes_cons] at h
          cases h
      · simp at h
  · rw [if_neg hm, (fromBytes_spec _).1]
    constructor
    · rintro ⟨rest, hs, hrest, hf⟩
      obtain ⟨segments, hle, hsegments, hend⟩ := follows_iff.mp hf
      rw [hlen, Nat.zero_add] at hle
      rw [hroot, List.nil_append] at hsegments
      refine ⟨segments, hle, hsegments, ?_⟩
      rw [hs]
      rcases hend with hend | hend
      · exact .inl (by rw [hend])
      · refine .inr ⟨?_, by rw [hend]⟩
        rintro rfl
        rw [(List.cons.inj hend).2] at hrest
        cases hrest
    · rintro ⟨segments, hle, hsegments, hs⟩
      have hne : segments ≠ [] := by
        rintro rfl
        rcases hs with hs | ⟨hne, -⟩
        · exact hm (utf8_inj (hs.trans utf8_m.symm))
        · exact hne rfl
      obtain ⟨rest, hbytes, hrest⟩ := exists_segmentBytes hne
      have hfollows : ∀ {rest'}, 0x2f :: rest' = segmentBytes segments ∨
          0x2f :: rest' = segmentBytes segments ++ [0x2f] → Follows rest' root p := fun hend =>
        follows_iff.mpr ⟨segments, by rwa [hlen, Nat.zero_add], by rw [hroot, hsegments]; rfl, hend⟩
      rcases hs with hs | ⟨-, hs⟩
      · exact ⟨rest, by rw [hs, hbytes], hrest, hfollows (.inl hbytes.symm)⟩
      · refine ⟨rest ++ [0x2f], by rw [hs, hbytes]; rfl, ?_, hfollows (.inr (by rw [hbytes]; rfl))⟩
        rw [List.length_append]
        omega

/-- No string of the grammar ends in a slash. -/
theorem not_inGrammar {s : String} (h : EndsInSlash s) : ¬ InGrammar s := by
  rintro ⟨segments', -, hs'⟩
  obtain ⟨segments, -, -, hs⟩ := h
  rw [eq_pathText] at hs'
  rw [eq_pathText_slash, hs'] at hs
  have hlast := congrArg List.getLast? hs
  rw [← List.cons_append, List.getLast?_concat] at hlast
  cases segments' using List.reverseRecOn with
  | nil => cases hlast
  | append_singleton segments' segment =>
    have hbytes : segmentBytes (segments' ++ [segment]) =
        segmentBytes segments' ++ 0x2f :: segment.digits.map code ++ [0x27] := by
      rw [segmentBytes, List.flatMap_append, List.map_append, List.flatMap_singleton, segment.map_text,
        List.append_assoc]
      rfl
    rw [hbytes, ← List.cons_append, List.getLast?_concat] at hlast
    cases hlast

/-- What is accepted is in the grammar, exactly for the strings that are not a
path of the grammar with a slash after it. -/
theorem accepts_inGrammar_iff (s : String) :
    ((∃ p, fromStr s = .ok p) → InGrammar s) ↔ ¬ EndsInSlash s := by
  constructor
  · intro h hslash
    obtain ⟨segments, hne, hlen, hs⟩ := id hslash
    have hlen' : (segments.map PathSegment.value).length ≤ maxDerivationDepth := by
      rwa [List.length_map]
    exact not_inGrammar hslash (h ⟨.fromSegments _ hlen', fromStr_iff.mpr
      ⟨segments, hlen, segments_fromSegments _ hlen', .inr ⟨hne, hs⟩⟩⟩)
  · rintro hslash ⟨p, hp⟩
    obtain ⟨segments, hlen, -, hs | ⟨hne, hs⟩⟩ := fromStr_iff.mp hp
    · exact ⟨segments, hlen, hs⟩
    · exact absurd ⟨segments, hne, hlen, hs⟩ hslash

/-- A segment `0`. -/
def zeroSegment : PathSegment := ⟨['0'], by decide, List.forall_mem_singleton.mpr rfl, by decide⟩

/-- `m/0'/` is accepted. -/
theorem accepts_slash : ¬ ∀ s : String, (∃ p, fromStr s = .ok p) → InGrammar s := by
  intro h
  have hslash : EndsInSlash "m/0'/" := ⟨[zeroSegment], by decide, by decide, by decide⟩
  have hp : fromStr "m/0'/" = .ok (.fromSegments [0] (by decide)) :=
    fromStr_iff.mpr ⟨[zeroSegment], by decide, by decide, .inr ⟨by decide, by decide⟩⟩
  exact not_inGrammar hslash (h _ ⟨_, hp⟩)

/-! ## Rendering -/

/-- A number in decimal. -/
def PathSegment.ofNumber (v : U32) : PathSegment where
  digits := Nat.toDigits 10 v.toNat
  ne_nil := Nat.toDigits_ne_nil
  isDigit _ hc := Nat.isDigit_of_mem_toDigits (by decide) (Nat.le_refl _) hc
  fits := by
    rw [Nat.ofDigitChars_ten_toDigits]
    exact v.isLt

theorem PathSegment.value_ofNumber (v : U32) : (ofNumber v).value = v := by
  refine BitVec.eq_of_toNat_eq ?_
  rw [toNat_value, ofNumber, Nat.ofDigitChars_ten_toDigits]

theorem segmentText_eq (v : U32) : segmentText v = .ofList (PathSegment.ofNumber v).text := by
  rw [segmentText, Nat.repr_eq_ofList_toDigits, PathSegment.text, PathSegment.ofNumber,
    ← List.singleton_append, String.ofList_append, String.ofList_append, String.append_assoc]

theorem DerivationPath.toString_eq (p : DerivationPath) :
    p.toString = pathText (p.segments.map PathSegment.ofNumber) := by
  have hfold : ∀ (segments : List U32) (text : String),
      segments.foldl (fun text segment => text ++ segmentText segment) text =
        text ++ .ofList ((segments.map PathSegment.ofNumber).flatMap PathSegment.text) := by
    intro segments
    induction segments with
    | nil => exact fun text => String.append_empty.symm
    | cons segment segments ih =>
      intro text
      rw [List.foldl_cons, ih, segmentText_eq, List.map_cons, List.flatMap_cons, String.ofList_append,
        String.append_assoc]
  rw [DerivationPath.toString, hfold, pathText, ← List.singleton_append, String.ofList_append]

/-- Every path of the grammar is parsed to its values, no index is out of range
in any byte string, and what is rendered is parsed back. -/
theorem fromStr_complete :
    (∀ segments : List PathSegment, segments.length ≤ maxDerivationDepth →
      ∃ p, fromStr (pathText segments) = .ok p ∧ p.segments = segments.map PathSegment.value) ∧
    (∀ bytes, fromBytes bytes ≠ .error .outOfRange) ∧
    ∀ p : DerivationPath, fromStr p.toString = .ok p := by
  refine ⟨fun segments hlen => ?_, fun bytes => (fromBytes_spec bytes).2, fun p => ?_⟩
  · have hlen' : (segments.map PathSegment.value).length ≤ maxDerivationDepth := by
      rwa [List.length_map]
    exact ⟨.fromSegments _ hlen', fromStr_iff.mpr
      ⟨segments, hlen, segments_fromSegments _ hlen', .inl rfl⟩, segments_fromSegments _ hlen'⟩
  · refine fromStr_iff.mpr ⟨p.segments.map PathSegment.ofNumber, ?_, ?_, .inl p.toString_eq⟩
    · rw [List.length_map, p.length_segments]
      exact p.len_le
    · rw [List.map_map]
      exact ((List.map_congr_left fun v _ => PathSegment.value_ofNumber v).trans (List.map_id _)).symm

/-- A segment `007`. -/
def paddedSegment : PathSegment := ⟨['0', '0', '7'], by decide, by simp, by decide⟩

/-- Leading zeros, and the largest number. -/
theorem fromStr_complete_padded :
    ∃ p, fromStr "m/007'/4294967295'" = .ok p ∧ p.segments = [7, 4294967295] := by
  have htext : pathText [paddedSegment, .ofNumber 4294967295] = "m/007'/4294967295'" := by
    decide +kernel
  obtain ⟨p, hp, hsegments⟩ := fromStr_complete.1 [paddedSegment, .ofNumber 4294967295] (by decide)
  rw [htext] at hp
  exact ⟨p, hp, hsegments.trans (by decide +kernel)⟩

end Railgun
