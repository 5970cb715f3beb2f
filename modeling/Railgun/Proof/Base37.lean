import Mathlib.Data.Nat.Digits.Lemmas
import Railgun.Framework.Outcome
import Railgun.Impl.Base37

/-!
# Base 37

The encoder finds the number that a text's characters spell (`encode_eq_ok`),
the decoder the number's digits, without leading zeros (`toString_eq`). So a
number comes back from its text (`encode_toString`), and a text from its number
but for leading spaces, which are zeros (`toString_encode`).
-/

namespace Railgun.RailgunBase37

open Positional BigEndian Outcome Ascii

/-! ## The charset -/

/-- The character of a digit. -/
def charAt (i : Nat) : Char := char (charset.getD i 0)

/-- Every digit and every byte, checked. -/
theorem charset_checked : ∀ b : Byte,
    (b.toNat < 37 → charsetIndex (charAt b.toNat) = some b ∧ IsAscii (charAt b.toNat) ∧
      (charAt b.toNat = ' ' ↔ b.toNat = 0) ∧ charset[b.toNat]? = some (code (charAt b.toNat))) ∧
    (charsetIndex (char b)).all (fun i => i.toNat < 37 ∧ charAt i.toNat = char b) = true := by
  decide +kernel

theorem charsetIndex_charAt (i : Byte) (h : i.toNat < 37) : charsetIndex (charAt i.toNat) = some i :=
  ((charset_checked i).1 h).1

theorem isAscii_charAt (i : Byte) (h : i.toNat < 37) : IsAscii (charAt i.toNat) :=
  ((charset_checked i).1 h).2.1

/-- The only digit whose character is a space is zero. -/
theorem charAt_eq_space (i : Byte) (h : i.toNat < 37) : charAt i.toNat = ' ' ↔ i.toNat = 0 :=
  ((charset_checked i).1 h).2.2.1

theorem charset_getElem (i : Byte) (h : i.toNat < 37) : charset[i.toNat]? = some (code (charAt i.toNat)) :=
  ((charset_checked i).1 h).2.2.2

theorem isAscii_of_charsetIndex {c : Char} {i : Byte} (h : charsetIndex c = some i) : IsAscii c := by
  have hnine : '9'.toNat = 57 := rfl
  have hz : 'z'.toNat = 122 := rfl
  rw [charsetIndex] at h
  rw [IsAscii]
  split at h
  · rename_i hc
    subst hc
    decide
  · split at h
    · omega
    · split at h
      · omega
      · cases h

/-- The characters are those of the digits. -/
theorem charsetIndex_eq_some {c : Char} {i : Byte} :
    charsetIndex c = some i ↔ i.toNat < 37 ∧ c = charAt i.toNat := by
  constructor
  · intro h
    have hc : char (code c) = c := by
      have hascii := isAscii_of_charsetIndex h
      exact Char.toNat_inj.mp (by rw [toNat_char, toNat_code hascii])
    have hall := (charset_checked (code c)).2
    rw [hc, h, Option.all_some, decide_eq_true_eq] at hall
    obtain ⟨hlt, hchar⟩ := hall
    exact ⟨hlt, hchar.symm⟩
  · rintro ⟨hlt, rfl⟩
    exact charsetIndex_charAt i hlt

/-! ## Encoding -/

/-- The digits that some characters are. -/
theorem mapM_charsetIndex {cs : List Char} {is : List Byte} : cs.mapM charsetIndex = some is ↔
    (∀ i ∈ is, i.toNat < 37) ∧ cs = is.map fun i => charAt i.toNat := by
  induction cs generalizing is with
  | nil =>
    rw [List.mapM_nil, Option.pure_def, Option.some.injEq, eq_comm]
    constructor
    · rintro rfl
      exact ⟨nofun, rfl⟩
    · rintro ⟨-, h⟩
      exact List.map_eq_nil_iff.mp h.symm
  | cons c cs ih =>
    rw [List.mapM_cons, Option.bind_eq_bind, Option.bind_eq_some_iff]
    simp only [charsetIndex_eq_some, Option.bind_eq_bind, Option.bind_eq_some_iff, Option.pure_def,
      Option.some.injEq, ih]
    constructor
    · rintro ⟨i, ⟨hi, rfl⟩, is, ⟨his, rfl⟩, rfl⟩
      exact ⟨List.forall_mem_cons.mpr ⟨hi, his⟩, rfl⟩
    · rintro ⟨his, h⟩
      obtain _ | ⟨i, is⟩ := is
      · cases h
      · obtain ⟨hi, his⟩ := List.forall_mem_cons.mp his
        obtain ⟨rfl, rfl⟩ := List.cons.inj h
        exact ⟨i, ⟨hi, rfl⟩, is, ⟨his, rfl⟩, rfl⟩

/-- The encoder's loop: the characters' digits, then their number. -/
theorem foldlM_encodeChar : ∀ (cs : List Char) (v w : U128), cs.foldlM encodeChar v = .ok w ↔
    ∃ is : List Byte, cs.mapM charsetIndex = some is ∧
      (is.map (·.setWidth 128)).foldlM (mulAdd base) v = some w
  | [], v, w => by
    simp [pure, Except.pure]
  | c :: cs, v, w => by
    rw [List.foldlM_cons, bind_eq_ok]
    simp only [foldlM_encodeChar cs, List.mapM_cons, encodeChar]
    cases charsetIndex c with
    | none => simp
    | some i =>
      cases cs.mapM charsetIndex with
      | none => simp
      | some is => cases hv : mulAdd base v (i.setWidth 128) <;> simp [hv]

theorem toNat_base : base.toNat = 37 := rfl

/-- A text is encoded to the number its characters spell. -/
theorem encode_eq_ok {text : String} {e : RailgunBase37} : encode text = .ok e ↔
    ∃ is : List Byte, (∀ i ∈ is, i.toNat < 37) ∧ text.toList = is.map (fun i => charAt i.toNat) ∧
      (fromBeBytes 128 e.1).toNat = value 37 (is.map BitVec.toNat) := by
  have hword : ∀ is : List Byte, (is.map (·.setWidth 128)).map BitVec.toNat = is.map BitVec.toNat :=
    fun is => by
      rw [List.map_map]
      refine List.map_congr_left fun i _ => ?_
      have := i.isLt
      rw [Function.comp_apply, BitVec.toNat_setWidth, Nat.mod_eq_of_lt (by omega)]
  have hbytes : ∀ v : U128, (⟨beBytes 16 v, length_beBytes 16 v⟩ : RailgunBase37) = e ↔
      fromBeBytes 128 e.1 = v := fun v => by
    constructor
    · rintro rfl
      exact fromBeBytes_beBytes (by decide) v
    · rintro rfl
      exact Subtype.ext (beBytes_fromBeBytes (by decide) e.2)
  rw [encode, bind_eq_ok]
  simp only [foldlM_encodeChar, pure_eq_ok, hbytes, mapM_charsetIndex]
  constructor
  · rintro ⟨v, ⟨is, ⟨hlt, htext⟩, hv⟩, hev⟩
    have hv := (foldlM_mulAdd (by decide) _).mp hv
    rw [hword, toNat_base] at hv
    exact ⟨is, hlt, htext, by rw [hev, hv]⟩
  · rintro ⟨is, hlt, htext, hv⟩
    refine ⟨_, ⟨is, ⟨hlt, htext⟩, (foldlM_mulAdd (by decide) _).mpr ?_⟩, rfl⟩
    rw [hv, hword, toNat_base]

/-! ## Decoding -/

/-- The bytes of some digits, most significant first. -/
def digitBytes (ds : List Nat) : Bytes := ds.map fun d => code (charAt d)

/-- Below the base, a digit's byte is in the charset. -/
theorem charset_getElem_of_lt {d : Nat} (h : d < 37) : charset[d]? = some (code (charAt d)) := by
  have := charset_getElem (BitVec.ofNat 8 d) (by rw [BitVec.toNat_ofNat]; omega)
  rwa [BitVec.toNat_ofNat, Nat.mod_eq_of_lt (by omega)] at this

/-- A buffer from a byte that is put there. -/
theorem drop_set_self {l : Bytes} {i : Nat} (h : i < l.length) (b : Byte) :
    (l.set i b).drop i = b :: l.drop (i + 1) := by
  have hlt : i < (l.set i b).length := by rwa [List.length_set]
  rw [List.drop_eq_getElem_cons hlt, List.getElem_set_self, List.drop_set_of_lt (Nat.lt_succ_self i)]

/-- The loop puts the digits before what the buffer's end holds, if there is room. -/
theorem decodeDigits_spec (value : U128) (decoded : Decoded) (hbytes : decoded.bytes.length = 32)
    (hroom : decoded.len + (Nat.digits 37 value.toNat).length ≤ 32) :
    ∃ decoded', decodeDigits value decoded = some decoded' ∧ decoded'.bytes.length = 32 ∧
      decoded'.len = decoded.len + (Nat.digits 37 value.toNat).length ∧
      decoded'.bytes.drop (32 - decoded'.len) =
        digitBytes (Nat.digits 37 value.toNat).reverse ++ decoded.bytes.drop (32 - decoded.len) := by
  rw [decodeDigits]
  by_cases hpos : 0 < value
  · have hpos' : 0 < value.toNat := hpos
    have hdigits : Nat.digits 37 value.toNat = value.toNat % 37 :: Nat.digits 37 (value.toNat / 37) :=
      Nat.digits_def' (by decide) hpos'
    have hdiv : (value / base).toNat = value.toNat / 37 := by rw [BitVec.toNat_udiv, toNat_base]
    have hmod : (value % base).toNat = value.toNat % 37 := by rw [BitVec.toNat_umod, toNat_base]
    rw [hdigits, List.length_cons] at hroom
    have hlt : decoded.len < maxDecodedLen := show decoded.len < 32 by omega
    have hindexlt : 32 - (decoded.len + 1) < decoded.bytes.length := by
      rw [hbytes]
      exact Nat.sub_lt (by decide) (Nat.succ_pos _)
    have hindex : maxDecodedLen - 1 - decoded.len = 32 - (decoded.len + 1) :=
      show 32 - 1 - decoded.len = _ by omega
    rw [dif_pos hpos, hmod, charset_getElem_of_lt (Nat.mod_lt _ (by decide)), Option.bind_eq_bind,
      Option.bind_some, if_pos hlt, hindex]
    obtain ⟨decoded', hrun, hlen', heq, hdrop⟩ := decodeDigits_spec (value / base)
      ⟨decoded.bytes.set (32 - (decoded.len + 1)) (code (charAt (value.toNat % 37))), decoded.len + 1⟩
      (by rw [List.length_set, hbytes]) (by
        rw [hdiv]
        show decoded.len + 1 + _ ≤ 32
        omega)
    refine ⟨decoded', hrun, hlen', ?_, ?_⟩
    · rw [heq, hdiv, hdigits, List.length_cons, Nat.add_assoc, Nat.add_comm 1]
    · rw [hdrop, hdiv, hdigits, List.reverse_cons, digitBytes, digitBytes, List.map_append,
        List.append_assoc]
      refine congrArg _ ((drop_set_self hindexlt _).trans ?_)
      rw [show 32 - (decoded.len + 1) + 1 = 32 - decoded.len by omega]
      rfl
  · have hzero : value.toNat = 0 := Nat.eq_zero_of_not_pos hpos
    rw [dif_neg hpos, hzero, Nat.digits_zero]
    exact ⟨decoded, rfl, hbytes, rfl, rfl⟩
termination_by value.toNat
decreasing_by
  rw [BitVec.toNat_udiv]
  exact Nat.div_lt_self hpos (by decide)

/-- The number of an encoding. -/
def number (e : RailgunBase37) : Nat := (fromBeBytes 128 e.1).toNat

/-- The text of a number. -/
def numberText (n : Nat) : String := .ofList ((Nat.digits 37 n).reverse.map charAt)

/-- What is decoded fits the buffer, and is the text of the number. -/
theorem tryDecode_spec (e : RailgunBase37) : ∃ decoded, e.tryDecode = some decoded ∧
    decoded.len ≤ maxDecodedLen ∧ decoded.asStr = some (numberText (number e)) := by
  have hlen : (Nat.digits 37 (number e)).length ≤ 25 := by
    rw [Nat.digits_length_le_iff (by decide)]
    exact Nat.lt_trans (fromBeBytes 128 e.1).isLt (by decide)
  obtain ⟨decoded, hrun, -, hdecoded, hdrop⟩ := decodeDigits_spec (fromBeBytes 128 e.1)
    ⟨List.replicate maxDecodedLen 0, 0⟩ List.length_replicate (by
      show 0 + (Nat.digits 37 (number e)).length ≤ 32
      omega)
  have hdecoded : decoded.len = (Nat.digits 37 (number e)).length := hdecoded.trans (Nat.zero_add _)
  have hroom : decoded.len ≤ maxDecodedLen := by
    rw [hdecoded]
    exact Nat.le_trans hlen (by decide)
  have hdrop : decoded.bytes.drop (maxDecodedLen - decoded.len) =
      (((Nat.digits 37 (number e)).reverse.map charAt).map code) := by
    refine hdrop.trans ?_
    rw [List.map_map]
    have hnil : List.drop (32 - 0) (List.replicate maxDecodedLen (0 : Byte)) = [] :=
      List.drop_eq_nil_of_le (Nat.le_of_eq List.length_replicate)
    rw [hnil, List.append_nil]
    rfl
  have hascii : ∀ c ∈ (Nat.digits 37 (number e)).reverse.map charAt, IsAscii c := by
    intro c hc
    obtain ⟨d, hd, rfl⟩ := List.mem_map.mp hc
    have hlt : d < 37 := Nat.digits_lt_base (by decide) (List.mem_reverse.mp hd)
    have := isAscii_charAt (BitVec.ofNat 8 d) (by rw [BitVec.toNat_ofNat]; omega)
    rwa [BitVec.toNat_ofNat, Nat.mod_eq_of_lt (by omega)] at this
  refine ⟨decoded, hrun, hroom, ?_⟩
  rw [Decoded.asStr, Decoded.asBytes, if_pos hroom, Option.bind_eq_bind, Option.bind_some, hdrop]
  exact fromUTF8?_codes hascii

theorem toString_eq (e : RailgunBase37) : e.toString = some (numberText (number e)) := by
  obtain ⟨decoded, hrun, -, htext⟩ := tryDecode_spec e
  rw [toString, hrun]
  exact htext

/-! ## Round trips -/

/-- A number comes back from its text. -/
theorem encode_numberText (e : RailgunBase37) : encode (numberText (number e)) = .ok e := by
  have hlt : ∀ d ∈ (Nat.digits 37 (number e)).reverse, d < 37 := fun d hd =>
    Nat.digits_lt_base (by decide) (List.mem_reverse.mp hd)
  have hbyte : ∀ d ∈ (Nat.digits 37 (number e)).reverse, (BitVec.ofNat 8 d).toNat = d := fun d hd => by
    have := hlt d hd
    rw [BitVec.toNat_ofNat, Nat.mod_eq_of_lt (by omega)]
  refine encode_eq_ok.mpr
    ⟨(Nat.digits 37 (number e)).reverse.map (BitVec.ofNat 8), fun i hi => ?_, ?_, ?_⟩
  · obtain ⟨d, hd, rfl⟩ := List.mem_map.mp hi
    rw [hbyte d hd]
    exact hlt d hd
  · rw [numberText, String.toList_ofList, List.map_map]
    exact List.map_congr_left fun d hd => by rw [Function.comp_apply, hbyte d hd]
  · rw [List.map_map]
    refine Eq.trans ?_ (congrArg (value 37) (List.map_congr_left fun d hd => hbyte d hd).symm)
    rw [List.map_id', value_digits]
    rfl

/-- Every value is decoded within the buffer, to text, that is encoded to it. -/
theorem encode_toString (e : RailgunBase37) : ∃ decoded text, e.tryDecode = some decoded ∧
    decoded.len ≤ maxDecodedLen ∧ decoded.asStr = some text ∧ encode text = .ok e := by
  obtain ⟨decoded, hrun, hroom, htext⟩ := tryDecode_spec e
  exact ⟨decoded, _, hrun, hroom, htext, encode_numberText e⟩

theorem dropWhile_congr {α : Type} {p q : α → Bool} : ∀ {l : List α}, (∀ a ∈ l, p a = q a) →
    l.dropWhile p = l.dropWhile q
  | [], _ => rfl
  | a :: l, h => by
    obtain ⟨ha, hl⟩ := List.forall_mem_cons.mp h
    rw [List.dropWhile_cons, List.dropWhile_cons, ha, dropWhile_congr hl]

/-- A text without its leading spaces. -/
def trimmed (text : String) : String := .ofList (text.toList.dropWhile (· = ' '))

/-- The leading spaces of a text are the leading zeros of its number. -/
theorem numberText_encode {text : String} {e : RailgunBase37} (h : encode text = .ok e) :
    numberText (number e) = trimmed text := by
  obtain ⟨is, hlt, htext, hv⟩ := encode_eq_ok.mp h
  have hlt' : ∀ d ∈ is.map BitVec.toNat, d < 37 := by
    intro d hd
    obtain ⟨i, hi, rfl⟩ := List.mem_map.mp hd
    exact hlt i hi
  have hzero : ∀ i ∈ is, decide (i.toNat = 0) = decide (charAt i.toNat = ' ') := fun i hi =>
    decide_eq_decide.mpr (charAt_eq_space i (hlt i hi)).symm
  have hdrop : is.dropWhile ((· = 0) ∘ BitVec.toNat) =
      is.dropWhile ((· = ' ') ∘ fun i : Byte => charAt i.toNat) := dropWhile_congr hzero
  rw [numberText, number, hv, digits_value (by decide) hlt', trimmed, htext, List.dropWhile_map,
    List.dropWhile_map, hdrop, List.map_map]
  rfl

/-- A text that starts with no space is trimmed already. -/
theorem trimmed_eq_self_iff {t : String} : trimmed t = t ↔ t.toList.head? ≠ some ' ' := by
  rw [trimmed, ← String.toList_inj, String.toList_ofList]
  cases t.toList with
  | nil => simp
  | cons c cs =>
    rw [List.dropWhile_cons, List.head?_cons, ne_eq, Option.some.injEq]
    split
    · rename_i hc
      have hlen := (List.dropWhile_sublist (fun c => decide (c = ' ')) (l := cs)).length_le
      refine iff_of_false (fun heq => ?_) (fun hne => hne (of_decide_eq_true hc))
      have := congrArg List.length heq
      rw [List.length_cons] at this
      omega
    · rename_i hc
      exact iff_of_true rfl (fun heq => hc (decide_eq_true heq))

/-- A text that is accepted comes back without its leading spaces, so as it was where it has
none; and it shares its encoding with the texts that differ from it in these. -/
theorem toString_encode {t : String} {e : RailgunBase37} (h : encode t = .ok e) :
    e.toString = some (trimmed t) ∧ (e.toString = some t ↔ t.toList.head? ≠ some ' ') ∧
      ∀ t' e', encode t' = .ok e' → (e = e' ↔ trimmed t = trimmed t') := by
  have htext : e.toString = some (trimmed t) := by rw [toString_eq, numberText_encode h]
  refine ⟨htext, ?_, fun t' e' h' => ⟨fun heq => ?_, fun heq => ?_⟩⟩
  · rw [htext, Option.some.injEq, trimmed_eq_self_iff]
  · rw [← numberText_encode h, ← numberText_encode h', heq]
  · have henc := encode_numberText e
    rw [numberText_encode h, heq, ← numberText_encode h', encode_numberText] at henc
    exact (Except.ok.inj henc).symm

/-- Two spaces before a text, and one. -/
theorem toString_encode_spaces : ∃ e : RailgunBase37, encode "  0x1f" = .ok e ∧
    e.toString = some "0x1f" ∧ encode " 0x1f" = .ok e := by
  have h : encode "  0x1f" = .ok ⟨beBytes 16 97289#128, length_beBytes 16 _⟩ ∧
      encode " 0x1f" = .ok ⟨beBytes 16 97289#128, length_beBytes 16 _⟩ ∧ trimmed "  0x1f" = "0x1f" := by
    decide +kernel
  obtain ⟨henc, henc', htrim⟩ := h
  obtain ⟨htext, -, -⟩ := toString_encode henc
  rw [htrim] at htext
  exact ⟨_, henc, htext, henc'⟩

/-- A space is not a text that comes back: it is the number of the empty one. -/
theorem space_lost : ¬ ∀ (t : String) (e : RailgunBase37), encode t = .ok e → e.toString = some t := by
  intro h
  have hspace : encode " " = .ok ⟨beBytes 16 0#128, length_beBytes 16 _⟩ ∧ trimmed " " ≠ " " := by
    decide +kernel
  obtain ⟨henc, htrim⟩ := hspace
  have hback := h _ _ henc
  rw [toString_eq, numberText_encode henc] at hback
  exact htrim (Option.some.inj hback)

end Railgun.RailgunBase37
