import Mathlib.Data.List.Basic
import Mathlib.Tactic.Common
import Railgun.Framework.BigEndian

/-!
# ASCII text

A text of ASCII characters and its UTF-8 bytes are the same thing: each
character is one byte (`utf8_ofList`), those bytes are valid UTF-8 again
(`fromUTF8?_codes`), and no other text has them (`utf8_inj`).
-/

namespace Ascii

/-- The bytes of a text. -/
def utf8 (text : String) : Bytes := text.toUTF8.data.toList.map UInt8.toBitVec

/-- A byte string as `std::str` has it. -/
def ofBytes (bs : Bytes) : ByteArray := (bs.map UInt8.ofBitVec).toByteArray

def code (c : Char) : Byte := BitVec.ofNat 8 c.toNat

/-- The character of a byte. -/
def char (b : Byte) : Char := .ofNat b.toNat

def IsAscii (c : Char) : Prop := c.toNat < 128

instance (c : Char) : Decidable (IsAscii c) := inferInstanceAs (Decidable (_ < _))

theorem toNat_code {c : Char} (h : IsAscii c) : (code c).toNat = c.toNat := by
  rw [IsAscii] at h
  rw [code, BitVec.toNat_ofNat, Nat.mod_eq_of_lt (by omega)]

theorem toNat_char (b : Byte) : (char b).toNat = b.toNat := by
  have hvalid : b.toNat.isValidChar := .inl (Nat.lt_trans b.isLt (by decide))
  rw [char, Char.ofNat, dif_pos hvalid]
  rfl

@[simp] theorem code_char (b : Byte) : code (char b) = b := by
  rw [code, toNat_char, BitVec.ofNat_toNat, BitVec.setWidth_eq]

theorem code_eq (c : Char) : c.val.toUInt8.toBitVec = code c := by
  refine BitVec.eq_of_toNat_eq ?_
  rw [code, BitVec.toNat_ofNat]
  rfl

theorem utf8EncodeChar_eq {c : Char} (h : IsAscii c) : String.utf8EncodeChar c = [c.val.toUInt8] :=
  String.utf8EncodeChar_eq_singleton (Char.utf8Size_eq_one_iff.mpr (Nat.le_of_lt_succ h))

theorem utf8Encode_eq : ∀ {cs : List Char}, (∀ c ∈ cs, IsAscii c) →
    cs.flatMap String.utf8EncodeChar = cs.map fun c => c.val.toUInt8
  | [], _ => rfl
  | c :: cs, h => by
    obtain ⟨hc, hcs⟩ := List.forall_mem_cons.mp h
    rw [List.flatMap_cons, List.map_cons, utf8EncodeChar_eq hc, utf8Encode_eq hcs, List.singleton_append]

/-- The bytes of an ASCII text are its characters. -/
theorem utf8_ofList {cs : List Char} (h : ∀ c ∈ cs, IsAscii c) : utf8 (.ofList cs) = cs.map code := by
  rw [utf8, String.toUTF8, String.toByteArray_ofList, List.utf8Encode, utf8Encode_eq h,
    List.data_toByteArray, List.toList_toArray, List.map_map]
  exact List.map_congr_left fun c _ => code_eq c

theorem utf8_inj {s t : String} (h : utf8 s = utf8 t) : s = t := by
  have hinj : Function.Injective UInt8.toBitVec := fun a b hab => UInt8.toBitVec_inj.mp hab
  have h := hinj.list_map h
  exact String.toByteArray_inj.mp (ByteArray.ext (Array.toList_inj.mp h))

/-- A text whose bytes are ASCII characters is their text. -/
theorem eq_ofList {s : String} {cs : List Char} (hcs : ∀ c ∈ cs, IsAscii c) :
    utf8 s = cs.map code ↔ s = .ofList cs := by
  rw [← utf8_ofList hcs]
  exact ⟨utf8_inj, congrArg utf8⟩

/-- The bytes of ASCII characters are their text. -/
theorem fromUTF8?_codes {cs : List Char} (h : ∀ c ∈ cs, IsAscii c) :
    String.fromUTF8? (ofBytes (cs.map code)) = some (.ofList cs) := by
  have hbytes : ofBytes (cs.map code) = (String.ofList cs).toByteArray := by
    rw [String.toByteArray_ofList, List.utf8Encode, utf8Encode_eq h, ofBytes, List.map_map]
    refine congrArg List.toByteArray (List.map_congr_left fun c _ => ?_)
    rw [Function.comp_apply, ← code_eq]
  rw [hbytes, String.fromUTF8?, dif_pos (String.ofList cs).isValidUTF8]
  rfl

end Ascii
