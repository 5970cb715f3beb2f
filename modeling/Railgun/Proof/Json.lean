import Railgun.Impl.Json

/-!
# Snapshots survive their JSON
-/

namespace Railgun

open Numeral Outcome

@[simp] theorem skip_append (text rest : Bytes) : skip text (text ++ rest) = .ok rest := by
  rw [skip, List.take_left, if_pos rfl, List.drop_left]

/-- A text that starts with another character is not skipped. -/
theorem skip_of_head {c c' : Byte} (h : c' ≠ c) (text rest : Bytes) :
    ∃ e, skip (c :: text) (c' :: rest) = .error e := by
  refine ⟨_, if_neg fun he => h ?_⟩
  rw [List.length_cons, List.take_succ_cons] at he
  exact (List.cons.inj he).1

theorem takeWord_wordJson (x : U256) (rest : Bytes) : takeWord (wordJson x ++ rest) = .ok (x, rest) := by
  have hstop : Stops (textBytes "\"" ++ rest) := fun c cs h => by
    have h : (0x22 : Byte) :: rest = c :: cs := h
    rw [← (List.cons.inj h).1]
    decide
  have hnum := takeNumeral_numeral (show 1 < 16 by decide) (by decide) x.toNat hstop
  rw [takeWord, wordJson, List.append_assoc, skip_append, ok_bind, List.append_assoc, hnum, skip_append,
    ok_bind, BitVec.ofNat_toNat, BitVec.setWidth_eq]
  rfl

theorem takeWords_wordsJson : ∀ {xs : List U256} {fuel : Nat} {rest : Bytes}, xs.length < fuel →
    takeWords fuel (wordsJson xs ++ rest) = .ok (xs, rest)
  | [], fuel + 1, rest, _ => by
    obtain ⟨e, he⟩ := skip_of_head (show (0x5d : Byte) ≠ 0x2c by decide) [] rest
    have he : skip (textBytes ",") (textBytes "]" ++ rest) = .error e := he
    rw [wordsJson, takeWords, he]
    simp only [skip_append, ok_bind]
    rfl
  | x :: xs, fuel + 1, rest, h => by
    rw [wordsJson, takeWords, List.append_assoc, skip_append]
    simp only [List.append_assoc, takeWord_wordJson, ok_bind,
      takeWords_wordsJson (show xs.length < fuel from Nat.lt_of_succ_lt_succ h)]
    rfl

theorem length_wordsJson : ∀ xs : List U256, xs.length < (wordsJson xs).length
  | [] => by decide
  | x :: xs => by
    have := length_wordsJson xs
    rw [wordsJson, List.length_append, List.length_append, List.length_cons,
      show (textBytes ",").length = 1 from rfl]
    omega

theorem takeList_listJson (xs : List U256) (rest : Bytes) :
    takeList (listJson xs ++ rest) = .ok (xs, rest) := by
  cases xs with
  | nil => rw [listJson, takeList, skip_append]
  | cons x xs =>
    have hw := length_wordsJson xs
    -- After the bracket comes a quote, not the other bracket.
    have hskip : ∃ e, skip (textBytes "[]") (textBytes "[" ++ (wordJson x ++ wordsJson xs) ++ rest) =
        .error e := ⟨_, if_neg fun he => by
      have he : ((0x5b : Byte) :: 0x22 :: ([] : Bytes)) = [0x5b, 0x5d] := he
      exact absurd he (by decide)⟩
    obtain ⟨e, he⟩ := hskip
    rw [listJson, takeList, he]
    simp only [List.append_assoc, skip_append, ok_bind, takeWord_wordJson]
    rw [takeWords_wordsJson (by rw [List.length_append]; omega), ok_bind]
    rfl

theorem stateOfJson_stateJson (state : MerkleAccumulatorState) :
    stateOfJson (stateJson state) = .ok state := by
  have hstop : ∀ rest, Stops (textBytes ",\"root\":" ++ rest) := fun rest c cs h => by
    have h : (0x2c : Byte) :: (textBytes "\"root\":" ++ rest) = c :: cs := h
    rw [← (List.cons.inj h).1]
    decide
  have hnum := takeNumeral_numeral (show 1 < 10 by decide) (by decide)
    state.nextIndex.toNat (hstop (wordJson state.root ++ textBytes "\x7d"))
  have hend : skip (textBytes "\x7d") (textBytes "\x7d") = .ok [] := by
    simpa using skip_append (textBytes "\x7d") []
  rw [stateOfJson, stateJson]
  simp only [skip_append, ok_bind, takeList_listJson, hnum, takeWord_wordJson, hend]
  rw [BitVec.ofNat_toNat, BitVec.setWidth_eq]
  rfl

theorem snapshotSerde_roundTrips : snapshotSerde.RoundTrips := fun state =>
  ⟨_, rfl, stateOfJson_stateJson state⟩

end Railgun
