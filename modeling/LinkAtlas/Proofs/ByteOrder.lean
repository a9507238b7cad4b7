import LinkAtlas.Text.Order
import Mathlib.Data.List.Lex

/-!
# The order of bytes

Texts are compared character by character. The bytes by which characters are encoded compare in the
same way: more bytes begin with a greater one, as many bytes hold the higher digits first, and the
bytes of no character begin with those of another one. So sorted texts are sorted by their bytes.
-/

namespace LinkAtlas

namespace Text

/-- The bytes of a text in UTF-8. -/
def bytes (text : String) : List UInt8 := text.toUTF8.data.toList

theorem bytes_eq (text : String) : bytes text = text.toList.flatMap String.utf8EncodeChar := by
  rw [bytes, String.toUTF8, ← String.ofList_toList (s := text), String.toByteArray_ofList,
    String.toList_ofList, List.utf8Encode, List.toList_data_toByteArray]

/-- Numbers compare by their last digit to the base 64 if they agree in all others. -/
theorem last_digit {first second : Nat} (less : first < second) :
    first / 64 < second / 64 ∨ first / 64 = second / 64 ∧ first % 64 < second % 64 := by omega

/-- Numbers compare by their digits, the highest first. -/
theorem digits_lt {first second : Nat} (less : first < second) :
    first / 262144 < second / 262144 ∨
      first / 262144 = second / 262144 ∧
        (first / 4096 % 64 < second / 4096 % 64 ∨
          first / 4096 % 64 = second / 4096 % 64 ∧
            (first / 64 % 64 < second / 64 % 64 ∨
              first / 64 % 64 = second / 64 % 64 ∧ first % 64 < second % 64)) := by
  rcases last_digit less with higher | ⟨same, lower⟩
  · rcases last_digit higher with highest | ⟨alike, low⟩
    · have top := last_digit highest
      simp only [Nat.div_div_eq_div_mul, Nat.reduceMul] at top
      exact top.imp_right fun third => ⟨third.1, Or.inl third.2⟩
    · simp only [Nat.div_div_eq_div_mul, Nat.reduceMul] at alike low
      exact Or.inr ⟨by omega, Or.inr ⟨by omega, Or.inl low⟩⟩
  · exact Or.inr ⟨by omega, Or.inr ⟨by omega, Or.inr ⟨by omega, lower⟩⟩⟩

/-- The encoding of a character is less than that of a later one. -/
theorem encode_lt {first second : Char} (less : first < second) :
    String.utf8EncodeChar first < String.utf8EncodeChar second := by
  have order : first.val.toNat < second.val.toNat := less
  have bound : second.val.toNat < 0x110000 := by
    have valid := second.valid
    simp only [UInt32.isValidChar, Nat.isValidChar] at valid
    omega
  unfold String.utf8EncodeChar
  dsimp only
  generalize first.val.toNat = one at *
  generalize second.val.toNat = two at *
  by_cases large : 65535 < one
  · rw [if_neg (by omega), if_neg (by omega), if_neg (by omega), if_neg (by omega),
      if_neg (by omega), if_neg (by omega)]
    simp (disch := omega) only [List.cons_lt_cons_iff, UInt8.lt_iff_toNat_lt, ← UInt8.toNat_inj,
      UInt8.toNat_ofNat', Nat.reducePow, Nat.mod_eq_of_lt, Nat.add_lt_add_iff_right, Nat.add_right_cancel_iff,
      List.not_lt_nil, and_false, or_false]
    exact digits_lt order
  · -- fewer bytes begin with a lesser one, and as many have two digits or three
    split_ifs <;>
      simp (disch := omega) only [List.cons_lt_cons_iff, UInt8.lt_iff_toNat_lt,
        ← UInt8.toNat_inj, UInt8.toNat_ofNat', Nat.reducePow, Nat.mod_eq_of_lt, List.not_lt_nil, and_false, or_false] <;>
      omega

/-- No encoding begins with that of another character. -/
theorem eq_of_encoding_begins {first second : Char}
    (start : String.utf8EncodeChar first <+: String.utf8EncodeChar second) : first = second := by
  obtain ⟨rest, whole⟩ := start
  have begins : [first].utf8Encode ++ rest.toByteArray = [second].utf8Encode := by
    rw [List.utf8Encode_singleton, List.utf8Encode_singleton, ← List.toByteArray_append, whole]
  have listed := (List.isPrefix_of_utf8Encode_append_eq_utf8Encode _ begins).subset
    List.mem_cons_self
  exact List.mem_singleton.mp listed

/-- A list that is less than another one without beginning it remains so whatever follows. -/
theorem append_lt_append {first second : List UInt8} (less : first < second)
    (apart : ¬ first <+: second) (rest tail : List UInt8) : first ++ rest < second ++ tail := by
  induction first generalizing second with
  | nil => exact absurd List.nil_prefix apart
  | cons byte others ih =>
      cases second with
      | nil => cases less
      | cons other later =>
          rw [List.cons_append, List.cons_append, List.cons_lt_cons_iff]
          rcases List.cons_lt_cons_iff.mp less with here | ⟨rfl, behind⟩
          · exact Or.inl here
          · exact Or.inr ⟨rfl, ih behind fun start => apart (List.prefix_cons_inj byte |>.mpr start)⟩

theorem flatMap_encode_lt {first second : List Char} (less : first < second) :
    first.flatMap String.utf8EncodeChar < second.flatMap String.utf8EncodeChar := by
  induction first generalizing second with
  | nil =>
      cases second with
      | nil => cases less
      | cons other later =>
          obtain ⟨byte, bytes, encoded⟩ :=
            List.exists_cons_of_ne_nil (String.utf8EncodeChar_ne_nil (c := other))
          rw [List.flatMap_nil, List.flatMap_cons, encoded, List.cons_append]
          exact List.nil_lt_cons byte _
  | cons character rest ih =>
      cases second with
      | nil => cases less
      | cons other later =>
          rw [List.flatMap_cons, List.flatMap_cons]
          rcases List.cons_lt_cons_iff.mp less with here | ⟨rfl, behind⟩
          · refine append_lt_append (encode_lt here) (fun start => ?_) _ _
            exact absurd here (eq_of_encoding_begins start ▸ Char.lt_irrefl _)
          · exact List.append_left_lt (ih behind)

theorem bytes_lt {first second : String} (less : first < second) : bytes first < bytes second := by
  rw [bytes_eq, bytes_eq]
  exact flatMap_encode_lt (String.lt_iff.mp less)

theorem mem_sort {texts : List String} {text : String} : text ∈ sort texts ↔ text ∈ texts :=
  List.mem_mergeSort

/-- Texts that are sorted and all different stand in the order of their bytes. -/
theorem pairwise_bytes_sort {texts : List String} (distinct : texts.Nodup) :
    (sort texts).Pairwise fun first second => bytes first < bytes second := by
  have sorted : (sort texts).Pairwise fun first second => atMost first second = true := by
    apply List.pairwise_mergeSort
    · intro first second third one two
      exact decide_eq_true (String.le_trans (of_decide_eq_true one) (of_decide_eq_true two))
    · intro first second
      simpa only [atMost, Bool.or_eq_true, decide_eq_true_eq] using String.le_total first second
  have different : (sort texts).Nodup := (List.mergeSort_perm texts atMost).nodup_iff.mpr distinct
  refine (sorted.and different).imp ?_
  rintro first second ⟨le, ne⟩
  exact bytes_lt (Std.lt_of_le_of_ne (of_decide_eq_true le) ne)

end Text

end LinkAtlas
