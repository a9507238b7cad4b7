import LinkAtlas.Proofs.Decimals
import LinkAtlas.Proofs.JsonTokens

/-!
# The text of numbers

A finite double is written as a numeral that stands for its shortest decimal, in either notation. So
the text tells the double: no two finite doubles are written alike.
-/

namespace LinkAtlas

namespace Numeral

/-- The number that a numeral stands for, its sign left aside. -/
def number (numeral : Numeral) : ℚ :=
  value (numeral.whole ++ numeral.fraction) *
    10 ^ (numeral.exponent - numeral.fraction.length)

/-! ## Digits -/

theorem value_toDigits (total : Nat) : value (Nat.toDigits 10 total) = total :=
  Nat.ofDigitChars_toDigits (by decide) (by decide)

/-- Zeros in front do not count. -/
theorem value_zeros_append (count : Nat) (digits : List Char) :
    value (List.replicate count '0' ++ digits) = value digits := by
  refine (Nat.ofDigitChars_append 0).trans ?_
  rw [Nat.ofDigitChars_replicate_zero, Nat.mul_zero]
  rfl

theorem value_append_zeros (digits : List Char) (count : Nat) :
    value (digits ++ List.replicate count '0') = 10 ^ count * value digits :=
  (Nat.ofDigitChars_append 0).trans Nat.ofDigitChars_replicate_zero

theorem isDigit_of_mem_toDigits {total : Nat} :
    ∀ digit ∈ Nat.toDigits 10 total, digit.isDigit = true := fun _ =>
  Nat.isDigit_of_mem_toDigits (by decide) (by decide)

theorem digitChar_ne_zero : ∀ digit < 10, digit ≠ 0 → Nat.digitChar digit ≠ '0' := by decide

/-- A number other than zero does not begin with a zero. -/
theorem head?_toDigits {total : Nat} (nonzero : total ≠ 0) :
    (Nat.toDigits 10 total).head? ≠ some '0' := by
  induction total using Nat.strongRecOn with
  | _ total ih =>
      rcases Nat.lt_or_ge total 10 with small | large
      · rw [Nat.toDigits_of_lt_base small, List.head?_cons]
        exact fun same => digitChar_ne_zero total small nonzero (Option.some.inj same)
      · rw [Nat.toDigits_of_base_le (by decide) large,
          List.head?_append_of_ne_nil _ Nat.toDigits_ne_nil]
        exact ih (total / 10) (by omega) (by omega)

/-- Digits as they are written of a number other than zero. -/
structure Significant (digits : List Char) : Prop where
  isDigit : ∀ digit ∈ digits, digit.isDigit = true
  ne_nil : digits ≠ []
  head?_ne : digits.head? ≠ some '0'

theorem significant_toDigits {total : Nat} (nonzero : total ≠ 0) :
    Significant (Nat.toDigits 10 total) where
  isDigit := isDigit_of_mem_toDigits
  ne_nil := Nat.toDigits_ne_nil
  head?_ne := head?_toDigits nonzero

theorem isDigit_of_mem_zeros {count : Nat} :
    ∀ digit ∈ List.replicate count '0', digit.isDigit = true := by
  intro digit listed
  rw [List.eq_of_mem_replicate listed]
  rfl

namespace Significant

variable {digits : List Char} (significant : Significant digits)

include significant

theorem isWhole : isWhole digits = true := by
  cases digits with
  | nil => exact absurd rfl significant.ne_nil
  | cons first rest =>
      have other : first ≠ '0' := fun same => significant.head?_ne (congrArg some same)
      simp [Numeral.isWhole, other]

theorem append_zeros (count : Nat) : Significant (digits ++ List.replicate count '0') where
  isDigit := List.forall_mem_append.mpr ⟨significant.isDigit, isDigit_of_mem_zeros⟩
  ne_nil := List.append_ne_nil_of_left_ne_nil significant.ne_nil _
  head?_ne := by
    rw [List.head?_append_of_ne_nil _ significant.ne_nil]
    exact significant.head?_ne

theorem take {place : Nat} (positive : place ≠ 0) : Significant (digits.take place) where
  isDigit := fun digit listed => significant.isDigit digit (List.mem_of_mem_take listed)
  ne_nil := by
    rw [Ne, List.take_eq_nil_iff]
    exact not_or.mpr ⟨positive, significant.ne_nil⟩
  head?_ne := by
    rw [List.head?_take, if_neg positive]
    exact significant.head?_ne

theorem isDigit_drop (place : Nat) : ∀ digit ∈ digits.drop place, digit.isDigit = true :=
  fun digit listed => significant.isDigit digit (List.mem_of_mem_drop listed)

end Significant

/-! ## Reading -/

theorem splitDigits_eq {digits rest : List Char} (all : ∀ digit ∈ digits, digit.isDigit = true)
    (ended : ∀ next ∈ rest.head?, next.isDigit = false) :
    splitDigits (digits ++ rest) = (digits, rest) := by
  unfold splitDigits
  rw [List.takeWhile_append_of_pos all, List.dropWhile_append_of_pos all]
  cases rest with
  | nil => simp
  | cons next later =>
      have stop := ended next rfl
      simp [stop]

/-- An exponent with its sign. -/
theorem readExponent_power (power : Int) :
    readExponent ('e' :: (if power < 0 then '-' else '+') :: Nat.toDigits 10 power.natAbs) =
      some power := by
  have digits : exponentDigits (Nat.toDigits 10 power.natAbs) = some power.natAbs := by
    have all : ∀ digit ∈ Nat.toDigits 10 power.natAbs, digit.isDigit = true :=
      isDigit_of_mem_toDigits
    have ended : ∀ next ∈ ([] : List Char).head?, next.isDigit = false := fun _ none => nomatch none
    have split := splitDigits_eq all ended
    rw [List.append_nil] at split
    simp [exponentDigits, split, value_toDigits]
  by_cases negative : power < 0
  · simp [readExponent, negative, digits, abs_of_neg negative]
  · simp [readExponent, negative, digits, abs_of_nonneg (not_lt.mp negative)]

/-- A numeral is read as its parts. -/
theorem readUnsigned_eq {negative : Bool} {whole fraction ending : List Char} {exponent : Int}
    (proper : isWhole whole = true) (digits : ∀ digit ∈ whole, digit.isDigit = true)
    (behind : ∀ digit ∈ fraction, digit.isDigit = true)
    (ends : readExponent ending = some exponent)
    (apart : ∀ next ∈ ending.head?, next.isDigit = false ∧ next ≠ '.') :
    readUnsigned negative
        (whole ++ (if fraction.isEmpty then [] else '.' :: fraction) ++ ending) =
      some ⟨negative, whole, fraction, exponent⟩ := by
  have fractional : splitFraction ((if fraction.isEmpty then [] else '.' :: fraction) ++ ending) =
      some (fraction, ending) := by
    cases fraction with
    | nil =>
        cases ending with
        | nil => rfl
        | cons next rest =>
            have other := (apart next rfl).2
            simp [splitFraction, other]
    | cons first rest =>
        have split := splitDigits_eq behind fun next listed => (apart next listed).1
        simp only [List.isEmpty_cons, Bool.false_eq_true, if_false, List.cons_append]
        rw [splitFraction]
        rw [List.cons_append] at split
        rw [split]
        rfl
  have front : splitDigits (whole ++ ((if fraction.isEmpty then [] else '.' :: fraction) ++ ending))
      = (whole, (if fraction.isEmpty then [] else '.' :: fraction) ++ ending) := by
    refine splitDigits_eq digits fun next listed => ?_
    cases fraction with
    | nil => exact (apart next listed).1
    | cons first rest =>
        cases listed
        rfl
  rw [List.append_assoc, readUnsigned, front]
  dsimp only
  rw [proper, fractional]
  simp [ends]

/-! ## Writing -/

/-- The text is that of a numeral with this number, in front of which any sign may stand. -/
def Spells (text : List Char) (total : ℚ) : Prop :=
  ∀ negative, ∃ numeral, readUnsigned negative text = some numeral ∧
    numeral.negative = negative ∧ numeral.number = total

theorem spells_of_parts {whole fraction ending : List Char} {exponent : Int}
    (proper : isWhole whole = true) (digits : ∀ digit ∈ whole, digit.isDigit = true)
    (behind : ∀ digit ∈ fraction, digit.isDigit = true)
    (ends : readExponent ending = some exponent)
    (apart : ∀ next ∈ ending.head?, next.isDigit = false ∧ next ≠ '.') :
    Spells (whole ++ (if fraction.isEmpty then [] else '.' :: fraction) ++ ending)
      (value (whole ++ fraction) * 10 ^ (exponent - fraction.length)) := fun _ =>
  ⟨_, readUnsigned_eq proper digits behind ends apart, rfl, rfl⟩

/-- A numeral with a point and no exponent. -/
theorem spells_of_point {whole fraction : List Char} (some : fraction ≠ [])
    (proper : isWhole whole = true) (digits : ∀ digit ∈ whole, digit.isDigit = true)
    (behind : ∀ digit ∈ fraction, digit.isDigit = true) :
    Spells (whole ++ '.' :: fraction)
      (value (whole ++ fraction) * 10 ^ (-(fraction.length : Int))) := by
  have ends : readExponent [] = Option.some 0 := rfl
  have spelled := spells_of_parts proper digits behind ends fun _ none => nomatch none
  rw [List.append_nil, if_neg (mt List.isEmpty_iff.mp some), zero_sub] at spelled
  exact spelled

theorem read?_of_spells {text : List Char} {total : ℚ} (spelled : Spells text total)
    (negative : Bool) : ∃ numeral, read? (if negative then '-' :: text else text) = some numeral ∧
      numeral.negative = negative ∧ numeral.number = total := by
  obtain ⟨numeral, read, sign, counted⟩ := spelled negative
  refine ⟨numeral, ?_, sign, counted⟩
  cases negative with
  | true => exact read
  | false =>
      -- the text begins with a digit, so it is not taken for one with a sign
      obtain ⟨⟨first, rest, rfl, digit⟩, -⟩ := characters_of_readUnsigned read
      rw [if_neg Bool.false_ne_true, read?]
      · exact read
      · intro later same
        cases same
        cases digit

/-! ## Layouts -/

theorem isWhole_zero : isWhole ['0'] = true := rfl

theorem isDigit_of_mem_zero : ∀ digit ∈ ['0'], digit.isDigit = true :=
  List.forall_mem_singleton.mpr rfl

variable {digits : List Char}

/-- The point stands in front of the digits. -/
theorem spells_small (significant : Significant digits) (count : Nat) :
    Spells ('0' :: '.' :: (List.replicate count '0' ++ digits))
      (value digits * 10 ^ (-(count + digits.length : Int))) := by
  have spelled := spells_of_point
    (List.append_ne_nil_of_right_ne_nil (List.replicate count '0') significant.ne_nil)
    isWhole_zero isDigit_of_mem_zero
    (List.forall_mem_append.mpr ⟨isDigit_of_mem_zeros, significant.isDigit⟩)
  have worth : value (['0'] ++ (List.replicate count '0' ++ digits)) = value digits :=
    value_zeros_append (count + 1) digits
  rw [worth, List.length_append, List.length_replicate, Nat.cast_add] at spelled
  exact spelled

/-- The point stands behind the digits. -/
theorem spells_large (significant : Significant digits) (count : Nat) :
    Spells (digits ++ List.replicate count '0' ++ ['.', '0'])
      (value digits * 10 ^ (count : Int)) := by
  have whole := significant.append_zeros count
  have spelled := spells_of_point (List.cons_ne_nil '0' []) whole.isWhole whole.isDigit
    isDigit_of_mem_zero
  have worth : value (digits ++ List.replicate count '0' ++ ['0']) =
      10 ^ (count + 1) * value digits := by
    rw [List.append_assoc, ← value_append_zeros, List.replicate_succ']
  have total : ((10 ^ (count + 1) * value digits : Nat) : ℚ) *
      10 ^ (-((['0'] : List Char).length : Int)) = value digits * 10 ^ (count : Int) := by
    rw [List.length_singleton, Nat.cast_one, zpow_neg_one, zpow_natCast]
    push_cast
    ring
  rw [worth, total] at spelled
  exact spelled

/-- The point stands among the digits. -/
theorem spells_split (significant : Significant digits) {place : Nat} (positive : place ≠ 0)
    (inside : place < digits.length) :
    Spells (digits.take place ++ '.' :: digits.drop place)
      (value digits * 10 ^ (place - digits.length : Int)) := by
  have whole := significant.take positive
  have more : digits.drop place ≠ [] := mt List.drop_eq_nil_iff.mp (not_le.mpr inside)
  have spelled := spells_of_point more whole.isWhole whole.isDigit (significant.isDigit_drop place)
  have exponent : -((digits.drop place).length : Int) = place - digits.length := by
    rw [List.length_drop]
    omega
  rw [List.take_append_drop, exponent] at spelled
  exact spelled

/-- All digits are written out. -/
theorem spells_positional (significant : Significant digits) (exponent : Int) :
    Spells (Json.numberStyle.positional digits (digits.length + exponent))
      (value digits * 10 ^ exponent) := by
  unfold NumberStyle.positional
  dsimp only
  split
  · obtain ⟨count, counted⟩ : ∃ count : Nat, exponent = -(count + digits.length : Int) :=
      ⟨(-(digits.length + exponent)).toNat, by omega⟩
    have zeros : (-(digits.length + exponent)).toNat = count := by omega
    rw [zeros, counted]
    exact spells_small significant count
  · obtain ⟨place, placed⟩ : ∃ place : Nat, (digits.length + exponent : Int) = place :=
      ⟨(digits.length + exponent).toNat, by omega⟩
    rw [placed, Int.toNat_natCast]
    split
    · rename_i none
      have short := List.drop_eq_nil_iff.mp (List.isEmpty_iff.mp none)
      have counted : exponent = (place - digits.length : Nat) := by omega
      rw [List.take_of_length_le short, counted]
      exact spells_large significant _
    · rename_i more
      have inside : place < digits.length :=
        not_le.mp fun short => more (List.isEmpty_iff.mpr (List.drop_eq_nil_iff.mpr short))
      have counted : exponent = (place - digits.length : Int) := by omega
      rw [counted]
      exact spells_split significant (by omega) inside

/-- One digit stands in front of the point. -/
theorem spells_scientific (significant : Significant digits) (exponent : Int) :
    Spells (NumberStyle.scientific digits (digits.length + exponent))
      (value digits * 10 ^ exponent) := by
  have whole := significant.take one_ne_zero
  have spelled := spells_of_parts whole.isWhole whole.isDigit (significant.isDigit_drop 1)
    (readExponent_power (digits.length + exponent - 1)) fun next begins => by
      cases begins
      decide
  have counted := List.length_pos_iff.mpr significant.ne_nil
  have power : (digits.length + exponent - 1 - (digits.drop 1).length : Int) = exponent := by
    rw [List.length_drop]
    omega
  rw [List.take_append_drop, power] at spelled
  exact spelled

end Numeral

namespace NumberStyle

open Numeral

variable {x y : Double}

/-- The size of a finite double as its text tells it. -/
def size (x : Double) : ℚ := if x.place = 0 then 0 else (Decimal.shortest .even x).number

theorem spells_magnitude (x : Double) : Spells (Json.numberStyle.magnitude x) (size x) := by
  unfold magnitude size
  by_cases zero : x.place = 0
  · rw [if_pos (Double.isZero_iff.mpr zero), if_pos zero]
    have spelled := spells_of_point (List.cons_ne_nil '0' []) isWhole_zero isDigit_of_mem_zero
      isDigit_of_mem_zero
    have worth : value (['0'] ++ ['0']) = 0 := rfl
    rw [worth, Nat.cast_zero, zero_mul] at spelled
    exact spelled
  · have significant : Significant (Decimal.shortest .even x).digits :=
      significant_toDigits (Decimal.coefficient_shortest_ne_zero .even zero)
    have worth : value (Decimal.shortest .even x).digits = (Decimal.shortest .even x).coefficient :=
      value_toDigits _
    rw [if_neg (mt Double.isZero_iff.mp zero), if_neg zero, Decimal.number, ← worth]
    dsimp only
    split
    · exact spells_positional significant _
    · exact spells_scientific significant _

/-- What the text of a finite double is read as. -/
theorem read?_write (finite : x.isFinite = true) :
    ∃ numeral, Numeral.read? (Json.numberStyle.write x) = some numeral ∧
      numeral.negative = x.negative ∧ numeral.number = size x := by
  have field : (x.exponentField == 2047) = false := by
    rwa [Double.isFinite, bne, Bool.not_eq_true'] at finite
  have spelled := read?_of_spells (spells_magnitude x) x.negative
  rw [write, Double.isNaN, Double.isInfinite, field]
  exact spelled

theorem size_pos_iff : 0 < size x ↔ x.place ≠ 0 := by
  unfold size
  split
  · rename_i zero
    exact iff_of_false (lt_irrefl 0) (not_not.mpr zero)
  · rename_i nonzero
    exact iff_of_true (Decimal.number_shortest_pos .even nonzero) nonzero

theorem place_eq_of_size_eq (same : size x = size y) : x.place = y.place := by
  have zeros : x.place ≠ 0 ↔ y.place ≠ 0 := by rw [← size_pos_iff, same, size_pos_iff]
  by_cases zero : x.place = 0
  · rw [zero, not_not.mp (mt zeros.mpr (not_not.mpr zero))]
  · have nonzero := zeros.mp zero
    rw [size, size, if_neg zero, if_neg nonzero] at same
    exact Decimal.place_eq_of_number_eq zero nonzero same

/-- Finite doubles are told apart by their texts, zero from its negative too. -/
theorem eq_of_write_eq (first : x.isFinite = true) (second : y.isFinite = true)
    (same : Json.numberStyle.write x = Json.numberStyle.write y) : x = y := by
  obtain ⟨numeral, read, sign, counted⟩ := read?_write first
  obtain ⟨other, alike, against, weighed⟩ := read?_write second
  rw [same, alike] at read
  cases read
  exact Double.eq_of_place_eq (sign.symm.trans against)
    (place_eq_of_size_eq (counted.symm.trans weighed))

end NumberStyle

end LinkAtlas
