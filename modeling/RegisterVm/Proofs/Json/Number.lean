import Mathlib.Data.List.TakeDrop
import RegisterVm.Json.Reader
import RegisterVm.Proofs.Number.Digits

/-!
# Reading the numbers that were written

A number text in which the digits are digits (`NumberText.Written`) is read as the number that it
is, wherever a number cannot go on after it (`unsigned_append`), unless it starts with a zero that
is followed by another digit. The texts of integers and floats are such (`NumberText.written_ofInt`,
`NumberText.written_ofScaled`), and that of an integer of 64 bits has the integer as its value
(`NumberText.value?_ofInt`).
-/

namespace RegisterVm.Json

open Reading (Digits ofDigits_toDigits)

/-! ## Digits -/

/-- A text at which digits stop. -/
def DigitsEnd (rest : List Char) : Prop := ∀ c, rest.head? = some c → c.isDigit = false

/-- Digits in front of a text are taken up to its first character that is none. -/
theorem digits_append {front rest : List Char} (nonempty : front ≠ [])
    (all : ∀ c ∈ front, c.isDigit = true) (ends : DigitsEnd rest) :
    digits (front ++ rest) = .ok (front, rest) := by
  have none : rest.takeWhile Char.isDigit = [] ∧ rest.dropWhile Char.isDigit = rest := by
    cases rest with
    | nil => exact ⟨rfl, rfl⟩
    | cons c rest =>
      have stop := ends c rfl
      simp [stop]
  have split : (front ++ rest).span Char.isDigit = (front, rest) := by
    rw [List.span_eq_takeWhile_dropWhile, List.takeWhile_append_of_pos all,
      List.dropWhile_append_of_pos all, none.1, none.2, List.append_nil]
  simp only [digits, split, List.isEmpty_eq_false_iff.mpr nonempty]
  rfl

/-! ## Parts of a number -/

/-- A point and the digits after it. -/
def fractionText : Option (List Char) → List Char
  | some ds => '.' :: ds
  | none => []

/-- An exponent with its sign. -/
def exponentText : Option Int → List Char
  | some e => 'e' :: (if e < 0 then '-' else '+') :: Nat.toDigits 10 e.natAbs
  | none => []

/-- A text at which a number stops. -/
structure NumberEnd (rest : List Char) : Prop where
  digit : DigitsEnd rest
  point : rest.head? ≠ some '.'
  exponent : rest.head? ≠ some 'e' ∧ rest.head? ≠ some 'E'

variable {rest : List Char}

theorem exponent_append (e : Option Int) (ends : NumberEnd rest) :
    exponent (exponentText e ++ rest) = .ok (e, rest) := by
  cases e with
  | none =>
    cases rest with
    | nil => rfl
    | cons c rest =>
      have small : c ≠ 'e' := fun same => ends.exponent.1 (congrArg some same)
      have large : c ≠ 'E' := fun same => ends.exponent.2 (congrArg some same)
      simp [exponentText, exponent, small, large]
  | some e =>
    have front : digits (Nat.toDigits 10 e.natAbs ++ rest) = .ok (Nat.toDigits 10 e.natAbs, rest) :=
      digits_append Nat.toDigits_ne_nil (Digits.toDigits e.natAbs).digit ends.digit
    have body : exponentText (some e) ++ rest =
        'e' :: (if e < 0 then '-' else '+') :: (Nat.toDigits 10 e.natAbs ++ rest) := rfl
    rw [body]
    by_cases negative : e < 0
    · have magnitude : -(e.natAbs : Int) = e := by omega
      simp only [exponent, if_pos negative, Reading.takeSign, front, ofDigits_toDigits, Except.map,
        magnitude]
      rfl
    · have magnitude : (e.natAbs : Int) = e := by omega
      simp only [exponent, if_neg negative, Reading.takeSign, front, ofDigits_toDigits, Except.map,
        magnitude]
      rfl

theorem digitsEnd_exponentText (e : Option Int) (ends : NumberEnd rest) :
    DigitsEnd (exponentText e ++ rest) := by
  cases e with
  | none => exact ends.digit
  | some e =>
    intro c hc
    cases hc
    rfl

theorem fraction_append {f : Option (List Char)}
    (written : ∀ ds, f = some ds → ds ≠ [] ∧ ∀ c ∈ ds, c.isDigit = true)
    (digit : DigitsEnd rest) (point : rest.head? ≠ some '.') :
    fraction (fractionText f ++ rest) = .ok (f, rest) := by
  cases f with
  | none =>
    cases rest with
    | nil => rfl
    | cons c rest =>
      have other : c ≠ '.' := fun same => point (congrArg some same)
      simp only [fractionText, List.nil_append, fraction]
      split
      · rename_i same
        exact absurd (List.cons.inj same).1 other
      · rfl
  | some ds =>
    obtain ⟨nonempty, all⟩ := written ds rfl
    simp only [fractionText, List.cons_append, fraction, digits_append nonempty all digit]
    rfl

namespace NumberText

variable {n : NumberText}

/-- The parts of a number that should be digits are. -/
structure Written (n : NumberText) : Prop where
  whole : n.whole ≠ []
  digits : ∀ c ∈ n.whole, c.isDigit = true
  fraction : ∀ ds, n.fraction = some ds → ds ≠ [] ∧ ∀ c ∈ ds, c.isDigit = true

/-- A zero in front of other digits, which no number may have. -/
def padded (n : NumberText) : Bool := n.whole.head? = some '0' && 1 < n.whole.length

/-- The text of a number without its sign. -/
def unsignedText (n : NumberText) : List Char :=
  n.whole ++ (fractionText n.fraction ++ exponentText n.exponent)

theorem text_eq (n : NumberText) :
    n.text = (if n.negative then ['-'] else []) ++ n.unsignedText := by
  obtain ⟨negative, whole, fraction, exponent⟩ := n
  simp only [text, unsignedText, List.append_assoc]
  cases fraction <;> cases exponent <;> rfl

theorem unsignedText_cons (written : n.Written) :
    ∃ c cs, n.unsignedText = c :: cs ∧ c.isDigit = true := by
  cases whole : n.whole with
  | nil => exact absurd whole written.whole
  | cons c cs =>
    refine ⟨c, cs ++ (fractionText n.fraction ++ exponentText n.exponent), ?_,
      written.digits c (by rw [whole]; exact List.mem_cons_self)⟩
    rw [unsignedText, whole, List.cons_append]

/-- **A number is read as it was written.** -/
theorem unsigned_append (written : n.Written) (ends : NumberEnd rest) :
    unsigned n.negative (n.unsignedText ++ rest) =
      if n.padded then .error .malformed else .ok (n, rest) := by
  obtain ⟨negative, whole, fraction', exponent'⟩ := n
  have last := exponent_append exponent' ends
  have digit := digitsEnd_exponentText exponent' ends
  have point : (exponentText exponent' ++ rest).head? ≠ some '.' := by
    cases exponent' with
    | none => exact ends.point
    | some e =>
      intro same
      cases same
  have middle := fraction_append written.fraction digit point
  have digit' : DigitsEnd (fractionText fraction' ++ (exponentText exponent' ++ rest)) := by
    cases fraction' with
    | none => exact digit
    | some ds =>
      intro c hc
      cases hc
      rfl
  have first := digits_append written.whole written.digits digit'
  simp only at middle first
  by_cases zero : padded ⟨negative, whole, fraction', exponent'⟩ = true
  · have zero' : (decide (whole.head? = some '0') && decide (1 < whole.length)) = true := zero
    rw [if_pos zero]
    simp only [unsigned, unsignedText, List.append_assoc, first, Bind.bind, Except.bind,
      if_pos zero']
    rfl
  · have zero' : ¬(decide (whole.head? = some '0') && decide (1 < whole.length)) = true := zero
    rw [if_neg zero]
    simp only [unsigned, unsignedText, List.append_assoc, first, Bind.bind, Except.bind,
      if_neg zero', middle, last, Pure.pure, Except.pure]

/-! ## Integers -/

theorem written_ofInt (i : Int) : (ofInt i).Written :=
  ⟨Nat.toDigits_ne_nil, (Digits.toDigits i.natAbs).digit, fun _ none => by cases none⟩

/-- Only the digits of zero start with a zero. -/
theorem eq_zero_of_head?_toDigits {k : Nat} (zero : (Nat.toDigits 10 k).head? = some '0') :
    k = 0 := by
  induction k using Nat.strongRecOn with
  | ind k ih =>
    by_cases small : k < 10
    · rw [Nat.toDigits_of_lt_base small] at zero
      have single : ∀ d < 10, Nat.digitChar d = '0' → d = 0 := by decide
      exact single k small (Option.some.inj zero)
    · have large : 10 ≤ k := by omega
      rw [Nat.toDigits_of_base_le (by decide) large] at zero
      cases front : Nat.toDigits 10 (k / 10) with
      | nil => exact absurd front Nat.toDigits_ne_nil
      | cons c cs =>
        rw [front, List.cons_append] at zero
        have := ih (k / 10) (by omega) (front ▸ zero)
        omega

theorem padded_ofInt (i : Int) : (ofInt i).padded = false := by
  by_cases zero : (Nat.toDigits 10 i.natAbs).head? = some '0'
  · have magnitude : i.natAbs = 0 := eq_zero_of_head?_toDigits zero
    simp [padded, ofInt, magnitude]
  · simp [padded, ofInt, zero]

/-- **An integer of 64 bits** is the value of its text. -/
theorem value?_ofInt {i : Int} (low : -0x8000000000000000 ≤ i) (high : i < 0x10000000000000000) :
    (ofInt i).value? = some (.int i) := by
  simp only [value?, ofInt, ofDigits_toDigits, Option.isNone_none, Bool.and_self, if_true]
  by_cases negative : i < 0
  · have positive : 0 < i.natAbs ∧ i.natAbs ≤ 0x8000000000000000 := by omega
    have magnitude : -(i.natAbs : Int) = i := by omega
    simp only [negative, positive, magnitude, decide_true, Bool.not_true, Bool.false_and,
      Bool.and_self, Bool.false_eq_true, if_false, if_true]
  · have small : i.natAbs < 0x10000000000000000 := by omega
    have magnitude : (i.natAbs : Int) = i := by omega
    simp only [negative, small, magnitude, decide_true, decide_false, Bool.not_false, Bool.and_self,
      if_true]

/-! ## Floats -/

/-- A text of digits, a point and more is taken apart at the point. -/
theorem split_at_point {front : List Char} (all : ∀ c ∈ front, c.isDigit = true)
    (back : List Char) :
    (front ++ '.' :: back).takeWhile (· != '.') = front ∧
      ((front ++ '.' :: back).dropWhile (· != '.')).drop 1 = back := by
  have other : ∀ c ∈ front, (c != '.') = true := by
    intro c hc
    rcases eq_or_ne c '.' with rfl | other
    · cases all _ hc
    · simpa using other
  rw [List.takeWhile_append_of_pos other, List.dropWhile_append_of_pos other]
  simp

/-- Digits with a point among or beside them. -/
theorem written_positional {ds : List Char} (digits : Digits ds) (negative : Bool) (point : Int) :
    Written ⟨negative, (Decimal.positional ds point).takeWhile (· != '.'),
      some (((Decimal.positional ds point).dropWhile (· != '.')).drop 1), none⟩ := by
  obtain ⟨front, back, shown, front_digits, back_digits, -⟩ := Decimal.positional_parts digits point
  obtain ⟨taken, dropped⟩ := split_at_point front_digits.digit back
  rw [shown, taken, dropped]
  exact ⟨front_digits.nonempty, front_digits.digit,
    fun ds same => Option.some.inj same ▸ ⟨back_digits.nonempty, back_digits.digit⟩⟩

theorem written_ofScaled (s : Binary64.Scaled) : (ofScaled s).Written := by
  unfold ofScaled
  split
  · exact ⟨by simp, by simp, by simp⟩
  · have digits := Digits.toDigits (Decimal.shortest s).coefficient
    simp only
    split
    · exact written_positional digits s.negative _
    · have first := digits.take Nat.one_pos
      refine ⟨first.nonempty, first.digit, fun ds same => ?_⟩
      split at same
      · cases same
      · cases same
        have rest := digits.drop (n := 1) (by omega)
        exact ⟨rest.nonempty, rest.digit⟩

end NumberText

end RegisterVm.Json
