import Mathlib.Data.List.Basic
import Mathlib.Data.List.TakeWhile
import RegisterVm.Number.DecimalText
import RegisterVm.Proofs.Number.Digits

/-!
# The number of a decimal text

A decimal text is read as the parts that it was written from (`DecimalText.ofChars_chars`). The
number that it is (`DecimalText.value`) can be told from the digits without the zeros around them
and the place of the point (`DecimalText.value_eq`, `DecimalText.significant_spec`).
-/

namespace RegisterVm

open Reading

variable {ds : List Char}

/-- Digits without zeros around them. -/
structure Significant (ds : List Char) : Prop extends Digits ds where
  leading : ds.head? ≠ some '0'
  trailing : ds.getLast? ≠ some '0'

namespace DecimalText

variable {n : DecimalText}

/-! ## The parts of a text -/

/-- A mark and the text after it. -/
def marked (mark : Char) : Option (List Char) → List Char
  | some cs => mark :: cs
  | none => []

def signed (negative : Bool) : List Char := if negative then ['-'] else []

/-- The text of a number. -/
def chars (n : DecimalText) : List Char :=
  signed n.negative ++ (n.whole ++ marked '.' n.fraction ++ marked 'e' n.exponent)

/-- The parts of a number that should be digits are. -/
structure Written (n : DecimalText) : Prop where
  whole : Digits n.whole
  fraction : ∀ ds, n.fraction = some ds → Digits ds
  exponent : ∀ cs, n.exponent = some cs → Digits (takeSign cs).2

theorem cut_marked {mark : Char} {front : List Char} (absent : mark ∉ front)
    (back : Option (List Char)) : cut mark (front ++ marked mark back) = (front, back) := by
  have other : ∀ c ∈ front, (c != mark) = true := by
    intro c hc
    simpa using fun same : c = mark => absent (same ▸ hc)
  cases back with
  | none =>
    have dropped : (front ++ marked mark none).dropWhile (· != mark) = [] := by
      rw [marked, List.append_nil]
      exact List.dropWhile_eq_nil_iff.mpr other
    rw [cut, dropped, marked, List.append_nil]
  | some back =>
    have dropped : (front ++ marked mark (some back)).dropWhile (· != mark) = mark :: back := by
      rw [List.dropWhile_append_of_pos other, marked]
      simp
    have taken : (front ++ marked mark (some back)).takeWhile (· != mark) = front := by
      rw [List.takeWhile_append_of_pos other, marked]
      simp
    rw [cut, dropped, taken]

theorem takeMinus_signed (negative : Bool) {body : List Char} (other : body.head? ≠ some '-') :
    takeMinus (signed negative ++ body) = (negative, body) := by
  cases negative with
  | true => rfl
  | false =>
    simp only [signed, Bool.false_eq_true, if_false, List.nil_append, takeMinus]
    split
    · exact absurd rfl other
    · rfl

/-- **A text is taken apart into the parts that it was written from.** -/
theorem ofChars_chars (written : n.Written) : ofChars n.chars = n := by
  obtain ⟨negative, whole, fraction, exponent⟩ := n
  have point : '.' ∉ whole := written.whole.not_mem rfl
  have letter : 'e' ∉ whole ++ marked '.' fraction := by
    intro member
    rcases List.mem_append.mp member with member | member
    · exact written.whole.not_mem rfl member
    · cases fraction with
      | none => cases member
      | some ds =>
        rcases List.mem_cons.mp member with same | member
        · cases same
        · exact (written.fraction ds rfl).not_mem rfl member
  have mantissa := cut_marked letter exponent
  have parts := cut_marked point fraction
  have minus : takeMinus (chars ⟨negative, whole, fraction, exponent⟩) =
      (negative, whole ++ marked '.' fraction ++ marked 'e' exponent) := by
    refine takeMinus_signed negative ?_
    rw [List.append_assoc]
    exact written.whole.head?_append_ne rfl _
  simp only [ofChars, minus, mantissa, parts]

/-! ## The number that a text is -/

/-- The integer that an exponent is. -/
def exponentValue (cs : List Char) : ℤ :=
  if (takeSign cs).1 then -(ofDigits (takeSign cs).2 : ℤ) else ofDigits (takeSign cs).2

def places (n : DecimalText) : ℤ := (n.exponent.map exponentValue).getD 0

def sign (negative : Bool) : ℚ := if negative then -1 else 1

/-- The number that a text is: the digits on both sides of the point as an integer, and the power
of ten by which the exponent and the places of the fraction move it. -/
def value (n : DecimalText) : ℚ :=
  sign n.negative * (ofDigits n.digits * 10 ^ (n.places - (n.fraction.getD []).length))

theorem value_eq_digits (n : DecimalText) :
    n.value = sign n.negative * pointed n.digits (n.whole.length + n.places) := by
  have same : n.places - (n.fraction.getD []).length =
      n.whole.length + n.places - n.digits.length := by
    simp only [digits, List.length_append, Nat.cast_add]
    omega
  rw [value, pointed, same]

/-- An exponent is read within 32 bits. -/
theorem int32?_eq {cs : List Char} (digits : Digits (takeSign cs).2)
    (low : -0x80000000 ≤ exponentValue cs) (high : exponentValue cs < 0x80000000) :
    int32? cs = some (exponentValue cs) := by
  have all : (takeSign cs).2.all Char.isDigit = true := List.all_eq_true.mpr digits.digit
  have read : digits? (takeSign cs).2 = some (ofDigits (takeSign cs).2) := by
    simp [digits?, digits.nonempty, all]
  have within : (-0x80000000 ≤ exponentValue cs && exponentValue cs < 0x80000000) = true := by
    simp only [low, high, decide_true, Bool.and_self]
  simp only [int32?, read]
  exact Option.filter_eq_some_iff.mpr ⟨rfl, within⟩

theorem point_eq (written : n.Written) (low : -0x80000000 ≤ n.places)
    (high : n.places < 0x80000000) :
    n.point = n.whole.length + n.places - (n.digits.takeWhile (· = '0')).length := by
  have read : (n.exponent.bind int32?).getD 0 = n.places := by
    unfold places at low high ⊢
    cases exponent : n.exponent with
    | none => rfl
    | some cs =>
      rw [exponent] at low high
      rw [Option.bind_some, int32?_eq (written.exponent cs exponent) low high]
      rfl
  rw [point, read]

theorem eq_zeros_append (ds : List Char) :
    ds = List.replicate (ds.takeWhile (· = '0')).length '0' ++ ds.dropWhile (· = '0') := by
  have zeros : ds.takeWhile (· = '0') = List.replicate (ds.takeWhile (· = '0')).length '0' :=
    List.eq_replicate_iff.mpr ⟨rfl, fun c hc => by simpa using List.mem_takeWhile_imp hc⟩
  conv_lhs => rw [← List.takeWhile_append_dropWhile (p := (· = '0')) (l := ds), zeros]

/-- The digits are the significant ones with zeros around them. -/
theorem digits_eq (n : DecimalText) : ∃ k, n.digits =
    List.replicate (n.digits.takeWhile (· = '0')).length '0' ++
      (n.significant ++ List.replicate k '0') := by
  have back := congrArg List.reverse (eq_zeros_append (n.digits.dropWhile (· = '0')).reverse)
  rw [List.reverse_reverse, List.reverse_append, List.reverse_replicate] at back
  exact ⟨_, back ▸ eq_zeros_append n.digits⟩

/-- **The value depends on the significant digits and the point alone.** -/
theorem value_eq (written : n.Written) (low : -0x80000000 ≤ n.places)
    (high : n.places < 0x80000000) :
    n.value = sign n.negative * pointed n.significant n.point := by
  obtain ⟨k, split⟩ := n.digits_eq
  rw [value_eq_digits, point_eq written low high]
  conv_lhs => rw [split, pointed_zeros_append, pointed_append_zeros]

theorem head?_dropWhile_zeros (ds : List Char) : (ds.dropWhile (· = '0')).head? ≠ some '0' := by
  intro same
  have := List.head?_dropWhile_not (· = '0') ds
  simp [same] at this

theorem digit_of_mem_digits (written : n.Written) {c : Char} (hc : c ∈ n.digits) :
    c.isDigit = true := by
  rcases List.mem_append.mp hc with hc | hc
  · exact written.whole.digit c hc
  · cases fraction : n.fraction with
    | none => simp [fraction] at hc
    | some ds =>
      rw [fraction] at hc
      exact (written.fraction ds fraction).digit c hc

theorem significant_spec (written : n.Written) (nonzero : n.value ≠ 0) :
    Significant n.significant := by
  obtain ⟨k, split⟩ := n.digits_eq
  have nonempty : n.significant ≠ [] := by
    intro none
    have zeros : ofDigits n.digits = 0 := by
      rw [split, none, List.nil_append, List.replicate_append_replicate, ofDigits_zeros]
    exact nonzero (by simp [value, zeros])
  refine ⟨⟨nonempty, fun c hc => digit_of_mem_digits written ?_⟩, ?_, ?_⟩
  · rw [split]
    exact List.mem_append_right _ (List.mem_append_left _ hc)
  · have rest : n.digits.dropWhile (· = '0') = n.significant ++ List.replicate k '0' :=
      List.append_cancel_left ((eq_zeros_append n.digits).symm.trans split)
    rw [← List.head?_append_of_ne_nil _ nonempty, ← rest]
    exact head?_dropWhile_zeros n.digits
  · rw [significant, List.getLast?_reverse]
    exact head?_dropWhile_zeros _

end DecimalText

end RegisterVm
