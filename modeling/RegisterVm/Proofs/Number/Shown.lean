import RegisterVm.Proofs.Number.DecimalText

/-!
# Shown floats are the numbers they show

Digits and a point are written in one of two layouts, and both keep the number: positional notation
moves the point among the digits and the zeros added to them (`Decimal.positional_parts`),
`DecimalText.scientific` leaves it after the first digit and writes the rest into the exponent
(`Decimal.exponentValue_exponentText`). Which of the two it is depends on the size of the number
alone. Main statement: from any decimal text of a number other than zero, the text that is shown has
the same value (`Binary64.shownBy_keeps_value`).
-/

namespace RegisterVm

open Reading

variable {ds : List Char}

/-! ## Exponents -/

theorem takeSign_digits (h : Digits ds) : takeSign ds = (false, ds) := by
  unfold takeSign
  split
  · exact absurd List.mem_cons_self (h.not_mem rfl)
  · exact absurd List.mem_cons_self (h.not_mem rfl)
  · rfl

namespace Decimal

/-- The digits of an exponent, at least as many as the layout asks for. -/
def exponentDigits (layout : DecimalLayout) (e : ℤ) : List Char :=
  let digits := Nat.toDigits 10 e.natAbs
  List.replicate (layout.exponentDigits - digits.length) '0' ++ digits

theorem digits_exponentDigits (layout : DecimalLayout) (e : ℤ) :
    Digits (exponentDigits layout e) :=
  (Digits.toDigits e.natAbs).zeros_append _

theorem length_exponentDigits (layout : DecimalLayout) (e : ℤ) :
    layout.exponentDigits ≤ (exponentDigits layout e).length := by
  simp only [exponentDigits, List.length_append, List.length_replicate]
  omega

theorem ofDigits_exponentDigits (layout : DecimalLayout) (e : ℤ) :
    ofDigits (exponentDigits layout e) = e.natAbs := by
  rw [exponentDigits, ofDigits_append, ofDigits_zeros, ofDigits_toDigits, Nat.zero_mul,
    Nat.zero_add]

theorem takeSign_exponentText (layout : DecimalLayout) (e : ℤ) :
    takeSign (exponentText layout e) = (decide (e < 0), exponentDigits layout e) := by
  have text : exponentText layout e =
      (if e < 0 then ['-'] else if layout.plus then ['+'] else []) ++ exponentDigits layout e := rfl
  rw [text]
  by_cases negative : e < 0
  · simp [negative, takeSign]
  · cases layout.plus with
    | true => simp [negative, takeSign]
    | false => simp [negative, takeSign_digits (digits_exponentDigits layout e)]

/-- **An exponent is the integer that it was written from.** -/
theorem exponentValue_exponentText (layout : DecimalLayout) (e : ℤ) :
    DecimalText.exponentValue (exponentText layout e) = e := by
  rw [DecimalText.exponentValue, takeSign_exponentText, ofDigits_exponentDigits]
  by_cases negative : e < 0
  · simp only [negative, decide_true, if_true]
    omega
  · simp only [negative, decide_false, Bool.false_eq_true, if_false]
    omega

end Decimal

namespace DecimalText

/-! ## The two layouts -/

/-- The parts of a number written with an exponent. -/
def scientific (layout : DecimalLayout) (negative : Bool) (ds : List Char) (p : ℤ) : DecimalText :=
  ⟨negative, ds.take 1, if ds.length ≤ 1 then none else some (ds.drop 1),
    some (Decimal.exponentText layout (p - 1))⟩

/-- Fixed notation. -/
structure Fixed (n : DecimalText) : Prop where
  fraction : n.fraction.isSome
  exponent : n.exponent = none

/-- One digit other than zero, no zero at the end of the fraction, a sign and at least two digits in
the exponent. -/
structure Scientific (n : DecimalText) : Prop where
  leading : ∃ c, n.whole = [c] ∧ c ≠ '0'
  trailing : ∀ ds, n.fraction = some ds → ds.getLast? ≠ some '0'
  exponent : ∃ sign ds, n.exponent = some (sign :: ds) ∧ (sign = '+' ∨ sign = '-') ∧
    Digits ds ∧ 2 ≤ ds.length

theorem Fixed.not_scientific {n : DecimalText} (fixed : n.Fixed) : ¬n.Scientific := by
  intro scientific
  obtain ⟨_, _, some, -⟩ := scientific.exponent
  cases fixed.exponent.symm.trans some

variable (layout : DecimalLayout) (negative : Bool) (p : ℤ)

theorem chars_scientific (ds : List Char) : (scientific layout negative ds p).chars =
    signed negative ++ (ds.take 1 ++ (if ds.length ≤ 1 then [] else '.' :: ds.drop 1) ++
      'e' :: Decimal.exponentText layout (p - 1)) := by
  simp only [chars, scientific]
  split <;> rfl

theorem digits_scientific (ds : List Char) : (scientific layout negative ds p).digits = ds := by
  simp only [digits, scientific]
  split
  · rename_i short
    rw [Option.getD_none, List.append_nil, List.take_of_length_le short]
  · rw [Option.getD_some, List.take_append_drop]

theorem written_scientific (h : Digits ds) : (scientific layout negative ds p).Written := by
  refine ⟨h.take Nat.one_pos, fun fs same => ?_, fun cs same => ?_⟩
  · simp only [scientific] at same
    split at same
    · cases same
    · cases same
      exact h.drop (by omega)
  · cases same
    rw [Decimal.takeSign_exponentText]
    exact Decimal.digits_exponentDigits layout _

theorem value_scientific (h : Digits ds) :
    (scientific layout negative ds p).value = sign negative * pointed ds p := by
  have whole : (scientific layout negative ds p).whole.length = 1 :=
    List.length_take_of_le (List.length_pos_iff.mpr h.nonempty)
  have places : (scientific layout negative ds p).places = p - 1 :=
    Decimal.exponentValue_exponentText layout (p - 1)
  rw [value_eq_digits, digits_scientific, whole, places]
  have point : ((1 : Nat) : ℤ) + (p - 1) = p := by omega
  rw [point]
  rfl

theorem scientific_spec {layout : DecimalLayout} (plus : layout.plus = true)
    (two : 2 ≤ layout.exponentDigits) (significant : Significant ds) :
    (scientific layout negative ds p).Scientific := by
  obtain ⟨c, es, rfl⟩ := List.exists_cons_of_ne_nil significant.nonempty
  refine ⟨⟨c, rfl, fun same => significant.leading (congrArg some same)⟩, fun fs same => ?_, ?_⟩
  · simp only [scientific] at same
    split at same
    · cases same
    · rename_i several
      cases same
      have rest : es ≠ [] := fun none => several (by simp [none])
      rw [List.drop_succ_cons, List.drop_zero, ← List.getLast?_cons_of_ne_nil rest]
      exact significant.trailing
  · refine ⟨if p - 1 < 0 then '-' else '+', Decimal.exponentDigits layout (p - 1), ?_, ?_,
      Decimal.digits_exponentDigits _ _, two.trans (Decimal.length_exponentDigits _ _)⟩
    · by_cases low : p - 1 < 0
      · simp [scientific, Decimal.exponentText, Decimal.exponentDigits, low]
      · simp [scientific, Decimal.exponentText, Decimal.exponentDigits, low, plus]
    · split
      · exact .inr rfl
      · exact .inl rfl

/-- **Digits with a point are laid out as a text of the same number.** -/
theorem exists_laidOut (h : Digits ds) : ∃ m : DecimalText,
    m.chars = signed negative ++ Decimal.laidOut layout ds p ∧ m.Written ∧
      m.value = sign negative * pointed ds p ∧
      (if layout.pointAbove < p ∧ p ≤ layout.pointUpTo then m.Fixed
        else m = scientific layout negative ds p) := by
  by_cases within : layout.pointAbove < p ∧ p ≤ layout.pointUpTo
  · obtain ⟨whole, fraction, text, digits, digits', value⟩ := Decimal.positional_parts h p
    have chosen : Decimal.laidOut layout ds p = Decimal.positional ds p := by
      simp [Decimal.laidOut, within]
    refine ⟨⟨negative, whole, some fraction, none⟩, ?_, ?_, ?_, ?_⟩
    · rw [chosen, text, chars]
      simp only [marked, List.append_nil]
    · exact ⟨digits, fun ds same => Option.some.inj same ▸ digits', fun cs none => by cases none⟩
    · rw [value_eq_digits, ← value]
      exact congrArg (fun q => sign negative * pointed (whole ++ fraction) q) (add_zero _)
    · rw [if_pos within]
      exact ⟨rfl, rfl⟩
  · have chosen : Decimal.laidOut layout ds p =
        ds.take 1 ++ (if ds.length ≤ 1 then [] else '.' :: ds.drop 1) ++
          'e' :: Decimal.exponentText layout (p - 1) := by
      simp [Decimal.laidOut, within]
    refine ⟨scientific layout negative ds p, ?_, written_scientific layout negative p h,
      value_scientific layout negative p h, ?_⟩
    · rw [chosen, chars_scientific]
    · rw [if_neg within]

end DecimalText

namespace Binary64

open DecimalText

/-- The text of a float with the fewest digits is a decimal text of the number they make. -/
theorem Scaled.exists_shortestText (s : Scaled) : ∃ n : DecimalText,
    s.shortestText = n.chars ∧ n.Written ∧ n.value = sign s.negative *
      ((Decimal.shortest s).coefficient * 10 ^ (Decimal.shortest s).exponent) := by
  obtain ⟨n, text, written, value, -⟩ := exists_laidOut shortestLayout s.negative
    ((Nat.toDigits 10 (Decimal.shortest s).coefficient).length + (Decimal.shortest s).exponent)
    (Digits.toDigits (Decimal.shortest s).coefficient)
  refine ⟨n, ?_, written, ?_⟩
  · rw [text, Scaled.shortestText, Decimal.text, String.toList_ofList]
    rfl
  · rw [value, pointed, ofDigits_toDigits, add_sub_cancel_left]

/-- **The shown text of a float has the value of its shortest text**, whatever notation that is in:
digits with or without a fraction, with or without an exponent (of 32 bits). The shown text is in
fixed notation from `1e-4` up to `1e16` and in scientific notation elsewhere. -/
theorem shownBy_keeps_value {n : DecimalText} (written : n.Written)
    (low : -0x80000000 ≤ n.places) (high : n.places < 0x80000000) (nonzero : n.value ≠ 0) :
    ∃ m : DecimalText, relaid shownLayout n.chars = m.chars ∧
      (∀ shortestText x s, scaled? x = some s → s.significand ≠ 0 → shortestText s = n.chars →
        shownBy shortestText x = String.ofList m.chars) ∧
      m.Written ∧ m.value = n.value ∧
      (m.Fixed ↔ 1 / 10 ^ 4 ≤ |n.value| ∧ |n.value| < 10 ^ 16) ∧
      (¬m.Fixed → m.Scientific) := by
  have significant := significant_spec written nonzero
  have value := value_eq written low high
  obtain ⟨m, text, writes, same, layout⟩ :=
    exists_laidOut shownLayout n.negative n.point significant.toDigits
  have relaid_eq : relaid shownLayout n.chars = m.chars := by
    rw [text, relaid, ofChars_chars written]
    rfl
  have size : |n.value| = pointed n.significant n.point := by
    have magnitude : |sign n.negative| = 1 := by cases n.negative <;> simp [sign]
    rw [value, abs_mul, magnitude, one_mul, abs_of_nonneg (pointed_nonneg _ _)]
  have range : 1 / 10 ^ 4 ≤ |n.value| ∧ |n.value| < 10 ^ 16 ↔
      shownLayout.pointAbove < n.point ∧ n.point ≤ shownLayout.pointUpTo := by
    have least := zpow_le_pointed_iff significant.toDigits significant.leading (-4) n.point
    have beyond :=
      not_congr (zpow_le_pointed_iff significant.toDigits significant.leading 16 n.point)
    norm_num at least beyond ⊢
    rw [size, least, beyond]
    rfl
  refine ⟨m, relaid_eq, fun shortestText x s finite some rendered => ?_, writes,
    same.trans value.symm, ?_⟩
  · simp only [shownBy, finite, if_neg some, rendered, relaid_eq]
  · rw [range]
    by_cases within : shownLayout.pointAbove < n.point ∧ n.point ≤ shownLayout.pointUpTo
    · rw [if_pos within] at layout
      exact ⟨iff_of_true layout within, fun other => absurd layout other⟩
    · rw [if_neg within] at layout
      have scientific : m.Scientific := layout ▸ scientific_spec _ _ rfl le_rfl significant
      exact ⟨iff_of_false (fun fixed => fixed.not_scientific scientific) within,
        fun _ => scientific⟩

/-- The float `-1.25e-5`, which has a shortest text without an exponent. -/
theorem shownBy_keeps_value_small : ∃ n m : DecimalText,
    (scaled? (-1.25e-5)).map Scaled.shortestText = some n.chars ∧
      n.chars = "-0.0000125".toList ∧ n.value = -1 / 80000 ∧
      shown (-1.25e-5) = String.ofList m.chars ∧ m.chars = "-1.25e-05".toList ∧
      m.value = n.value ∧ m.Scientific := by
  have finite : scaled? (-1.25e-5) = some ⟨true, 7378697629483821, -69⟩ := by decide +kernel
  have rendered : Scaled.shortestText ⟨true, 7378697629483821, -69⟩ = "-0.0000125".toList := by
    decide +kernel
  have whole : Digits ['0'] := .zero
  have fraction : Digits "0000125".toList := (Digits.toDigits 125).zeros_append 4
  have number : ofDigits ('0' :: "0000125".toList) = 125 := by decide
  have value : DecimalText.value ⟨true, ['0'], some "0000125".toList, none⟩ = -1 / 80000 := by
    change -1 * ((ofDigits ('0' :: "0000125".toList) : ℚ) * 10 ^ (-7 : ℤ)) = -1 / 80000
    rw [number]
    norm_num
  obtain ⟨m, text, shows, -, same, fixed, scientific⟩ :=
    shownBy_keeps_value (n := ⟨true, ['0'], some "0000125".toList, none⟩)
      ⟨whole, fun ds some => Option.some.inj some ▸ fraction, fun cs none => by cases none⟩
      (by decide) (by decide) (by rw [value]; norm_num)
  have small : ¬m.Fixed := by
    rw [fixed, value]
    norm_num
  refine ⟨_, m, ?_, rfl, value, ?_, ?_, same, scientific small⟩
  · rw [finite, Option.map_some, rendered]
    rfl
  · exact shows _ _ _ finite (by decide) rendered
  · rw [← text]
    decide

end Binary64

end RegisterVm
