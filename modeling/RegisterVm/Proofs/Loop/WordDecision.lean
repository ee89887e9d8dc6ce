import RegisterVm.Proofs.Loop.NativeForm

/-!
# Compiled loops and checked words decide alike

Sums, differences and products of words are computed twice: by checked arithmetic, which signals an
overflow, and by compiled loops, which test bits of the wrapped result and leave the instruction to
the general execution when these show an overflow. Both go by the same question, whether the exact
result is a word (`CheckedForm.overflows_iff`, `CheckedForm.primitive_eq`), so on every two words
they take the same way with the same result. The same holds of the one word without a negative.
Main statement: `NativeForm.words_decided_alike`.
-/

namespace RegisterVm

/-- An operator whose exact result on two words may be no word. -/
inductive CheckedForm where
  | add | sub | mul
  deriving DecidableEq

namespace CheckedForm

def operator : CheckedForm → BinaryOperator
  | add => .add
  | sub => .sub
  | mul => .mul

def word : CheckedForm → WordForm
  | add => .add
  | sub => .sub
  | mul => .mul

def float : CheckedForm → FloatForm
  | add => .add
  | sub => .sub
  | mul => .mul

/-- The result of an operator on integers of any size. -/
def exact : CheckedForm → Int → Int → Int
  | add, a, b => a + b
  | sub, a, b => a - b
  | mul, a, b => a * b

theorem of?_operator (o : CheckedForm) :
    NativeArithmetic.of? o.operator = some ⟨some o.word, some o.float⟩ := by
  cases o <;> rfl

/-- **The bit tests tell whether the exact result is a word.** -/
theorem overflows_eq (o : CheckedForm) (a b : Int64) :
    o.word.overflows a b = !Word.fits (o.exact a.toInt b.toInt) := by
  cases o with
  | add => exact WordForm.overflows_add a b
  | sub => exact WordForm.overflows_sub a b
  | mul => exact WordForm.overflows_mul a b

theorem overflows_iff (o : CheckedForm) (a b : Int64) : o.word.overflows a b = true ↔
    ¬(-2 ^ 63 ≤ o.exact a.toInt b.toInt ∧ o.exact a.toInt b.toInt < 2 ^ 63) := by
  rw [overflows_eq, Bool.not_eq_true', ← Word.fits_iff, Bool.not_eq_true]

/-- The wrapped result is the exact one when that is a word. -/
theorem toInt_result (o : CheckedForm) {a b : Int64} (clear : o.word.overflows a b = false) :
    (o.word.result a b).toInt = o.exact a.toInt b.toInt := by
  have fits := (overflows_iff o a b).not_left.mp (by rw [clear]; exact Bool.false_ne_true)
  have wrapped : (o.word.result a b).toInt = (o.exact a.toInt b.toInt).bmod (2 ^ 64) := by
    cases o with
    | add => exact Int64.toInt_add a b
    | sub => exact Int64.toInt_sub a b
    | mul => exact Int64.toInt_mul a b
  rw [wrapped]
  exact Int.bmod_eq_of_le (by omega) (by omega)

/-- Checked arithmetic goes by the bit tests as well. -/
theorem primitive_eq (o : CheckedForm) (a b : Int64) :
    Primitive.binary o.operator (.int a) (.int b) =
      if o.word.overflows a b then .error .integerOverflow
      else .ok (.int (o.word.result a b)) := by
  have checked : Primitive.binary o.operator (.int a) (.int b) = Primitive.checked
      (if o.word.overflows a b then none else some (o.word.result a b)) := by
    cases o with
    | add => exact congrArg Primitive.checked (WordForm.add?_eq a b)
    | sub => exact congrArg Primitive.checked (WordForm.sub?_eq a b)
    | mul => exact congrArg Primitive.checked (WordForm.mul?_eq a b)
  rw [checked]
  cases o.word.overflows a b <;> rfl

end CheckedForm

/-! ## Negation -/

/-- A word other than the least one is negated exactly. -/
theorem Word.toInt_neg_of_ne {a : Int64} (other : a ≠ Int64.minValue) : (-a).toInt = -a.toInt := by
  have negated : neg? a = some (-a) := by
    rw [WordForm.neg?_eq, if_neg other]
  exact toInt_of_ofInt? negated

theorem Primitive.neg_word_eq (a : Int64) : unary .neg (.int a) =
    if a = Int64.minValue then .error .integerOverflow else .ok (.int (-a)) := by
  simp only [unary, neg, WordForm.neg?_eq]
  split <;> rfl

/-! ## Native forms -/

namespace NativeForm

variable {vars : Array Slot} {dst lhs src : Register} {rhs : NativeOperand} {a b : Int64}

/-- The native form of a checked operator on two words. -/
theorem run_words (o : CheckedForm) (h : Heap) (pc : Nat) (ha : loadSlot vars lhs = .ofInt a)
    (hb : operand vars rhs = .ofInt b) :
    (ofArithmetic o.operator dst lhs rhs).run h vars pc =
      if o.word.overflows a b then .general vars none
      else .goto (storeSlot vars dst (.ofInt (o.word.result a b))) (pc + 1) := by
  simp only [ofArithmetic, o.of?_operator, run, ha, hb, NativeArithmetic.result?_ints,
    Option.bind_some]
  cases o.word.overflows a b <;> rfl

theorem run_negate (h : Heap) (pc : Nat) (ha : loadSlot vars src = .ofInt a) :
    (negate dst src).run h vars pc =
      if a = Int64.minValue then .general vars none
      else .goto (storeSlot vars dst (.ofInt (-a))) (pc + 1) := by
  simp only [run, ha, Slot.negate?_ofInt]
  split <;> rfl

/-- **Compiled loops and checked arithmetic decide alike on words.** The overflow test of an
addition, subtraction or multiplication is positive exactly when the exact result is no word, which
is when the checked operation signals an overflow; otherwise the wrapped result is the exact one and
that of the checked operation. Negation is left to the general execution for the least word alone,
and exact for every other one. In a compiled loop the form of such an instruction stores the result
that the checked operation has and goes on, and leaves the instruction to the general execution when
there is none. -/
theorem words_decided_alike (o : CheckedForm) (a b : Int64) :
    (o.word.overflows a b = true ↔
      ¬(-2 ^ 63 ≤ o.exact a.toInt b.toInt ∧ o.exact a.toInt b.toInt < 2 ^ 63)) ∧
    (o.word.overflows a b = true ↔
      Primitive.binary o.operator (.int a) (.int b) = .error .integerOverflow) ∧
    (o.word.overflows a b = false → (o.word.result a b).toInt = o.exact a.toInt b.toInt ∧
      Primitive.binary o.operator (.int a) (.int b) = .ok (.int (o.word.result a b))) ∧
    ((Slot.ofInt a).negate? = none ↔ a = Int64.minValue) ∧
    (Primitive.unary .neg (.int a) = .error .integerOverflow ↔ a = Int64.minValue) ∧
    (a ≠ Int64.minValue → (-a).toInt = -a.toInt ∧
      Primitive.unary .neg (.int a) = .ok (.int (-a))) ∧
    ∀ (h : Heap) (vars : Array Slot) (dst lhs : Register) (pc : Nat),
      loadSlot vars lhs = .ofInt a →
      (∀ rhs, operand vars rhs = .ofInt b →
        (ofArithmetic o.operator dst lhs rhs).run h vars pc = storeOr vars dst (pc + 1)
          ((Primitive.binary o.operator (.int a) (.int b)).toOption.map Slot.ofValue)) ∧
      (negate dst lhs).run h vars pc = storeOr vars dst (pc + 1)
        ((Primitive.unary .neg (.int a)).toOption.map Slot.ofValue) := by
  have binary := o.primitive_eq a b
  have unary := Primitive.neg_word_eq a
  refine ⟨o.overflows_iff a b, ?_, fun clear => ⟨o.toInt_result clear, ?_⟩, ?_, ?_,
    fun other => ⟨Word.toInt_neg_of_ne other, ?_⟩,
    fun h vars dst lhs pc ha => ⟨fun rhs hb => ?_, ?_⟩⟩
  · rw [binary]
    cases o.word.overflows a b <;> simp
  · rw [binary, clear, if_neg Bool.false_ne_true]
  · rw [Slot.negate?_ofInt]
    simp
  · rw [unary]
    by_cases least : a = Int64.minValue <;> simp [least]
  · rw [unary, if_neg other]
  · rw [run_words o h pc ha hb, binary]
    cases o.word.overflows a b <;> rfl
  · rw [run_negate h pc ha, unary]
    split <;> rfl

/-- The product of `2 ^ 32` and `2 ^ 31` is the least power of two that is no word: a compiled loop
leaves it to the general execution, as checked arithmetic signals the overflow. -/
theorem words_decided_alike_product :
    WordForm.mul.overflows 4294967296 2147483648 = true ∧
    Primitive.binary .mul (.int 4294967296) (.int 2147483648) = .error .integerOverflow ∧
    (ofArithmetic .mul ⟨1⟩ ⟨0⟩ (.register ⟨1⟩)).run .empty
      #[.ofInt 4294967296, .ofInt 2147483648] 7 =
        .general #[.ofInt 4294967296, .ofInt 2147483648] none ∧
    (negate ⟨1⟩ ⟨0⟩).run .empty #[.ofInt 4294967296, .ofInt 2147483648] 7 =
      .goto #[.ofInt 4294967296, .ofInt (-4294967296)] 8 := by
  obtain ⟨beyond, signal, -, -, -, negated, runs⟩ :=
    words_decided_alike .mul 4294967296 2147483648
  have overflows := beyond.mpr (by decide)
  have refused := signal.mp overflows
  obtain ⟨multiplied, inverted⟩ :=
    runs .empty #[.ofInt 4294967296, .ofInt 2147483648] ⟨1⟩ ⟨0⟩ 7 rfl
  refine ⟨overflows, refused, (multiplied (.register ⟨1⟩) rfl).trans ?_, inverted.trans ?_⟩
  · rw [refused]
    rfl
  · rw [(negated (by decide)).2]
    rfl

end NativeForm

end RegisterVm
