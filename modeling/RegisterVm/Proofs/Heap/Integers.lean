import RegisterVm.Proofs.Machine.InUse
import RegisterVm.Proofs.Number.Integer

/-!
# Integers on the heap

An integer of any size is a word when it fits one and an object otherwise, never both. On integers
the operators have one meaning, whether words or integers of any size are computed with
(`HeapM.binary_eq_ofInteger`), and their results are exact (`Heap.Reachable.integers_exact`).
-/

namespace RegisterVm

namespace UnaryOperator

/-- The exact result of an operator on an integer. -/
def Exact (op : UnaryOperator) (x r : Int) : Prop :=
  match op with
  | neg => r = -x
  | pos => r = x
  | not => False
  | invert => ∀ i, r.testBit i = !x.testBit i

/-- What a sign or inversion computes. -/
def onInteger (op : UnaryOperator) (x : Int) : Int :=
  match op with
  | neg => -x
  | invert => Bits.not x
  | _ => x

theorem onInteger_exact {op : UnaryOperator} (arithmetic : op ≠ .not) (x : Int) :
    op.Exact x (op.onInteger x) := by
  cases op with
  | neg | pos => rfl
  | invert => exact Bits.testBit_not x
  | not => exact absurd rfl arithmetic

end UnaryOperator

/-- A primitive sign or inversion has the exact result when that is a word. -/
theorem Primitive.unary_of_asInt? {op : UnaryOperator} {a : Value} {i : Int64}
    (arithmetic : op ≠ .not) (ha : a.asInt? = some i) :
    unary op a = checked (Word.ofInt? (op.onInteger i.toInt)) := by
  cases op with
  | not => exact absurd rfl arithmetic
  | invert =>
    simp only [unary, invert, ha, UnaryOperator.onInteger, ← Bits.toInt_not, Word.ofInt?_toInt]
    rfl
  | neg =>
    cases a with
    | int => cases ha; rfl
    | bool t => cases t <;> cases ha <;> rfl
    | _ => cases ha
  | pos =>
    cases a with
    | int =>
      cases ha
      simp only [UnaryOperator.onInteger, Word.ofInt?_toInt]
      rfl
    | bool t => cases t <;> cases ha <;> rfl
    | _ => cases ha

/-- How a heap represents an integer: by a word when it fits, else by a new object. -/
structure Heap.Yields (h : Heap) (n : Int) (v : Value) (h' : Heap) : Prop where
  word : Word.fits n = true → (∃ i, v = .int i ∧ i.toInt = n) ∧ h' = h
  boxed : Word.fits n = false →
    v = .object (h.alloc (.big n)).1 ∧ h' = (h.alloc (.big n)).2
  value : h.size < 0x100000000 → h'.integer? v = some n

namespace HeapM

variable {h : Heap} {op : BinaryOperator} {a b : Value} {x y : Int}

theorem allocInteger_yields (h : Heap) (n : Int) :
    ∃ v h', allocInteger n h = .ok v h' ∧ h.Yields n v h' := by
  unfold allocInteger
  cases fits : Word.fits n with
  | true =>
    have word := Word.ofInt?_of_fits fits
    have same := Word.toInt_of_ofInt? word
    rw [word]
    refine ⟨_, h, rfl, fun _ => ⟨⟨_, rfl, same⟩, rfl⟩, fun big => ?_, fun _ => congrArg some same⟩
    rw [fits] at big
    cases big
  | false =>
    have big : Word.ofInt? n = none := by
      rw [Word.ofInt?, fits]
      rfl
    rw [big]
    refine ⟨_, _, rfl, fun small => ?_, fun _ => ⟨rfl, rfl⟩, fun bound => ?_⟩
    · rw [fits] at small
      cases small
    · have stored := h.object?_alloc (.big n) bound
      simp only [Heap.integer?]
      exact stored ▸ rfl

theorem generalBinary_eq_ofInteger (op : BinaryOperator) (ha : h.integer? a = some x)
    (hb : h.integer? b = some y) :
    generalBinary op a b h = ofInteger (Integer.binary op x y) h := by
  have read : (get : HeapM Heap) h = .ok h h := rfl
  simp only [generalBinary, Bind.bind, EStateM.bind, read, ha, hb]

/-- An integer that is a primitive number is a word or a truth value. -/
theorem asInt?_of_integer? (ha : h.integer? a = some x) (number : a.isNumber = true) :
    ∃ i, a.asInt? = some i ∧ i.toInt = x := by
  cases a with
  | int i => exact ⟨i, rfl, Option.some.inj ha⟩
  | bool t => cases t <;> exact ⟨_, rfl, Option.some.inj ha⟩
  | float | none => cases ha
  | object => cases number

/-- **On integers an operator is arithmetic on integers**, whether or not words suffice. -/
theorem binary_eq_ofInteger (integral : op ≠ .div) (natural : op = .pow → 0 ≤ y)
    (ha : h.integer? a = some x) (hb : h.integer? b = some y)
    (mixed : op.Bitwise → ¬Primitive.BothBools a b) :
    binary op a b h = ofInteger (Integer.binary op x y) h := by
  have general := generalBinary_eq_ofInteger op ha hb
  unfold binary
  split
  · rename_i numbers
    rw [Bool.and_eq_true] at numbers
    obtain ⟨i, hi, rfl⟩ := asInt?_of_integer? ha numbers.1
    obtain ⟨j, hj, rfl⟩ := asInt?_of_integer? hb numbers.2
    have agrees := Primitive.agrees_binary integral natural hi hj mixed
    generalize Primitive.binary op a b = result at agrees
    cases agrees with
    | word answer =>
      rw [answer, ofInteger, allocInteger, Word.ofInt?_toInt]
    | overflow => exact general
    | refused kind answer =>
      rw [answer]
      rcases kind with rfl | rfl <;> rfl
  · exact general

/-- Two truth values stay truth values. -/
theorem binary_bools (bitwise : op.Bitwise) (s t : Bool) :
    ∃ u, binary op (.bool s) (.bool t) = pure (.bool u) ∧
      Integer.binary op (if s then 1 else 0) (if t then 1 else 0) =
        .ok (.int (if u then 1 else 0)) := by
  rcases bitwise with rfl | rfl | rfl <;> cases s <;> cases t <;> exact ⟨_, rfl, rfl⟩

theorem generalUnary_eq_allocInteger (op : UnaryOperator) (ha : h.integer? a = some x) :
    generalUnary op a h = allocInteger (op.onInteger x) h := by
  simp only [generalUnary, get, getThe, MonadStateOf.get, Bind.bind, EStateM.bind, EStateM.get, ha]
  cases op <;> rfl

/-- **On an integer a sign or inversion is arithmetic on integers**, whether or not a word
suffices. -/
theorem unary_eq_allocInteger {op : UnaryOperator} (arithmetic : op ≠ .not)
    (ha : h.integer? a = some x) : unary op a h = allocInteger (op.onInteger x) h := by
  have general := generalUnary_eq_allocInteger op ha
  unfold unary
  rw [if_neg arithmetic]
  split
  · rename_i number
    obtain ⟨i, hi, rfl⟩ := asInt?_of_integer? ha number
    rw [Primitive.unary_of_asInt? arithmetic hi]
    cases word : Word.ofInt? (op.onInteger i.toInt) with
    | none => exact general
    | some w =>
      rw [allocInteger, word]
      rfl
  · exact general

end HeapM

/-! ## Answers -/

namespace Heap

open Primitive (BothBools)

/-- How an operator on the integers `x` and `y` may end: with the exact result, which is a truth
value for a bitwise operator on two truth values, or with a fault and the heap as it was. -/
inductive Answers (h : Heap) (op : BinaryOperator) (a b : Value) (x y : Int) :
    EStateM.Result Failure Heap Value → Prop
  | exact {r : Int} {v : Value} {h' : Heap} : ¬op.DividesByZero y → ¬op.ShiftsBack y →
    ¬(op.Bitwise ∧ BothBools a b) → op.Exact x y r → h.Yields r v h' →
    Answers h op a b x y (.ok v h')
  | truth {t : Bool} : op.Bitwise → BothBools a b → op.Exact x y (if t then 1 else 0) →
    Answers h op a b x y (.ok (.bool t) h)
  | refused {fault : Fault} : op.Refuses y fault → Answers h op a b x y (.error (.ofFault fault) h)

variable {h : Heap} {op : BinaryOperator} {a b : Value} {x y : Int}

theorem ofInteger_answers (integral : op ≠ .div) (natural : op = .pow → 0 ≤ y)
    (mixed : ¬(op.Bitwise ∧ BothBools a b)) :
    h.Answers op a b x y (HeapM.ofInteger (Integer.binary op x y) h) := by
  rcases Integer.binary_spec (x := x) integral natural with
    ⟨r, answer, exact, divides, shifts⟩ | ⟨fault, answer, refuses⟩
  · obtain ⟨v, h', ran, yields⟩ := HeapM.allocInteger_yields h r
    rw [answer]
    change h.Answers op a b x y (HeapM.allocInteger r h)
    rw [ran]
    exact .exact divides shifts mixed exact yields
  · rw [answer]
    exact .refused refuses

theorem binary_answers (integral : op ≠ .div) (natural : op = .pow → 0 ≤ y)
    (ha : h.integer? a = some x) (hb : h.integer? b = some y) :
    h.Answers op a b x y (HeapM.binary op a b h) := by
  by_cases truths : op.Bitwise ∧ BothBools a b
  · obtain ⟨bitwise, s, t, rfl, rfl⟩ := truths
    cases ha
    cases hb
    obtain ⟨u, result, answer⟩ := HeapM.binary_bools bitwise s t
    rw [result]
    refine .truth bitwise ⟨s, t, rfl, rfl⟩ ?_
    rcases Integer.binary_spec integral natural with ⟨r, answer', exact, -⟩ | ⟨_, answer', -⟩
    · rw [answer] at answer'
      cases answer'
      exact exact
    · rw [answer] at answer'
      cases answer'
  · rw [HeapM.binary_eq_ofInteger integral natural ha hb fun bitwise both =>
      truths ⟨bitwise, both⟩]
    exact ofInteger_answers integral natural truths

namespace Answers

variable {result : EStateM.Result Failure Heap Value}

/-- Division by zero is refused, and nothing else with an error of that kind. -/
theorem divides_iff (answers : h.Answers op a b x y result) :
    op.DividesByZero y ↔ ∃ e, result = .error e h ∧ e.fault.kind = .divisionByZero := by
  constructor
  · intro divides
    cases answers with
    | exact undivided => exact absurd divides undivided
    | truth bitwise =>
      rcases bitwise with rfl | rfl | rfl <;> rcases divides.1 with h | h <;> cases h
    | refused refuses =>
      refine ⟨_, rfl, ?_⟩
      cases refuses with
      | zero _ kind => exact kind
      | negative shifts =>
        rcases shifts.1 with rfl | rfl <;> rcases divides.1 with h | h <;> cases h
      | large long =>
        rcases long with rfl | rfl | rfl <;> rcases divides.1 with h | h <;> cases h
  · rintro ⟨e, rfl, kind⟩
    cases answers with
    | refused refuses =>
      cases refuses with
      | zero divides => exact divides
      | negative _ other => cases other.symm.trans kind
      | large _ _ other => cases other.symm.trans kind

/-- Shifts by a negative count are refused, and nothing else with that message. -/
theorem shifts_iff (answers : h.Answers op a b x y result) :
    op.ShiftsBack y ↔ ∃ e, result = .error e h ∧ e.fault.kind = .valueError ∧
      e.fault.message = "negative shift count" := by
  constructor
  · intro shifts
    cases answers with
    | exact _ unshifted => exact absurd shifts unshifted
    | truth bitwise =>
      rcases bitwise with rfl | rfl | rfl <;> rcases shifts.1 with h | h <;> cases h
    | refused refuses =>
      refine ⟨_, rfl, ?_⟩
      cases refuses with
      | zero divides =>
        rcases shifts.1 with rfl | rfl <;> rcases divides.1 with h | h <;> cases h
      | negative _ kind message => exact ⟨kind, message⟩
      | large _ unshifted => exact absurd shifts unshifted
  · rintro ⟨e, rfl, kind, message⟩
    cases answers with
    | refused refuses =>
      cases refuses with
      | zero _ other => cases other.symm.trans kind
      | negative shifts => exact shifts
      | large _ _ _ other => exact absurd (other.symm.trans message) (by decide)

end Answers

/-- Division rounds down, and quotient and remainder make up the dividend. -/
theorem division_exact (ha : h.integer? a = some x) (hb : h.integer? b = some y) (hy : y ≠ 0) :
    ∃ q r v w h₁ h₂, HeapM.binary .floorDiv a b h = .ok v h₁ ∧ h.Yields q v h₁ ∧
      HeapM.binary .mod a b h = .ok w h₂ ∧ h.Yields r w h₂ ∧ x = q * y + r := by
  obtain ⟨v, h₁, divided, quotient⟩ := HeapM.allocInteger_yields h (x.fdiv y)
  obtain ⟨w, h₂, reduced, remainder⟩ := HeapM.allocInteger_yields h (x.fmod y)
  refine ⟨_, _, v, w, h₁, h₂, ?_, quotient, ?_, remainder, (Int.fdiv_mul_add_fmod x y).symm⟩
  · have arithmetic : ¬BinaryOperator.floorDiv.Bitwise := by rintro (h | h | h) <;> cases h
    rw [HeapM.binary_eq_ofInteger (show BinaryOperator.floorDiv ≠ .div by decide)
      (fun same => by cases same) ha hb fun bitwise => absurd bitwise arithmetic, Integer.binary,
      if_neg hy]
    exact divided
  · have arithmetic : ¬BinaryOperator.mod.Bitwise := by rintro (h | h | h) <;> cases h
    rw [HeapM.binary_eq_ofInteger (show BinaryOperator.mod ≠ .div by decide)
      (fun same => by cases same) ha hb fun bitwise => absurd bitwise arithmetic, Integer.binary,
      if_neg hy]
    exact reduced

/-- **Integers are exact.** On a reachable heap a boxed integer is never a word. An operator other
than true division, with an exponent that is not negative, gives on integers of any size:

* the exact result, as a word when it is one and boxed otherwise, and as a truth value only for a
  bitwise operator on two truth values (`Heap.Answers`);
* an error about division by zero exactly for the divisor zero, one about a negative shift count
  exactly for such a count, and otherwise only one about a result that is too large, from products,
  powers and shifts to the left;
* the same whether words or integers of any size are computed with.

Signs and inversion give the exact result and no error. -/
theorem Reachable.integers_exact (reachable : h.Reachable) :
    (∀ {handle : Handle} {n : Int}, h.object? handle = some (.big n) → Word.fits n = false) ∧
    (∀ {op : BinaryOperator} {a b : Value} {x y : Int}, op ≠ .div → (op = .pow → 0 ≤ y) →
      h.integer? a = some x → h.integer? b = some y →
      h.Answers op a b x y (HeapM.binary op a b h) ∧
      (op.DividesByZero y ↔
        ∃ e, HeapM.binary op a b h = .error e h ∧ e.fault.kind = .divisionByZero) ∧
      (op.ShiftsBack y ↔
        ∃ e, HeapM.binary op a b h = .error e h ∧ e.fault.kind = .valueError ∧
          e.fault.message = "negative shift count") ∧
      (¬(op.Bitwise ∧ BothBools a b) →
        HeapM.binary op a b h = HeapM.generalBinary op a b h) ∧
      (op.Bitwise ∧ BothBools a b →
        ∃ t : Bool, HeapM.binary op a b h = .ok (.bool t) h ∧
          HeapM.generalBinary op a b h = .ok (.int (if t then 1 else 0)) h)) ∧
    (∀ {a b : Value} {x y : Int}, h.integer? a = some x → h.integer? b = some y → y ≠ 0 →
      ∃ q r v w h₁ h₂, HeapM.binary .floorDiv a b h = .ok v h₁ ∧ h.Yields q v h₁ ∧
        HeapM.binary .mod a b h = .ok w h₂ ∧ h.Yields r w h₂ ∧ x = q * y + r) ∧
    ∀ {op : UnaryOperator} {a : Value} {x : Int}, op ≠ .not → h.integer? a = some x →
      HeapM.unary op a h = HeapM.generalUnary op a h ∧
        ∃ r v h', HeapM.unary op a h = .ok v h' ∧ op.Exact x r ∧ h.Yields r v h' := by
  refine ⟨fun {handle n} found => ?_, fun {op a b x y} integral natural ha hb => ?_,
    division_exact, fun {op a x} arithmetic ha => ?_⟩
  · obtain ⟨functions, sound⟩ := reachable.sound
    exact sound.at found
  · have answers := binary_answers integral natural ha hb
    have general := HeapM.generalBinary_eq_ofInteger op ha hb
    refine ⟨answers, answers.divides_iff, answers.shifts_iff, fun mixed => ?_, ?_⟩
    · rw [general]
      exact HeapM.binary_eq_ofInteger integral natural ha hb fun bitwise both =>
        mixed ⟨bitwise, both⟩
    · rintro ⟨bitwise, s, t, rfl, rfl⟩
      cases ha
      cases hb
      obtain ⟨u, result, answer⟩ := HeapM.binary_bools bitwise s t
      rw [general, result, answer]
      cases u <;> exact ⟨_, rfl, rfl⟩
  · have exact := op.onInteger_exact arithmetic x
    have general := HeapM.generalUnary_eq_allocInteger op ha
    obtain ⟨v, h', ran, yields⟩ := HeapM.allocInteger_yields h (op.onInteger x)
    rw [HeapM.unary_eq_allocInteger arithmetic ha, general]
    exact ⟨rfl, _, v, h', ran, exact, yields⟩

/-- One more than the largest word is an object. -/
theorem Reachable.integers_exact_successor :
    ∃ r v h', HeapM.binary .add (.int 9223372036854775807) (.int 1)
        (Machine.start .standard).heap = .ok v h' ∧ r = 9223372036854775807 + 1 ∧
      (Machine.start .standard).heap.Yields r v h' := by
  let h := (Machine.start .standard).heap
  have x : h.integer? (.int 9223372036854775807) = some 9223372036854775807 := rfl
  have y : h.integer? (.int 1) = some 1 := rfl
  obtain ⟨-, binary, -⟩ := Reachable.integers_exact (.idle (.start .standard))
  obtain ⟨answers, -⟩ := binary (show BinaryOperator.add ≠ .div from nofun) nofun x y
  generalize HeapM.binary _ _ _ _ = result at answers ⊢
  cases answers with
  | exact _ _ _ exact yields => exact ⟨_, _, _, rfl, exact, yields⟩
  | truth bitwise => rcases bitwise with h | h | h <;> cases h
  | refused refuses =>
    cases refuses with
    | zero divides => rcases divides.1 with h | h <;> cases h
    | negative shifts => rcases shifts.1 with h | h <;> cases h
    | large long => rcases long with h | h | h <;> cases h

end Heap

end RegisterVm
