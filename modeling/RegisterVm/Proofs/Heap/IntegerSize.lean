import RegisterVm.Proofs.Heap.Changes
import RegisterVm.Proofs.Heap.Integers
import RegisterVm.Proofs.Heap.Operators
import RegisterVm.Proofs.Number.Length

/-!
# The size of integers on the heap

Products, powers and shifts to the left never give more than `maxBits` bits. The other operators
are not refused for the size of a result, and five of them may carry into one more bit. So some
operations, one after the other, pass the limit by no more bits than there are operators among them
that carry (`Heap.Computes.integersWithin`, `Heap.IntegersWithin.arithmetic`), and each of the five
does pass it (`Heap.IntegersWithin.passed`).
-/

namespace RegisterVm

/-- By how many bits a result may be longer than the operand. -/
def UnaryOperator.carry : UnaryOperator → Nat
  | invert => 1
  | _ => 0

theorem UnaryOperator.length_onInteger_le (op : UnaryOperator) {x : Int} {k : Nat}
    (hx : Bits.length x ≤ k) : Bits.length (op.onInteger x) ≤ k + op.carry := by
  cases op with
  | neg => exact (Bits.length_neg x).trans_le hx
  | invert => exact Bits.length_not_le hx
  | pos | not => exact hx

/-! ## Integers of a bounded size -/

/-- No integer of the heap is longer than `limit`. -/
def Heap.IntegersWithin (limit : Nat) (h : Heap) : Prop :=
  ∀ (handle : Handle) (n : Int), h.object? handle = some (.big n) → Bits.length n ≤ limit

/-- An object that is no integer, or an integer that is not longer than `limit`. -/
def Object.IntegerWithin (limit : Nat) (o : Object) : Prop :=
  ∀ n, o = .big n → Bits.length n ≤ limit

namespace Heap.IntegersWithin

variable {limit : Nat} {h : Heap}

theorem mono (bounded : h.IntegersWithin limit) {limit' : Nat} (le : limit ≤ limit') :
    h.IntegersWithin limit' :=
  fun handle n found => (bounded handle n found).trans le

theorem empty (limit : Nat) : Heap.empty.IntegersWithin limit :=
  fun _ _ found => by cases found

theorem alloc (bounded : h.IntegersWithin limit) {o : Object} (ho : o.IntegerWithin limit) :
    (h.alloc o).2.IntegersWithin limit := by
  intro handle n found
  simp only [object?, Heap.alloc, Array.getElem?_push] at found
  split at found
  · exact ho n (Option.some.inj found)
  · exact bounded handle n found

/-- An integer is a word, a truth value or an integer of the heap. -/
theorem length_le (bounded : h.IntegersWithin limit) (word : 64 ≤ limit) {v : Value} {n : Int}
    (value : h.integer? v = some n) : Bits.length n ≤ limit := by
  cases v with
  | int i =>
    cases value
    exact (Word.length_le i).trans word
  | bool t =>
    cases value
    have short : Bits.length (if t then 1 else 0) ≤ 64 := by cases t <;> decide
    exact short.trans word
  | object handle =>
    cases found : h.object? handle with
    | none => rw [integer?, found] at value; cases value
    | some o =>
      cases o with
      | big m =>
        rw [integer?, found] at value
        cases value
        exact bounded handle _ found
      | _ => rw [integer?, found] at value; cases value
  | float | none => cases value

end Heap.IntegersWithin

/-! ## What operators add to the heap -/

theorem Object.Sequential.integerWithin {o : Object} (sequential : o.Sequential) (limit : Nat) :
    o.IntegerWithin limit := by
  cases sequential <;> nofun

namespace HeapM

/-- An operation leaves the heap alone or adds one object, which is no integer longer than
`limit`. -/
inductive Adds (limit : Nat) (operation : HeapM Value) (h : Heap) : Prop
  | nothing : operation.after h = h → Adds limit operation h
  | object {o : Object} : o.IntegerWithin limit → operation.after h = (h.alloc o).2 →
    Adds limit operation h

variable {h : Heap} {limit : Nat} {a b : Value}

namespace Adds

theorem integersWithin {operation : HeapM Value} (adds : Adds limit operation h)
    (bounded : h.IntegersWithin limit) : (operation.after h).IntegersWithin limit := by
  cases adds with
  | nothing same => rwa [same]
  | object ho same => exact same ▸ bounded.alloc ho

theorem pure (v : Value) : Adds limit (pure v) h := .nothing rfl

theorem fail (fault : Fault) : Adds limit (fail fault) h := .nothing rfl

theorem get {f : Heap → HeapM Value} (hf : Adds limit (f h) h) : Adds limit (get >>= f) h := by
  cases hf with
  | nothing same => exact .nothing same
  | object ho same => exact .object ho same

theorem inspectBind {α : Type} {f : Heap → Outcome α} {g : α → HeapM Value}
    (hg : ∀ r, f h = .ok r → Adds limit (g r) h) : Adds limit (RegisterVm.inspect f >>= g) h := by
  cases read : f h with
  | error e =>
    refine .nothing ?_
    simp only [after, Bind.bind, EStateM.bind, RegisterVm.inspect, read]
  | ok r =>
    have same : (RegisterVm.inspect f >>= g).after h = (g r).after h := by
      simp only [after, Bind.bind, EStateM.bind, RegisterVm.inspect, read]
    cases hg r read with
    | nothing nothing => exact .nothing (same.trans nothing)
    | object ho added => exact .object ho (same.trans added)

theorem inspect (f : Heap → Outcome Value) : Adds limit (inspect f) h := by
  refine .nothing ?_
  simp only [after, RegisterVm.inspect]
  cases f h <;> rfl

theorem allocInteger {n : Int} (short : Bits.length n ≤ limit) :
    Adds limit (allocInteger n) h := by
  unfold HeapM.allocInteger
  split
  · exact .pure _
  · exact .object (fun m same => by cases same; exact short) rfl

theorem ofInteger {answer : Except Fault Integer.Result}
    (short : ∀ n, answer = .ok (.int n) → Bits.length n ≤ limit) :
    Adds limit (ofInteger answer) h := by
  unfold HeapM.ofInteger
  split
  · exact .allocInteger (short _ rfl)
  · exact .pure _
  · exact .fail _

theorem generalBinary {op : BinaryOperator}
    (short : ∀ x y n, h.integer? a = some x → h.integer? b = some y →
      Integer.binary op x y = .ok (.int n) → Bits.length n ≤ limit) :
    Adds limit (generalBinary op a b) h := by
  refine .get ?_
  split
  · rename_i x y ha hb
    exact .ofInteger fun n => short x y n ha hb
  · split
    · exact .inspect _
    · refine .inspectBind fun result read => ?_
      have sequences : Outcome.Gives (do Sequence.binary? op a b (← h.view a) (← h.view b))
          fun result => ∀ o, result = some o → o.Sequential :=
        .after fun _ => .after fun _ _ made o same => sequential_of_binary? (same ▸ made)
      split
      · exact .object ((sequences _ read _ rfl).integerWithin limit) rfl
      · exact .inspect _

theorem binary {op : BinaryOperator}
    (short : ∀ x y n, h.integer? a = some x → h.integer? b = some y →
      Integer.binary op x y = .ok (.int n) → Bits.length n ≤ limit) :
    Adds limit (binary op a b) h := by
  unfold HeapM.binary
  split
  · split
    · exact .pure _
    · exact .generalBinary short
    · exact .inspect _
    · exact .fail _
  · exact .generalBinary short

theorem generalUnary {op : UnaryOperator}
    (short : ∀ x, h.integer? a = some x → Bits.length (op.onInteger x) ≤ limit) :
    Adds limit (generalUnary op a) h := by
  refine .get ?_
  split
  · rename_i x ha
    refine .allocInteger ?_
    have short := short x ha
    cases op <;> exact short
  · exact .inspect _

theorem unary {op : UnaryOperator}
    (short : ∀ x, h.integer? a = some x → Bits.length (op.onInteger x) ≤ limit) :
    Adds limit (unary op a) h := by
  unfold HeapM.unary
  split
  · exact .inspect _
  · split
    · split
      · exact .pure _
      · exact .generalUnary short
      · exact .inspect _
    · exact .generalUnary short

end Adds

end HeapM

/-! ## One operator after the other -/

namespace Heap

variable {limit : Nat} {h : Heap}

/-- A binary operator gives integers that may be longer than the limit by its carry. -/
theorem IntegersWithin.binary (bounded : h.IntegersWithin limit) (least : maxBits ≤ limit)
    (op : BinaryOperator) (a b : Value) :
    ((HeapM.binary op a b).after h).IntegersWithin (limit + op.carry) := by
  have word : 64 ≤ limit := Nat.le_trans (by decide) least
  refine HeapM.Adds.integersWithin (.binary fun x y n ha hb answer => ?_)
    (bounded.mono (Nat.le_add_right limit _))
  exact Integer.length_binary_le least (bounded.length_le word ha) (bounded.length_le word hb)
    answer

theorem IntegersWithin.unary (bounded : h.IntegersWithin limit) (least : maxBits ≤ limit)
    (op : UnaryOperator) (a : Value) :
    ((HeapM.unary op a).after h).IntegersWithin (limit + op.carry) := by
  have word : 64 ≤ limit := Nat.le_trans (by decide) least
  refine HeapM.Adds.integersWithin (.unary fun x ha => ?_)
    (bounded.mono (Nat.le_add_right limit _))
  exact op.length_onInteger_le (bounded.length_le word ha)

/-- What becomes of a heap by operators one after the other, of which so many carry. -/
inductive Computes (h : Heap) : Nat → Heap → Prop
  | refl : Computes h 0 h
  | binary {carries : Nat} {h' : Heap} (op : BinaryOperator) (a b : Value) :
    Computes h carries h' → Computes h (carries + op.carry) ((HeapM.binary op a b).after h')
  | unary {carries : Nat} {h' : Heap} (op : UnaryOperator) (a : Value) :
    Computes h carries h' → Computes h (carries + op.carry) ((HeapM.unary op a).after h')

/-- Integers become longer by the operators that carry only. -/
theorem Computes.integersWithin {carries : Nat} {h' : Heap} (computes : h.Computes carries h')
    (bounded : h.IntegersWithin limit) (least : maxBits ≤ limit) :
    h'.IntegersWithin (limit + carries) := by
  induction computes with
  | refl => exact bounded
  | binary op a b _ ih =>
    exact Nat.add_assoc .. ▸ ih.binary (Nat.le_add_right_of_le least) op a b
  | unary op a _ ih => exact Nat.add_assoc .. ▸ ih.unary (Nat.le_add_right_of_le least) op a

/-! ## The widest integers -/

/-- An operation gives an integer that is longer than `limit`. -/
def Overlong (limit : Nat) (operation : HeapM Value) (h : Heap) : Prop :=
  ∃ v h' n, operation h = .ok v h' ∧ h'.integer? v = some n ∧ limit < Bits.length n

theorem overlong_allocInteger {n : Int} (room : h.size < 0x100000000)
    (long : limit < Bits.length n) : Overlong limit (HeapM.allocInteger n) h := by
  obtain ⟨v, h', ran, yields⟩ := HeapM.allocInteger_yields h n
  exact ⟨v, h', n, ran, yields.value room, long⟩

theorem overlong_binary {op : BinaryOperator} {handle : Handle} {b : Value} {x y r : Int}
    (carries : op.carry = 1) (room : h.size < 0x100000000)
    (ha : h.integer? (.object handle) = some x) (hb : h.integer? b = some y)
    (answer : Integer.binary op x y = .ok (.int r)) (long : limit < Bits.length r) :
    Overlong limit (HeapM.binary op (.object handle) b) h := by
  have integral : op ≠ .div := by rintro rfl; cases carries
  have natural : op = .pow → 0 ≤ y := by rintro rfl; cases carries
  have same := HeapM.binary_eq_ofInteger integral natural ha hb fun _ both => by
    obtain ⟨_, _, bool, -⟩ := both
    cases bool
  rw [Overlong, same, answer]
  exact overlong_allocInteger room long

/-- The heap with the largest and the smallest integer of `k` bits. -/
def widest (k : Nat) : Heap :=
  ((empty.alloc (.big (2 ^ k - 1))).2.alloc (.big (1 - 2 ^ k))).2

namespace widest

variable {k : Nat}

/-- The largest integer of the heap. -/
abbrev largest : Value := .object ⟨0⟩

/-- The smallest integer of the heap. -/
abbrev smallest : Value := .object ⟨1⟩

theorem integer_largest (k : Nat) : (widest k).integer? largest = some (2 ^ k - 1) := rfl

theorem integer_smallest (k : Nat) : (widest k).integer? smallest = some (1 - 2 ^ k) := rfl

theorem integersWithin (k : Nat) : (widest k).IntegersWithin k := by
  have positive : (0 : Int) < 2 ^ k := Int.pow_pos (by decide)
  have length : ∀ n : Int, n.natAbs < (2 : Int) ^ k → Bits.length n ≤ k := fun n short =>
    (Bits.length_le_iff n k).mpr (by exact_mod_cast short)
  refine ((IntegersWithin.empty k).alloc fun n same => ?_).alloc fun n same => ?_ <;>
    cases same <;> exact length _ (by omega)

theorem length_above {n : Int} (above : 2 ^ k ≤ (n.natAbs : Int)) : k < Bits.length n := by
  refine Nat.lt_of_not_le fun short => ?_
  have below := (Bits.length_le_iff n k).mp short
  have : (n.natAbs : Int) < 2 ^ k := by exact_mod_cast below
  omega

/-- Two to the power of the width, as the integers of the heap are read bit by bit. -/
theorem exists_half (wide : k ≠ 0) :
    ∃ m : Nat, (2 ^ k : Int) = 2 * m + 2 ∧ (2 ^ k - 1 : Int) = (2 * m + 1 : Nat) ∧
      (1 - 2 ^ k : Int) = .negSucc (2 * m) := by
  obtain ⟨j, rfl⟩ := Nat.exists_eq_succ_of_ne_zero wide
  obtain ⟨m, power⟩ := Nat.exists_eq_succ_of_ne_zero (Nat.two_pow_pos j).ne'
  have double : (2 ^ (j + 1) : Int) = 2 * m + 2 := by
    have : (2 ^ (j + 1) : Nat) = 2 * m + 2 := by rw [Nat.pow_succ, power]; omega
    exact_mod_cast this
  exact ⟨m, double, by omega, by omega⟩

theorem and_smallest (wide : k ≠ 0) : Bits.and (1 - 2 ^ k) (-2) = -2 ^ k := by
  obtain ⟨m, power, -, smallest⟩ := exists_half wide
  have odd : 2 * m ||| 1 = 2 * m + 1 := (Nat.two_pow_add_eq_or_of_lt (i := 1) (by decide) m).symm
  rw [smallest, power]
  change Int.negSucc (2 * m ||| 1) = _
  rw [odd, Int.negSucc_eq]
  omega

theorem xor_largest (wide : k ≠ 0) : Bits.xor (2 ^ k - 1) (-1) = -2 ^ k := by
  obtain ⟨m, power, largest, -⟩ := exists_half wide
  rw [largest, power]
  change Int.negSucc ((2 * m + 1) ^^^ 0) = _
  rw [Nat.xor_zero, Int.negSucc_eq]
  omega

theorem not_largest (wide : k ≠ 0) : Bits.not (2 ^ k - 1) = -2 ^ k := by
  obtain ⟨m, power, largest, -⟩ := exists_half wide
  rw [largest, power]
  change Int.negSucc (2 * m + 1) = _
  rw [Int.negSucc_eq]
  omega

/-- Each of the operators that carry gives an integer of one more bit. -/
theorem overlong (wide : k ≠ 0) :
    Overlong k (HeapM.binary .add largest largest) (widest k) ∧
    Overlong k (HeapM.binary .sub largest smallest) (widest k) ∧
    Overlong k (HeapM.binary .bitAnd smallest (.int (-2))) (widest k) ∧
    Overlong k (HeapM.binary .bitXor largest (.int (-1))) (widest k) ∧
    Overlong k (HeapM.unary .invert largest) (widest k) := by
  have room : (widest k).size < 0x100000000 := by simp [widest]; decide
  have two : (2 : Int) ≤ 2 ^ k := by
    obtain ⟨m, power, -⟩ := exists_half wide
    omega
  have above : k < Bits.length (-2 ^ k) := length_above (by omega)
  have sum : Overlong k (HeapM.binary .add largest largest) (widest k) :=
    overlong_binary rfl room (integer_largest k) (integer_largest k) rfl (length_above (by omega))
  have difference : Overlong k (HeapM.binary .sub largest smallest) (widest k) :=
    overlong_binary rfl room (integer_largest k) (integer_smallest k) rfl (length_above (by omega))
  have conjunction : Integer.binary .bitAnd (1 - 2 ^ k) (-2) = .ok (.int (-2 ^ k)) := by
    rw [Integer.binary, and_smallest wide]
  have exclusion : Integer.binary .bitXor (2 ^ k - 1) (-1) = .ok (.int (-2 ^ k)) := by
    rw [Integer.binary, xor_largest wide]
  have inversion :
      HeapM.unary .invert largest (widest k) = HeapM.allocInteger (-2 ^ k) (widest k) := by
    rw [HeapM.unary_eq_allocInteger (show UnaryOperator.invert ≠ .not by decide)
      (integer_largest k), UnaryOperator.onInteger, not_largest wide]
  refine ⟨sum, difference,
    overlong_binary rfl room (integer_smallest k) rfl conjunction above,
    overlong_binary rfl room (integer_largest k) rfl exclusion above, ?_⟩
  rw [Overlong, inversion]
  exact overlong_allocInteger room above

theorem length_square (wide : 2 ≤ k) : k < Bits.length ((2 ^ k - 1) * (2 ^ k - 1)) := by
  have four : (2 : Int) ^ 2 ≤ 2 ^ k := pow_le_pow_right₀ (by decide) wide
  have square : 3 * (2 ^ k - 1) ≤ ((2 : Int) ^ k - 1) * (2 ^ k - 1) :=
    Int.mul_le_mul_of_nonneg_right (by omega) (by omega)
  generalize ((2 : Int) ^ k - 1) * (2 ^ k - 1) = n at square ⊢
  exact length_above (by omega)

end widest

/-! ## The limit -/

/-- **The size of integers is limited.** On a heap whose integers have at most `maxBits` bits

* an operator gives integers of at most `maxBits` bits, or one more for sums, differences,
  conjunctions, exclusive disjunctions and inversions;
* products, powers and shifts to the left of integers are refused when the exact result would be
  longer than `maxBits`;
* operators one after the other pass the limit by one bit at most for each that carries. -/
theorem IntegersWithin.arithmetic (bounded : h.IntegersWithin maxBits) :
    (∀ {op : BinaryOperator} {a b v : Value} {h' : Heap} {n : Int},
      HeapM.binary op a b h = .ok v h' → h'.integer? v = some n →
      Bits.length n ≤ maxBits + op.carry) ∧
    (∀ {op : UnaryOperator} {a v : Value} {h' : Heap} {n : Int},
      HeapM.unary op a h = .ok v h' → h'.integer? v = some n →
      Bits.length n ≤ maxBits + op.carry) ∧
    (∀ {op : BinaryOperator} {a b : Value} {x y r : Int}, h.integer? a = some x →
      h.integer? b = some y → Integer.Limited op y → op.Exact x y r → maxBits < Bits.length r →
      ∃ e, HeapM.binary op a b h = .error e h ∧ e.kind = .valueError ∧
        e.message = "integer result too large") ∧
    ∀ {carries : Nat} {h' : Heap}, h.Computes carries h' →
      h'.IntegersWithin (maxBits + carries) := by
  have least := Nat.le_refl maxBits
  have word : ∀ carry, 64 ≤ maxBits + carry := fun carry =>
    Nat.le_add_right_of_le (by decide)
  refine ⟨fun {op a b v h' n} ran value => ?_, fun {op a v h' n} ran value => ?_,
    fun {op a b x y r} ha hb limited exact long => ?_,
    fun computes => computes.integersWithin bounded least⟩
  · have result := bounded.binary least op a b
    rw [HeapM.after_of_ok ran] at result
    exact result.length_le (word op.carry) value
  · have result := bounded.unary least op a
    rw [HeapM.after_of_ok ran] at result
    exact result.length_le (word op.carry) value
  · obtain ⟨fault, refused, kind, message⟩ := limited.refuses exact long
    refine ⟨.ofFault fault, ?_, kind, message⟩
    rw [HeapM.binary_eq_ofInteger limited.integral limited.natural ha hb
      fun bitwise => absurd bitwise limited.not_bitwise, refused]
    rfl

/-- The product of the largest integers is refused. -/
theorem IntegersWithin.arithmetic_widest :
    (widest maxBits).IntegersWithin maxBits ∧
    ∃ e, HeapM.binary .mul widest.largest widest.largest (widest maxBits) =
        .error e (widest maxBits) ∧
      e.kind = .valueError ∧ e.message = "integer result too large" := by
  have bounded := widest.integersWithin maxBits
  obtain ⟨-, -, refused, -⟩ := IntegersWithin.arithmetic bounded
  have square := widest.length_square (show 2 ≤ maxBits by decide)
  exact ⟨bounded, refused (widest.integer_largest maxBits) (widest.integer_largest maxBits)
    (.inl rfl) rfl square⟩

/-- **The limit is passed** by operators that carry. -/
theorem IntegersWithin.passed :
    (widest maxBits).IntegersWithin maxBits ∧
    Overlong maxBits (HeapM.binary .add widest.largest widest.largest) (widest maxBits) ∧
    Overlong maxBits (HeapM.binary .sub widest.largest widest.smallest) (widest maxBits) ∧
    Overlong maxBits (HeapM.binary .bitAnd widest.smallest (.int (-2))) (widest maxBits) ∧
    Overlong maxBits (HeapM.binary .bitXor widest.largest (.int (-1))) (widest maxBits) ∧
    Overlong maxBits (HeapM.unary .invert widest.largest) (widest maxBits) :=
  ⟨widest.integersWithin maxBits, widest.overlong (by decide)⟩

end Heap

end RegisterVm
