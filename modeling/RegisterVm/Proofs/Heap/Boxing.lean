import RegisterVm.Proofs.Heap.Exceptions
import RegisterVm.Proofs.Heap.Integers

/-!
# Integers made one after another

`Heap.IsInt` says that a value is an integer, as a word or, when it is none, as an object.
Arithmetic on integers makes integers (`HeapM.binary_makes`), for which the heap needs handles:
`Heap.boxed` counts those that are no words, and `Heap.RoomFor` says that there are handles for
them. Handles are words of 32 bits: when all are in use, the next object gets the first one again
(`Heap.alloc_full`), which names a built-in function (`HeapM.binary_wraps`), and no operator takes
that (`HeapM.binary_builtIn_left`, `HeapM.binary_builtIn_right`).
-/

namespace RegisterVm

namespace Heap

/-- A value is an integer: a word, or an object when it is no word. -/
def IsInt (h : Heap) (v : Value) (n : Int) : Prop :=
  (∃ i, v = .int i ∧ i.toInt = n) ∨ (Word.fits n = false ∧ h.Stores v (.big n))

/-- How many of the integers are no words. -/
def boxed (ns : List Int) : Nat := ns.countP fun n => !Word.fits n

/-- The heap has handles for those of the integers that are no words. -/
def RoomFor (h : Heap) (ns : List Int) : Prop := h.size + boxed ns ≤ 0x100000000

/-- What making an integer does: a heap with that integer and not much more. -/
structure Makes (h : Heap) (n : Int) (v : Value) (h' : Heap) : Prop where
  integer : h'.IsInt v n
  grows : h.Grows h'
  size : h'.size = h.size + boxed [n]

/-- A value is a built-in function. -/
def BuiltIn (h : Heap) (v : Value) : Prop := ∃ f, h.Stores v (.builtin f)

variable {h h' : Heap} {v : Value} {n : Int} {ns : List Int}

@[simp] theorem boxed_nil : boxed [] = 0 := rfl

@[simp] theorem boxed_append (ms ns : List Int) : boxed (ms ++ ns) = boxed ms + boxed ns :=
  List.countP_append

theorem boxed_singleton (n : Int) : boxed [n] = if Word.fits n = true then 0 else 1 := by
  cases fits : Word.fits n <;> simp [boxed, fits]

/-- An integer for which there is no room is no word, and all handles are in use. -/
theorem full_of_not_roomFor (within : h.size ≤ 0x100000000) (noRoom : ¬h.RoomFor [n]) :
    Word.fits n = false ∧ h.size = 0x100000000 := by
  rw [RoomFor, boxed_singleton] at noRoom
  split at noRoom
  · exact absurd within noRoom
  · rename_i big
    exact ⟨Bool.eq_false_iff.mpr big, by omega⟩

theorem isInt_word (h : Heap) (i : Int64) : h.IsInt (.int i) i.toInt := .inl ⟨i, rfl, rfl⟩

namespace IsInt

theorem integer? (integer : h.IsInt v n) : h.integer? v = some n := by
  rcases integer with ⟨i, rfl, rfl⟩ | ⟨-, c, rfl, found⟩
  · rfl
  · simp only [Heap.integer?, found]

theorem grows (integer : h.IsInt v n) (grows : h.Grows h') : h'.IsInt v n := by
  refine integer.imp_right fun ⟨big, c, value, found⟩ => ⟨big, c, value, ?_⟩
  obtain ⟨o, found', becomes⟩ := grows.object c _ found
  cases becomes
  exact found'

/-- Integers are no truth values. -/
theorem not_bool (integer : h.IsInt v n) (t : Bool) : v ≠ .bool t := by
  rintro rfl
  rcases integer with ⟨i, same, -⟩ | ⟨-, c, same, -⟩ <;> cases same

end IsInt

namespace BuiltIn

theorem grows (builtIn : h.BuiltIn v) (grows : h.Grows h') : h'.BuiltIn v := by
  obtain ⟨f, c, value, found⟩ := builtIn
  obtain ⟨o, found', becomes⟩ := grows.object c _ found
  cases becomes
  exact ⟨f, c, value, found'⟩

/-- Built-in functions are no integers. -/
theorem not_isInt (builtIn : h.BuiltIn v) (n : Int) : ¬h.IsInt v n := by
  obtain ⟨f, stored⟩ := builtIn
  rintro (⟨i, rfl, -⟩ | ⟨-, stored'⟩)
  · obtain ⟨c, same, -⟩ := stored
    cases same
  · cases stored.unique stored'

end BuiltIn

/-- When all handles are in use, the next object gets the first one. -/
theorem alloc_full (full : h.size = 0x100000000) (o : Object) : (h.alloc o).1 = ⟨0⟩ := by
  have wraps : UInt32.ofNat h.size = 0 := by
    rw [full]
    rfl
  exact congrArg Handle.mk wraps

namespace Yields

theorem grows (yields : h.Yields n v h') : h.Grows h' := by
  cases fits : Word.fits n with
  | true =>
    rw [(yields.word fits).2]
    exact .refl h
  | false =>
    rw [(yields.boxed fits).2]
    exact h.grows_alloc _

/-- One handle is enough for an integer. -/
theorem makes (yields : h.Yields n v h') (room : h.RoomFor [n]) : h.Makes n v h' := by
  rw [RoomFor, boxed_singleton] at room
  cases fits : Word.fits n with
  | true =>
    obtain ⟨⟨i, rfl, same⟩, rfl⟩ := yields.word fits
    exact ⟨.inl ⟨i, rfl, same⟩, yields.grows,
      by rw [boxed_singleton, if_pos fits, Nat.add_zero]⟩
  | false =>
    have big : ¬Word.fits n = true := Bool.eq_false_iff.mp fits
    rw [if_neg big] at room
    obtain ⟨rfl, rfl⟩ := yields.boxed fits
    exact ⟨.inr ⟨fits, h.stores_alloc _ room⟩, yields.grows,
      by rw [boxed_singleton, if_neg big, size_alloc]⟩

/-- Without a handle for the integer the value is the function that has the first one. -/
theorem wraps (yields : h.Yields n v h') (first : h.BuiltIn (.object ⟨0⟩))
    (within : h.size ≤ 0x100000000) (noRoom : ¬h.RoomFor [n]) : h'.BuiltIn v := by
  obtain ⟨big, full⟩ := full_of_not_roomFor within noRoom
  rw [(yields.boxed big).1, alloc_full full]
  exact first.grows yields.grows

end Yields

end Heap

namespace HeapM

variable {h : Heap} {a b : Value} {x y r : Int}

theorem binary_yields (op : BinaryOperator) (integral : op ≠ .div) (natural : op = .pow → 0 ≤ y)
    (ha : h.IsInt a x) (hb : h.IsInt b y) (answer : Integer.binary op x y = .ok (.int r)) :
    ∃ v h', binary op a b h = .ok v h' ∧ h.Yields r v h' := by
  obtain ⟨v, h', made, yields⟩ := allocInteger_yields h r
  refine ⟨v, h', ?_, yields⟩
  rw [binary_eq_ofInteger integral natural ha.integer? hb.integer? ?_, answer]
  · exact made
  · rintro - ⟨t, _, rfl, -⟩
    exact ha.not_bool t rfl

/-- **Arithmetic on integers makes integers**, where the result is one. -/
theorem binary_makes (op : BinaryOperator) (integral : op ≠ .div) (natural : op = .pow → 0 ≤ y)
    (ha : h.IsInt a x) (hb : h.IsInt b y) (answer : Integer.binary op x y = .ok (.int r))
    (room : h.RoomFor [r]) : ∃ v h', binary op a b h = .ok v h' ∧ h.Makes r v h' := by
  obtain ⟨v, h', made, yields⟩ := binary_yields op integral natural ha hb answer
  exact ⟨v, h', made, yields.makes room⟩

/-- **Without a handle for the result** arithmetic on integers gives a built-in function. -/
theorem binary_wraps (op : BinaryOperator) (integral : op ≠ .div) (natural : op = .pow → 0 ≤ y)
    (ha : h.IsInt a x) (hb : h.IsInt b y) (answer : Integer.binary op x y = .ok (.int r))
    (first : h.BuiltIn (.object ⟨0⟩)) (within : h.size ≤ 0x100000000) (noRoom : ¬h.RoomFor [r]) :
    ∃ v h', binary op a b h = .ok v h' ∧ h'.BuiltIn v := by
  obtain ⟨v, h', made, yields⟩ := binary_yields op integral natural ha hb answer
  exact ⟨v, h', made, yields.wraps first within noRoom⟩

/-! ## Built-in functions as operands -/

theorem Sequence.binary?_builtIn_left (op : BinaryOperator) (a b : Value) (f : Builtin)
    (o : Option Object) : Sequence.binary? op a b (some (.builtin f)) o = .ok none := by
  cases o with
  | some o => cases o <;> rfl
  | none =>
    simp only [Sequence.binary?, Sequence.repeated?]
    split <;> rfl

theorem Sequence.binary?_builtIn_right (op : BinaryOperator) (a b : Value) (f : Builtin)
    (o : Option Object) : Sequence.binary? op a b o (some (.builtin f)) = .ok none := by
  cases o with
  | some o => cases o <;> rfl
  | none =>
    simp only [Sequence.binary?, Sequence.repeated?]
    split <;> rfl

/-- Values that are no numbers are left to the operators of sequences. -/
theorem generalBinary_eq_sequences (op : BinaryOperator)
    (integers : h.integer? a = none ∨ h.integer? b = none) (floats : h.mixedFloats? a b = none) :
    generalBinary op a b h = (do
      match ← inspect fun h => do Sequence.binary? op a b (← h.view a) (← h.view b) with
      | some o => alloc o
      | none => inspect fun h => refuse (h.unsupported op a b)) h := by
  have read : (get : HeapM Heap) h = .ok h h := rfl
  simp only [generalBinary, Bind.bind, EStateM.bind, read]
  rcases integers with absent | absent
  · simp only [absent, floats]
    rfl
  · cases h.integer? a <;> simp only [absent, floats] <;> rfl

/-- What is neither a number nor a sequence is refused by every operator. -/
theorem generalBinary_refused (op : BinaryOperator)
    (integers : h.integer? a = none ∨ h.integer? b = none) (floats : h.mixedFloats? a b = none)
    (sequences : ∀ o o', h.view a = .ok o → h.view b = .ok o' →
      Sequence.binary? op a b o o' = .ok none) : ∃ e, generalBinary op a b h = .error e h := by
  rw [generalBinary_eq_sequences op integers floats]
  simp only [Bind.bind, EStateM.bind, inspect, Except.bind]
  cases viewed : h.view a with
  | error e => exact ⟨e, rfl⟩
  | ok o =>
    cases viewed' : h.view b with
    | error e => exact ⟨e, rfl⟩
    | ok o' =>
      simp only [sequences o o' viewed viewed']
      exact ⟨_, rfl⟩

theorem binary_builtIn_left (op : BinaryOperator) (ha : h.BuiltIn a) (b : Value) :
    ∃ e, binary op a b h = .error e h := by
  obtain ⟨f, stored⟩ := ha
  have viewed := stored.view
  obtain ⟨c, rfl, found⟩ := stored
  have general : binary op (.object c) b = generalBinary op (.object c) b := rfl
  have float : h.float? (.object c) = none := by
    simp only [Heap.float?, viewed]
    rfl
  rw [general]
  refine generalBinary_refused op (.inl ?_) ?_ fun o o' view _ => ?_
  · simp only [Heap.integer?, found]
  · simp only [Heap.mixedFloats?, float]
    split <;> rfl
  · rw [viewed] at view
    cases view
    exact Sequence.binary?_builtIn_left ..

theorem binary_builtIn_right (op : BinaryOperator) (a : Value) (hb : h.BuiltIn b) :
    ∃ e, binary op a b h = .error e h := by
  obtain ⟨f, stored⟩ := hb
  have viewed := stored.view
  obtain ⟨c, rfl, found⟩ := stored
  have general : binary op a (.object c) = generalBinary op a (.object c) := by
    unfold binary
    rw [if_neg]
    simp [Value.isNumber]
  have float : h.float? (.object c) = none := by
    simp only [Heap.float?, viewed]
    rfl
  rw [general]
  refine generalBinary_refused op (.inr ?_) ?_ fun o o' _ view => ?_
  · simp only [Heap.integer?, found]
  · simp only [Heap.mixedFloats?, float]
    split
    · cases h.float? a <;> rfl
    · rfl
  · rw [viewed] at view
    cases view
    exact Sequence.binary?_builtIn_right ..

/-! ## Additions in place -/

theorem isList_eq_false {o : Object} (stored : h.Stores a o) (noList : o.isList = false) :
    isList a h = .ok false h := by
  simp only [isList, view, inspect, stored.view, Bind.bind, EStateM.bind]
  exact congrArg (fun t => EStateM.Result.ok t h) noList

theorem addInPlace_eq_binary (noList : isList a h = .ok false h) :
    addInPlace a b h = binary .add a b h := by
  simp only [addInPlace, Bind.bind, EStateM.bind, noList]
  rfl

/-- No integer is a list, so integers are added in place as they are added. -/
theorem addInPlace_of_integer (ha : h.IsInt a x) : addInPlace a b h = binary .add a b h := by
  refine addInPlace_eq_binary ?_
  rcases ha with ⟨i, rfl, -⟩ | ⟨-, stored⟩
  · rfl
  · exact isList_eq_false stored rfl

theorem addInPlace_builtIn_left (ha : h.BuiltIn a) (b : Value) :
    ∃ e, addInPlace a b h = .error e h := by
  obtain ⟨f, stored⟩ := ha
  rw [addInPlace_eq_binary (isList_eq_false stored rfl)]
  exact binary_builtIn_left .add ⟨f, stored⟩ b

end HeapM

end RegisterVm
