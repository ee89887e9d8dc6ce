import RegisterVm.Proofs.Heap.Containers
import RegisterVm.Proofs.Heap.Keys

/-!
# Membership

Whether a value is in a list or tuple is decided by comparing it with the items, and whether it is
in a range by a formula that looks at its word. So a value is in a container when a loop over the
container is given a value that equals it (`Heap.Reachable.membership`), but for floats and ranges:
a float is in no range, also when it equals an integer of it.
-/

namespace RegisterVm

namespace Heap

variable {functions : Nat} {h h' : Heap} {c : Handle} {o : Object} {x : Value} {vs : List Value}

/-! ## Comparing with the items -/

/-- The search stops at the first equal value; the comparisons before it have succeeded. -/
theorem anyEqual_iff {b : Bool} (searched : h.anyEqual x vs = .ok b) :
    b = true ↔ ∃ v ∈ vs, h.equal v x = .ok true := by
  induction vs with
  | nil =>
    cases searched
    simp
  | cons v vs ih =>
    simp only [anyEqual, Bind.bind, Except.bind] at searched
    cases compared : h.equal v x with
    | error e =>
      rw [compared] at searched
      cases searched
    | ok equal =>
      rw [compared] at searched
      cases equal with
      | true =>
        cases searched
        exact ⟨fun _ => ⟨v, List.mem_cons_self, compared⟩, fun _ => rfl⟩
      | false =>
        rw [ih searched]
        simp [compared]

theorem exists_anyEqual (compares : ∀ v ∈ vs, ∃ b, h.equal v x = .ok b) :
    ∃ b, h.anyEqual x vs = .ok b := by
  induction vs with
  | nil => exact ⟨false, rfl⟩
  | cons v vs ih =>
    obtain ⟨equal, compared⟩ := compares v List.mem_cons_self
    obtain ⟨b, searched⟩ := ih fun w hw => compares w (List.mem_cons_of_mem v hw)
    simp only [anyEqual, Bind.bind, Except.bind, compared]
    cases equal with
    | true => exact ⟨true, rfl⟩
    | false => exact ⟨b, searched⟩

/-! ## Integers of a range -/

theorem equal_int_eq (h : Heap) (i : Int64) (a : Handle) : h.equal (.int i) (.object a) =
    if h.isBig (.object a) then .ok (h.largeEqual (.int i) (.object a))
    else (h.view (.object a)).bind fun o => h.objectsEqual (h.equalWithin comparisonDepth) none o :=
  rfl

/-- A word equals no object: large integers are no words. -/
theorem equal_int_object (sound : h.Sound functions) (i : Int64) (a : Handle) :
    h.equal (.int i) (.object a) ≠ .ok true := by
  rw [equal_int_eq]
  split
  · rename_i big
    obtain ⟨_, n, same, found⟩ := isBig_iff.mp big
    cases same
    have large : Word.fits n = false := sound.at found
    have apart : i.toInt ≠ n := fun same => by
      rw [← same, Word.fits_toInt] at large
      cases large
    have unequal : h.largeEqual (.int i) (.object a) = (i.toInt == n) := by
      simp only [largeEqual, integer?, found]
    simp [unequal, beq_false_of_ne apart]
  · cases h.view (.object a) with
    | error e => simp [Except.bind]
    | ok o => simp [Except.bind, objectsEqual]

theorem equal_of_number? {a b : Value} {p q : Primitive.Number}
    (ha : Primitive.number? a = some p) (hb : Primitive.number? b = some q) :
    h.equal a b = .ok (p.equal q) := by
  have compared := congrArg (Except.mapError fun kind => Failure.ofFault (.signal kind))
    (Primitive.equal_of_number? ha hb)
  cases a with
  | none | object => cases ha
  | bool | int | float =>
    cases b with
    | none | object => cases hb
    | bool | int | float => exact compared

/-- A word equals the values that stand for it. -/
theorem equal_int_iff (sound : h.Sound functions) {i : Int64} (noFloat : ∀ f, x ≠ .float f) :
    h.equal (.int i) x = .ok true ↔ x.asInt? = some i := by
  have stands : ∀ {j : Int64}, Primitive.number? x = some (.int j) →
      (h.equal (.int i) x = .ok true ↔ some j = some i) := by
    intro j number
    rw [equal_of_number? (p := .int i) rfl number, Except.ok.injEq, Option.some.injEq]
    exact beq_iff_eq.trans eq_comm
  cases x with
  | none => exact ⟨nofun, nofun⟩
  | bool b => exact stands rfl
  | int j => exact stands rfl
  | float f => exact absurd rfl (noFloat f)
  | object a => exact ⟨fun same => absurd same (equal_int_object sound i a), nofun⟩

/-- A word can be compared with every value. -/
theorem exists_equal_int (has : h.Has x) (i : Int64) : ∃ b, h.equal (.int i) x = .ok b := by
  cases x with
  | object a =>
    obtain ⟨o, found⟩ := exists_object has
    rw [equal_int_eq, view_object found]
    split
    · exact ⟨_, rfl⟩
    · exact ⟨false, rfl⟩
  | none => exact ⟨false, rfl⟩
  | bool | int | float => exact ⟨_, equal_of_number? rfl rfl⟩

/-! ## Containers -/

theorem contains_items {items : Array Value} (found : h.object? c = some (.list items) ∨
    h.object? c = some (.tuple items)) (x : Value) :
    h.contains (.object c) x = h.anyEqual x items.toList := by
  rcases found with found | found <;>
    simp only [contains, view_object found, Bind.bind, Except.bind]

theorem contains_range {r : IntRange} (found : h.object? c = some (.range r)) (x : Value) :
    h.contains (.object c) x = .ok (x.asInt?.any r.contains) := by
  simp only [contains, view_object found, Bind.bind, Except.bind]
  rfl

/-- **A range contains what equals one of its integers and is no float.** -/
theorem contains_range_iff (sound : h.Sound functions) {r : IntRange}
    (found : h.object? c = some (.range r)) (x : Value) :
    x.asInt?.any r.contains = true ↔
      (∃ v ∈ r.values.map .int, h.equal v x = .ok true) ∧ ∀ f, x ≠ .float f := by
  have step : r.step ≠ 0 := sound.at found
  constructor
  · intro inside
    obtain ⟨i, word, contained⟩ := (Option.any_eq_true _ _).mp inside
    have noFloat : ∀ f, x ≠ .float f := by
      rintro f rfl
      cases word
    exact ⟨⟨.int i, List.mem_map_of_mem ((IntRange.contains_iff step).mp contained),
      (equal_int_iff sound noFloat).mpr word⟩, noFloat⟩
  · rintro ⟨⟨v, mem, same⟩, noFloat⟩
    obtain ⟨i, mem', rfl⟩ := List.mem_map.mp mem
    rw [(equal_int_iff sound noFloat).mp same, Option.any_some]
    exact (IntRange.contains_iff step).mpr mem'

theorem list_of_collect {v : Value} {items : Array Value}
    (collected : HeapM.collect v h = .ok items h') :
    HeapM.callBuiltin .list [v] h =
      .ok ⟨.object (h'.alloc (.list items)).1, ""⟩ (h'.alloc (.list items)).2 := by
  have argument : HeapM.optionalItems "list" [v] h = .ok items h' := by
    simp only [HeapM.optionalItems, inspect, optionalArgument, Bind.bind, EStateM.bind]
    exact collected
  simp only [HeapM.callBuiltin, HeapM.evaluate, Bind.bind, EStateM.bind, argument]
  rfl

/-- **A range and the list of it contain the same values**, floats apart. -/
theorem contains_list_of_range (sound : h.Sound functions) {r : IntRange}
    (found : h.object? c = some (.range r)) (room : h.size < 0x100000000) :
    ∃ l h', HeapM.callBuiltin .list [.object c] h = .ok ⟨l, ""⟩ h' ∧ (h'.size ≤ 0x100000000 →
      ∀ x, h.Has x → (∀ f, x ≠ .float f) → h'.contains l x = h.contains (.object c) x) := by
  have step : r.step ≠ 0 := sound.at found
  obtain ⟨items, h₁, collected, grows, presents⟩ := HeapM.collect_presents found rfl
    (fun _ same => Object.range.inj same ▸ step) room
  have values : items.toList = r.values.map .int := HeapM.eq_of_presents presents
  refine ⟨_, _, list_of_collect collected, fun bound x has noFloat => ?_⟩
  rw [size_alloc] at bound
  have stored := h₁.object?_alloc (.list items) bound
  have inside : ∀ v ∈ [Value.object c], h.Has v :=
    List.forall_mem_singleton.mpr (lt_of_object? found)
  obtain ⟨grows, sound', -⟩ := (HeapM.keeps_callBuiltin .list inside).ok h _ _ (.refl h) sound
    (list_of_collect collected)
  obtain ⟨o, found', becomes⟩ := grows.object c _ found
  cases becomes
  have compares : ∀ v ∈ items.toList, ∃ b, (h₁.alloc (.list items)).2.equal v x = .ok b := by
    intro v mem
    rw [values] at mem
    obtain ⟨i, -, rfl⟩ := List.mem_map.mp mem
    exact exists_equal_int (grows.has has) i
  obtain ⟨b, searched⟩ := exists_anyEqual compares
  rw [contains_items (.inl stored), searched, contains_range found]
  congr 1
  rw [Bool.eq_iff_iff, anyEqual_iff searched, contains_range_iff sound' found', values,
    and_iff_left noFloat]

/-! ## Reachable heaps -/

/-- **A list, tuple or range contains what equals one of its items**, which a loop over it is given,
but for floats in ranges: no range contains one. When the comparisons succeed there is an answer. A
range and the list that is made of it contain the same values, floats apart. -/
theorem Reachable.membership (reachable : h.Reachable) (found : h.object? c = some o)
    (kind : (∃ items, o = .list items ∨ o = .tuple items) ∨ ∃ r, o = .range r)
    (room : h.size < 0x100000000) :
    ∃ vs it h₁ h₂, HeapM.iterator (.object c) h = .ok it h₁ ∧ HeapM.Iterates Eq it h₁ vs h₂ ∧
      (∀ x b, h.contains (.object c) x = .ok b → (b = true ↔
        (∃ v ∈ vs, h.equal v x = .ok true) ∧ ¬((∃ r, o = .range r) ∧ ∃ f, x = .float f))) ∧
      (∀ x, (∀ v ∈ vs, ∃ b, h.equal v x = .ok b) → ∃ b, h.contains (.object c) x = .ok b) ∧
      ∀ r, o = .range r → ∃ l h₃, HeapM.callBuiltin .list [.object c] h = .ok ⟨l, ""⟩ h₃ ∧
        (h₃.size ≤ 0x100000000 → ∀ x, h.Has x → (∀ f, x ≠ .float f) →
          h₃.contains l x = h.contains (.object c) x) := by
  obtain ⟨functions, sound⟩ := reachable.sound
  rcases kind with ⟨items, sequence⟩ | ⟨r, rfl⟩
  · have values : o.items? = some (items.toList.map .inl) := by
      rcases sequence with rfl | rfl <;> rfl
    have noRange : ∀ r, o ≠ .range r := by
      rcases sequence with rfl | rfl <;> exact nofun
    have contents := contains_items (sequence.imp (· ▸ found) (· ▸ found))
    obtain ⟨it, h₁, h₂, started, loop⟩ :=
      HeapM.exists_loop found values (fun r same => absurd same (noRange r)) room
    refine ⟨_, it, h₁, h₂, started, loop, fun x b contained => ?_, fun x compares => ?_,
      fun r same => absurd same (noRange r)⟩
    · rw [contents] at contained
      rw [anyEqual_iff contained, and_iff_left]
      exact fun both => both.1.elim noRange
    · rw [contents]
      exact exists_anyEqual compares
  · have step : r.step ≠ 0 := sound.at found
    obtain ⟨it, h₁, h₂, started, loop⟩ := HeapM.exists_loop found rfl
      (fun _ same => Object.range.inj same ▸ step) room
    refine ⟨_, it, h₁, h₂, started, loop, fun x b contained => ?_,
      fun x _ => ⟨_, contains_range found x⟩, fun _ _ => contains_list_of_range sound found room⟩
    rw [contains_range found, Except.ok.injEq] at contained
    rw [← contained, contains_range_iff sound found]
    simp

/-- A range of ten integers contains the word 5, as the list of it does, and not the float 5, which
equals the word. -/
theorem Reachable.membership_float : ∃ (h : Heap) (c : Handle), h.Reachable ∧
    h.object? c = some (.range ⟨0, 10, 1⟩) ∧
    (∃ vs it h₁ h₂, HeapM.iterator (.object c) h = .ok it h₁ ∧ HeapM.Iterates Eq it h₁ vs h₂ ∧
      ∃ v ∈ vs, h.equal v (.int 5) = .ok true) ∧
    h.contains (.object c) (.int 5) = .ok true ∧
    h.contains (.object c) (.float (Float.ofBits 0x4014000000000000)) = .ok false ∧
    h.equal (.int 5) (.float (Float.ofBits 0x4014000000000000)) = .ok true := by
  let h₀ := (Machine.start .standard).heap
  have room : ((HeapM.alloc (.range ⟨0, 10, 1⟩)).after h₀).size < 0x100000000 := by
    decide +kernel
  obtain ⟨m, inUse, heap⟩ := (Helper.range (h := h₀) ⟨0, 10, 1⟩ (by decide)).inUse
    ⟨_, .start .standard, rfl⟩
  have found : m.heap.object? ⟨28⟩ = some (.range ⟨0, 10, 1⟩) := by
    rw [heap]
    rfl
  have word : m.heap.contains (.object ⟨28⟩) (.int 5) = .ok true :=
    (contains_range found _).trans (by decide)
  obtain ⟨vs, it, h₁, h₂, started, loop, contained, -⟩ :=
    Reachable.membership (.idle inUse) found (.inr ⟨_, rfl⟩) (heap ▸ room)
  exact ⟨m.heap, ⟨28⟩, .idle inUse, found,
    ⟨vs, it, h₁, h₂, started, loop, ((contained _ _ word).mp rfl).1⟩, word,
    contains_range found _, rfl⟩

end Heap

end RegisterVm
