import RegisterVm.Proofs.Heap.Iteration
import RegisterVm.Proofs.Heap.Walks

/-!
# Containers

A list, tuple, string, dict, set or range has its items in one order (`Object.items?`). Its length
(`Heap.length_iff`), its items at an index (`Heap.item_eq`) and its truth (`Heap.truth_eq`) are read
off the object and not off the items; they agree with them, as does what a loop is given. Main
statement: `Heap.Reachable.iteration_agrees`.
-/

namespace RegisterVm

variable {h h' : Heap} {c : Handle} {o : Object} {x : Value ⊕ Char} {xs : List (Value ⊕ Char)}

/-- A position is reached from the start and from the end. -/
theorem position?_eq_some {index : Int64} {length k : Nat} (inside : k < length)
    (counted : index.toInt = k ∨ index.toInt = k - length) : position? index length = some k := by
  have sign : index < 0 ↔ index.toInt < 0 := Int64.lt_iff_toInt_lt
  have position : (if index.toInt < 0 then index.toInt + length else index.toInt) = k := by
    split <;> omega
  simp only [position?, sign, position]
  rw [if_pos (by simpa using inside), Int.toNat_natCast]

namespace Heap

/-- **The length of a container is the number of its items**, when that is a word. -/
theorem length_iff (found : h.object? c = some o) (items : o.items? = some xs)
    (counted : xs.length < 0x8000000000000000 ∨ ∃ r, o = .range r) (n : Int64) :
    h.length (.object c) = .ok n ↔ n.toInt = xs.length := by
  have viewed := view_object found
  have word : ∀ {count : Nat}, count = xs.length → xs.length < 0x8000000000000000 →
      ((.ok (Int64.ofNat count) : Outcome Int64) = .ok n ↔ n.toInt = xs.length) := by
    rintro count rfl small
    rw [Except.ok.injEq, ← Int64.toInt_inj, Int64.toInt_ofNat_of_lt small]
    exact eq_comm
  simp only [length, viewed]
  cases o with
  | list vs | tuple vs =>
    cases items
    exact word (by simp) (counted.resolve_right (by simp))
  | str s =>
    cases items
    exact word (by rw [List.length_map, String.length_toList]) (counted.resolve_right (by simp))
  | dict d =>
    cases items
    exact word (by simp [Dict.size, Dict.keys]) (counted.resolve_right (by simp))
  | set s =>
    cases items
    exact word (by simp [KeySet.size]) (counted.resolve_right (by simp))
  | range r =>
    cases items
    rw [List.length_map, List.length_map, IntRange.length_values, ← IntRange.length?_eq_some_iff]
    simp only [Bind.bind, Except.bind]
    cases r.length? with
    | some m => exact ⟨fun same => congrArg some (Except.ok.inj same),
        fun same => congrArg Except.ok (Option.some.inj same)⟩
    | none => simp [refuse]
  | _ => cases items

/-- **An item of a sequence is found at its index**, counted from the start or from the end. -/
theorem item_eq (found : h.object? c = some o) (items : o.items? = some xs)
    (noDict : ∀ d, o ≠ .dict d) (noSet : ∀ s, o ≠ .set s) {k : Nat} (at' : xs[k]? = some x)
    {key : Value} {i : Int64} (index : key.asInt? = some i)
    (counted : i.toInt = k ∨ i.toInt = k - xs.length) : h.item (.object c) key = .ok x := by
  have viewed := view_object found
  have inside : k < xs.length := (List.getElem?_eq_some_iff.mp at').1
  have position := position?_eq_some inside counted
  have keyed : ∀ container, h.indexOf container key = .ok (some i) := fun container => by
    rw [indexOf, index]
  cases o with
  | list vs | tuple vs =>
    cases items
    obtain ⟨v, given, rfl⟩ := Option.map_eq_some_iff.mp (List.getElem?_map .. ▸ at')
    rw [List.length_map, Array.length_toList] at position
    rw [Array.getElem?_toList] at given
    simp only [item, viewed, positionOf, keyed, Bind.bind, Except.bind, Option.bind, pure,
      Except.pure, position, given]
  | str s =>
    cases items
    obtain ⟨char, given, rfl⟩ := Option.map_eq_some_iff.mp (List.getElem?_map .. ▸ at')
    rw [List.length_map] at position
    simp only [item, viewed, keyed, Bind.bind, Except.bind, Option.bind, position, given]
    rfl
  | dict d => exact absurd rfl (noDict d)
  | set s => exact absurd rfl (noSet s)
  | range r =>
    cases items
    obtain ⟨v, given, rfl⟩ := Option.map_eq_some_iff.mp (List.getElem?_map .. ▸ at')
    obtain ⟨word, stored, rfl⟩ := Option.map_eq_some_iff.mp (List.getElem?_map .. ▸ given)
    rw [List.length_map, List.length_map, IntRange.length_values] at counted
    have get := IntRange.get?_eq_some_iff.mpr ⟨k, stored, counted⟩
    simp only [item, viewed, keyed, Bind.bind, Except.bind, Option.bind, get]
    rfl
  | _ => cases items

/-- What is at an index is an item or the string of a character. -/
theorem getItem_presents {container key : Value} (given : h.item container key = .ok x) :
    ∃ v h', HeapM.getItem container key h = .ok v h' ∧ h'.Presents x v := by
  cases x with
  | inl v =>
    refine ⟨v, h, ?_, .value v⟩
    simp only [HeapM.getItem, inspect, given, Bind.bind, EStateM.bind]
    rfl
  | inr char =>
    refine ⟨_, _, ?_, .char fun bound => stores_alloc h (.str (String.ofList [char])) ?_⟩
    · simp only [HeapM.getItem, inspect, given, Bind.bind, EStateM.bind]
      rfl
    · rwa [size_alloc] at bound

/-- **A container is true when it has items.** -/
theorem truth_eq (found : h.object? c = some o) (items : o.items? = some xs) :
    h.truth (.object c) = .ok (!xs.isEmpty) := by
  have viewed := view_object found
  have filled : ∀ {b : Bool}, (b = true ↔ xs ≠ []) →
      (.ok b : Outcome Bool) = .ok (!xs.isEmpty) := by
    intro b same
    congr 1
    rw [Bool.eq_iff_iff, same]
    simp
  simp only [truth, Value.truth?, viewed, Bind.bind, Except.bind]
  cases o with
  | list vs | tuple vs =>
    cases items
    exact filled (by simp)
  | str s =>
    cases items
    exact filled (by simp)
  | dict d =>
    cases items
    exact filled (by simp [Dict.size, Dict.keys])
  | set s =>
    cases items
    exact filled (by simp [KeySet.size])
  | range r =>
    cases items
    refine filled ?_
    rw [Bool.not_eq_true', ← Bool.not_eq_true, r.isEmpty_iff, Ne, List.map_eq_nil_iff,
      List.map_eq_nil_iff]
  | _ => cases items

/-- **Collecting, looping, counting, indexing and testing a container agree** on one sequence of
items. What is collected stands for the items one by one, and so does what a loop is given, which
ends; the container may not change in between. -/
theorem Reachable.iteration_agrees (reachable : h.Reachable) (found : h.object? c = some o)
    (items : o.items? = some xs) (room : h.size < 0x100000000) :
    (∃ vs h', HeapM.collect (.object c) h = .ok vs h' ∧ List.Forall₂ h'.Presents xs vs.toList) ∧
    (∃ it h₁, HeapM.iterator (.object c) h = .ok (.object it) h₁ ∧
      (∃ vs h₂, HeapM.Iterates Eq (.object it) h₁ vs h₂) ∧
      ∀ vs h₂, HeapM.Iterates (Spares c it) (.object it) h₁ vs h₂ →
        List.Forall₂ h₂.Presents xs vs) ∧
    (xs.length < 0x8000000000000000 ∨ (∃ r, o = .range r) →
      ∀ n, h.length (.object c) = .ok n ↔ n.toInt = xs.length) ∧
    ((∀ d, o ≠ .dict d) → (∀ s, o ≠ .set s) → ∀ (k : Nat) x (key : Value) (i : Int64),
      xs[k]? = some x → key.asInt? = some i → i.toInt = k ∨ i.toInt = k - xs.length →
      ∃ v h', HeapM.getItem (.object c) key h = .ok v h' ∧ h'.Presents x v) ∧
    h.truth (.object c) = .ok (!xs.isEmpty) := by
  obtain ⟨functions, sound⟩ := reachable.sound
  have step : ∀ r, o = .range r → r.step ≠ 0 := by
    rintro r rfl
    exact sound.at found
  obtain ⟨it, h₁, started, iterating, -⟩ := HeapM.exists_iterating found items step room
  obtain ⟨vs, h', collected, -, presents⟩ := HeapM.collect_presents found items step room
  refine ⟨⟨vs, h', collected, presents⟩, ⟨it, h₁, started, HeapM.exists_iterates iterating,
    fun _ _ loop => (loop.presents iterating).2⟩, length_iff found items, ?_,
    truth_eq found items⟩
  intro noDict noSet k x key i at' index reached
  exact getItem_presents (item_eq found items noDict noSet at' index reached)

/-- A string of three characters is gone through, counted, indexed from its end and true. -/
theorem Reachable.iteration_agrees_text : ∃ (h : Heap) (c : Handle), h.Reachable ∧
    h.object? c = some (.str "hé!") ∧
    (∃ vs h', HeapM.collect (.object c) h = .ok vs h' ∧
      List.Forall₂ h'.Presents [.inr 'h', .inr 'é', .inr '!'] vs.toList) ∧
    h.length (.object c) = .ok 3 ∧
    (∃ v h', HeapM.getItem (.object c) (.int (-1)) h = .ok v h' ∧ h'.Presents (.inr '!') v) ∧
    h.truth (.object c) = .ok true := by
  let h₀ := (Machine.start .standard).heap
  have room : ((HeapM.allocText "hé!").after h₀).size < 0x100000000 := by decide +kernel
  obtain ⟨m, inUse, heap⟩ := (Helper.text (h := h₀) "hé!").inUse ⟨_, .start .standard, rfl⟩
  have found : m.heap.object? ⟨28⟩ = some (.str "hé!") := by
    rw [heap]
    rfl
  obtain ⟨collected, -, length, item, truth⟩ :=
    Reachable.iteration_agrees (.idle inUse) found rfl (heap ▸ room)
  exact ⟨m.heap, ⟨28⟩, .idle inUse, found, collected, (length (.inl (by decide)) 3).mpr (by decide),
    item nofun nofun 2 _ (.int (-1)) (-1) rfl rfl (.inr (by decide)), truth⟩

end Heap

end RegisterVm
