import Mathlib.Data.List.Forall2
import RegisterVm.Proofs.Heap.Changes
import RegisterVm.Proofs.Heap.Exceptions
import RegisterVm.Proofs.Object.WideRange
import RegisterVm.Proofs.Text.Search

/-!
# Iteration

A container has items in an order (`Object.items?`), and its iterator has some of them left
(`Heap.Iterating`). In a string it counts bytes, and always stands where a character starts or at
the end (`IteratorState.Left`). While the container is left alone, `next` gives a value for the
first item that is left (`HeapM.next_of_cons`) and `none` when there is none (`HeapM.next_of_nil`).
So a loop (`HeapM.Iterates`) ends, with a value for every item (`HeapM.exists_iterates`,
`HeapM.Iterates.presents`), and `collect` collects such values (`HeapM.collect_presents`).

For a range these are the integers that its formulas describe (`Heap.range_consistent`).
-/

namespace RegisterVm

variable {h h' : Heap} {c it : Handle} {o : Object}

/-! ## Items -/

/-- What is gone through in a container, in order; a character of a string is not yet a value. -/
def Object.items? : Object → Option (List (Value ⊕ Char))
  | list items | tuple items => some (items.toList.map .inl)
  | str s => some (s.toList.map .inr)
  | dict d => some (d.keys.toList.map .inl)
  | set s => some (s.items.toList.map .inl)
  | range r => some ((r.values.map .int).map .inl)
  | _ => none

/-- The item at an index of a list or tuple. -/
def Object.itemAt? (index : Nat) : Object → Option Value
  | list items | tuple items => items[index]?
  | _ => none

/-- A value stands for an item: it is the item or, as long as handles suffice, a string of the one
character. -/
inductive Heap.Presents (h : Heap) : Value ⊕ Char → Value → Prop
  | value (v : Value) : h.Presents (.inl v) v
  | char {c : Char} {v : Value} :
    (h.size ≤ 0x100000000 → h.Stores v (.str (String.ofList [c]))) → h.Presents (.inr c) v

theorem Heap.Presents.grown {x : Value ⊕ Char} {v : Value} (presents : h.Presents x v)
    (grows : h.Grows h') : h'.Presents x v := by
  cases presents with
  | value => exact .value v
  | char text =>
    refine .char fun bound => ?_
    obtain ⟨o, stored, becomes⟩ := grows.stores (text (Nat.le_trans grows.size bound))
    cases becomes
    exact stored

/-! ## Iterators -/

/-- The items that an iterator over the object at `c` has still to give. In a string it stands where
the bytes of a character start, or at the end. -/
inductive IteratorState.Left (h : Heap) (c : Handle) : IteratorState → List (Value ⊕ Char) → Prop
  | sequence {o : Object} {vs : List Value} (index : Nat) : h.object? c = some o →
    (∀ i, o.itemAt? i = vs[i]?) → Left h c (.sequence c index) ((vs.drop index).map .inl)
  | chars {s : String} (k : Nat) : h.object? c = some (.str s) →
    Left h c (.chars c (Text.offset s.toList k)) ((s.toList.drop k).map .inr)
  | range {r : IntRange} : r.step ≠ 0 → Left h c (.range r) ((r.values.map .int).map .inl)
  | values (vs : List Value) : Left h c (.values vs) (vs.map .inl)

/-- An iterator has nothing left to give. -/
def IteratorState.Ended (h : Heap) : IteratorState → Prop
  | sequence source index => ∃ o, h.object? source = some o ∧ o.itemAt? index = none
  | chars source offset => ∃ o, h.object? source = some o ∧ o.characterAt? offset = none
  | range rest => rest.next? = none
  | values rest => rest = []

theorem IteratorState.Left.ended {state : IteratorState} (left : state.Left h c []) :
    state.Ended h := by
  generalize empty : ([] : List (Value ⊕ Char)) = xs at left
  cases left with
  | sequence index found items =>
    have beyond := List.drop_eq_nil_iff.mp (List.map_eq_nil_iff.mp empty.symm)
    exact ⟨_, found, (items index).trans (List.getElem?_eq_none beyond)⟩
  | chars k found =>
    have beyond := List.drop_eq_nil_iff.mp (List.map_eq_nil_iff.mp empty.symm)
    exact ⟨_, found, (Text.get?_offset _ k).trans (List.getElem?_eq_none beyond)⟩
  | range step =>
    exact IntRange.next?_of_nil step (List.map_eq_nil_iff.mp (List.map_eq_nil_iff.mp empty.symm))
  | values vs => exact List.map_eq_nil_iff.mp empty.symm

theorem IteratorState.Left.kept {state : IteratorState} {xs : List (Value ⊕ Char)}
    (left : state.Left h c xs) (same : h'.object? c = h.object? c) : state.Left h' c xs := by
  cases left with
  | sequence index found items => exact .sequence index (same.trans found) items
  | chars k found => exact .chars k (same.trans found)
  | range step => exact .range step
  | values vs => exact .values vs

/-- An iterator goes through a container `o` and has these items left. -/
structure Heap.Iterating (h : Heap) (it c : Handle) (o : Object) (left : List (Value ⊕ Char)) :
    Prop where
  container : h.object? c = some o
  apart : c ≠ it
  iterator : ∃ state, h.object? it = some (.iterator state) ∧ state.Left h c left

/-- What may happen between two items: objects are added and changed, but for the container and its
iterator. -/
structure Heap.Spares (c it : Handle) (h h' : Heap) : Prop where
  grows : h.Grows h'
  container : h'.object? c = h.object? c
  iterator : h'.object? it = h.object? it

theorem Heap.Spares.refl (h : Heap) : Spares c it h h := ⟨.refl h, rfl, rfl⟩

theorem Heap.Spares.iterating {xs : List (Value ⊕ Char)} (spares : Spares c it h h')
    (iterating : h.Iterating it c o xs) : h'.Iterating it c o xs := by
  obtain ⟨container, apart, state, found, left⟩ := iterating
  exact ⟨spares.container.trans container, apart, state, spares.iterator.trans found,
    left.kept spares.container⟩

/-- An iterator that moves on has the items left that its new state has. -/
theorem Heap.Iterating.moved {state state' : IteratorState} {xs : List (Value ⊕ Char)}
    (container : h.object? c = some o) (apart : c ≠ it)
    (found : h.object? it = some (.iterator state)) (left : state'.Left h c xs) :
    (h.modify it fun _ => .iterator state').Iterating it c o xs := by
  have same : (h.modify it fun _ => .iterator state').object? c = h.object? c := by
    rw [object?_modify, if_neg apart]
  exact ⟨same.trans container, apart, state', by rw [object?_modify, if_pos rfl, found]; rfl,
    left.kept same⟩

/-! ## The next item -/

namespace HeapM

open Heap

variable {x : Value ⊕ Char} {xs : List (Value ⊕ Char)} {vs ws : List Value}

/-- Only iterators give anything. -/
theorem iterator_of_next {v : Value} {r : Option Value} (ran : next v h = .ok r h') :
    ∃ it state, v = .object it ∧ h.object? it = some (.iterator state) := by
  simp only [next, view, inspect, Bind.bind, EStateM.bind] at ran
  cases viewed : h.view v with
  | error e =>
    rw [viewed] at ran
    cases ran
  | ok o =>
    rw [viewed] at ran
    cases o with
    | none => cases ran
    | some o =>
      obtain ⟨it, rfl, found⟩ := h.gives_view v _ viewed o rfl
      cases o with
      | iterator state => exact ⟨it, state, rfl, found⟩
      | _ => cases ran

theorem sequenceItem_eq (found : h.object? c = some o) (index : Nat) :
    sequenceItem c index h = .ok (o.itemAt? index) h := by
  simp only [sequenceItem, inspect, Heap.get, found]
  cases o <;> rfl

/-- An item of a list or tuple is read off its object at the moment. -/
theorem next_sequence {index : Nat} (iterates : h.object? it = some (.iterator (.sequence c index)))
    (found : h.object? c = some o) :
    next (.object it) h = match o.itemAt? index with
      | some v => .ok (some v) (h.modify it fun _ => .iterator (.sequence c (index + 1)))
      | none => .ok none h := by
  have viewed := view_object iterates
  simp only [next, view, inspect, viewed, Bind.bind, EStateM.bind, sequenceItem_eq found]
  cases o.itemAt? index <;> rfl

/-- A character of a string is read at the moment, and becomes a string of its own. -/
theorem next_chars {offset : Nat} (iterates : h.object? it = some (.iterator (.chars c offset)))
    (found : h.object? c = some o) :
    next (.object it) h = match o.characterAt? offset with
      | some char => .ok (some (.object (h.alloc (.str (String.ofList [char]))).1))
          ((h.alloc (.str (String.ofList [char]))).2.modify it fun _ =>
            .iterator (.chars c (offset + char.utf8Size)))
      | none => .ok none h := by
  have viewed := view_object iterates
  have read : characterAt c offset h = .ok (o.characterAt? offset) h := by
    simp only [characterAt, inspect, Heap.get, found]
    rfl
  simp only [next, view, inspect, viewed, Bind.bind, EStateM.bind, read]
  cases o.characterAt? offset <;> rfl

/-- The object that is gone through must be there. -/
theorem next_ne_ok_of_missing {state : IteratorState} {position : Nat} {r : Option Value}
    (found : h.object? it = some (.iterator state))
    (reads : state = .sequence c position ∨ state = .chars c position)
    (missing : h.object? c = none) : next (.object it) h ≠ .ok r h' := by
  have viewed := view_object found
  intro ran
  rcases reads with rfl | rfl <;>
    simp only [next, view, inspect, viewed, Bind.bind, EStateM.bind, sequenceItem, characterAt,
      Heap.get, missing] at ran <;>
    cases ran

theorem next_range {r : IntRange} (iterates : h.object? it = some (.iterator (.range r))) :
    next (.object it) h = match r.next? with
      | some (i, rest) => .ok (some (.int i)) (h.modify it fun _ => .iterator (.range rest))
      | none => .ok none h := by
  have viewed := view_object iterates
  simp only [next, view, inspect, viewed, Bind.bind, EStateM.bind]
  cases r.next? <;> rfl

theorem next_values {rest : List Value}
    (iterates : h.object? it = some (.iterator (.values rest))) :
    next (.object it) h = match rest with
      | v :: rest => .ok (some v) (h.modify it fun _ => .iterator (.values rest))
      | [] => .ok none h := by
  have viewed := view_object iterates
  simp only [next, view, inspect, viewed, Bind.bind, EStateM.bind]
  cases rest <;> rfl

/-- **An iterator gives `none` when it has nothing left**, and changes nothing. -/
theorem next_eq_none_iff {state : IteratorState} (found : h.object? it = some (.iterator state)) :
    next (.object it) h = .ok none h' ↔ h' = h ∧ state.Ended h := by
  have gives : ∀ v h₁, next (.object it) h = .ok (some v) h₁ → ¬state.Ended h →
      (next (.object it) h = .ok none h' ↔ h' = h ∧ state.Ended h) := by
    intro v h₁ ran more
    rw [ran]
    refine ⟨fun same => ?_, fun ended => absurd ended.2 more⟩
    cases same
  have ends : next (.object it) h = .ok none h → state.Ended h →
      (next (.object it) h = .ok none h' ↔ h' = h ∧ state.Ended h) := by
    intro ran ended
    rw [ran]
    refine ⟨fun same => ?_, fun same => by rw [same.1]⟩
    cases same
    exact ⟨rfl, ended⟩
  cases state with
  | sequence source index =>
    cases stored : h.object? source with
    | none =>
      refine iff_of_false (next_ne_ok_of_missing found (.inl rfl) stored) ?_
      rintro ⟨-, o, stored', -⟩
      cases stored.symm.trans stored'
    | some o =>
      have ran := next_sequence found stored
      cases item : o.itemAt? index with
      | none => exact ends (by rw [ran, item]) ⟨o, stored, item⟩
      | some v =>
        refine gives v _ (by rw [ran, item]) ?_
        rintro ⟨o', stored', item'⟩
        cases stored.symm.trans stored'
        cases item.symm.trans item'
  | chars source offset =>
    cases stored : h.object? source with
    | none =>
      refine iff_of_false (next_ne_ok_of_missing found (.inr rfl) stored) ?_
      rintro ⟨-, o, stored', -⟩
      cases stored.symm.trans stored'
    | some o =>
      have ran := next_chars found stored
      cases item : o.characterAt? offset with
      | none => exact ends (by rw [ran, item]) ⟨o, stored, item⟩
      | some char =>
        refine gives _ _ (by rw [ran, item]) ?_
        rintro ⟨o', stored', item'⟩
        cases stored.symm.trans stored'
        cases item.symm.trans item'
  | range r =>
    cases given : r.next? with
    | none => exact ends (by rw [next_range found, given]) given
    | some step =>
      refine gives _ _ (by rw [next_range found, given]) fun ended => ?_
      cases given.symm.trans ended
  | values rest =>
    cases rest with
    | nil => exact ends (next_values found) rfl
    | cons v rest => exact gives _ _ (next_values found) (List.cons_ne_nil v rest)

/-- Nothing is given and nothing changes when no item is left. -/
theorem next_of_nil (iterating : h.Iterating it c o []) : next (.object it) h = .ok none h := by
  obtain ⟨-, -, state, found, left⟩ := iterating
  exact (next_eq_none_iff found).mpr ⟨rfl, left.ended⟩

/-- The first item that is left is the one at the index, and the others are behind it. -/
theorem of_drop_eq_cons {α : Type} {as rest : List α} {a : α} {index : Nat}
    (following : as.drop index = a :: rest) :
    as[index]? = some a ∧ rest = as.drop (index + 1) := by
  constructor
  · rw [← List.head?_drop, following, List.head?_cons]
  · rw [← List.tail_drop, following, List.tail_cons]

/-- The new string of a character is not where the iterator is, which moves on. -/
theorem presents_alloc {state : IteratorState} (char : Char)
    (found : h.object? it = some (.iterator state)) (state' : IteratorState) :
    ((h.alloc (.str (String.ofList [char]))).2.modify it fun _ => .iterator state').Presents
      (.inr char) (.object (h.alloc (.str (String.ofList [char]))).1) := by
  refine .char fun bound => ⟨_, rfl, ?_⟩
  rw [size_modify, size_alloc] at bound
  have stored := h.object?_alloc (.str (String.ofList [char])) bound
  rw [object?_modify, if_neg, stored]
  intro same
  rw [same, kept_alloc found] at stored
  cases stored

/-- The next item that is left is given, and those after it are left. -/
theorem next_of_cons (iterating : h.Iterating it c o (x :: xs)) :
    ∃ v h', next (.object it) h = .ok (some v) h' ∧ h'.Iterating it c o xs ∧ h'.Presents x v := by
  obtain ⟨container, apart, state, found, left⟩ := iterating
  generalize items : x :: xs = ys at left
  -- one case for each kind of state, as `next` has it
  cases left with
  | @sequence _ vs index stored items' =>
    obtain ⟨v, rest, following, rfl, rfl⟩ := List.map_eq_cons_iff.mp items.symm
    obtain ⟨given, rfl⟩ := of_drop_eq_cons following
    rw [next_sequence found stored, items', given]
    exact ⟨v, _, rfl, .moved container apart found (.sequence _ stored items'), .value v⟩
  | @chars s k stored =>
    obtain ⟨char, rest, following, rfl, rfl⟩ := List.map_eq_cons_iff.mp items.symm
    obtain ⟨given, rfl⟩ := of_drop_eq_cons following
    have left := IteratorState.Left.chars (k + 1)
      (kept_alloc stored (.str (String.ofList [char])))
    rw [← Text.offset_add_utf8Size given] at left
    rw [next_chars found stored, Object.characterAt?, Text.get?_offset, given]
    exact ⟨_, _, rfl, .moved (kept_alloc container _) apart (kept_alloc found _) left,
      presents_alloc char found _⟩
  | @range r step =>
    obtain ⟨v, vs, words, rfl, rfl⟩ := List.map_eq_cons_iff.mp items.symm
    obtain ⟨i, is, values, rfl, rfl⟩ := List.map_eq_cons_iff.mp words
    obtain ⟨rest, following, rfl, step'⟩ := IntRange.next?_of_values step values
    rw [next_range found, following]
    exact ⟨_, _, rfl, .moved container apart found (.range (step' ▸ step)), .value _⟩
  | values vs =>
    obtain ⟨v, rest, rfl, rfl, rfl⟩ := List.map_eq_cons_iff.mp items.symm
    exact ⟨v, _, next_values found, .moved container apart found (.values rest), .value v⟩

theorem grows_of_next {r : Option Value} (ran : next (.object it) h = .ok r h') : h.Grows h' :=
  after_of_ok ran ▸ (prepares_next (.object it) h).changed.grows

/-- The items that an iterator has left are bounded. -/
theorem exists_remaining (iterating : h.Iterating it c o xs) :
    ∃ count, remaining (.object it) h = .ok count h ∧ xs.length ≤ count := by
  obtain ⟨container, apart, state, found, left⟩ := iterating
  have viewed := view_object found
  simp only [remaining, view, inspect, viewed, Bind.bind, EStateM.bind]
  cases left with
  | @sequence o vs index stored items =>
    have same : ∀ ws : List Value, (∀ i, o.itemAt? i = ws[i]?) → vs = ws := fun ws other =>
      List.ext_getElem? fun i => (items i).symm.trans (other i)
    simp only [inspect, Heap.get, stored]
    cases o with
    | list ws | tuple ws =>
      refine ⟨_, rfl, ?_⟩
      rw [same ws.toList fun _ => Array.getElem?_toList.symm, List.length_map, List.length_drop,
        Array.length_toList]
    | _ =>
      refine ⟨_, rfl, ?_⟩
      rw [same [] fun _ => rfl, List.drop_nil]
      exact Nat.zero_le _
  | @chars s k stored =>
    simp only [inspect, Heap.get, stored]
    refine ⟨_, rfl, ?_⟩
    rw [List.length_map]
    exact Text.length_drop_le s k
  | values vs => exact ⟨_, rfl, Nat.le_of_eq (List.length_map _)⟩
  | range step =>
    refine ⟨_, rfl, ?_⟩
    rw [List.length_map, List.length_map, IntRange.length_values]

/-! ## Loops -/

/-- A loop over an iterator, from a heap on with the values that it gives up to its end. Before each
of them the heap may have changed as `between` has it. -/
inductive Iterates (between : Heap → Heap → Prop) (it : Value) : Heap → List Value → Heap → Prop
  | ended {h h₁ h₂ : Heap} : between h h₁ → next it h₁ = .ok none h₂ →
    Iterates between it h [] h₂
  | gave {h h₁ h₂ h₃ : Heap} {v : Value} {vs : List Value} : between h h₁ →
    next it h₁ = .ok (some v) h₂ → Iterates between it h₂ vs h₃ →
    Iterates between it h (v :: vs) h₃

/-- **A loop ends** after the items that are left, when nothing happens between them. -/
theorem exists_iterates (iterating : h.Iterating it c o xs) :
    ∃ vs h', Iterates Eq (.object it) h vs h' := by
  induction xs generalizing h with
  | nil => exact ⟨[], h, .ended rfl (next_of_nil iterating)⟩
  | cons x xs ih =>
    obtain ⟨v, h₁, given, others, -⟩ := next_of_cons iterating
    obtain ⟨vs, h', loop⟩ := ih others
    exact ⟨v :: vs, h', .gave rfl given loop⟩

/-- **The values that a loop is given stand for the items**, one by one. -/
theorem Iterates.presents (loop : Iterates (Spares c it) (.object it) h vs h')
    (iterating : h.Iterating it c o xs) : h.Grows h' ∧ List.Forall₂ h'.Presents xs vs := by
  generalize iterator : Value.object it = i at loop
  induction loop generalizing xs with
  | ended spares ran =>
    subst iterator
    cases xs with
    | nil =>
      rw [next_of_nil (spares.iterating iterating)] at ran
      cases ran
      exact ⟨spares.grows, .nil⟩
    | cons x xs =>
      obtain ⟨v, h₁, given, -⟩ := next_of_cons (spares.iterating iterating)
      cases given.symm.trans ran
  | gave spares ran _ ih =>
    subst iterator
    cases xs with
    | nil =>
      rw [next_of_nil (spares.iterating iterating)] at ran
      cases ran
    | cons x xs =>
      obtain ⟨v, h₁, given, others, presents⟩ := next_of_cons (spares.iterating iterating)
      cases given.symm.trans ran
      obtain ⟨grows, rest⟩ := ih others
      exact ⟨(spares.grows.trans (grows_of_next ran)).trans grows,
        .cons (presents.grown grows) rest⟩

/-- Nothing at all is between the items. -/
theorem Iterates.spares (loop : Iterates Eq (.object it) h vs h') :
    Iterates (Spares c it) (.object it) h vs h' := by
  induction loop with
  | ended same ran => exact .ended (same ▸ .refl _) ran
  | gave same ran _ ih => exact .gave (same ▸ .refl _) ran ih

/-- A value is collected for each item, as a loop is given them. -/
theorem drain_eq (iterating : h.Iterating it c o xs) {count : Nat} (enough : xs.length ≤ count)
    (done : Array Value) :
    ∃ vs h', drain (.object it) count done h = .ok (done ++ vs) h' ∧
      Iterates Eq (.object it) h vs.toList h' := by
  induction xs generalizing h count done with
  | nil =>
    have ended := next_of_nil iterating
    refine ⟨#[], h, ?_, .ended rfl ended⟩
    rw [Array.append_empty]
    cases count with
    | zero => rfl
    | succ count =>
      simp only [drain, Bind.bind, EStateM.bind, ended]
      rfl
  | cons x xs ih =>
    obtain ⟨v, h₁, given, others, -⟩ := next_of_cons iterating
    cases count with
    | zero => cases enough
    | succ count =>
      obtain ⟨vs, h', drained, loop⟩ := ih others (Nat.le_of_succ_le_succ enough) (done.push v)
      refine ⟨#[v] ++ vs, h', ?_, ?_⟩
      · simp only [drain, Bind.bind, EStateM.bind, given, drained]
        simp
      · simpa using Iterates.gave rfl given loop

/-! ## Containers -/

theorem presents_values (h : Heap) (vs : List Value) :
    List.Forall₂ h.Presents (vs.map .inl) vs := by
  induction vs with
  | nil => exact .nil
  | cons v vs ih => exact .cons (.value v) ih

/-- Items that are values stand for themselves only. -/
theorem eq_of_presents (presents : List.Forall₂ h.Presents (vs.map .inl) ws) : ws = vs := by
  induction vs generalizing ws with
  | nil =>
    cases presents
    rfl
  | cons v vs ih =>
    cases presents with
    | cons first rest =>
      cases first
      rw [ih rest]

/-- **A container has an iterator** that has all of its items left. -/
theorem exists_iterating (found : h.object? c = some o) (items : o.items? = some xs)
    (step : ∀ r, o = .range r → r.step ≠ 0) (room : h.size < 0x100000000) :
    ∃ it h', iterator (.object c) h = .ok (.object it) h' ∧ h'.Iterating it c o xs ∧
      h.Grows h' := by
  have viewed := view_object found
  have container : ∀ state, (h.alloc (.iterator state)).2.object? c = some o := fun state =>
    kept_alloc found (.iterator state)
  have started : ∀ state, state.Left (h.alloc (.iterator state)).2 c xs →
      (h.alloc (.iterator state)).2.Iterating (h.alloc (.iterator state)).1 c o xs := by
    intro state left
    have stored := h.object?_alloc (.iterator state) room
    refine ⟨container state, fun same => ?_, state, stored, left⟩
    rw [← same, container state] at stored
    obtain rfl := Option.some.inj stored
    cases items
  simp only [iterator, view, inspect, viewed, Bind.bind, EStateM.bind]
  cases o with
  | list vs | tuple vs =>
    cases items
    exact ⟨_, _, rfl, started _ (.sequence 0 (container _) fun _ => Array.getElem?_toList.symm),
      h.grows_alloc _⟩
  | str s =>
    cases items
    exact ⟨_, _, rfl, started _ (.chars 0 (container _)), h.grows_alloc _⟩
  | dict d =>
    cases items
    exact ⟨_, _, rfl, started _ (.values _), h.grows_alloc _⟩
  | set s =>
    cases items
    exact ⟨_, _, rfl, started _ (.values _), h.grows_alloc _⟩
  | range r =>
    cases items
    exact ⟨_, _, rfl, started _ (.range (step r rfl)), h.grows_alloc _⟩
  | _ => cases items

/-- A loop over a container of values is given them. -/
theorem exists_loop (found : h.object? c = some o)
    (items : o.items? = some (vs.map .inl)) (step : ∀ r, o = .range r → r.step ≠ 0)
    (room : h.size < 0x100000000) :
    ∃ it h₁ h₂, iterator (.object c) h = .ok it h₁ ∧ Iterates Eq it h₁ vs h₂ := by
  obtain ⟨it, h₁, started, iterating, -⟩ := exists_iterating found items step room
  obtain ⟨ws, h₂, loop⟩ := exists_iterates iterating
  obtain rfl := eq_of_presents (loop.spares.presents iterating).2
  exact ⟨_, h₁, h₂, started, loop⟩

/-- **A loop over a container ends**, and `collect` collects a value for each item. -/
theorem collect_presents (found : h.object? c = some o) (items : o.items? = some xs)
    (step : ∀ r, o = .range r → r.step ≠ 0) (room : h.size < 0x100000000) :
    ∃ vs h', collect (.object c) h = .ok vs h' ∧ h.Grows h' ∧
      List.Forall₂ h'.Presents xs vs.toList := by
  have viewed := view_object found
  obtain ⟨it, h₁, started, iterating, grows⟩ := exists_iterating found items step room
  obtain ⟨count, remains, enough⟩ := exists_remaining iterating
  obtain ⟨vs, h', drained, loop⟩ := drain_eq iterating enough #[]
  obtain ⟨grows', presents⟩ := loop.spares.presents iterating
  cases o with
  | list ws | tuple ws =>
    cases items
    refine ⟨ws, h, ?_, .refl h, presents_values h _⟩
    simp only [collect, view, inspect, viewed, Bind.bind, EStateM.bind]
    rfl
  | dict d =>
    cases items
    refine ⟨d.keys, h, ?_, .refl h, presents_values h _⟩
    simp only [collect, view, inspect, viewed, Bind.bind, EStateM.bind]
    rfl
  | set s =>
    cases items
    refine ⟨s.items, h, ?_, .refl h, presents_values h _⟩
    simp only [collect, view, inspect, viewed, Bind.bind, EStateM.bind]
    rfl
  | str s =>
    refine ⟨vs, h', ?_, grows.trans grows', presents⟩
    simp only [collect, view, inspect, viewed, Bind.bind, EStateM.bind, started,
      remains, drained, Array.empty_append]
  | range r =>
    refine ⟨vs, h', ?_, grows.trans grows', presents⟩
    simp only [collect, view, inspect, viewed, Bind.bind, EStateM.bind, started,
      remains, drained, Array.empty_append]
  | _ => cases items

end HeapM

/-! ## Ranges -/

namespace Heap

open HeapM

/-- **The formulas of a range describe one sequence of integers.** They are the terms before the
end of the range, `r.count` of them, which a loop over the range is given in order. A word is the
length when it is their number, an index gives the integer at its position from the start or from
the end and nothing beyond, and the range contains them and no others. None of this overflows
128 bits on the way, or words in the end. -/
theorem range_consistent {r : IntRange} (found : h.object? c = some (.range r))
    (step : r.step ≠ 0) (room : h.size < 0x100000000) :
    (∀ k, k < r.count ↔ r.Before (r.term k)) ∧
    (∃ it h₁ h₂, iterator (.object c) h = .ok it h₁ ∧
      Iterates Eq it h₁ (r.values.map .int) h₂) ∧
    r.values.map Int64.toInt = (List.range r.count).map r.term ∧
    (∀ n, r.length? = some n ↔ n.toInt = r.count) ∧
    (∀ i v, r.get? i = some v ↔
      ∃ k : Nat, r.values[k]? = some v ∧ (i.toInt = k ∨ i.toInt = k - r.count)) ∧
    (∀ i, r.contains i = true ↔ i ∈ r.values) ∧ (r.isEmpty = true ↔ r.values = []) ∧
    r.wideCount? = some ↑r.count ∧ (∀ k : Nat, k < r.count → r.wideNth? k = some (r.nth k)) ∧
    (∀ i, r.wideGet? i = some (r.get? i)) ∧ (∀ i, r.wideContains? i = some (r.contains i)) := by
  have loop := exists_loop found rfl (fun _ same => Object.range.inj same ▸ step) room
  exact ⟨IntRange.lt_count_iff step, loop, IntRange.map_toInt_values step,
    fun _ => IntRange.length?_eq_some_iff, fun _ _ => IntRange.get?_eq_some_iff,
    fun _ => IntRange.contains_iff step, IntRange.isEmpty_iff r, IntRange.wideCount?_eq step,
    fun _ => IntRange.wideNth?_eq step, IntRange.wideGet?_eq step, IntRange.wideContains?_eq step⟩

/-- Two integers are before the smallest word in steps of 2, and the third term is no word. -/
theorem range_consistent_smallest :
    (⟨Int64.minValue + 3, Int64.minValue, -2⟩ : IntRange).step ≠ 0 ∧
    (∃ it h₁ h₂,
      iterator (.object ⟨0⟩) ⟨#[.range ⟨Int64.minValue + 3, Int64.minValue, -2⟩], ∅⟩ = .ok it h₁ ∧
      Iterates Eq it h₁ [.int (Int64.minValue + 3), .int (Int64.minValue + 1)] h₂) ∧
    (⟨Int64.minValue + 3, Int64.minValue, -2⟩ : IntRange).length? = some 2 := by
  obtain ⟨-, loop, -, length, -⟩ :=
    range_consistent (h := ⟨#[.range ⟨Int64.minValue + 3, Int64.minValue, -2⟩], ∅⟩) (c := ⟨0⟩)
      rfl (by decide) (by decide)
  exact ⟨by decide, loop, (length 2).mpr (by decide)⟩

end Heap

end RegisterVm
