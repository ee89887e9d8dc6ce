import RegisterVm.Proofs.Heap.Iteration
import RegisterVm.Proofs.Heap.Walks
import RegisterVm.Proofs.Machine.Permanence

/-!
# Exhausted iterators

An iterator that has given `none` gives it again, whatever happens meanwhile to the container that
it goes through, but for lists: an iterator over a list looks at the items that the list has at the
moment, so it goes on when the list has grown. Main statement: `Heap.Later.exhausted`.
-/

namespace RegisterVm

variable {h h' h₁ : Heap} {c it : Handle} {state state' : IteratorState}

/-- Strings stay as they are. -/
theorem Object.Becomes.characterAt?_eq {o o' : Object} (becomes : o.Becomes o') (offset : Nat) :
    o'.characterAt? offset = o.characterAt? offset := by
  cases becomes <;> rfl

namespace IteratorState

/-- An iterator over a list or tuple stays one over it. -/
theorem Advances.of_sequence {index : Nat} (advances : (sequence c index).Advances h state') :
    ∃ index', state' = .sequence c index' ∧ index ≤ index' := by
  induction advances with
  | refl => exact ⟨index, rfl, Nat.le_refl index⟩
  | tail _ next ih =>
    obtain ⟨index', rfl, le⟩ := ih
    cases next
    exact ⟨index' + 1, rfl, Nat.le_succ_of_le le⟩

/-- What is done to the heap gives nothing to an iterator that goes through no list or tuple. -/
theorem Ended.grown (ended : state.Ended h) (grows : h.Grows h')
    (other : ∀ source index, state ≠ .sequence source index) : state.Ended h' := by
  cases state with
  | sequence source index => exact absurd rfl (other source index)
  | chars source offset =>
    obtain ⟨o, found, nothing⟩ := ended
    obtain ⟨o', found', becomes⟩ := grows.object source o found
    exact ⟨o', found', (becomes.characterAt?_eq offset).trans nothing⟩
  | range | values => exact ended

/-- Such an iterator does not move on from the end. -/
theorem Ended.eq_of_advances (ended : state.Ended h) (advances : state.Advances h state')
    (other : ∀ source index, state ≠ .sequence source index) : state' = state := by
  cases advances.cases_head with
  | inl same => exact same.symm
  | inr next =>
    obtain ⟨_, next, -⟩ := next
    cases next with
    | sequence source index => exact absurd rfl (other source index)
    | chars found given =>
      obtain ⟨o, found', nothing⟩ := ended
      cases found.symm.trans found'
      cases given.symm.trans nothing
    | values => cases ended
    | range given => cases given.symm.trans ended

end IteratorState

/-- An object without an item at an index has none later on, unless it is a list. -/
theorem Object.Becomes.itemAt?_eq_none {o o' : Object} (becomes : o.Becomes o')
    (noList : ∀ items, o' ≠ .list items) {index index' : Nat} (le : index ≤ index')
    (beyond : o.itemAt? index = none) : o'.itemAt? index' = none := by
  cases becomes with
  | same =>
    cases o with
    | list items => exact absurd rfl (noList items)
    | tuple items =>
      exact Array.getElem?_eq_none (Nat.le_trans (Array.getElem?_eq_none_iff.mp beyond) le)
    | _ => rfl
  | list items items' => exact absurd rfl (noList items')
  | _ => rfl

theorem HeapM.after_append {items : Array Value} (found : h.object? c = some (.list items))
    (item : Value) : (HeapM.append (.object c) item).after h =
      h.modify c (Object.onList fun items => items.push item) := by
  have viewed := Heap.view_object found
  simp only [HeapM.after, HeapM.append, HeapM.isList, HeapM.view, inspect, viewed, Bind.bind,
    EStateM.bind]
  rfl

namespace Heap

/-- **An exhausted iterator stays exhausted unless its list grows.** Once it has given `none`, which
changes nothing, it gives `none` whatever is done later, or it is an iterator over a list that has
more items by then, and it gives the first of these that it has not got to. -/
theorem Later.exhausted (later : h.Later h') {v : Value}
    (ended : HeapM.next v h = .ok none h₁) : h₁ = h ∧
      (HeapM.next v h' = .ok none h' ∨
        ∃ it c index index' items items' item, v = .object it ∧
          h.object? it = some (.iterator (.sequence c index)) ∧
          h.object? c = some (.list items) ∧ items.size ≤ index ∧ index ≤ index' ∧
          h'.object? c = some (.list items') ∧ items'[index']? = some item ∧
          HeapM.next v h' =
            .ok (some item) (h'.modify it fun _ => .iterator (.sequence c (index' + 1)))) := by
  obtain ⟨it, state, rfl, found⟩ := HeapM.iterator_of_next ended
  obtain ⟨rfl, finished⟩ := (HeapM.next_eq_none_iff found).mp ended
  refine ⟨rfl, ?_⟩
  obtain ⟨state', found', advances⟩ := later.changed.advances it state found
  cases state with
  | sequence c index =>
    obtain ⟨o, stored, beyond⟩ := finished
    obtain ⟨index', rfl, le⟩ := advances.of_sequence
    obtain ⟨o', stored', becomes⟩ := later.changed.grows.object c o stored
    by_cases list : ∃ items, o' = .list items
    · obtain ⟨items', rfl⟩ := list
      cases given : items'[index']? with
      | none => exact .inl ((HeapM.next_eq_none_iff found').mpr ⟨rfl, _, stored', given⟩)
      | some item =>
        obtain ⟨items, rfl⟩ : ∃ items, o = .list items := by cases becomes <;> exact ⟨_, rfl⟩
        refine .inr ⟨it, c, index, index', items, items', item, rfl, found, stored,
          Array.getElem?_eq_none_iff.mp beyond, le, stored', given, ?_⟩
        rw [HeapM.next_sequence found' stored', Object.itemAt?, given]
    · have beyond' := becomes.itemAt?_eq_none (fun items same => list ⟨items, same⟩) le beyond
      exact .inl ((HeapM.next_eq_none_iff found').mpr ⟨rfl, _, stored', beyond'⟩)
  | chars | range | values =>
    have finished' := finished.grown later.changed.grows nofun
    obtain rfl := finished'.eq_of_advances advances nofun
    exact .inl ((HeapM.next_eq_none_iff found').mpr ⟨rfl, finished'⟩)

/-- An iterator over a list of one item has given `none`, and gives the item that is then added. -/
theorem Later.exhausted_list : ∃ (h h' : Heap) (it c : Handle), h.Reachable ∧ h.Later h' ∧
    h.object? c = some (.list #[.int 1]) ∧ HeapM.next (.object it) h = .ok none h ∧
    h'.object? c = some (.list #[.int 1, .int 2]) ∧
    ∃ h'', HeapM.next (.object it) h' = .ok (some (.int 2)) h'' := by
  let c : Handle := ⟨28⟩
  let it : Handle := ⟨29⟩
  let h₀ := (Machine.start .standard).heap
  let h₁ := (MachineM.buildFrom .list [.int 1]).after h₀
  let h₂ := (HeapM.iterator (.object c)).after h₁
  let h₃ := (HeapM.next (.object it)).after h₂
  let h₄ := (HeapM.append (.object c) (.int 2)).after h₃
  obtain ⟨m, inUse, heap⟩ := (Helper.next (h := h₂) (.object it)).inUse <|
    (Helper.iterator (h := h₁) (.object c)).inUse <|
    (Helper.build (h := h₀) .list [.int 1] (by simp)).inUse ⟨_, .start .standard, rfl⟩
  have reachable : h₃.Reachable := (show m.heap = h₃ from heap) ▸ .idle inUse
  have later : h₃.Later h₄ := .single (.helper reachable (.append _ _ trivial))
  have list : h₃.object? c = some (.list #[.int 1]) := rfl
  have iterator : h₃.object? it = some (.iterator (.sequence c 1)) := rfl
  have appended : h₄ = h₃.modify c (Object.onList fun items => items.push (.int 2)) :=
    HeapM.after_append list (.int 2)
  have longer : h₄.object? c = some (.list #[.int 1, .int 2]) := by
    rw [appended, object?_modify, if_pos rfl, list]
    rfl
  have iterator' : h₄.object? it = some (.iterator (.sequence c 1)) := by
    rw [appended, object?_modify, if_neg (by decide), iterator]
  have ended : HeapM.next (.object it) h₃ = .ok none h₃ :=
    (HeapM.next_eq_none_iff iterator).mpr ⟨rfl, _, list, rfl⟩
  refine ⟨h₃, h₄, it, c, reachable, later, list, ended, longer, ?_⟩
  clear_value h₄ h₃
  obtain ⟨-, again | ⟨_, _, _, _, _, _, _, -, -, -, -, -, -, -, gives⟩⟩ := later.exhausted ended
  · cases again.symm.trans (HeapM.next_sequence iterator' longer)
  · obtain ⟨same, -⟩ := EStateM.Result.ok.inj
      (gives.symm.trans (HeapM.next_sequence iterator' longer))
    cases same
    exact ⟨_, gives⟩

end Heap

end RegisterVm
