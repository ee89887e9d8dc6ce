import RegisterVm.Proofs.Heap.Containers
import RegisterVm.Proofs.Heap.Integers

/-!
# Indexing

An integer of any size picks a position of a sequence, counted from its start or from its end
(`Picks`). Words are resolved by `position?`; an integer that is no word is beyond every sequence,
so both ways together are one rule (`bind_position?_iff`). Reading an item, assigning to it and
removing it from a list follow this rule (`HeapM.getItem_resolves`, `HeapM.setItem_resolves`,
`HeapM.pop_resolves`).
-/

namespace RegisterVm

/-! ## Positions -/

/-- An integer picks a position of a sequence: the position itself or, below zero, its distance from
the end. -/
def Picks (length : Nat) (k : Int) (p : Nat) : Prop :=
  p < length ∧ (k = p ∨ k = p - length)

instance (length p : Nat) (k : Int) : Decidable (Picks length k p) :=
  inferInstanceAs (Decidable (_ ∧ _))

namespace Picks

variable {length p q : Nat} {k : Int}

theorem unique (picks : Picks length k p) (picks' : Picks length k q) : p = q := by
  obtain ⟨inside, counted⟩ := picks
  obtain ⟨inside', counted'⟩ := picks'
  omega

/-- Some position is picked exactly by the integers from `-length` up to `length`. -/
theorem exists_iff : (∃ p, Picks length k p) ↔ -(length : Int) ≤ k ∧ k < length := by
  constructor
  · rintro ⟨p, inside, counted⟩
    omega
  · rintro ⟨low, high⟩
    by_cases negative : k < 0
    · exact ⟨(k + length).toNat, by omega, .inr (by omega)⟩
    · exact ⟨k.toNat, by omega, .inl (by omega)⟩

end Picks

theorem position?_eq_some_iff {index : Int64} {length p : Nat} :
    position? index length = some p ↔ Picks length index.toInt p := by
  refine ⟨fun found => ?_, fun picks => position?_eq_some picks.1 picks.2⟩
  have sign : index < 0 ↔ index.toInt < 0 := Int64.lt_iff_toInt_lt
  simp only [position?, sign, Option.ite_none_right_eq_some, Bool.and_eq_true, decide_eq_true_eq,
    Option.some.injEq] at found
  obtain ⟨⟨low, high⟩, rfl⟩ := found
  constructor <;> split at low <;> omega

/-- **The position of an integer of any size**: no integer that is not a word picks one. -/
theorem bind_position?_iff {length p : Nat} {k : Int} (short : length < 0x8000000000000000) :
    (Word.ofInt? k).bind (position? · length) = some p ↔ Picks length k p := by
  cases word : Word.ofInt? k with
  | some i => rw [Option.bind_some, position?_eq_some_iff, Word.toInt_of_ofInt? word]
  | none =>
    simp only [Option.bind_none, reduceCtorEq, false_iff]
    intro picks
    have bounds := Picks.exists_iff.mp ⟨p, picks⟩
    simp only [Word.ofInt?, Word.fits, ite_eq_right_iff, reduceCtorEq, imp_false,
      Bool.and_eq_true, decide_eq_true_eq] at word
    omega

/-- What a sequence is called when an index is out of its range. -/
def Object.indexed : Object → String
  | list _ => "list"
  | tuple _ => "tuple"
  | _ => "string"

namespace Heap

variable {functions : Nat} {h : Heap} {c : Handle} {o : Object} {key : Value} {k : Int}
  {xs : List (Value ⊕ Char)}

/-! ## Reading an item -/

/-- The word of a key that is an integer, if it has one. -/
theorem indexOf_eq (sound : h.Sound functions) (integer : h.integer? key = some k)
    (container : String) : h.indexOf container key = .ok (Word.ofInt? k) := by
  cases key with
  | none | float => cases integer
  | int i =>
    cases integer
    exact congrArg Except.ok (Word.ofInt?_toInt i).symm
  | bool t => cases t <;> cases integer <;> rfl
  | object a =>
    simp only [integer?] at integer
    split at integer <;> cases integer
    rename_i found
    have large : Word.fits k = false := sound.at found
    have boxed : h.isBig (.object a) = true := isBig_iff.mpr ⟨a, k, rfl, found⟩
    simp only [indexOf, Value.asInt?, boxed, Word.ofInt?, large]
    rfl

/-- Reading an item looks up the position that the key picks. -/
theorem item_eq_lookup (sound : h.Sound functions) (found : h.object? c = some o)
    (sequential : o.Sequential) (items : o.items? = some xs) (integer : h.integer? key = some k) :
    h.item (.object c) key =
      match ((Word.ofInt? k).bind (position? · xs.length)).bind (xs[·]?) with
      | some x => .ok x
      | none => refuse (.indexOutOfRange o.indexed) := by
  have viewed := view_object found
  have index := indexOf_eq sound integer
  cases sequential with
  | list vs | tuple vs =>
    cases items
    simp only [item, viewed, positionOf, index, Bind.bind, Except.bind, pure, Except.pure,
      List.length_map, Array.length_toList, List.getElem?_map, Array.getElem?_toList]
    cases (Word.ofInt? k).bind (position? · vs.size) with
    | none => rfl
    | some p =>
      simp only [Option.bind_some]
      cases vs[p]? <;> rfl
  | str s =>
    cases items
    simp only [item, viewed, index, Bind.bind, Except.bind, List.length_map, List.getElem?_map]
    cases (Word.ofInt? k).bind (position? · s.toList.length) with
    | none => rfl
    | some p =>
      simp only [Option.bind_some]
      cases s.toList[p]? <;> rfl

end Heap

/-! ## Operations at an index -/

/-- The position of an integer that is used as an index, if it picks one. -/
def indexPosition? (k : Int) (length : Nat) : Option Nat :=
  (Word.ofInt? k).bind (position? · length)

namespace HeapM

open Heap

variable {α : Type} {functions : Nat} {h : Heap} {c : Handle} {o : Object} {key : Value} {k : Int}
  {xs : List (Value ⊕ Char)} {length : Nat} {vs : Array Value}

/-- An operation at an index: it succeeds exactly when the index is in range, is done at the
position that the index picks, and otherwise changes nothing. -/
structure Resolves (h : Heap) (length : Nat) (k : Int) (operation : HeapM α)
    (done : Nat → α → Heap → Prop) : Prop where
  succeeds : (∃ a h', operation h = .ok a h') ↔ -(length : Int) ≤ k ∧ k < length
  picked : ∀ p a h', Picks length k p → operation h = .ok a h' → done p a h'
  refused : ∀ e h', operation h = .error e h' → e.kind = .indexOutOfRange ∧ h' = h

/-- What is done with the position of an index is done at the position that the index picks. -/
theorem Resolves.of {operation : HeapM α} {done : Nat → α → Heap → Prop}
    (short : length < 0x8000000000000000)
    (inside : ∀ p, p < length → indexPosition? k length = some p →
      ∃ a h', operation h = .ok a h' ∧ done p a h')
    (outside : indexPosition? k length = none →
      ∃ e, operation h = .error e h ∧ e.kind = .indexOutOfRange) :
    Resolves h length k operation done := by
  have rule : ∀ p, indexPosition? k length = some p ↔ Picks length k p :=
    fun p => bind_position?_iff short
  cases position : indexPosition? k length with
  | some p =>
    have picks := (rule p).mp position
    obtain ⟨a, h', ran, effect⟩ := inside p picks.1 position
    refine ⟨⟨fun _ => Picks.exists_iff.mp ⟨p, picks⟩, fun _ => ⟨a, h', ran⟩⟩, ?_, ?_⟩
    · intro q b h'' picks' ran'
      cases ran.symm.trans ran'
      exact picks.unique picks' ▸ effect
    · intro e h'' failed
      cases ran.symm.trans failed
  | none =>
    obtain ⟨e, failed, kind⟩ := outside position
    have never : ∀ p, ¬Picks length k p := fun p picks => by
      cases position.symm.trans ((rule p).mpr picks)
    refine ⟨⟨?_, ?_⟩, fun p a h' picks => absurd picks (never p), ?_⟩
    · rintro ⟨a, h', ran⟩
      cases failed.symm.trans ran
    · intro bounds
      obtain ⟨p, picks⟩ := Picks.exists_iff.mpr bounds
      exact absurd picks (never p)
    · intro e' h' failed'
      cases failed.symm.trans failed'
      exact ⟨kind, rfl⟩

/-- **An item is read where the key picks it.** -/
theorem getItem_resolves (sound : h.Sound functions) (found : h.object? c = some o)
    (sequential : o.Sequential) (items : o.items? = some xs)
    (short : xs.length < 0x8000000000000000) (integer : h.integer? key = some k) :
    Resolves h xs.length k (getItem (.object c) key) fun p v h' =>
      ∃ x, xs[p]? = some x ∧ h'.Presents x v := by
  have read := item_eq_lookup sound found sequential items integer
  refine .of short (fun p inside position => ?_) fun position => ?_
  · have given : xs[p]? = some xs[p] := List.getElem?_eq_getElem inside
    rw [← indexPosition?, position, Option.bind_some, given] at read
    obtain ⟨v, h', ran, presents⟩ := getItem_presents read
    exact ⟨v, h', ran, _, given, presents⟩
  · rw [← indexPosition?, position] at read
    refine ⟨.ofFault (.indexOutOfRange o.indexed), ?_, rfl⟩
    simp only [getItem, inspect, read, Bind.bind, EStateM.bind, refuse]
    rfl

/-- An assignment to an item of a list looks up the position that the key picks. -/
theorem place_eq (sound : h.Sound functions) (found : h.object? c = some (.list vs))
    (integer : h.integer? key = some k) :
    place (.object c) key h = match indexPosition? k vs.size with
      | some p => .ok (.position p) h
      | none => .error (.ofFault (.indexOutOfRange "list assignment")) h := by
  simp only [place, inspect, view_object found, positionOf, indexOf_eq sound integer, Bind.bind,
    Except.bind, pure, Except.pure, indexPosition?]
  cases (Word.ofInt? k).bind (position? · vs.size) <;> rfl

/-- **An item of a list is assigned to where the key picks it.** -/
theorem setItem_resolves (sound : h.Sound functions) (found : h.object? c = some (.list vs))
    (short : vs.size < 0x8000000000000000) (integer : h.integer? key = some k) (value : Value) :
    Resolves h vs.size k (setItem (.object c) key value) fun p _ h' =>
      h' = h.modify c fun _ => .list (vs.setIfInBounds p value) := by
  have placed := place_eq sound found integer
  refine .of short (fun p inside position => ⟨(), _, ?_, rfl⟩)
    fun position => ⟨.ofFault (.indexOutOfRange "list assignment"), ?_, rfl⟩
  · rw [position] at placed
    simp only [setItem, Bind.bind, EStateM.bind, placed]
    refine congrArg _ (modify_congr fun o same => ?_)
    cases found.symm.trans same
    rfl
  · rw [position] at placed
    simp only [setItem, Bind.bind, EStateM.bind, placed]

theorem listItems_eq (found : h.object? c = some (.list vs)) :
    h.listItems (.object c) = .ok vs := by
  simp only [listItems, view_object found, Bind.bind, Except.bind]
  rfl

theorem popItem_eq (found : h.object? c = some (.list vs)) (index : Option Int64) :
    popItem (.object c) (some index) h =
      if vs.isEmpty then .error (.ofFault .popFromEmpty) h
      else match (index.bind (position? · vs.size)).bind fun p => vs[p]?.map (p, ·) with
        | none => .error (.ofFault .popOutOfRange) h
        | some (p, v) =>
          .ok v (h.modify c (Object.onList fun vs => vs.eraseIdxIfInBounds p)) := by
  simp only [popItem, inspect, listItems_eq found, Bind.bind, EStateM.bind]
  split
  · rfl
  · cases index.bind (position? · vs.size) with
    | none => rfl
    | some p =>
      cases given : vs[p]? with
      | none => simp only [Option.bind_some, given]; rfl
      | some v => simp only [Option.bind_some, given]; rfl

/-- **An item of a list is removed where the key picks it**, and only that one. -/
theorem pop_resolves (sound : h.Sound functions) (found : h.object? c = some (.list vs))
    (short : vs.size < 0x8000000000000000) (integer : h.integer? key = some k) :
    Resolves h vs.size k (callMethod (.object c) "pop" [key]) fun p v h' =>
      vs[p]? = some v ∧ h' = h.modify c fun _ => .list (vs.eraseIdxIfInBounds p) := by
  have called : callMethod (.object c) "pop" [key] h =
      popItem (.object c) (some (Word.ofInt? k)) h := by
    simp only [callMethod, view, inspect, view_object found, Bind.bind, EStateM.bind,
      ListMethod.ofName?, listMethod, optionalArgument, indexOf_eq sound integer]
  rw [popItem_eq found, ← indexPosition?] at called
  refine .of short (fun p inside position => ?_) fun position => ?_
  · have filled : ¬vs.isEmpty = true := fun empty => by
      rw [Array.isEmpty_iff_size_eq_zero.mp empty] at inside
      exact Nat.not_lt_zero p inside
    have given : vs[p]? = some vs[p] := Array.getElem?_eq_getElem inside
    rw [if_neg filled, position, Option.bind_some, given] at called
    refine ⟨_, _, called, given, modify_congr fun o same => ?_⟩
    cases found.symm.trans same
    rfl
  · rw [position] at called
    by_cases empty : vs.isEmpty = true
    · exact ⟨_, called.trans (if_pos empty), rfl⟩
    · exact ⟨_, called.trans (if_neg empty), rfl⟩

end HeapM

end RegisterVm
