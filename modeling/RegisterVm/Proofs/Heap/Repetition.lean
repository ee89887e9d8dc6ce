import RegisterVm.Proofs.Heap.Slicing

/-!
# Repeating sequences

A string, list or tuple times a number is a new sequence that has the items of the old one over and
over (`Object.IsRepeat`), on whichever side the number stands. How often a sequence can be repeated
is a matter of its `Object.extent`, which for a string is its size in bytes
(`Sequence.repeated?_eq`). Main statement: `Heap.repetition`.
-/

namespace RegisterVm

/-! ## Copies -/

theorem repeatItems_eq {α : Type} (items : Array α) (n : Nat) :
    repeatItems items n = (List.replicate n items.toList).flatten.toArray := by
  have joined : ∀ (n : Nat) (done : Array α), (List.replicate n items).foldl (· ++ ·) done =
      done ++ (List.replicate n items.toList).flatten.toArray := by
    intro n
    induction n with
    | zero => exact fun done => by simp
    | succ n ih =>
      intro done
      rw [List.replicate_succ, List.foldl_cons, ih, List.replicate_succ, List.flatten_cons,
        Array.append_assoc, ← List.append_toArray, Array.toArray_toList]
  rw [repeatItems, joined, Array.empty_append]

theorem flatten_replicate_add {α : Type} (k l : Nat) (xs : List α) :
    (List.replicate (k + l) xs).flatten =
      (List.replicate k xs).flatten ++ (List.replicate l xs).flatten := by
  rw [← List.replicate_append_replicate, List.flatten_append]

/-- **Doubling makes as many copies as asked for.** -/
theorem toList_repeatText (s : String) (n : Nat) :
    (repeatText s n).toList = (List.replicate n s.toList).flatten := by
  induction n using Nat.strong_induction_on with
  | _ n ih =>
    rw [repeatText]
    split
    · rename_i zero
      rw [zero]
      rfl
    · have half := ih (n / 2) (by omega)
      split
      · have whole : n = n / 2 + n / 2 := by omega
        rw [String.toList_append, half, ← flatten_replicate_add, ← whole]
      · have whole : n = n / 2 + n / 2 + 1 := by omega
        rw [String.toList_append, String.toList_append, half, ← flatten_replicate_add]
        conv_rhs => rw [whole, List.replicate_succ', List.flatten_append, List.flatten_singleton]

namespace Object

variable {o : Object} {n : Nat}

/-- What the limit on repeated sequences is about: the number of items, of a string that of its
bytes. -/
def extent : Object → Nat
  | str s => s.utf8ByteSize
  | list vs | tuple vs => vs.size
  | _ => 0

/-- A sequence put together with itself, `n` times over. -/
def copies (n : Nat) : Object → Object
  | str s => str (String.ofList (List.replicate n s.toList).flatten)
  | list vs => list (List.replicate n vs.toList).flatten.toArray
  | tuple vs => tuple (List.replicate n vs.toList).flatten.toArray
  | o => o

/-- An object has the type of another one, and the items of it `n` times over. -/
def IsRepeat (n : Nat) (o copies : Object) : Prop :=
  copies.typeName = o.typeName ∧ ∃ xs, o.items? = some xs ∧
    copies.items? = some (List.replicate n xs).flatten

theorem isRepeat_copies (sequential : o.Sequential) (n : Nat) : o.IsRepeat n (o.copies n) := by
  cases sequential with
  | str s | list vs | tuple vs =>
    refine ⟨rfl, _, rfl, ?_⟩
    simp only [copies, items?, String.toList_ofList, List.map_flatten, List.map_replicate]

theorem utf8ByteSize_copies (s : String) (n : Nat) :
    (String.ofList (List.replicate n s.toList).flatten).utf8ByteSize = s.utf8ByteSize * n := by
  induction n with
  | zero => rfl
  | succ n ih =>
    rw [List.replicate_succ, List.flatten_cons, String.ofList_append, String.utf8ByteSize_append,
      String.ofList_toList, ih, Nat.mul_succ, Nat.add_comm]

theorem extent_copies (sequential : o.Sequential) (n : Nat) :
    (o.copies n).extent = o.extent * n := by
  cases sequential with
  | str s => exact utf8ByteSize_copies s n
  | list vs | tuple vs => simp [copies, extent, Nat.mul_comm]

end Object

/-! ## The operator -/

namespace Sequence

variable {o : Object} {count : Value} {k : Int64}

/-- How a sequence is called where it is too long. -/
def noun : Object → String
  | .str _ => "string"
  | o => o.typeName

/-- **What repeating a sequence comes to.** -/
theorem repeated?_eq (sequential : o.Sequential) (counts : count.asInt? = some k) :
    repeated? o count = do
      checkRepeat (noun o) o.extent k.toInt.toNat
      return some (o.copies k.toInt.toNat) := by
  have number : copies? count = some k.toInt.toNat := by rw [copies?, counts]; rfl
  generalize k.toInt.toNat = n at number ⊢
  cases sequential with
  | str s =>
    have text : (if s.isEmpty then "" else repeatText s n) =
        String.ofList (List.replicate n s.toList).flatten := by
      split
      · rename_i empty
        rw [String.isEmpty_iff.mp empty]
        simp
      · rw [← toList_repeatText, String.ofList_toList]
    simp only [repeated?, number, text]
    rfl
  | list vs | tuple vs =>
    have items : (if vs.isEmpty then #[] else repeatItems vs n) =
        (List.replicate n vs.toList).flatten.toArray := by
      split
      · rename_i empty
        rw [Array.isEmpty_iff.mp empty]
        simp
      · exact repeatItems_eq vs n
    simp only [repeated?, number, items]
    rfl

end Sequence

namespace HeapM

open Heap

variable {h : Heap} {c : Handle} {o : Object} {a b count : Value} {k : Int64}

/-- **A sequence is repeated alike on either side of the number.** -/
theorem binary_mul_eq (found : h.object? c = some o) (sequential : o.Sequential)
    (counts : count.asInt? = some k)
    (sides : a = .object c ∧ b = count ∨ a = count ∧ b = .object c) :
    binary .mul a b h = match Sequence.checkRepeat (Sequence.noun o) o.extent k.toInt.toNat with
      | .ok () => alloc (o.copies k.toInt.toNat) h
      | .error e => .error e h := by
  have read : (get : HeapM Heap) h = .ok h h := rfl
  have viewed := view_object found
  have whole : h.integer? (.object c) = none := by
    rw [integer?, found]
    cases sequential <;> rfl
  have big : h.isBig (.object c) = false := by
    rw [isBig, viewed]
    cases sequential <;> rfl
  obtain ⟨number, plain, small⟩ : (∃ i, h.integer? count = some i) ∧ h.view count = .ok none ∧
      h.isBig count = false := by
    cases count <;> first | exact ⟨⟨_, rfl⟩, rfl, rfl⟩ | cases counts
  obtain ⟨i, number⟩ := number
  have repeated := Sequence.repeated?_eq sequential counts
  rcases sides with ⟨rfl, rfl⟩ | ⟨rfl, rfl⟩
  · have general : binary .mul (.object c) b = generalBinary .mul (.object c) b := rfl
    have sequence : Sequence.binary? .mul (.object c) b (some o) none = Sequence.repeated? o b := by
      cases sequential <;> rfl
    simp only [general, generalBinary, Bind.bind, EStateM.bind, read, whole, number, mixedFloats?,
      big, small, Bool.or_self, Bool.false_eq_true, if_false, inspect, viewed, plain, Except.bind,
      sequence, repeated]
    cases Sequence.checkRepeat (Sequence.noun o) o.extent k.toInt.toNat <;> rfl
  · have general : binary .mul a (.object c) = generalBinary .mul a (.object c) := by
      rw [binary, show (a.isNumber && (Value.object c).isNumber) = false from Bool.and_false _]
      rfl
    have sequence : Sequence.binary? .mul a (.object c) none (some o) = Sequence.repeated? o a := by
      cases sequential <;> rfl
    simp only [general, generalBinary, Bind.bind, EStateM.bind, read, whole, number, mixedFloats?,
      big, small, Bool.or_self, Bool.false_eq_true, if_false, inspect, viewed, plain, Except.bind,
      sequence, repeated]
    cases Sequence.checkRepeat (Sequence.noun o) o.extent k.toInt.toNat <;> rfl

end HeapM

namespace Heap

variable {h : Heap} {c : Handle} {o : Object} {count : Value} {k : Int64}

/-- A new object is none of the old ones. -/
theorem not_has_alloc (h : Heap) (o : Object) (room : h.size < 0x100000000) :
    ¬h.Has (.object (h.alloc o).1) := by
  have last : (h.alloc o).1.index.toNat = h.size := UInt32.toNat_ofNat_of_lt' room
  exact fun old => Nat.ne_of_lt old last

/-- **Repeating a sequence.** A string, list or tuple is multiplied by a word or a truth value, on
either side. The product is a new object of the same type, with the items as often as the number
says, where a number below zero counts as none. There is an error instead exactly when that would
exceed the limit. The objects of the heap stay as they were. -/
theorem repetition (found : h.object? c = some o) (sequential : o.Sequential)
    (counts : count.asInt? = some k) (room : h.size < 0x100000000) :
    HeapM.binary .mul count (.object c) h = HeapM.binary .mul (.object c) count h ∧
    (o.extent * (max k.toInt 0).toNat ≤ 0x10000000 → ∃ v h' o',
      HeapM.binary .mul (.object c) count h = .ok v h' ∧ ¬h.Has v ∧ h'.Stores v o' ∧
      o.IsRepeat (max k.toInt 0).toNat o' ∧ o'.extent = o.extent * (max k.toInt 0).toNat ∧
      h.Enlarges h' ∧ h'.Stores (.object c) o) ∧
    (0x10000000 < o.extent * (max k.toInt 0).toNat → ∃ e,
      HeapM.binary .mul (.object c) count h = .error e h ∧ e.kind = .valueError ∧
      e.message = "repeated " ++ Sequence.noun o ++ " is too long") := by
  have times : (max k.toInt 0).toNat = k.toInt.toNat := by omega
  have left := HeapM.binary_mul_eq found sequential counts (.inl ⟨rfl, rfl⟩)
  have right := HeapM.binary_mul_eq found sequential counts (.inr ⟨rfl, rfl⟩)
  rw [times]
  refine ⟨right.trans left.symm, fun fits => ?_, fun exceeds => ?_⟩
  · have accepted : Sequence.checkRepeat (Sequence.noun o) o.extent k.toInt.toNat = .ok () :=
      if_pos fits
    rw [left, accepted]
    let made := o.copies k.toInt.toNat
    have enlarged := Enlarges.alloc h made
    exact ⟨_, _, made, rfl, not_has_alloc h made room, stores_alloc h made room,
      Object.isRepeat_copies sequential _, Object.extent_copies sequential _, enlarged,
      enlarged.stores ⟨c, rfl, found⟩⟩
  · have refused : Sequence.checkRepeat (Sequence.noun o) o.extent k.toInt.toNat =
        refuse (.repeatTooLong (Sequence.noun o)) := if_neg (Nat.not_le_of_lt exceeds)
    rw [left, refused]
    exact ⟨_, rfl, rfl, rfl⟩

/-- A letter of two bytes can be repeated as often as the limit has room for it, and no more. -/
theorem repetition_letter : ∃ (h : Heap) (c : Handle),
    h.object? c = some (.str "é") ∧ Object.Sequential (.str "é") ∧ h.size < 0x100000000 ∧
    (∃ v h' o', HeapM.binary .mul (.object c) (.int 0x8000000) h = .ok v h' ∧ h'.Stores v o' ∧
      Object.IsRepeat 0x8000000 (.str "é") o' ∧ o'.extent = 0x10000000) ∧
    ∃ e, HeapM.binary .mul (.object c) (.int 0x8000001) h = .error e h ∧
      e.message = "repeated string is too long" := by
  let h := (empty.alloc (.str "é")).2
  have found : h.object? ⟨0⟩ = some (.str "é") := rfl
  have room : h.size < 0x100000000 := by decide
  have most : Value.asInt? (.int 0x8000000) = some 0x8000000 := rfl
  have more : Value.asInt? (.int 0x8000001) = some 0x8000001 := rfl
  obtain ⟨-, fits, -⟩ := repetition found (.str "é") most room
  obtain ⟨-, -, exceeds⟩ := repetition found (.str "é") more room
  obtain ⟨v, h', o', ran, -, stored, copies, extent, -⟩ := fits (by decide)
  obtain ⟨e, failed, -, message⟩ := exceeds (by decide)
  exact ⟨h, ⟨0⟩, found, .str "é", room, ⟨v, h', o', ran, stored, copies, extent⟩, e, failed,
    message⟩

end Heap

end RegisterVm
