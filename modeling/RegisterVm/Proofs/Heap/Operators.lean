import RegisterVm.Proofs.Heap.Soundness

/-!
# Operators keep heaps sound

A primitive operator gives a primitive value and an operator on sequences one that is made of their
items, so operators keep heaps sound. Main statements: `HeapM.keeps_binary`,
`HeapM.keeps_addInPlace`, `HeapM.keeps_unary`.
-/

namespace RegisterVm

open Outcome (Gives)
open HeapM (Keeps)

variable {α : Type} {functions : Nat} {w : Heap}

/-! ## Operators -/

theorem Value.within_of_primitive {v : Value} (h : v.isObject = false) (size : Nat) :
    v.Within size := by
  cases v with
  | object handle => cases h
  | _ => trivial

namespace Primitive

variable {a b v : Value}

theorem primitive_of_checked {o : Option Int64} (h : checked o = .ok v) : v.isObject = false := by
  cases o <;> cases h
  rfl

theorem primitive_of_onNumbers {onInt : Int64 → Int64 → Result} {onFloat : Float → Float → Float}
    (hi : ∀ x y v, onInt x y = .ok v → v.isObject = false)
    (h : onNumbers onInt onFloat a b = .ok v) : v.isObject = false := by
  unfold onNumbers at h
  split at h
  · exact hi _ _ v h
  · cases h
    rfl
  · cases h

theorem primitive_of_onInts {onInt : Int64 → Int64 → Result}
    (hi : ∀ x y v, onInt x y = .ok v → v.isObject = false) (h : onInts onInt a b = .ok v) :
    v.isObject = false := by
  unfold onInts at h
  split at h
  · exact hi _ _ v h
  · cases h

theorem primitive_of_bitwise {onBool : Bool → Bool → Bool} {onInt : Int64 → Int64 → Int64}
    (h : bitwise onBool onInt a b = .ok v) : v.isObject = false := by
  unfold bitwise at h
  split at h
  · cases h
    rfl
  · refine primitive_of_onInts (fun x y v hv => ?_) h
    cases hv
    rfl

/-- A primitive operator gives a primitive value. -/
theorem primitive_of_binary {op : BinaryOperator} (h : binary op a b = .ok v) :
    v.isObject = false := by
  cases op with
  | add | sub | mul => exact primitive_of_onNumbers (fun _ _ _ => primitive_of_checked) h
  | div =>
    refine primitive_of_onNumbers (fun x y v hv => ?_) h
    unfold intDiv at hv
    split at hv <;> cases hv
    rfl
  | floorDiv =>
    refine primitive_of_onNumbers (fun x y v hv => ?_) h
    unfold intFloorDiv at hv
    split at hv
    · cases hv
    · exact primitive_of_checked hv
  | mod =>
    refine primitive_of_onNumbers (fun x y v hv => ?_) h
    unfold intMod at hv
    split at hv <;> cases hv
    rfl
  | pow =>
    refine primitive_of_onNumbers (fun x y v hv => ?_) h
    unfold intPow at hv
    split at hv
    · exact primitive_of_checked hv
    · split at hv <;> cases hv
      rfl
  | bitAnd | bitOr | bitXor => exact primitive_of_bitwise h
  | shl =>
    refine primitive_of_onInts (fun x y v hv => ?_) h
    split at hv
    · cases hv
    · exact primitive_of_checked hv
  | shr =>
    refine primitive_of_onInts (fun x y v hv => ?_) h
    split at hv <;> cases hv
    rfl

theorem primitive_of_unary {op : UnaryOperator} (h : unary op a = .ok v) :
    v.isObject = false := by
  cases op with
  | neg =>
    cases a with
    | int i => exact primitive_of_checked h
    | bool | float => cases h; rfl
    | none | object => cases h
  | pos => cases a <;> cases h <;> rfl
  | not | invert =>
    simp only [unary, not, invert] at h
    split at h <;> cases h
    rfl

end Primitive

theorem mem_of_mem_repeatItems {items : Array α} {n : Nat} {a : α} (h : a ∈ repeatItems items n) :
    a ∈ items := by
  have copied : ∀ (n : Nat) (done : Array α), (a ∈ done → a ∈ items) →
      a ∈ (List.replicate n items).foldl (· ++ ·) done → a ∈ items := by
    intro n
    induction n with
    | zero => exact fun _ old mem => old mem
    | succ n ih =>
      refine fun done old mem => ih (done ++ items) (fun mem => ?_) mem
      exact (Array.mem_append.mp mem).elim old id
  exact copied n #[] (fun mem => by simp at mem) h

namespace Sequence

variable {size age : Nat}

/-- A repeated sequence is made of the items of the sequence. -/
theorem gives_repeated? {sequence : Object} (sound : sequence.Sound functions size age)
    (count : Value) :
    Gives (repeated? sequence count) fun r => ∀ o, r = some o → o.Sound functions size age := by
  unfold repeated?
  split
  · refine .after fun _ => .pure fun o ho => ?_
    cases ho
    trivial
  · refine .after fun _ => .pure fun o ho => ?_
    cases ho
    intro v hv
    split at hv
    · simp at hv
    · exact sound v (mem_of_mem_repeatItems hv)
  · refine .after fun _ => .pure fun o ho => ?_
    cases ho
    intro v hv
    split at hv
    · simp at hv
    · exact sound v (mem_of_mem_repeatItems hv)
  · exact .ok fun o ho => by cases ho

/-- What is made of two sequences consists of their items. -/
theorem gives_binary? (op : BinaryOperator) (a b : Value) {x y : Option Object}
    (hx : ∀ o, x = some o → o.Sound functions size age)
    (hy : ∀ o, y = some o → o.Sound functions size age) :
    Gives (binary? op a b x y) fun r => ∀ o, r = some o → o.Sound functions size age := by
  have both : ∀ {xs ys : Array Value} {P : Value → Prop}, (∀ v ∈ xs, P v) → (∀ v ∈ ys, P v) →
      ∀ v ∈ xs ++ ys, P v := fun hxs hys v hv =>
    (Array.mem_append.mp hv).elim (hxs v) (hys v)
  unfold binary?
  split
  · refine .ok fun o ho => ?_
    split at ho <;> cases ho
    trivial
  · refine .ok fun o ho => ?_
    split at ho <;> cases ho
    exact both (hx _ rfl) (hy _ rfl)
  · refine .ok fun o ho => ?_
    split at ho <;> cases ho
    exact both (hx _ rfl) (hy _ rfl)
  · split
    · exact gives_repeated? (hx _ rfl) b
    · exact .ok fun o ho => by cases ho
  · split
    · exact gives_repeated? (hy _ rfl) a
    · exact .ok fun o ho => by cases ho
  · exact .ok fun o ho => by cases ho

end Sequence

namespace HeapM

theorem keeps_ofInteger (r : Except Fault Integer.Result) :
    Keeps functions w (ofInteger r) Heap.Has := by
  unfold ofInteger
  split
  · exact .allocInteger _
  · exact .pure fun _ _ _ => trivial
  · exact .fail _

theorem keeps_unsupported (op : BinaryOperator) (a b : Value) {post : Heap → α → Prop} :
    Keeps functions w (inspect fun h => refuse (h.unsupported op a b)) post :=
  .inspect (fun _ => .refuse rfl) fun _ _ _ => .refuse _

theorem keeps_generalBinary (op : BinaryOperator) (a b : Value) :
    Keeps functions w (generalBinary op a b) Heap.Has := by
  refine Keeps.get.bind fun _ h _ _ _ => ?_
  split
  · exact keeps_ofInteger _
  · split
    · rename_i x y _
      refine .inspect (fun h => h.orderly_floatBinary op a b x y) fun h _ _ => ?_
      unfold Heap.floatBinary
      split
      · rename_i v hv
        exact .ok (Value.within_of_primitive (Primitive.primitive_of_binary hv) _)
      · exact .refuse _
      · exact .refuse _
    · have made : Keeps functions w (inspect fun h => do
          Sequence.binary? op a b (← h.view a) (← h.view b)) fun h r =>
            ∀ o, r = some o → o.Sound functions h.size h.size :=
        .inspect
          (fun h => .bind (h.orderly_view a) fun x => .bind (h.orderly_view b) fun y =>
            Sequence.orderly_binary? op a b x y)
          fun h _ sound => (h.gives_view a).bind fun x hx => (h.gives_view b).bind fun y hy =>
            Sequence.gives_binary? op a b (fun o ho => sound.stored (hx o ho))
              fun o ho => sound.stored (hy o ho)
      refine (made.later ‹_›).bind fun _ found _ _ sound => ?_
      split
      · exact .alloc fun h g _ => (sound _ rfl).mono (Nat.le_refl _)
          (Nat.le_succ_of_le g.size) g.size
      · exact keeps_unsupported op a b

theorem keeps_binary (op : BinaryOperator) (a b : Value) :
    Keeps functions w (binary op a b) Heap.Has := by
  unfold binary
  split
  · split
    · rename_i v hv
      exact .pure fun h _ _ =>
        Value.within_of_primitive (Primitive.primitive_of_binary hv) h.size
    · exact keeps_generalBinary op a b
    · exact keeps_unsupported op a b
    · exact .fail _
  · exact keeps_generalBinary op a b

theorem keeps_addInPlace {a : Value} (b : Value) (ha : w.Has a) :
    Keeps functions w (addInPlace a b) Heap.Has := by
  refine (keeps_isList a).bind fun w' isList grows _ _ => ?_
  split
  · exact (keeps_collect b).bind fun _ items grows' _ has => (keeps_extend a has).bind
      fun _ _ grows'' _ _ => .pure fun _ g _ =>
        g.has (grows''.has (grows'.has (grows.has ha)))
  · exact keeps_binary .add a b

theorem keeps_compare (op : CompareOperator) (a b : Value) :
    Keeps functions w (compare op a b) Heap.Has := by
  refine .inspect (fun h => (h.orderly_holds op a b).map) fun h _ _ v hv => ?_
  cases holds : h.holds op a b <;> rw [holds] at hv <;> cases hv
  trivial

theorem keeps_unary (op : UnaryOperator) (a : Value) :
    Keeps functions w (unary op a) Heap.Has := by
  have general : Keeps functions w (generalUnary op a) Heap.Has := by
    refine Keeps.get.bind fun _ h _ _ _ => ?_
    split
    · exact .allocInteger _
    · exact .inspect (fun _ => .refuse rfl) fun _ _ _ => .refuse _
  unfold unary
  split
  · exact .inspect (fun h => .bind (h.orderly_truth a) fun _ => .pure _)
      fun _ _ _ => .after fun _ => .pure trivial
  · split
    · split
      · rename_i v hv
        exact .pure fun h _ _ => Value.within_of_primitive (Primitive.primitive_of_unary hv) h.size
      · exact general
      · exact .inspect (fun _ => .refuse rfl) fun _ _ _ => .refuse _
    · exact general

end HeapM

end RegisterVm
