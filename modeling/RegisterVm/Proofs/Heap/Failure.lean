import RegisterVm.Heap.Arithmetic
import RegisterVm.Heap.Attribute
import RegisterVm.Heap.Exception

/-!
# How operations on the heap fail

A failure is `Failure.Orderly` when it has not passed through a call and its fault is about values:
it is neither a signal between operations nor a fault of bytecode, frames or compiled loops. Reading
the heap and changing it fail in this way only, and without an exception (`Outcome.Orderly`,
`HeapM.Orderly`). The two predicates are closed under sequencing, so each operation needs the lemmas
of those it is made of. Raising is the one operation that fails with an exception
(`HeapM.raise_spec`).
-/

namespace RegisterVm

/-- Whether a fault is about values. -/
def Fault.aboutValues : Fault → Bool
  | stated kind _ => kind = .uncaughtException
  | signal _ | invalidBytecode _ | notAName _ | constantOutOfRange _ | functionOutOfRange _
  | unknownFunction _ | undefinedName _ | recursionLimit | wrongPositionalCount _ _ _
  | invalidTag _ | invalidExit _ | noInstruction _ | returnInHelper | registerOutside _ _
  | windowOutside _ _ _ | handlerInLoop _ _ | loopTooLong _ _ _ | registerBeyondSlots _
  | registerNotMapped _ => false
  | _ => true

/-- A failure of an operation on values. -/
structure Failure.Orderly (e : Failure) : Prop where
  trace : e.trace = []
  fault : e.fault.aboutValues = true

/-- An orderly failure that carries no exception. -/
structure Failure.Bare (e : Failure) : Prop extends e.Orderly where
  exception : e.exception = none

/-- Reading fails in an orderly way only, without an exception. -/
def Outcome.Orderly {α : Type} (o : Outcome α) : Prop := ∀ e, o = .error e → e.Bare

/-- An operation fails in an orderly way only, without an exception. -/
def HeapM.Orderly {α : Type} (operation : HeapM α) : Prop :=
  ∀ h e h', operation h = .error e h' → e.Bare

variable {α β : Type}

/-! ## Sequencing -/

namespace Outcome.Orderly

@[grind ←] theorem ok (a : α) : Orderly (.ok a) := by
  intro e h
  cases h

@[grind ←] theorem pure (a : α) : Orderly (pure a) := ok a

@[grind ←] theorem bind {o : Outcome α} {f : α → Outcome β} (ho : Orderly o)
    (hf : ∀ a, Orderly (f a)) : Orderly (o >>= f) := by
  intro e h
  cases o with
  | ok a => exact hf a e h
  | error e' => cases h; exact ho _ rfl

@[grind ←] theorem map {o : Outcome α} {f : α → β} (ho : Orderly o) : Orderly (o.map f) := by
  intro e h
  cases o with
  | ok a => cases h
  | error e' => cases h; exact ho _ rfl

@[grind ←] theorem refuse {fault : Fault} (h : fault.aboutValues = true) :
    Orderly (refuse fault : Outcome α) := by
  intro e he
  cases he
  exact ⟨⟨rfl, h⟩, rfl⟩

@[grind ←] theorem mapM {f : α → Outcome β} (hf : ∀ a, Orderly (f a)) (as : List α) :
    Orderly (as.mapM f) := by
  induction as with
  | nil => exact pure []
  | cons a as ih =>
    rw [List.mapM_cons]
    exact (hf a).bind fun b => ih.bind fun bs => pure (b :: bs)

@[grind ←] theorem foldlM {f : β → α → Outcome β} (hf : ∀ b a, Orderly (f b a)) (b : β)
    (as : List α) : Orderly (as.foldlM f b) := by
  induction as generalizing b with
  | nil => exact pure b
  | cons a as ih => exact (hf b a).bind ih

end Outcome.Orderly

namespace HeapM.Orderly

@[grind ←] theorem pure (a : α) : Orderly (pure a) := by
  intro h e h' he
  cases he

@[grind ←] theorem bind {operation : HeapM α} {f : α → HeapM β} (ho : Orderly operation)
    (hf : ∀ a, Orderly (f a)) : Orderly (operation >>= f) := by
  intro h e h' he
  simp only [Bind.bind, EStateM.bind] at he
  split at he
  · exact hf _ _ _ _ he
  · rename_i failed
    cases he
    exact ho _ _ _ failed

@[grind ←] theorem map {operation : HeapM α} {f : α → β} (ho : Orderly operation) :
    Orderly (f <$> operation) := by
  rw [← bind_pure_comp]
  exact ho.bind fun a => pure (f a)

@[grind ←] theorem get : Orderly (get : HeapM Heap) := by
  intro h e h' he
  cases he

@[grind ←] theorem inspect {f : Heap → Outcome α} (hf : ∀ h, (f h).Orderly) :
    Orderly (inspect f) := by
  intro h e h' he
  simp only [RegisterVm.inspect] at he
  split at he
  · cases he
  · rename_i failed
    cases he
    exact hf h _ failed

@[grind ←] theorem fail {fault : Fault} (hf : fault.aboutValues = true) :
    Orderly (fail fault : HeapM α) := by
  intro h e h' he
  cases he
  exact ⟨⟨rfl, hf⟩, rfl⟩

@[grind ←] theorem mapM {f : α → HeapM β} (hf : ∀ a, Orderly (f a)) (as : List α) :
    Orderly (as.mapM f) := by
  induction as with
  | nil => exact pure []
  | cons a as ih =>
    rw [List.mapM_cons]
    exact (hf a).bind fun b => ih.bind fun bs => pure (b :: bs)

@[grind ←] theorem foldlM {f : β → α → HeapM β} (hf : ∀ b a, Orderly (f b a)) (b : β)
    (as : List α) : Orderly (as.foldlM f b) := by
  induction as generalizing b with
  | nil => exact pure b
  | cons a as ih => exact (hf b a).bind ih

@[grind ←] theorem alloc (o : Object) : Orderly (alloc o) := by
  intro h e h' he
  cases he

@[grind ←] theorem modify (v : Value) (f : Object → Object) : Orderly (modify v f) := by
  intro h e h' he
  cases v <;> cases he

@[grind ←] theorem intern (s : String) : Orderly (intern s) := by
  intro h e h' he
  simp only [HeapM.intern] at he
  split at he <;> cases he

@[grind ←] theorem allocText (s : String) : Orderly (allocText s) := alloc _

@[grind ←] theorem allocChars (cs : List Char) : Orderly (allocChars cs) := alloc _

@[grind ←] theorem allocInteger (n : Int) : Orderly (allocInteger n) := by
  unfold HeapM.allocInteger
  split
  · exact pure _
  · exact alloc _

end HeapM.Orderly

open Outcome

/-! ## Views, texts and keys -/

namespace Heap

variable (h : Heap)

@[grind ←] theorem orderly_get (handle : Handle) : Orderly (h.get handle) := by
  grind [get, Fault.aboutValues]

@[grind ←] theorem orderly_view (v : Value) : Orderly (h.view v) := by
  cases v with
  | object handle => exact (h.orderly_get handle).map
  | _ => exact .ok _

@[grind ←] theorem orderly_typeName (v : Value) : Orderly (h.typeName v) := by
  grind [typeName]

@[grind ←] theorem orderly_objectText {item : Value → Outcome String}
    (hi : ∀ v, Orderly (item v)) (v : Value) (o : Object) : Orderly (h.objectText item v o) := by
  cases o <;> simp only [objectText] <;> grind

@[grind ←] theorem orderly_shownWithin (depth : Nat) (around : List Handle) (v : Value) :
    Orderly (h.shownWithin depth around v) := by
  induction depth generalizing around v with
  | zero => cases v <;> simp only [shownWithin] <;> grind
  | succ depth ih => cases v <;> simp only [shownWithin] <;> grind

@[grind ←] theorem orderly_shown (v : Value) : Orderly (h.shown v) :=
  h.orderly_shownWithin _ _ v

@[grind ←] theorem orderly_text (v : Value) : Orderly (h.text v) := by
  grind [text]

theorem orderly_keysBy {key : Value → Outcome HashKey} (hk : ∀ v, Orderly (key v))
    (vs : List Value) : Orderly (keysBy key vs) := by
  induction vs with
  | nil => exact .ok _
  | cons v vs ih => exact (hk v).bind fun k => ih.bind fun ks => .pure _

@[grind ←] theorem orderly_keyWithin (depth : Nat) (v : Value) : Orderly (h.keyWithin depth v) := by
  induction depth generalizing v with
  | zero => cases v <;> simp only [keyWithin] <;> grind
  | succ depth ih =>
    cases v <;> simp only [keyWithin] <;> grind [orderly_keysBy, Fault.aboutValues]

@[grind ←] theorem orderly_key (v : Value) : Orderly (h.key v) := h.orderly_keyWithin _ v

@[grind ←] theorem orderly_dictOf (pairs : List (Value × Value)) : Orderly (h.dictOf pairs) := by
  grind [dictOf]

@[grind ←] theorem orderly_setOf (items : List Value) : Orderly (h.setOf items) := by
  grind [setOf]

end Heap

/-! ## Comparison -/

namespace Primitive

/-- Values that are no objects can always be compared. -/
theorem equal_of_primitives {a b : Value} (ha : a.isObject = false) (hb : b.isObject = false) :
    ∃ t, equal a b = .ok t := by
  cases a <;> cases b <;> first | exact ⟨_, rfl⟩ | simp [Value.isObject] at ha hb

end Primitive

namespace Heap

variable (h : Heap)

@[grind ←] theorem orderly_truth (v : Value) : Orderly (h.truth v) := by
  grind [truth]

theorem orderly_sequenceEqual {equal : Value → Value → Outcome Bool}
    (he : ∀ a b, Orderly (equal a b)) (xs ys : List Value) :
    Orderly (sequenceEqual equal xs ys) := by
  induction xs generalizing ys with
  | nil => cases ys <;> exact .ok _
  | cons x xs ih => cases ys <;> simp only [sequenceEqual] <;> grind

theorem orderly_sequenceOrder {equal : Value → Value → Outcome Bool}
    {order : Value → Value → Outcome (Option Ordering)} (he : ∀ a b, Orderly (equal a b))
    (ho : ∀ a b, Orderly (order a b)) (xs ys : List Value) :
    Orderly (sequenceOrder equal order xs ys) := by
  induction xs generalizing ys with
  | nil => cases ys <;> exact .ok _
  | cons x xs ih => cases ys <;> simp only [sequenceOrder] <;> grind

theorem orderly_entriesEqual {equal : Value → Value → Outcome Bool}
    (he : ∀ a b, Orderly (equal a b)) (other : Dict) (entries : List (Value × Value)) :
    Orderly (h.entriesEqual equal other entries) := by
  induction entries with
  | nil => exact .ok _
  | cons entry entries ih => obtain ⟨name, value⟩ := entry; simp only [entriesEqual]; grind

@[grind ←] theorem orderly_itemsContained (other : KeySet) (items : List Value) :
    Orderly (h.itemsContained other items) := by
  induction items with
  | nil => exact .ok _
  | cons item items ih => simp only [itemsContained]; grind

@[grind ←] theorem orderly_objectsEqual {equal : Value → Value → Outcome Bool}
    (he : ∀ a b, Orderly (equal a b)) (a b : Option Object) :
    Orderly (h.objectsEqual equal a b) := by
  unfold objectsEqual
  grind [orderly_sequenceEqual, orderly_entriesEqual]

theorem orderly_equalWithin (levels : Nat) (a b : Value) :
    Orderly (h.equalWithin levels a b) := by
  induction levels generalizing a b with
  | zero => exact .refuse rfl
  | succ levels ih =>
    simp only [equalWithin]
    split
    · rename_i primitives
      simp only [Bool.and_eq_true, Bool.not_eq_true'] at primitives
      obtain ⟨t, ht⟩ := Primitive.equal_of_primitives primitives.1 primitives.2
      rw [ht]
      exact .ok t
    · grind

@[grind ←] theorem orderly_equal (a b : Value) : Orderly (h.equal a b) :=
  h.orderly_equalWithin _ a b

theorem orderly_orderWithin (symbol : String) (levels : Nat) (a b : Value) :
    Orderly (h.orderWithin symbol levels a b) := by
  induction levels generalizing a b with
  | zero => exact .refuse rfl
  | succ levels ih =>
    simp only [orderWithin]
    grind [orderly_sequenceOrder, orderly_equalWithin, Fault.aboutValues]

@[grind ←] theorem orderly_order (symbol : String) (a b : Value) : Orderly (h.order symbol a b) :=
  h.orderly_orderWithin symbol _ a b

@[grind ←] theorem orderly_ordered (symbol : String) (accepts : Ordering → Bool) (a b : Value) :
    Orderly (h.ordered symbol accepts a b) :=
  (h.orderly_order symbol a b).map

end Heap

/-! ## Containers -/

namespace Heap

variable (h : Heap)

@[grind ←] theorem orderly_indexOf (container : String) (key : Value) :
    Orderly (h.indexOf container key) := by
  grind [indexOf, Fault.aboutValues]

@[grind ←] theorem orderly_positionOf (container : String) (key : Value) (length : Nat) :
    Orderly (h.positionOf container key length) := by
  grind [positionOf]

@[grind =] theorem aboutValues_missingKey (key : Value) :
    (h.missingKey key).aboutValues = true := by
  grind [missingKey, Fault.aboutValues]

@[grind ←] theorem orderly_boundOf (bound : Value) : Orderly (h.boundOf bound) := by
  unfold boundOf
  grind [Fault.aboutValues]

@[grind ←] theorem orderly_length (v : Value) : Orderly (h.length v) := by
  grind [length, Fault.aboutValues]

@[grind ←] theorem orderly_anyEqual (item : Value) (vs : List Value) :
    Orderly (h.anyEqual item vs) := by
  induction vs with
  | nil => exact .ok _
  | cons v vs ih => simp only [anyEqual]; grind

@[grind ←] theorem orderly_contains (container item : Value) :
    Orderly (h.contains container item) := by
  grind [contains, Fault.aboutValues]

@[grind ←] theorem orderly_item (container key : Value) : Orderly (h.item container key) := by
  grind [item, Fault.aboutValues]

end Heap

namespace HeapM

open HeapM (Orderly)

@[grind ←] theorem orderly_view (v : Value) : Orderly (view v) := .inspect fun h => h.orderly_view v

@[grind ←] theorem orderly_isList (v : Value) : Orderly (isList v) := by
  grind [isList]

@[grind ←] theorem orderly_getItem (container key : Value) : Orderly (getItem container key) := by
  grind [getItem]

@[grind ←] theorem orderly_place (container key : Value) : Orderly (place container key) := by
  refine .inspect fun h => ?_
  grind [Fault.aboutValues]

@[grind ←] theorem orderly_setItem (container key value : Value) :
    Orderly (setItem container key value) := by
  grind [setItem]

@[grind ←] theorem orderly_slice (container start stop : Value) :
    Orderly (slice container start stop) := by
  refine .bind (.inspect fun h => h.orderly_boundOf start) fun _ =>
    .bind (.inspect fun h => h.orderly_boundOf stop) fun _ =>
      .bind (orderly_view container) fun _ => ?_
  grind [Fault.aboutValues]

@[grind ←] theorem orderly_append (list item : Value) : Orderly (append list item) := by
  grind [append, Fault.aboutValues]

@[grind ←] theorem orderly_extend (list : Value) (items : Array Value) :
    Orderly (extend list items) := by
  grind [extend, Fault.aboutValues]

@[grind ←] theorem orderly_allocDict (pairs : List (Value × Value)) :
    Orderly (allocDict pairs) := by
  grind [allocDict]

@[grind ←] theorem orderly_allocSet (items : List Value) : Orderly (allocSet items) := by
  grind [allocSet]

/-! ## Iteration -/

@[grind ←] theorem orderly_iterator (v : Value) : Orderly (iterator v) := by
  grind [iterator, Fault.aboutValues]

@[grind ←] theorem orderly_sequenceItem (source : Handle) (index : Nat) :
    Orderly (sequenceItem source index) := by
  refine .inspect fun h => ?_
  grind

@[grind ←] theorem orderly_characterAt (source : Handle) (offset : Nat) :
    Orderly (characterAt source offset) :=
  .inspect fun h => .bind (h.orderly_get source) fun _ => .pure _

@[grind ←] theorem orderly_next (it : Value) : Orderly (next it) := by
  refine .bind (orderly_view it) fun o => ?_
  split <;> grind [Fault.aboutValues]

@[grind ←] theorem orderly_remaining (it : Value) : Orderly (remaining it) := by
  refine .bind (orderly_view it) fun o => ?_
  split
  case h_3 source _ | h_4 source _ =>
    exact .inspect fun h => .bind (h.orderly_get source) fun o => by split <;> exact .pure _
  all_goals exact .pure _

@[grind ←] theorem orderly_drain (it : Value) (count : Nat) (done : Array Value) :
    Orderly (drain it count done) := by
  induction count generalizing done with
  | zero => exact .pure done
  | succ count ih => simp only [drain]; grind

@[grind ←] theorem orderly_collect (v : Value) : Orderly (collect v) := by
  grind [collect]

end HeapM

/-! ## Arithmetic -/

namespace Primitive

/-- A signal of a primitive operator asks for the general form or has a fault about values. -/
theorem fault_of_binary {op : BinaryOperator} {a b : Value} {kind : ErrorKind}
    (h : binary op a b = .error kind) :
    kind.isFallback = true ∨ (op.fault kind).aboutValues = true := by
  have checked : ∀ {o : Option Int64}, Primitive.checked o = .error kind →
      kind.isFallback = true := by
    intro o ho
    cases o <;> cases ho
    rfl
  cases op <;>
    simp only [binary, add, sub, mul, div, floorDiv, mod, pow, bitAnd, bitOr, bitXor, shl, shr,
      onNumbers, onInts, bitwise, intDiv, intFloorDiv, intMod, intPow] at h <;>
    grind [ErrorKind.isFallback, BinaryOperator.fault, Fault.aboutValues]

/-- On floats a primitive operator gives no signal but that it does not apply. -/
theorem typeMismatch_of_floats {op : BinaryOperator} {x y : Float} {kind : ErrorKind}
    (h : binary op (.float x) (.float y) = .error kind) : kind = .typeMismatch := by
  cases op <;> cases h <;> rfl

end Primitive

namespace Heap

variable (h : Heap)

@[grind ←] theorem orderly_floatBinary (op : BinaryOperator) (a b : Value) (x y : Float) :
    Orderly (h.floatBinary op a b x y) := by
  unfold floatBinary
  split
  · exact .ok _
  · exact .refuse rfl
  · rename_i signal other hs
    exact absurd (Primitive.typeMismatch_of_floats hs) other

@[grind ←] theorem orderly_holds (op : CompareOperator) (a b : Value) :
    Orderly (h.holds op a b) := by
  cases op <;> simp only [holds] <;> grind

end Heap

namespace Sequence

@[grind ←] theorem orderly_repeated? (sequence : Object) (count : Value) :
    Outcome.Orderly (repeated? sequence count) := by
  have checked : ∀ what length n, Outcome.Orderly (checkRepeat what length n) := by
    grind [checkRepeat, Fault.aboutValues]
  unfold repeated?
  grind

@[grind ←] theorem orderly_binary? (op : BinaryOperator) (a b : Value) (x y : Option Object) :
    Outcome.Orderly (binary? op a b x y) := by
  unfold binary?
  grind

end Sequence

theorem Integer.aboutValues_of_binary {op : BinaryOperator} {x y : Int} {fault : Fault}
    (h : Integer.binary op x y = .error fault) : fault.aboutValues = true := by
  cases op <;>
    simp only [Integer.binary, multiply, divide, power, shiftLeft, shiftRight] at h <;>
    grind [Fault.aboutValues]

namespace HeapM

open HeapM (Orderly)

@[grind ←] theorem orderly_generalBinary (op : BinaryOperator) (a b : Value) :
    Orderly (generalBinary op a b) := by
  have integer : ∀ r, (∀ fault, r = .error fault → fault.aboutValues = true) →
      Orderly (ofInteger r) := by
    unfold ofInteger
    grind
  refine .bind .get fun h => ?_
  split
  · exact integer _ fun fault hf => Integer.aboutValues_of_binary hf
  · split
    · exact .inspect fun h => h.orderly_floatBinary op a b _ _
    · refine .bind (.inspect fun h => .bind (h.orderly_view a) fun x =>
        .bind (h.orderly_view b) fun y => Sequence.orderly_binary? op a b x y) fun o => ?_
      split
      · exact .alloc _
      · exact .inspect fun h => .refuse rfl

@[grind ←] theorem orderly_binary (op : BinaryOperator) (a b : Value) :
    Orderly (binary op a b) := by
  unfold binary
  split
  · split
    · exact .pure _
    · exact orderly_generalBinary op a b
    · exact .inspect fun h => .refuse rfl
    · rename_i signal notOverflow notMismatch hs
      rcases Primitive.fault_of_binary hs with fallback | fault
      · cases signal with
        | typeMismatch => exact absurd rfl notMismatch
        | integerOverflow => exact absurd rfl notOverflow
        | _ => cases fallback
      · exact .fail fault
  · exact orderly_generalBinary op a b

@[grind ←] theorem orderly_addInPlace (a b : Value) : Orderly (addInPlace a b) := by
  grind [addInPlace]

@[grind ←] theorem orderly_compare (op : CompareOperator) (a b : Value) :
    Orderly (compare op a b) := by
  grind [compare]

@[grind ←] theorem orderly_unary (op : UnaryOperator) (a : Value) : Orderly (unary op a) := by
  grind [unary, generalUnary, Fault.aboutValues]

end HeapM

/-! ## Attributes -/

namespace Heap

variable (h : Heap)

@[grind ←] theorem orderly_classAttributeWithin (name : String) (bases : Nat)
    (cls : Option Handle) : Orderly (h.classAttributeWithin name bases cls) := by
  induction bases generalizing cls with
  | zero => exact .refuse rfl
  | succ bases ih => cases cls <;> simp only [classAttributeWithin] <;> grind

@[grind ←] theorem orderly_classAttribute (cls : Handle) (name : String) :
    Orderly (h.classAttribute cls name) :=
  h.orderly_classAttributeWithin name _ _

@[grind ←] theorem orderly_isSubclassWithin (ancestor : Handle) (bases : Nat)
    (cls : Option Handle) : Orderly (h.isSubclassWithin ancestor bases cls) := by
  induction bases generalizing cls with
  | zero => exact .ok _
  | succ bases ih => cases cls <;> simp only [isSubclassWithin] <;> grind

@[grind ←] theorem orderly_functionOf? (v : Value) : Orderly (h.functionOf? v) := by
  grind [functionOf?]

@[grind ←] theorem orderly_method? (obj : Value) (name : String) :
    Orderly (h.method? obj name) := by
  grind [method?]

@[grind ←] theorem orderly_callable (callee : Value) : Orderly (h.callable callee) := by
  grind [callable, Fault.aboutValues]

end Heap

namespace HeapM

open HeapM (Orderly)

@[grind ←] theorem orderly_bind (receiver : Value) (name : String) (found : Option Value) :
    Orderly (bind receiver name found) := by
  unfold bind
  grind [Heap.noAttribute, Fault.aboutValues]

@[grind ←] theorem orderly_getAttribute (obj : Value) (name : String) :
    Orderly (getAttribute obj name) := by
  refine .bind (orderly_view obj) fun o => ?_
  split <;> grind [Heap.noAttribute, Fault.aboutValues]

@[grind ←] theorem orderly_setAttribute (obj : Value) (name : String) (value : Value) :
    Orderly (setAttribute obj name value) := by
  grind [setAttribute, Heap.noAttribute, Fault.aboutValues]

@[grind ←] theorem orderly_callableMethod (obj : Value) (name : String) :
    Orderly (callableMethod obj name) := by
  grind [callableMethod]

end HeapM

/-! ## Exceptions -/

/-- Whether an object can be raised: an exception, an instance of a class, or a class. -/
def Object.raisable : Object → Bool
  | cls _ _ _ | instanceOf _ _ | exceptionClass _ | exception _ _ => true
  | _ => false

@[grind ←] theorem Heap.orderly_exceptionBaseWithin (h : Heap) (bases : Nat) (cls : Option Handle) :
    Orderly (h.exceptionBaseWithin bases cls) := by
  induction bases generalizing cls with
  | zero => exact .ok _
  | succ bases ih => cases cls <;> simp only [exceptionBaseWithin] <;> grind

@[grind ←] theorem Heap.orderly_isException (h : Heap) (v : Value) (kind : ErrorKind) :
    Orderly (h.isException v kind) := by
  grind [isException]

namespace HeapM

open HeapM (Orderly)

@[grind ←] theorem orderly_newException (kind : ErrorKind) (args : List Value) :
    Orderly (newException kind args) := by
  cases args <;> simp only [newException] <;> grind

/-- What raising `v` on the heap `h` comes to: the failure and the heap afterwards. -/
inductive Raised (h : Heap) (v : Value) : Failure → Heap → Prop
  | dangling {e : Failure} : h.view v = .error e → Raised h v e h
  | exceptionClass {kind : ErrorKind} {handle : Handle} {h' : Heap} :
    h.view v = .ok (some (.exceptionClass kind)) → h.alloc (.exception kind "") = (handle, h') →
    Raised h v (h'.raised (.object handle)) h'
  | cls {name : String} {base : Option Handle} {attributes : Bindings} {c handle : Handle}
    {h' : Heap} : v = .object c → h.view v = .ok (some (.cls name base attributes)) →
    h.alloc (.instanceOf c []) = (handle, h') → Raised h v (h'.raised (.object handle)) h'
  | exception {kind : ErrorKind} {message : String} :
    h.view v = .ok (some (.exception kind message)) → Raised h v (h.raised v) h
  | instanceOf {c : Handle} {attributes : Bindings} :
    h.view v = .ok (some (.instanceOf c attributes)) → Raised h v (h.raised v) h
  | refused {o : Option Object} : h.view v = .ok o → (∀ o' ∈ o, o'.raisable = false) →
    Raised h v (.ofFault .notAnException) h

/-- **Raising always fails.** -/
theorem raise_spec (v : Value) (h : Heap) :
    ∃ e h', (raise v : HeapM α) h = .error e h' ∧ Raised h v e h' := by
  unfold raise
  simp only [Bind.bind, EStateM.bind, view, inspect]
  cases found : h.view v with
  | error e => exact ⟨e, h, rfl, .dangling found⟩
  | ok o =>
    cases o with
    | none => exact ⟨_, h, rfl, .refused found fun o' ho' => by cases ho'⟩
    | some o =>
      cases o with
      | exceptionClass kind => exact ⟨_, _, rfl, .exceptionClass found rfl⟩
      | exception kind message => exact ⟨_, h, rfl, .exception found⟩
      | instanceOf c attributes => exact ⟨_, h, rfl, .instanceOf found⟩
      | cls name base attributes =>
        cases v with
        | object c => exact ⟨_, _, rfl, .cls rfl found rfl⟩
        | _ => cases found
      | _ => exact ⟨_, h, rfl, .refused found fun o' ho' => by cases ho'; rfl⟩

/-- Raising never succeeds. -/
theorem raise_ne_ok (v : Value) (h : Heap) (a : α) (h' : Heap) : raise v h ≠ .ok a h' := by
  obtain ⟨e, h₁, raised, -⟩ := raise_spec (α := α) v h
  rw [raised]
  exact fun same => by cases same

/-- Raising fails in an orderly way, with an exception or without. -/
theorem orderly_of_raise {v : Value} {h h' : Heap} {e : Failure}
    (failed : (raise v : HeapM α) h = .error e h') : e.Orderly := by
  obtain ⟨e', h₁, raised, spec⟩ := raise_spec (α := α) v h
  cases raised.symm.trans failed
  cases spec with
  | dangling found => exact (h.orderly_view v e found).toOrderly
  | refused | exceptionClass | cls | exception | instanceOf => exact ⟨rfl, rfl⟩

end HeapM

end RegisterVm
