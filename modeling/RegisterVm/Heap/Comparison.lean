import RegisterVm.Heap.Hash
import RegisterVm.Value.Primitive

/-!
# Comparing values

Truth, identity, equality and order. Equality and order look into containers, down to a fixed
depth. Numbers are compared by value; a large integer beside a float is first made a float.
-/

namespace RegisterVm

namespace Value

/-- Whether two values are the same; floats are the same when their bits are. -/
def identical : Value → Value → Bool
  | .float x, .float y => x.toBits == y.toBits
  | .none, .none => true
  | .bool a, .bool b => a == b
  | .int a, .int b => a == b
  | .object a, .object b => a == b
  | _, _ => false

end Value

/-- The order in which a sequence of items decides. -/
def sequenceOrder (equal : Value → Value → Outcome Bool)
    (order : Value → Value → Outcome (Option Ordering)) :
    List Value → List Value → Outcome (Option Ordering)
  | [], [] => .ok (some .eq)
  | [], _ :: _ => .ok (some .lt)
  | _ :: _, [] => .ok (some .gt)
  | x :: xs, y :: ys => do
    if ← equal x y then sequenceOrder equal order xs ys else order x y

/-- Whether two sequences have equal items in equal number. -/
def sequenceEqual (equal : Value → Value → Outcome Bool) : List Value → List Value → Outcome Bool
  | [], [] => .ok true
  | x :: xs, y :: ys => do
    if ← equal x y then sequenceEqual equal xs ys else return false
  | _, _ => .ok false

namespace Heap

/-- Empty containers and zero are false. -/
def truth (h : Heap) (v : Value) : Outcome Bool :=
  match v.truth? with
  | some t => .ok t
  | none => do
    match ← h.view v with
    | some (.str s) => return !s.isEmpty
    | some (.big n) => return n != 0
    | some (.list items) | some (.tuple items) => return !items.isEmpty
    | some (.dict d) => return d.size != 0
    | some (.set s) => return s.size != 0
    | some (.range r) => return !r.isEmpty
    | _ => return true

/-- Values in containers nested deeper than this are not compared. -/
def comparisonDepth : Nat := 512

/-- Whether every entry of a dict has an equal one in another. -/
def entriesEqual (h : Heap) (equal : Value → Value → Outcome Bool) (other : Dict) :
    List (Value × Value) → Outcome Bool
  | [] => .ok true
  | (name, value) :: rest => do
    match other.get? (← h.key name) with
    | some found => if ← equal value found then h.entriesEqual equal other rest else return false
    | none => return false

/-- Whether every item is in a set. -/
def itemsContained (h : Heap) (other : KeySet) : List Value → Outcome Bool
  | [] => .ok true
  | item :: rest => do
    if other.contains (← h.key item) then h.itemsContained other rest else return false

/-- Equality of objects of the same type; `equal` compares the values in them. -/
def objectsEqual (h : Heap) (equal : Value → Value → Outcome Bool) :
    Option Object → Option Object → Outcome Bool
  | some (.str x), some (.str y) => .ok (x == y)
  | some (.list x), some (.list y) | some (.tuple x), some (.tuple y) =>
    if x.size = y.size then sequenceEqual equal x.toList y.toList else .ok false
  | some (.dict x), some (.dict y) =>
    if x.size = y.size then h.entriesEqual equal y x.entries.toList else .ok false
  | some (.set x), some (.set y) =>
    if x.size = y.size then h.itemsContained y x.items.toList else .ok false
  | some (.range x), some (.range y) => .ok (x == y)
  | _, _ => .ok false

/-- Equality of numbers of which one is no word. -/
def largeEqual (h : Heap) (a b : Value) : Bool :=
  match h.integer? a, h.integer? b with
  | some x, some y => x == y
  | _, _ =>
    match h.float? a, h.float? b with
    | some x, some y => x == y
    | _, _ => false

/-- Equality inside `comparisonDepth + 1 - levels` containers. -/
def equalWithin (h : Heap) : (levels : Nat) → Value → Value → Outcome Bool
  | 0, _, _ => refuse .comparisonTooDeep
  | levels + 1, a, b =>
    if !a.isObject && !b.isObject then
      (Primitive.equal a b).mapError fun kind => .ofFault (.signal kind)
    else if a.identical b then .ok true
    else if h.isBig a || h.isBig b then .ok (h.largeEqual a b)
    else do h.objectsEqual (h.equalWithin levels) (← h.view a) (← h.view b)

def equal (h : Heap) (a b : Value) : Outcome Bool := h.equalWithin (comparisonDepth + 1) a b

/-- The order of two numbers, when both are numbers. -/
def numberOrder? (h : Heap) (a b : Value) : Option (Option Ordering) :=
  match h.integer? a, h.integer? b with
  | some x, some y => some (some (compare x y))
  | _, _ =>
    match h.float? a, h.float? b with
    | some x, some y => some (Binary64.compare? x y)
    | _, _ => none

/-- The order of two texts by code points. -/
def textOrder (x y : String) : Ordering :=
  if x < y then .lt else if x = y then .eq else .gt

/-- Order inside `comparisonDepth + 1 - levels` containers; `symbol` is the operator asked for. -/
def orderWithin (h : Heap) (symbol : String) :
    (levels : Nat) → Value → Value → Outcome (Option Ordering)
  | 0, _, _ => refuse .comparisonTooDeep
  | levels + 1, a, b =>
    match h.numberOrder? a b with
    | some o => .ok o
    | none => do
      match ← h.view a, ← h.view b with
      | some (.str x), some (.str y) => return some (textOrder x y)
      | some (.list x), some (.list y) | some (.tuple x), some (.tuple y) =>
        sequenceOrder (h.equalWithin levels) (h.orderWithin symbol levels) x.toList y.toList
      | _, _ => refuse (.unordered symbol (← h.typeName a) (← h.typeName b))

/-- The order of two values; `none` when a NaN leaves it open. -/
def order (h : Heap) (symbol : String) (a b : Value) : Outcome (Option Ordering) :=
  h.orderWithin symbol (comparisonDepth + 1) a b

end Heap

end RegisterVm
