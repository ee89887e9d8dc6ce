import RegisterVm.Heap.Comparison
import RegisterVm.Heap.Iteration
import RegisterVm.Heap.Shown
import RegisterVm.Text.Search

/-!
# Containers

Length, membership, items and slices. Positions are counted in items, of a string in characters; a
negative index counts from the end.
-/

namespace RegisterVm

namespace Heap

/-- The word that a key of a sequence stands for; an integer that is no word is `none`. -/
def indexOf (h : Heap) (container : String) (key : Value) : Outcome (Option Int64) :=
  match key.asInt? with
  | some i => .ok (some i)
  | none =>
    if h.isBig key then .ok none
    else do refuse (.badIndex container (← h.typeName key))

/-- The position of a key in a sequence. -/
def positionOf (h : Heap) (container : String) (key : Value) (length : Nat) :
    Outcome (Option Nat) := do
  return (← h.indexOf container key).bind (position? · length)

/-- The fault of a key that a dict does not have. -/
def missingKey (h : Heap) (key : Value) : Fault :=
  match h.shown key with
  | .ok text => .keyNotFound text
  | .error _ => .keyNotFound "<key>"

/-- A word or nothing, as a bound of a slice; large integers are beyond every position. -/
def boundOf (h : Heap) (bound : Value) : Outcome (Option Int64) :=
  match bound with
  | .none => .ok none
  | bound =>
    match h.integer? bound with
    | some n => .ok (some (Word.clamp n))
    | none => refuse .badSliceBound

/-- The position at which a slice starts or stops. -/
def slicePosition (bound : Option Int64) (length default : Nat) : Nat :=
  match bound with
  | none => default
  | some i =>
    if i < 0 then (length + i.toInt).toNat else min i.toInt.toNat length

/-- The items from `start` up to `stop`. -/
def cut {α : Type} (start stop : Option Int64) (items : List α) : List α :=
  let low := slicePosition start items.length 0
  let high := slicePosition stop items.length items.length
  (items.drop low).take (high - low)

/-- The number of items. -/
def length (h : Heap) (v : Value) : Outcome Int64 := do
  match ← h.view v with
  | some (.str s) => return Int64.ofNat s.length
  | some (.list items) | some (.tuple items) => return Int64.ofNat items.size
  | some (.dict d) => return Int64.ofNat d.size
  | some (.set s) => return Int64.ofNat s.size
  | some (.range r) =>
    match r.length? with
    | some n => return n
    | none => refuse .rangeTooLong
  | _ => refuse (.noLength (← h.typeName v))

/-- Whether one of the values equals `item`. -/
def anyEqual (h : Heap) (item : Value) : List Value → Outcome Bool
  | [] => .ok false
  | v :: vs => do if ← h.equal v item then return true else h.anyEqual item vs

/-- Whether `item` is in the container. -/
def contains (h : Heap) (container item : Value) : Outcome Bool := do
  match ← h.view container with
  | some (.str s) =>
    match h.text? item with
    | some needle => return (Text.find? needle.toList s.toList).isSome
    | none => refuse (.notASubstring (← h.typeName item))
  | some (.list items) | some (.tuple items) => h.anyEqual item items.toList
  | some (.dict d) => return d.contains (← h.key item)
  | some (.set s) => return s.contains (← h.key item)
  | some (.range r) => return item.asInt?.any r.contains
  | _ => refuse (.notAContainer (← h.typeName container))

/-- An item of a container; a character of a string is not yet a value. -/
def item (h : Heap) (container key : Value) : Outcome (Value ⊕ Char) := do
  match ← h.view container with
  | some (.list items) =>
    match (← h.positionOf "list" key items.size).bind (items[·]?) with
    | some v => return .inl v
    | none => refuse (.indexOutOfRange "list")
  | some (.tuple items) =>
    match (← h.positionOf "tuple" key items.size).bind (items[·]?) with
    | some v => return .inl v
    | none => refuse (.indexOutOfRange "tuple")
  | some (.dict d) =>
    match d.get? (← h.key key) with
    | some v => return .inl v
    | none => refuse (h.missingKey key)
  | some (.range r) =>
    match (← h.indexOf "range object" key).bind r.get? with
    | some i => return .inl (.int i)
    | none => refuse (.indexOutOfRange "range object")
  | some (.str s) =>
    let index ← h.indexOf "string" key
    let chars := s.toList
    match (index.bind (position? · chars.length)).bind (chars[·]?) with
    | some c => return .inr c
    | none => refuse (.indexOutOfRange "string")
  | _ => refuse (.notSubscriptable (← h.typeName container))

end Heap

/-! ## Changes to an object of one type -/

namespace Object

def onList (f : Array Value → Array Value) : Object → Object
  | list items => list (f items)
  | o => o

def onDict (f : Dict → Dict) : Object → Object
  | dict d => dict (f d)
  | o => o

def onSet (f : KeySet → KeySet) : Object → Object
  | set s => set (f s)
  | o => o

def isList : Object → Bool
  | list _ => true
  | _ => false

end Object

namespace HeapM

/-- Whether a value is a list. -/
def isList (v : Value) : HeapM Bool := do
  return (← view v).any Object.isList

/-- The item of a container under a key. -/
def getItem (container key : Value) : HeapM Value := do
  match ← inspect fun h => h.item container key with
  | .inl v => return v
  | .inr c => allocChars [c]

/-- What is to be stored where by an assignment to an item. -/
inductive Place where
  | position (i : Nat)
  | key (k : HashKey)

/-- The place of an item that is assigned to. -/
def place (container key : Value) : HeapM Place :=
  inspect fun h => do
    match ← h.view container with
    | some (.list items) =>
      match ← h.positionOf "list" key items.size with
      | some i => return .position i
      | none => refuse (.indexOutOfRange "list assignment")
    | some (.dict _) => return .key (← h.key key)
    | _ => refuse (.noItemAssignment (← h.typeName container))

/-- Stores a value in a container. -/
def setItem (container key value : Value) : HeapM Unit := do
  match ← place container key with
  | .position i => modify container (Object.onList fun items => items.setIfInBounds i value)
  | .key k => modify container (Object.onDict fun d => d.insert k key value)

/-- The items of a sequence between two bounds. -/
def slice (container start stop : Value) : HeapM Value := do
  let start ← inspect fun h => h.boundOf start
  let stop ← inspect fun h => h.boundOf stop
  match ← view container with
  | some (.list items) => alloc (.list (Heap.cut start stop items.toList).toArray)
  | some (.tuple items) => alloc (.tuple (Heap.cut start stop items.toList).toArray)
  | some (.str s) => allocChars (Heap.cut start stop s.toList)
  | _ => inspect fun h => do refuse (.notSubscriptable (← h.typeName container))

/-- Adds an item at the end of a list. -/
def append (list item : Value) : HeapM Unit := do
  if ← isList list then modify list (Object.onList fun items => items.push item)
  else inspect fun h => do refuse (.appendToNonList (← h.typeName list))

/-- Adds items at the end of a list. -/
def extend (list : Value) (items : Array Value) : HeapM Unit := do
  if ← isList list then modify list (Object.onList fun old => old ++ items)
  else fail .extendNonList

end HeapM

end RegisterVm
