import RegisterVm.Heap.Attribute
import RegisterVm.Heap.Container
import RegisterVm.Text.Blank
import RegisterVm.Text.LetterCase

/-!
# Methods of built-in types

The methods of strings, lists, dicts and sets. Each checks the number of its arguments first.
-/

namespace RegisterVm

/-- Refuses a call with fewer than `least` or more than `most` arguments. -/
def checkArity (name : String) (args : List Value) (least most : Nat) : Outcome Unit :=
  if least ≤ args.length && args.length ≤ most then .ok ()
  else refuse (.wrongArgumentCount name least most args.length)

/-- The argument of a call with exactly one. -/
def oneArgument (name : String) (args : List Value) : Outcome Value :=
  match args with
  | [v] => .ok v
  | _ => refuse (.wrongArgumentCount name 1 1 args.length)

/-- The arguments of a call with exactly two. -/
def twoArguments (name : String) (args : List Value) : Outcome (Value × Value) :=
  match args with
  | [v, w] => .ok (v, w)
  | _ => refuse (.wrongArgumentCount name 2 2 args.length)

/-- The argument of a call with at most one. -/
def optionalArgument (name : String) (args : List Value) : Outcome (Option Value) :=
  match args with
  | [] => .ok none
  | [v] => .ok (some v)
  | _ => refuse (.wrongArgumentCount name 0 1 args.length)

/-- The arguments of a call with one or two. -/
def oneOrTwoArguments (name : String) (args : List Value) : Outcome (Value × Option Value) :=
  match args with
  | [v] => .ok (v, none)
  | [v, w] => .ok (v, some w)
  | _ => refuse (.wrongArgumentCount name 1 2 args.length)

namespace Heap

/-- The items of the receiver of a list method. -/
def listItems (h : Heap) (v : Value) : Outcome (Array Value) := do
  match ← h.view v with
  | some (.list items) => return items
  | _ => refuse .notAList

/-- The entries of a dict. -/
def dictEntries (h : Heap) (v : Value) : Outcome (List (Value × Value)) := do
  match ← h.view v with
  | some (.dict d) => return d.entries.toList
  | _ => return []

/-- The position of the first of some values that equals `item`. -/
def firstEqual? (h : Heap) (item : Value) (position : Nat) : List Value → Outcome (Option Nat)
  | [] => .ok none
  | v :: vs => do
    if ← h.equal v item then return some position else h.firstEqual? item (position + 1) vs

/-- How many of some values equal `item`. -/
def countEqual (h : Heap) (item : Value) (count : Nat) : List Value → Outcome Nat
  | [] => .ok count
  | v :: vs => do
    if ← h.equal v item then h.countEqual item (count + 1) vs else h.countEqual item count vs

/-- The text of an argument that must be a string. -/
def textArgument (h : Heap) (method : String) (v : Value) : Outcome String :=
  match h.text? v with
  | some s => .ok s
  | none => refuse (.notAString method (h.typeText v))

/-- The texts of the values that are to be joined, the first of which has a position. -/
def joinTexts (h : Heap) (position : Nat) : List Value → Outcome (List String)
  | [] => .ok []
  | v :: vs => do
    match h.text? v with
    | some s => return s :: (← h.joinTexts (position + 1) vs)
    | none => refuse (.joinItem position (← h.typeName v))

end Heap

/-- The position at which an item is inserted before an index. -/
def insertPosition (index : Int64) (length : Nat) : Nat :=
  if index < 0 then (length + index.toInt).toNat else min index.toInt.toNat length

namespace HeapM

/-! ## Lists -/

/-- Removes and gives back the item at an index, or the last one. -/
def popItem (list : Value) (index : Option (Option Int64)) : HeapM Value := do
  let items ← inspect fun h => h.listItems list
  if items.isEmpty then fail .popFromEmpty
  let position := match index with
    | none => some (items.size - 1)
    | some i => i.bind (position? · items.size)
  match position with
  | none => fail .popOutOfRange
  | some i =>
    match items[i]? with
    | none => fail .popOutOfRange
    | some v =>
      modify list (Object.onList fun items => items.eraseIdxIfInBounds i)
      return v

def insertItem (list : Value) (index : Int64) (item : Value) : HeapM Unit := do
  let length := (← inspect fun h => h.listItems list).size
  modify list (Object.onList fun items =>
    items.insertIdxIfInBounds (insertPosition index length) item)

def listMethod (method : ListMethod) (list : Value) (args : List Value) : HeapM Value := do
  match method with
  | .append =>
    append list (← inspect fun _ => oneArgument "append" args)
    return .none
  | .extend =>
    let items ← collect (← inspect fun _ => oneArgument "extend" args)
    extend list items
    return .none
  | .pop =>
    match ← inspect fun _ => optionalArgument "pop" args with
    | none => popItem list none
    | some key => popItem list (some (← inspect fun h => h.indexOf "list" key))
  | .insert =>
    let (key, item) ← inspect fun _ => twoArguments "insert" args
    let index ← inspect fun h => h.indexOf "list" key
    insertItem list (index.getD Int64.maxValue) item
    return .none
  | .index =>
    let item ← inspect fun _ => oneArgument "index" args
    inspect fun h => do
      match ← h.firstEqual? item 0 (← h.listItems list).toList with
      | some i => return .int (Int64.ofNat i)
      | none => refuse (.notInList (← h.shown item))
  | .count =>
    let item ← inspect fun _ => oneArgument "count" args
    inspect fun h => do
      return .int (Int64.ofNat (← h.countEqual item 0 (← h.listItems list).toList))

/-! ## Dicts and sets -/

/-- The value of a dict under a key that it may not have. -/
def dictGet (dict key default : Value) : HeapM Value :=
  inspect fun h => do
    let k ← h.key key
    match ← h.view dict with
    | some (.dict d) => return (d.get? k).getD default
    | _ => return default

/-- Removes an entry; a missing key gives the default or is a fault. -/
def dictPop (dict key : Value) (default : Option Value) : HeapM Value := do
  let k ← inspect fun h => h.key key
  let removed := match ← view dict with
    | some (.dict d) => d.remove? k
    | _ => none
  match removed, default with
  | some (v, rest), _ =>
    modify dict fun _ => .dict rest
    return v
  | none, some v => return v
  | none, none => inspect fun h => refuse (h.missingKey key)

def dictMethod (method : DictMethod) (dict : Value) (args : List Value) : HeapM Value := do
  match method with
  | .get =>
    let (key, default) ← inspect fun _ => oneOrTwoArguments "get" args
    dictGet dict key (default.getD .none)
  | .keys =>
    inspect fun _ => checkArity "keys" args 0 0
    alloc (.list ((← inspect fun h => h.dictEntries dict).map (·.1)).toArray)
  | .values =>
    inspect fun _ => checkArity "values" args 0 0
    alloc (.list ((← inspect fun h => h.dictEntries dict).map (·.2)).toArray)
  | .items =>
    inspect fun _ => checkArity "items" args 0 0
    let pairs ← (← inspect fun h => h.dictEntries dict).mapM fun (k, v) => alloc (.tuple #[k, v])
    alloc (.list pairs.toArray)
  | .pop =>
    let (key, default) ← inspect fun _ => oneOrTwoArguments "pop" args
    dictPop dict key default

def setMethod (method : SetMethod) (set : Value) (args : List Value) : HeapM Value := do
  match method with
  | .add =>
    let item ← inspect fun _ => oneArgument "add" args
    let k ← inspect fun h => h.key item
    modify set (Object.onSet fun s => s.insert k item)
    return .none

/-! ## Strings -/

/-- The pieces of a text between separators, or its words. -/
def splitText (s : String) (separator : Option String) : Outcome (List (List Char)) :=
  match separator with
  | none => .ok (Text.words s.toList)
  | some separator =>
    if separator.isEmpty then refuse .emptySeparator
    else .ok (Text.split separator.toList s.toList)

/-- The text of an argument that may be missing or None. -/
def optionalText (method : String) (arg : Option Value) : HeapM (Option String) := do
  match arg with
  | none | some .none => return none
  | some v => return some (← inspect fun h => h.textArgument method v)

/-- The text of the only argument. -/
def oneText (method : String) (args : List Value) : HeapM String := do
  let v ← inspect fun _ => oneArgument method args
  inspect fun h => h.textArgument method v

def textMethod (method : TextMethod) (receiver : Value) (args : List Value) : HeapM Value := do
  let name := method.name
  let s ← inspect fun h => h.textArgument name receiver
  match method with
  | .upper =>
    inspect fun _ => checkArity name args 0 0
    allocChars (Text.upper s.toList)
  | .lower =>
    inspect fun _ => checkArity name args 0 0
    allocChars (Text.lower s.toList)
  | .strip =>
    match ← optionalText name (← inspect fun _ => optionalArgument name args) with
    | none => allocChars (Text.trim s.toList)
    | some chars => allocChars (Text.trimBy chars.toList.contains s.toList)
  | .split =>
    let separator ← optionalText name (← inspect fun _ => optionalArgument name args)
    let pieces ← inspect fun _ => splitText s separator
    alloc (.list (← pieces.mapM allocChars).toArray)
  | .join =>
    let items ← collect (← inspect fun _ => oneArgument name args)
    let texts ← inspect fun h => h.joinTexts 0 items.toList
    allocText (s.intercalate texts)
  | .replace =>
    let (old, new) ← inspect fun _ => twoArguments name args
    let old ← inspect fun h => h.textArgument name old
    let new ← inspect fun h => h.textArgument name new
    allocChars (Text.replace old.toList new.toList s.toList)
  | .startsWith => return .bool ((← oneText name args).toList.isPrefixOf s.toList)
  | .endsWith => return .bool ((← oneText name args).toList.isSuffixOf s.toList)
  | .find =>
    match Text.find? (← oneText name args).toList s.toList with
    | some i => return .int (Int64.ofNat i)
    | none => return .int (-1)

/-- Calls a method of a built-in type. -/
def callMethod (receiver : Value) (name : String) (args : List Value) : HeapM Value := do
  let o ← view receiver
  let unknown {α : Type} (type : String) : HeapM α := fail (.noAttribute type name)
  match o with
  | some (.str _) =>
    match TextMethod.ofName? name with
    | some method => textMethod method receiver args
    | none => unknown "str"
  | some (.list _) =>
    match ListMethod.ofName? name with
    | some method => listMethod method receiver args
    | none => unknown "list"
  | some (.dict _) =>
    match DictMethod.ofName? name with
    | some method => dictMethod method receiver args
    | none => unknown "dict"
  | some (.set _) =>
    match SetMethod.ofName? name with
    | some method => setMethod method receiver args
    | none => unknown "set"
  | _ => inspect fun h => refuse (h.noAttribute receiver name)

end HeapM

end RegisterVm
