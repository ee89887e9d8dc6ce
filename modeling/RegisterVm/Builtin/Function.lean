import RegisterVm.Builtin.Method
import RegisterVm.Heap.Arithmetic
import RegisterVm.Heap.Exception
import RegisterVm.Number.Reading

/-!
# Built-in functions

`HeapM.callBuiltin` gives the value of a call and the text that the call prints, which only `print`
does.
-/

namespace RegisterVm

/-- What a built-in function gives back, and what it prints. -/
structure Reply where
  value : Value
  printed : String

namespace Heap

/-- The text of values in output, a space between them. -/
def line (h : Heap) (args : List Value) : Outcome String := do
  return " ".intercalate (← args.mapM h.text)

/-- The word that a bound of a range stands for. -/
def rangeBound (h : Heap) (v : Value) : Outcome Int64 :=
  match v.asInt? with
  | some i => .ok i
  | none => refuse (.notAnInteger (h.typeText v))

/-- The range that one, two or three bounds describe. -/
def rangeOf (h : Heap) (args : List Value) : Outcome IntRange := do
  checkArity "range" args 1 3
  let range : IntRange ← match ← args.mapM h.rangeBound with
    | [stop] => pure ⟨0, stop, 1⟩
    | [start, stop] => pure ⟨start, stop, 1⟩
    | [start, stop, step] => pure ⟨start, stop, step⟩
    | _ => refuse (.wrongArgumentCount "range" 1 3 args.length)
  if range.step = 0 then refuse .zeroRangeStep else return range

/-- The integer of a number or of the text of an integer. -/
def toInteger (h : Heap) (v : Value) : Outcome Int :=
  match v with
  | .float x =>
    match Binary64.scaled? x with
    | some s => .ok s.truncate
    | none => refuse (if x.isNaN then .nanToInteger else .infinityToInteger)
  | v =>
    match h.integer? v, h.text? v with
    | some n, _ => .ok n
    | none, some s =>
      match Reading.integer? (Text.trim s.toList) with
      | some n => .ok n
      | none => refuse (.badIntegerLiteral (quotedText s))
    | none, none => do refuse (.noIntegerForm (← h.typeName v))

/-- The float of a number or of the text of a float. -/
def toFloat (h : Heap) (v : Value) : Outcome Float :=
  match h.float? v, h.text? v with
  | some x, _ => .ok x
  | none, some s =>
    match Reading.float? (Text.trim s.toList) with
    | some x => .ok x
    | none => refuse (.badFloatLiteral (quotedText s))
  | none, none => do refuse (.noFloatForm (← h.typeName v))

/-- The best of some values: a later one must be strictly better. -/
def best (h : Heap) (better : Ordering → Bool) (best : Value) : List Value → Outcome Value
  | [] => .ok best
  | v :: vs => do
    if ← h.ordered "<" better v best then h.best better v vs else h.best better best vs

/-- Whether a value has a built-in type; `none` when the function is no type. -/
def hasBuiltinType? (v : Value) (o : Option Object) : Builtin → Option Bool
  | .int =>
    some <| match v, o with
      | .int _, _ | .bool _, _ | _, some (.big _) => true
      | _, _ => false
  | .float =>
    some <| match v with
      | .float _ => true
      | _ => false
  | .bool =>
    some <| match v with
      | .bool _ => true
      | _ => false
  | .str =>
    some <| match o with
      | some (.str _) => true
      | _ => false
  | .list =>
    some <| match o with
      | some (.list _) => true
      | _ => false
  | .tuple =>
    some <| match o with
      | some (.tuple _) => true
      | _ => false
  | .dict =>
    some <| match o with
      | some (.dict _) => true
      | _ => false
  | .set =>
    some <| match o with
      | some (.set _) => true
      | _ => false
  | .range =>
    some <| match o with
      | some (.range _) => true
      | _ => false
  | _ => none

/-- Whether one of several classes has the value. -/
def anyClass (has : Value → Outcome Bool) : List Value → Outcome Bool
  | [] => .ok false
  | cls :: rest => do if ← has cls then return true else anyClass has rest

def isInstanceWithin (h : Heap) (v : Value) : (depth : Nat) → Value → Outcome Bool
  | 0, _ => .ok false
  | depth + 1, cls => do
    let o ← h.view v
    match ← h.view cls, cls with
    | some (.tuple options), _ => anyClass (h.isInstanceWithin v depth) options.toList
    | some (.cls _ _ _), .object ancestor =>
      match o with
      | some (.instanceOf own _) => h.isSubclass own ancestor
      | _ => return false
    | some (.exceptionClass kind), _ => h.isException v kind
    | some (.builtin f), _ =>
      match hasBuiltinType? v o f with
      | some t => return t
      | none => refuse .notAClass
    | _, _ => refuse .notAClass

/-- Whether a value is an instance of a class, or of one of a tuple of classes. -/
def isInstance (h : Heap) (v cls : Value) : Outcome Bool :=
  h.isInstanceWithin v (h.size + 1) cls

end Heap

namespace HeapM

/-- The text of values put together. -/
def buildText (parts : List Value) : HeapM Value := do
  let texts ← inspect fun h => parts.mapM h.text
  allocText (String.join texts)

/-- The magnitude of a number. -/
def magnitude (v : Value) : HeapM Value :=
  match v with
  | .float x => return .float x.abs
  | v => do
    match (← get).integer? v with
    | some n => allocInteger n.natAbs
    | none => inspect fun h => do refuse (.noMagnitude (← h.typeName v))

/-- The smallest or largest of the arguments, or of the items of the only one. -/
def extreme (name : String) (better : Ordering → Bool) (args : List Value) : HeapM Value := do
  let candidates ← match args with
    | [] => fail (.noArguments name)
    | [v] => Array.toList <$> collect v
    | _ => pure args
  match candidates with
  | [] => fail (.emptySequence name)
  | v :: vs => inspect fun h => h.best better v vs

/-- The sum of items and a first value. -/
def total (args : List Value) : HeapM Value := do
  let (items, start) ← inspect fun _ => oneOrTwoArguments "sum" args
  let items ← collect items
  let start := start.getD (.int 0)
  if ((← get).text? start).isSome then fail .sumOfStrings
  items.foldlM (binary .add) start

/-- The items of the only argument, if there is one. -/
def optionalItems (name : String) (args : List Value) : HeapM (Array Value) := do
  match ← inspect fun _ => optionalArgument name args with
  | some v => collect v
  | none => return #[]

/-- The pairs of values of a sequence of pairs, the first of which has a position. -/
def pairsFrom (position : Nat) : List Value → HeapM (List (Value × Value))
  | [] => return []
  | element :: rest => do
    match (← collect element).toList with
    | [k, v] => return (k, v) :: (← pairsFrom (position + 1) rest)
    | other => fail (.pairLength position other.length)

/-- The entries of a dict or of a sequence of pairs. -/
def pairs (v : Value) : HeapM (List (Value × Value)) := do
  match ← view v with
  | some (.dict d) => return d.entries.toList
  | _ => pairsFrom 0 (← collect v).toList

/-- The integer of a value; a large integer is itself. -/
def toInteger (v : Value) : HeapM Value := do
  if (← get).isBig v then return v else allocInteger (← inspect fun h => h.toInteger v)

/-- The value of a call that prints nothing. -/
def evaluate (f : Builtin) (args : List Value) : HeapM Value := do
  match f with
  | .print => return .none
  | .len =>
    let v ← inspect fun _ => oneArgument "len" args
    return .int (← inspect fun h => h.length v)
  | .range => alloc (.range (← inspect fun h => h.rangeOf args))
  | .str =>
    match ← inspect fun _ => optionalArgument "str" args with
    | none => allocText ""
    | some v =>
      if ((← get).text? v).isSome then return v
      else allocText (← inspect fun h => h.text v)
  | .repr =>
    let v ← inspect fun _ => oneArgument "repr" args
    allocText (← inspect fun h => h.shown v)
  | .int =>
    match ← inspect fun _ => optionalArgument "int" args with
    | none => return .int 0
    | some v => toInteger v
  | .float =>
    match ← inspect fun _ => optionalArgument "float" args with
    | none => return .float 0.0
    | some v => return .float (← inspect fun h => h.toFloat v)
  | .bool =>
    match ← inspect fun _ => optionalArgument "bool" args with
    | none => return .bool false
    | some v => return .bool (← inspect fun h => h.truth v)
  | .abs => magnitude (← inspect fun _ => oneArgument "abs" args)
  | .min => extreme "min" Ordering.isLT args
  | .max => extreme "max" Ordering.isGT args
  | .sum => total args
  | .list => alloc (.list (← optionalItems "list" args))
  | .tuple => alloc (.tuple (← optionalItems "tuple" args))
  | .set => allocSet (← optionalItems "set" args).toList
  | .dict =>
    match ← inspect fun _ => optionalArgument "dict" args with
    | none => allocDict []
    | some v => allocDict (← pairs v)
  | .isInstance =>
    let (v, cls) ← inspect fun _ => twoArguments "isinstance" args
    return .bool (← inspect fun h => h.isInstance v cls)

/-- Calls a built-in function. -/
def callBuiltin (f : Builtin) (args : List Value) : HeapM Reply := do
  match f with
  | .print => return ⟨.none, (← inspect fun h => h.line args) ++ "\n"⟩
  | f => return ⟨← evaluate f args, ""⟩

end HeapM

end RegisterVm
