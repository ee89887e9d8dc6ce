import RegisterVm.Heap

/-!
# Attributes and calls

An instance has its own attributes and those of its class and the bases of the class; a function
found on a class is bound to the instance. Strings, lists, dicts and sets have methods. What can be
called is sorted into `Callable`.
-/

namespace RegisterVm

/-- What a call runs. -/
inductive Callable where
  /-- A loaded function, with a first argument when it is a method. -/
  | function (id : FunctionId) (receiver : Option Value)
  | builtin (f : Builtin)
  | builtinMethod (receiver : Value) (name : String)
  | cls (handle : Handle)
  | exceptionClass (kind : ErrorKind)
  deriving DecidableEq

/-- Whether objects of this type have a method of this name. -/
def Object.hasMethod (name : String) : Object → Bool
  | str _ => (TextMethod.ofName? name).isSome
  | list _ => (ListMethod.ofName? name).isSome
  | dict _ => (DictMethod.ofName? name).isSome
  | set _ => (SetMethod.ofName? name).isSome
  | _ => false

/-- The object with an attribute set, when it can have any. -/
def Object.setAttribute? (name : String) (value : Value) : Object → Option Object
  | instanceOf c attributes => some (instanceOf c (attributes.set name value))
  | cls className base attributes => some (cls className base (attributes.set name value))
  | _ => none

namespace Heap

/-- How many classes a look-up along a chain of bases may pass. -/
def maxBases : Nat := 256

def noAttribute (h : Heap) (v : Value) (name : String) : Fault :=
  .noAttribute (h.typeText v) name

/-- An attribute of the first class, from `cls` on, that has it. -/
def classAttributeWithin (h : Heap) (name : String) :
    (bases : Nat) → Option Handle → Outcome (Option Value)
  | 0, _ => refuse .classChainTooDeep
  | _, none => .ok none
  | bases + 1, some cls => do
    match ← h.get cls with
    | .cls _ base attributes =>
      match attributes.get? name with
      | some v => return some v
      | none => h.classAttributeWithin name bases base
    | _ => return none

/-- An attribute of a class or one of its bases. -/
def classAttribute (h : Heap) (cls : Handle) (name : String) : Outcome (Option Value) :=
  h.classAttributeWithin name maxBases (some cls)

def isSubclassWithin (h : Heap) (ancestor : Handle) : (bases : Nat) → Option Handle → Outcome Bool
  | 0, _ => .ok false
  | _, none => .ok false
  | bases + 1, some cls =>
    if cls = ancestor then .ok true
    else do
      match ← h.get cls with
      | .cls _ base _ => h.isSubclassWithin ancestor bases base
      | _ => return false

/-- Whether a class is `ancestor` or derived from it. -/
def isSubclass (h : Heap) (cls ancestor : Handle) : Outcome Bool :=
  h.isSubclassWithin ancestor maxBases (some cls)

/-- The function behind a value, when it is one. -/
def functionOf? (h : Heap) (v : Value) : Outcome (Option FunctionId) := do
  match ← h.view v with
  | some (.function id _) => return some id
  | _ => return none

/-- The function that an instance finds as a method on its class. -/
def method? (h : Heap) (obj : Value) (name : String) : Outcome (Option FunctionId) := do
  match ← h.view obj with
  | some (.instanceOf cls attributes) =>
    if (attributes.get? name).isSome then return none
    else
      match ← h.classAttribute cls name with
      | some v => h.functionOf? v
      | none => return none
  | _ => return none

/-- What a call of a value runs. -/
def callable (h : Heap) (callee : Value) : Outcome Callable := do
  let refused : Fault := .notCallable (h.typeText callee)
  match ← h.view callee, callee with
  | some (.function id _), _ => return .function id none
  | some (.boundMethod receiver function), _ =>
    match ← h.functionOf? function with
    | some id => return .function id (some receiver)
    | none => refuse refused
  | some (.builtin f), _ => return .builtin f
  | some (.builtinMethod receiver name), _ => return .builtinMethod receiver name
  | some (.cls _ _ _), .object handle => return .cls handle
  | some (.exceptionClass kind), _ => return .exceptionClass kind
  | _, _ => refuse refused

end Heap

namespace HeapM

/-- A value found on the class of `receiver`, bound to it when it is a function. -/
def bind (receiver : Value) (name : String) : Option Value → HeapM Value
  | some v => do
    match ← inspect fun h => h.functionOf? v with
    | some _ => alloc (.boundMethod receiver v)
    | none => return v
  | none => inspect fun h => refuse (h.noAttribute receiver name)

/-- `obj.name` -/
def getAttribute (obj : Value) (name : String) : HeapM Value := do
  match ← view obj, obj with
  | some (.instanceOf cls attributes), _ =>
    match attributes.get? name with
    | some v => return v
    | none => bind obj name (← inspect fun h => h.classAttribute cls name)
  | some (.cls _ _ _), .object handle =>
    match ← inspect fun h => h.classAttribute handle name with
    | some v => return v
    | none => inspect fun h => refuse (h.noAttribute obj name)
  | some (.exception _ message), _ =>
    if name = "args" then
      let text ← allocText message
      alloc (.tuple #[text])
    else inspect fun h => refuse (h.noAttribute obj name)
  | some o, _ =>
    if o.hasMethod name then alloc (.builtinMethod obj name)
    else inspect fun h => refuse (h.noAttribute obj name)
  | none, _ => inspect fun h => refuse (h.noAttribute obj name)

/-- `obj.name = value` -/
def setAttribute (obj : Value) (name : String) (value : Value) : HeapM Unit := do
  match (← view obj).bind (Object.setAttribute? name value) with
  | some o => modify obj fun _ => o
  | none => inspect fun h => refuse (h.noAttribute obj name)

/-- What `obj.name(...)` runs. -/
def callableMethod (obj : Value) (name : String) : HeapM Callable := do
  match ← inspect fun h => h.method? obj name with
  | some id => return .function id (some obj)
  | none =>
    if (← view obj).any (Object.hasMethod name) then return .builtinMethod obj name
    else
      let v ← getAttribute obj name
      inspect fun h => h.callable v

end HeapM

end RegisterVm
