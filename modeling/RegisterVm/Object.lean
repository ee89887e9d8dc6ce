import RegisterVm.ErrorKind
import RegisterVm.Object.Builtin
import RegisterVm.Object.Dict
import RegisterVm.Object.IntRange

/-!
# Objects

What is not a primitive value lives on the heap as an `Object`.
-/

namespace RegisterVm

/-- Names with values, in the order in which they were first set. -/
abbrev Bindings := List (String × Value)

namespace Bindings

def get? (name : String) : Bindings → Option Value
  | [] => none
  | (n, v) :: bs => if n = name then some v else get? name bs

def set (name : String) (value : Value) : Bindings → Bindings
  | [] => [(name, value)]
  | (n, v) :: bs => if n = name then (n, value) :: bs else (n, v) :: set name value bs

theorem get?_set (name other : String) (value : Value) (bs : Bindings) :
    (bs.set name value).get? other = if other = name then some value else bs.get? other := by
  induction bs with
  | nil => simp only [set, get?]; split <;> split <;> simp_all
  | cons b bs ih =>
    obtain ⟨n, v⟩ := b
    simp only [set]
    split <;> simp only [get?] <;> split <;> split <;> simp_all

end Bindings

/-- The number of a loaded function. -/
abbrev FunctionId := Nat

/-- What an iterator has still to give. -/
inductive IteratorState where
  /-- The items of a list or tuple from an index on; the list may grow meanwhile. -/
  | sequence (source : Handle) (index : Nat)
  /-- The characters of a string from a byte on. -/
  | chars (source : Handle) (offset : Nat)
  | range (rest : IntRange)
  | values (rest : List Value)

inductive Object where
  | str (s : String)
  /-- An integer that is no word. -/
  | big (n : Int)
  | list (items : Array Value)
  | tuple (items : Array Value)
  | dict (d : Dict)
  | set (s : KeySet)
  | range (r : IntRange)
  | iterator (state : IteratorState)
  | function (id : FunctionId) (name : String)
  | cls (name : String) (base : Option Handle) (attributes : Bindings)
  | instanceOf (cls : Handle) (attributes : Bindings)
  /-- A function with its first argument. -/
  | boundMethod (receiver function : Value)
  | builtin (f : Builtin)
  | builtinMethod (receiver : Value) (name : String)
  | exceptionClass (kind : ErrorKind)
  | exception (kind : ErrorKind) (message : String)

namespace Object

instance : Inhabited Object := ⟨str ""⟩

/-- The type of an object when its class is not looked at. -/
def typeName : Object → String
  | str _ => "str"
  | big _ => "int"
  | list _ => "list"
  | tuple _ => "tuple"
  | dict _ => "dict"
  | set _ => "set"
  | range _ => "range"
  | iterator _ => "iterator"
  | function _ _ => "function"
  | cls _ _ _ | exceptionClass _ => "type"
  | instanceOf _ _ => "object"
  | boundMethod _ _ => "method"
  | builtin _ | builtinMethod _ _ => "builtin_function_or_method"
  | exception _ _ => "Exception"

end Object

end RegisterVm
