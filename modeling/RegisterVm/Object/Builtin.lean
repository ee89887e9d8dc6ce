/-!
# Names of built-in functions and methods
-/

namespace RegisterVm

inductive Builtin where
  | print | len | range | str | repr | int | float | bool | abs | min | max | sum | list | tuple
  | dict | set | isInstance
  deriving DecidableEq

namespace Builtin

/-- The functions in the order in which their names are defined. -/
def all : List Builtin :=
  [print, len, range, str, repr, int, float, bool, abs, min, max, sum, list, tuple, dict, set,
    isInstance]

def name : Builtin → String
  | print => "print"
  | len => "len"
  | range => "range"
  | str => "str"
  | repr => "repr"
  | int => "int"
  | float => "float"
  | bool => "bool"
  | abs => "abs"
  | min => "min"
  | max => "max"
  | sum => "sum"
  | list => "list"
  | tuple => "tuple"
  | dict => "dict"
  | set => "set"
  | isInstance => "isinstance"

def ofName? (name : String) : Option Builtin :=
  all.find? fun f => f.name = name

theorem ofName?_name (f : Builtin) : ofName? f.name = some f := by
  cases f <;> rfl

end Builtin

inductive ListMethod where
  | append | pop | extend | insert | index | count
  deriving DecidableEq

def ListMethod.ofName? : String → Option ListMethod
  | "append" => some append
  | "pop" => some pop
  | "extend" => some extend
  | "insert" => some insert
  | "index" => some index
  | "count" => some count
  | _ => none

inductive DictMethod where
  | get | keys | values | items | pop
  deriving DecidableEq

def DictMethod.ofName? : String → Option DictMethod
  | "get" => some get
  | "keys" => some keys
  | "values" => some values
  | "items" => some items
  | "pop" => some pop
  | _ => none

inductive SetMethod where
  | add
  deriving DecidableEq

def SetMethod.ofName? : String → Option SetMethod
  | "add" => some add
  | _ => none

inductive TextMethod where
  | upper | lower | strip | split | join | replace | startsWith | endsWith | find
  deriving DecidableEq

namespace TextMethod

def name : TextMethod → String
  | upper => "upper"
  | lower => "lower"
  | strip => "strip"
  | split => "split"
  | join => "join"
  | replace => "replace"
  | startsWith => "startswith"
  | endsWith => "endswith"
  | find => "find"

def ofName? : String → Option TextMethod
  | "upper" => some upper
  | "lower" => some lower
  | "strip" => some strip
  | "split" => some split
  | "join" => some join
  | "replace" => some replace
  | "startswith" => some startsWith
  | "endswith" => some endsWith
  | "find" => some find
  | _ => none

end TextMethod

end RegisterVm
