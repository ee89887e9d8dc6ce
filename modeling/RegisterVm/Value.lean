import RegisterVm.Number.Decimal

/-!
# Values

A register holds a primitive value or the handle of an object on the heap.
-/

namespace RegisterVm

/-- The position of an object on the heap. -/
structure Handle where
  index : UInt32
  deriving DecidableEq, Hashable

inductive Value where
  | none
  | bool (b : Bool)
  | int (i : Int64)
  | float (x : Float)
  | object (h : Handle)
  deriving DecidableEq

instance : Inhabited Value := ⟨.none⟩

namespace Value

/-- The integer that a word or a truth value stands for. -/
def asInt? : Value → Option Int64
  | int i => some i
  | bool b => some (if b then 1 else 0)
  | _ => Option.none

/-- The float that a primitive number stands for. -/
def asFloat? : Value → Option Float
  | int i => some (Binary64.ofWord i)
  | bool b => some (if b then 1.0 else 0.0)
  | float x => some x
  | _ => Option.none

def asHandle? : Value → Option Handle
  | object h => some h
  | _ => Option.none

/-- Whether the primitive operations apply to the value. -/
def isNumber : Value → Bool
  | int _ | float _ | bool _ => true
  | _ => false

def isObject : Value → Bool
  | object _ => true
  | _ => false

/-- The truth of a primitive value; that of an object depends on the heap. -/
def truth? : Value → Option Bool
  | int i => some (i != 0)
  | float x => some (x != 0.0)
  | bool b => some b
  | none => some false
  | object _ => Option.none

/-- The type of a primitive value. -/
def typeName : Value → String
  | int _ => "int"
  | float _ => "float"
  | bool _ => "bool"
  | none => "NoneType"
  | object _ => "object"

def boolText (b : Bool) : String := if b then "True" else "False"

/-- The text of a register in a listing. -/
def listed : Value → String
  | int i => toString i.toInt
  | float x => Binary64.listed x
  | bool b => boolText b
  | none => "None"
  | object h => s!"<object #{h.index.toNat}>"

/-- The small integers that are kept ready-made. -/
def isPooled (i : Int64) : Bool := -5 ≤ i && i ≤ 256

end Value

end RegisterVm
