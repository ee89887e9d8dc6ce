/-!
# Operators

The operators of generic instructions, with the symbols that messages and listings use and the
names that bytecode files use.
-/

namespace RegisterVm

inductive BinaryOperator where
  | add | sub | mul | div | floorDiv | mod | pow | bitAnd | bitOr | bitXor | shl | shr
  deriving DecidableEq

namespace BinaryOperator

def all : List BinaryOperator :=
  [add, sub, mul, div, floorDiv, mod, pow, bitAnd, bitOr, bitXor, shl, shr]

def symbol : BinaryOperator → String
  | add => "+"
  | sub => "-"
  | mul => "*"
  | div => "/"
  | floorDiv => "//"
  | mod => "%"
  | pow => "**"
  | bitAnd => "&"
  | bitOr => "|"
  | bitXor => "^"
  | shl => "<<"
  | shr => ">>"

def name : BinaryOperator → String
  | add => "Add"
  | sub => "Sub"
  | mul => "Mul"
  | div => "Div"
  | floorDiv => "FloorDiv"
  | mod => "Mod"
  | pow => "Pow"
  | bitAnd => "BitAnd"
  | bitOr => "BitOr"
  | bitXor => "BitXor"
  | shl => "Shl"
  | shr => "Shr"

def ofName? (name : String) : Option BinaryOperator :=
  all.find? fun op => op.name = name

theorem ofName?_name (op : BinaryOperator) : ofName? op.name = some op := by
  cases op <;> rfl

end BinaryOperator

inductive CompareOperator where
  | lt | le | gt | ge | eq | ne | is | isNot | mem | notMem
  deriving DecidableEq

namespace CompareOperator

def all : List CompareOperator := [lt, le, gt, ge, eq, ne, is, isNot, mem, notMem]

def symbol : CompareOperator → String
  | lt => "<"
  | le => "<="
  | gt => ">"
  | ge => ">="
  | eq => "=="
  | ne => "!="
  | is => "is"
  | isNot => "is not"
  | mem => "in"
  | notMem => "not in"

def name : CompareOperator → String
  | lt => "Lt"
  | le => "Le"
  | gt => "Gt"
  | ge => "Ge"
  | eq => "Eq"
  | ne => "Ne"
  | is => "Is"
  | isNot => "IsNot"
  | mem => "In"
  | notMem => "NotIn"

def ofName? (name : String) : Option CompareOperator :=
  all.find? fun op => op.name = name

theorem ofName?_name (op : CompareOperator) : ofName? op.name = some op := by
  cases op <;> rfl

end CompareOperator

inductive UnaryOperator where
  | neg | pos | not | invert
  deriving DecidableEq

namespace UnaryOperator

def all : List UnaryOperator := [neg, pos, not, invert]

def symbol : UnaryOperator → String
  | neg => "-"
  | pos => "+"
  | not => "not"
  | invert => "~"

def name : UnaryOperator → String
  | neg => "Neg"
  | pos => "Pos"
  | not => "Not"
  | invert => "Invert"

def ofName? (name : String) : Option UnaryOperator :=
  all.find? fun op => op.name = name

theorem ofName?_name (op : UnaryOperator) : ofName? op.name = some op := by
  cases op <;> rfl

end UnaryOperator

end RegisterVm
