import RegisterVm.Heap.Container
import RegisterVm.Number.Bits

/-!
# Arithmetic on any values

Primitive operations come first. When they signal that a word is too small, or an operand is a
large integer, the operation is done exactly on integers; a large integer beside a float becomes a
float. Strings, lists and tuples can be added and repeated.
-/

namespace RegisterVm

/-- The largest size of an integer result, in bits. -/
def maxBits : Nat := 0x1000000

/-- The largest length of a repeated sequence; of a string in bytes. -/
def maxRepeated : Nat := 0x10000000

/-- The fault behind a signal of a primitive operation. -/
def BinaryOperator.fault (op : BinaryOperator) (signal : ErrorKind) : Fault :=
  match signal, op with
  | .divisionByZero, .div => .divisionByZero
  | .divisionByZero, .floorDiv => .integerDivisionByZero
  | .divisionByZero, .mod => .integerModuloByZero
  | .divisionByZero, .pow => .zeroToNegativePower
  | .valueError, .shl | .valueError, .shr => .negativeShift
  | signal, _ => .signal signal

/-! ## Integers of any size -/

namespace Integer

/-- A result of integer arithmetic: an integer, or a float where division leaves the integers. -/
inductive Result where
  | int (n : Int)
  | float (x : Float)

def divide (x y : Int) : Except Fault Result :=
  if y = 0 then .error .divisionByZero else .ok (.float (Float.ofInt x / Float.ofInt y))

def multiply (x y : Int) : Except Fault Result :=
  if maxBits < Bits.length x + Bits.length y then .error .integerTooLarge else .ok (.int (x * y))

/-- A power. Powers of 0, 1 and -1 are small for every exponent. -/
def power (x y : Int) : Except Fault Result :=
  if y < 0 then
    if x = 0 then .error .zeroToNegativePower
    else .ok (.float (Float.pow (Float.ofInt x) (Float.ofInt y)))
  else if y = 0 then .ok (.int 1)
  else if Bits.length x ≤ 1 then .ok (.int (if x < 0 && y % 2 = 0 then 1 else x))
  else if maxBits < Bits.length x * y.toNat then .error .integerTooLarge
  else .ok (.int (Int.pow x y.toNat))

def shiftLeft (x y : Int) : Except Fault Result :=
  if y < 0 then .error .negativeShift
  else if x = 0 then .ok (.int 0)
  else if maxBits < Bits.length x + y.toNat then .error .integerTooLarge
  else .ok (.int (x * Int.pow 2 y.toNat))

/-- A shift beyond the length leaves the sign. -/
def shiftRight (x y : Int) : Except Fault Result :=
  if y < 0 then .error .negativeShift
  else if (Bits.length x : Int) ≤ y then .ok (.int (if x < 0 then -1 else 0))
  else .ok (.int (x >>> y.toNat))

def binary (op : BinaryOperator) (x y : Int) : Except Fault Result :=
  match op with
  | .add => .ok (.int (x + y))
  | .sub => .ok (.int (x - y))
  | .mul => multiply x y
  | .div => divide x y
  | .floorDiv => if y = 0 then .error .integerDivisionByZero else .ok (.int (x.fdiv y))
  | .mod => if y = 0 then .error .integerModuloByZero else .ok (.int (x.fmod y))
  | .pow => power x y
  | .bitAnd => .ok (.int (Bits.and x y))
  | .bitOr => .ok (.int (Bits.or x y))
  | .bitXor => .ok (.int (Bits.xor x y))
  | .shl => shiftLeft x y
  | .shr => shiftRight x y

end Integer

/-! ## Sequences -/

/-- `n` copies of a text. -/
def repeatText (s : String) (n : Nat) : String :=
  if n = 0 then ""
  else
    let half := repeatText s (n / 2)
    if n % 2 = 0 then half ++ half else half ++ half ++ s
termination_by n

/-- `n` copies of a sequence. -/
def repeatItems {α : Type} (items : Array α) (n : Nat) : Array α :=
  (List.replicate n items).foldl (· ++ ·) #[]

namespace Sequence

/-- The number of copies asked for; a negative number counts as none. -/
def copies? (count : Value) : Option Nat :=
  count.asInt?.map fun n => n.toInt.toNat

/-- Refuses a repetition that is too long. -/
def checkRepeat (what : String) (length count : Nat) : Outcome Unit :=
  if length * count ≤ maxRepeated then .ok () else refuse (.repeatTooLong what)

/-- A sequence repeated as often as `count` says; `none` when they are no sequence and number. -/
def repeated? (sequence : Object) (count : Value) : Outcome (Option Object) :=
  match sequence, copies? count with
  | .str s, some n => do
    checkRepeat "string" s.utf8ByteSize n
    return some (.str (if s.isEmpty then "" else repeatText s n))
  | .list items, some n => do
    checkRepeat "list" items.size n
    return some (.list (if items.isEmpty then #[] else repeatItems items n))
  | .tuple items, some n => do
    checkRepeat "tuple" items.size n
    return some (.tuple (if items.isEmpty then #[] else repeatItems items n))
  | _, _ => .ok none

/-- The result of an operator on sequences; `none` when it has none. -/
def binary? (op : BinaryOperator) (a b : Value) : Option Object → Option Object →
    Outcome (Option Object)
  | some (.str x), some (.str y) => .ok (if op = .add then some (.str (x ++ y)) else none)
  | some (.list x), some (.list y) => .ok (if op = .add then some (.list (x ++ y)) else none)
  | some (.tuple x), some (.tuple y) => .ok (if op = .add then some (.tuple (x ++ y)) else none)
  | some sequence, none => if op = .mul then repeated? sequence b else .ok none
  | none, some sequence => if op = .mul then repeated? sequence a else .ok none
  | _, _ => .ok none

end Sequence

/-! ## Operators -/

namespace Heap

/-- The fault of an operator that does not apply to two values. -/
def unsupported (h : Heap) (op : BinaryOperator) (a b : Value) : Fault :=
  .unsupportedOperands op.symbol (h.typeText a) (h.typeText b)

/-- The operator on two floats, in the place of values of which one is a large integer. -/
def floatBinary (h : Heap) (op : BinaryOperator) (a b : Value) (x y : Float) : Outcome Value :=
  match Primitive.binary op (.float x) (.float y) with
  | .ok v => .ok v
  | .error .typeMismatch => refuse (h.unsupported op a b)
  | .error signal => refuse (op.fault signal)

/-- Whether an order that was asked for by `symbol` is accepted; an open order is not. -/
def ordered (h : Heap) (symbol : String) (accepts : Ordering → Bool) (a b : Value) : Outcome Bool :=
  (h.order symbol a b).map fun o => o.any accepts

/-- Whether `a op b` holds. -/
def holds (h : Heap) (op : CompareOperator) (a b : Value) : Outcome Bool :=
  match op with
  | .is => .ok (a.identical b)
  | .isNot => .ok (!a.identical b)
  | .mem => h.contains b a
  | .notMem => (h.contains b a).map fun t => !t
  | .eq => h.equal a b
  | .ne => (h.equal a b).map fun t => !t
  | .lt => h.ordered "<" Ordering.isLT a b
  | .le => h.ordered "<=" Ordering.isLE a b
  | .gt => h.ordered ">" Ordering.isGT a b
  | .ge => h.ordered ">=" Ordering.isGE a b

/-- The two floats in the place of values of which one is a large integer. -/
def mixedFloats? (h : Heap) (a b : Value) : Option (Float × Float) :=
  if h.isBig a || h.isBig b then
    match h.float? a, h.float? b with
    | some x, some y => some (x, y)
    | _, _ => none
  else none

end Heap

namespace HeapM

/-- A fault or a result of integer arithmetic as a value. -/
def ofInteger : Except Fault Integer.Result → HeapM Value
  | .ok (.int n) => allocInteger n
  | .ok (.float x) => return .float x
  | .error fault => fail fault

/-- An operator on values that are not both primitive numbers, or whose result is no word. -/
def generalBinary (op : BinaryOperator) (a b : Value) : HeapM Value := do
  let h ← get
  match h.integer? a, h.integer? b with
  | some x, some y => ofInteger (Integer.binary op x y)
  | _, _ =>
    match h.mixedFloats? a b with
    | some (x, y) => inspect fun h => h.floatBinary op a b x y
    | none =>
      match ← inspect fun h => do Sequence.binary? op a b (← h.view a) (← h.view b) with
      | some o => alloc o
      | none => inspect fun h => refuse (h.unsupported op a b)

/-- `a op b`. -/
def binary (op : BinaryOperator) (a b : Value) : HeapM Value :=
  if a.isNumber && b.isNumber then
    match Primitive.binary op a b with
    | .ok v => return v
    | .error .integerOverflow => generalBinary op a b
    | .error .typeMismatch => inspect fun h => refuse (h.unsupported op a b)
    | .error signal => fail (op.fault signal)
  else generalBinary op a b

/-- `a += b`: a list is extended, everything else is added. -/
def addInPlace (a b : Value) : HeapM Value := do
  if ← isList a then
    extend a (← collect b)
    return a
  else binary .add a b

/-- `a op b` for a comparison. -/
def compare (op : CompareOperator) (a b : Value) : HeapM Value :=
  inspect fun h => (h.holds op a b).map .bool

/-- A sign or inversion of an integer of any size. -/
def generalUnary (op : UnaryOperator) (a : Value) : HeapM Value := do
  let h ← get
  match h.integer? a with
  | some n =>
    allocInteger <| match op with
      | .neg => -n
      | .invert => Bits.not n
      | _ => n
  | none => inspect fun h => refuse (.badUnaryOperand op.symbol (h.typeText a))

/-- `op a`. -/
def unary (op : UnaryOperator) (a : Value) : HeapM Value :=
  if op = .not then inspect fun h => do return .bool !(← h.truth a)
  else if a.isNumber then
    match Primitive.unary op a with
    | .ok v => return v
    | .error .integerOverflow => generalUnary op a
    | .error _ => inspect fun h => refuse (.badUnaryOperand op.symbol (h.typeText a))
  else generalUnary op a

end HeapM

end RegisterVm
