import RegisterVm.ErrorKind
import RegisterVm.Operator
import RegisterVm.Value

/-!
# Operations on primitive values

Arithmetic on words, floats and truth values without a heap. Two words give a word, or the signal
`integerOverflow` when the exact result is none; a word beside a float is first made a float; an
object gives the signal `typeMismatch`. The caller answers a signal with the general operation.
-/

namespace RegisterVm.Primitive

abbrev Result := Except ErrorKind Value

/-- A primitive number. -/
inductive Number where
  | int (i : Int64)
  | float (x : Float)

def Number.toFloat : Number → Float
  | int i => Binary64.ofWord i
  | float x => x

def number? : Value → Option Number
  | .int i => some (.int i)
  | .bool b => some (.int (if b then 1 else 0))
  | .float x => some (.float x)
  | _ => none

/-- A word as a value, or the signal that there is none. -/
def checked : Option Int64 → Result
  | some i => .ok (.int i)
  | none => .error .integerOverflow

/-- An operation with a form for two words and a form for two floats. -/
@[inline] def onNumbers (onInt : Int64 → Int64 → Result) (onFloat : Float → Float → Float)
    (a b : Value) : Result :=
  match number? a, number? b with
  | some (.int x), some (.int y) => onInt x y
  | some x, some y => .ok (.float (onFloat x.toFloat y.toFloat))
  | _, _ => .error .typeMismatch

/-- An operation on the words that two values stand for. -/
@[inline] def onInts (onInt : Int64 → Int64 → Result) (a b : Value) : Result :=
  match a.asInt?, b.asInt? with
  | some x, some y => onInt x y
  | _, _ => .error .typeMismatch

def add (a b : Value) : Result :=
  onNumbers (fun x y => checked (Word.add? x y)) (· + ·) a b

def sub (a b : Value) : Result :=
  onNumbers (fun x y => checked (Word.sub? x y)) (· - ·) a b

def mul (a b : Value) : Result :=
  onNumbers (fun x y => checked (Word.mul? x y)) (· * ·) a b

def intDiv (x y : Int64) : Result :=
  if y = 0 then .error .divisionByZero else .ok (.float (Binary64.ofWord x / Binary64.ofWord y))

def div (a b : Value) : Result :=
  onNumbers intDiv (· / ·) a b

def intFloorDiv (x y : Int64) : Result :=
  if y = 0 then .error .divisionByZero else checked (Word.floorDiv? x y)

def floorDiv (a b : Value) : Result :=
  onNumbers intFloorDiv Binary64.floorDiv a b

def intMod (x y : Int64) : Result :=
  match Word.floorMod? x y with
  | some r => .ok (.int r)
  | none => .error .divisionByZero

def mod (a b : Value) : Result :=
  onNumbers intMod Binary64.floorMod a b

/-- A negative exponent gives a float. -/
def intPow (x y : Int64) : Result :=
  if 0 ≤ y then checked (Word.pow? x y.toInt.toNat)
  else if x = 0 then .error .divisionByZero
  else .ok (.float (Float.pow (Binary64.ofWord x) (Binary64.ofWord y)))

def pow (a b : Value) : Result :=
  onNumbers intPow Float.pow a b

/-- Two truth values keep their type under a bitwise operation. -/
@[inline] def bitwise (onBool : Bool → Bool → Bool) (onInt : Int64 → Int64 → Int64)
    (a b : Value) : Result :=
  match a, b with
  | .bool x, .bool y => .ok (.bool (onBool x y))
  | a, b => onInts (fun x y => .ok (.int (onInt x y))) a b

def bitAnd (a b : Value) : Result := bitwise (· && ·) (· &&& ·) a b

def bitOr (a b : Value) : Result := bitwise (· || ·) (· ||| ·) a b

def bitXor (a b : Value) : Result := bitwise (· ^^ ·) (· ^^^ ·) a b

def shl (a b : Value) : Result :=
  onInts (fun x y =>
    if y < 0 then .error .valueError else checked (Word.shiftLeft? x y.toInt.toNat)) a b

def shr (a b : Value) : Result :=
  onInts (fun x y =>
    if y < 0 then .error .valueError else .ok (.int (Word.shiftRight x y.toInt.toNat))) a b

def binary : BinaryOperator → Value → Value → Result
  | .add => add
  | .sub => sub
  | .mul => mul
  | .div => div
  | .floorDiv => floorDiv
  | .mod => mod
  | .pow => pow
  | .bitAnd => bitAnd
  | .bitOr => bitOr
  | .bitXor => bitXor
  | .shl => shl
  | .shr => shr

/-- The order of two primitive numbers; a NaN has none. -/
def order (a b : Value) : Except ErrorKind (Option Ordering) :=
  match number? a, number? b with
  | some (.int x), some (.int y) => .ok (some (compare x.toInt y.toInt))
  | some x, some y => .ok (Binary64.compare? x.toFloat y.toFloat)
  | _, _ => .error .typeMismatch

/-- A comparison that is false of values without an order. -/
def ordered (accepts : Ordering → Bool) (a b : Value) : Result :=
  (order a b).map fun o => .bool (o.any accepts)

/-- `None` equals only itself. -/
def equal (a b : Value) : Except ErrorKind Bool :=
  match a, b with
  | .object _, _ => .error .typeMismatch
  | _, .object _ => .error .typeMismatch
  | .none, .none => .ok true
  | .none, _ => .ok false
  | _, .none => .ok false
  | a, b => (order a b).map (· == some .eq)

/-- The comparisons that have a primitive form. -/
def compare : CompareOperator → Value → Value → Result
  | .lt => ordered Ordering.isLT
  | .le => ordered Ordering.isLE
  | .gt => ordered Ordering.isGT
  | .ge => ordered Ordering.isGE
  | .eq => fun a b => (equal a b).map .bool
  | .ne => fun a b => (equal a b).map fun e => .bool !e
  | .is | .isNot | .mem | .notMem => fun _ _ => .error .typeMismatch

def neg : Value → Result
  | .int i => checked (Word.neg? i)
  | .bool b => .ok (.int (if b then -1 else 0))
  | .float x => .ok (.float (-x))
  | _ => .error .typeMismatch

def pos : Value → Result
  | .bool b => .ok (.int (if b then 1 else 0))
  | .none | .object _ => .error .typeMismatch
  | a => .ok a

def not (a : Value) : Result :=
  match a.truth? with
  | some t => .ok (.bool !t)
  | none => .error .typeMismatch

def invert (a : Value) : Result :=
  match a.asInt? with
  | some i => .ok (.int (~~~i))
  | none => .error .typeMismatch

def unary : UnaryOperator → Value → Result
  | .neg => neg
  | .pos => pos
  | .not => not
  | .invert => invert

end RegisterVm.Primitive
