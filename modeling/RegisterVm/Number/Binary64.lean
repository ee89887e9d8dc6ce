import RegisterVm.Number.Word

/-!
# Binary64 numbers as scaled integers

A finite binary64 number is `± m * 2 ^ e` with integers `m` and `e`. `scaled?` reads that form off
the bits and `Scaled.toFloat` writes it back. Rounding to an integer and the remainder of a
division are exact on it.
-/

namespace RegisterVm.Binary64

/-- The number `± significand * 2 ^ exponent`. -/
structure Scaled where
  negative : Bool
  significand : Nat
  exponent : Int
  deriving DecidableEq

/-- The bit that a normal significand has and its stored form has not. -/
def hiddenBit : Nat := 0x10000000000000

/-- The bits without the sign. -/
def magnitudeMask : UInt64 := 0x7FFFFFFFFFFFFFFF

def signMask : UInt64 := 0x8000000000000000

/-- Whether the sign bit is set, as it is for `-0.0`. -/
def isNegative (x : Float) : Bool := x.toBits &&& signMask != 0

/-- The magnitude of `x` with the sign of `y`. -/
def copySign (x y : Float) : Float :=
  Float.ofBits ((x.toBits &&& magnitudeMask) ||| (y.toBits &&& signMask))

/-- The exact value of a finite number. -/
def scaled? (x : Float) : Option Scaled :=
  let bits : Nat := (x.toBits &&& magnitudeMask).toNat
  let field : Nat := bits / hiddenBit
  let fraction : Nat := bits % hiddenBit
  if field = 2047 then none
  else if field = 0 then some ⟨isNegative x, fraction, -1074⟩
  else some ⟨isNegative x, fraction + hiddenBit, field - 1075⟩

/-- The float of this value. Exact when the significand is below `2 ^ 53` and the value is in
range, which is all it is used for. -/
def Scaled.toFloat (s : Scaled) : Float :=
  let shift := min (52 - s.significand.log2) (s.exponent + 1074).toNat
  let significand := s.significand <<< shift
  let field := (s.exponent - shift + 1075).toNat
  let bits :=
    if s.significand = 0 then 0
    else if significand < hiddenBit then significand
    else (field - 1) * hiddenBit + significand
  Float.ofBits (UInt64.ofNat bits ||| if s.negative then signMask else 0)

/-- The value rounded down, as an integer. -/
def Scaled.floor (s : Scaled) : Int :=
  let m : Int := if s.negative then -s.significand else s.significand
  if 0 ≤ s.exponent then m * Int.pow 2 s.exponent.toNat
  else m.fdiv (Int.pow 2 (-s.exponent).toNat)

/-- The value rounded towards zero, as an integer. -/
def Scaled.truncate (s : Scaled) : Int :=
  let m : Int := if s.negative then -s.significand else s.significand
  if 0 ≤ s.exponent then m * Int.pow 2 s.exponent.toNat
  else m.tdiv (Int.pow 2 (-s.exponent).toNat)

/-- Whether the value is an integer. -/
def Scaled.isWhole (s : Scaled) : Bool :=
  0 ≤ s.exponent || s.significand % Nat.pow 2 (-s.exponent).toNat = 0

/-- The nearest float to a word, a tie going to the even significand. -/
def ofWord (i : Int64) : Float :=
  if i < 0 then -(0 - i).toUInt64.toFloat else i.toUInt64.toFloat

/-- The largest whole number that is not above `x`; infinities and NaN are kept. -/
def floor (x : Float) : Float :=
  match scaled? x with
  | none => x
  | some s => if s.isWhole then x else Float.ofInt s.floor

/-- The remainder of `x` by `y` with the sign of `x`, computed without rounding. -/
def remainder (x y : Float) : Float :=
  match scaled? x, scaled? y with
  | some a, some b =>
    if b.significand = 0 then 0.0 / 0.0
    else
      let e := min a.exponent b.exponent
      let m := a.significand <<< (a.exponent - e).toNat
      let n := b.significand <<< (b.exponent - e).toNat
      Scaled.toFloat ⟨a.negative, m % n, e⟩
  | some _, none => if y.isNaN then y else x
  | none, _ => 0.0 / 0.0

/-- The remainder of division rounded down; it has the sign of `y`. -/
def floorMod (x y : Float) : Float :=
  let r := remainder x y
  if r != 0.0 then
    if (r < 0.0) != (y < 0.0) then r + y else r
  else copySign 0.0 y

/-- Division rounded down, in agreement with `floorMod`. -/
def floorDiv (x y : Float) : Float :=
  if y == 0.0 then floor (x / y)
  else
    let m := remainder x y
    let quotient := (x - m) / y
    let quotient := if m != 0.0 && (y < 0.0) != (m < 0.0) then quotient - 1.0 else quotient
    if quotient == 0.0 then copySign 0.0 (x / y)
    else
      let q := floor quotient
      if quotient - q > 0.5 then q + 1.0 else q

/-- The order of two numbers; a NaN has none. -/
def compare? (x y : Float) : Option Ordering :=
  if x < y then some .lt
  else if x == y then some .eq
  else if y < x then some .gt
  else none

end RegisterVm.Binary64
