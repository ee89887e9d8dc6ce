import RegisterVm.Number.Decimal
import RegisterVm.Number.Reading

/-!
# Numbers in JSON

A number is kept as it is written and valued when it is read. Without point and exponent it is an
integer, unless it is `-0` or does not fit 64 bits. Otherwise it is a float, the product or quotient
of a 64-bit significand and a power of ten: digits beyond the significand only count as places.
-/

namespace RegisterVm.Json

/-- The parts of a number in their written form. -/
structure NumberText where
  negative : Bool
  whole : List Char
  fraction : Option (List Char)
  exponent : Option Int
  deriving DecidableEq

inductive NumberValue where
  | int (i : Int)
  | float (x : Float)
  deriving DecidableEq

namespace NumberText

/-- Appends digits to a significand until it would leave 64 bits; the digits left over. -/
def absorb (significand : Nat) : List Char → Nat × List Char
  | [] => (significand, [])
  | c :: cs =>
    let next := 10 * significand + Reading.digitValue c
    if next < 0x10000000000000000 then absorb next cs else (significand, c :: cs)

/-- `x / 10 ^ n`, dividing by `10 ^ 308` at most each time. -/
def divideBy (x : Float) (n : Nat) : Float :=
  if x == 0.0 || n ≤ 308 then x / Float.ofScientific 1 false n
  else divideBy (x / 1e308) (n - 308)
termination_by n
decreasing_by simp_all; omega

/-- The float nearest to the significand, multiplied or divided by a power of ten. -/
def scale? (significand : Nat) (exponent : Int) : Option Float :=
  let x := Float.ofNat significand
  if significand = 0 then some 0.0
  else if 0 ≤ exponent then
    if 308 < exponent then none
    else
      let y := x * Float.ofScientific 1 false exponent.toNat
      if y.isInf then none else some y
  else if exponent < -1000 then some 0.0
  else some (divideBy x exponent.natAbs)

/-- An exponent beyond 32 bits gives zero, or no number when it makes the number larger. -/
def float? (n : NumberText) : Option Float :=
  let (head, rest) := absorb 0 n.whole
  let fraction := n.fraction.getD []
  let (significand, tail) := absorb head fraction
  let places := (rest.length : Int) - (fraction.length - tail.length : Nat)
  let exponent := n.exponent.getD 0
  let magnitude :=
    if 2147483647 < exponent then if significand = 0 then some 0.0 else none
    else if exponent < -2147483647 then some 0.0
    else scale? significand (places + exponent)
  magnitude.map fun x => if n.negative then -x else x

/-- The value of a number; `none` when it is too large for a float. -/
def value? (n : NumberText) : Option NumberValue :=
  if n.fraction.isNone && n.exponent.isNone then
    let magnitude := Reading.ofDigits n.whole
    if !n.negative && magnitude < 0x10000000000000000 then some (.int magnitude)
    else if n.negative && 0 < magnitude && magnitude ≤ 0x8000000000000000 then
      some (.int (-magnitude))
    else n.float?.map .float
  else n.float?.map .float

def ofInt (i : Int) : NumberText :=
  ⟨i < 0, Nat.toDigits 10 i.natAbs, none, none⟩

/-- The layout of floats: positional from `1e-5` up to `1e16`. -/
def layout : DecimalLayout := ⟨-5, 16, true, 1⟩

def text (n : NumberText) : List Char :=
  let fraction := match n.fraction with
    | some digits => '.' :: digits
    | none => []
  let exponent := match n.exponent with
    | some e => 'e' :: (if e < 0 then '-' else '+') :: Nat.toDigits 10 e.natAbs
    | none => []
  (if n.negative then ['-'] else []) ++ n.whole ++ fraction ++ exponent

/-- The parts of a finite float with the fewest digits that read back as it. -/
def ofScaled (s : Binary64.Scaled) : NumberText :=
  if s.significand = 0 then ⟨s.negative, ['0'], some ['0'], none⟩
  else
    let d := Decimal.shortest s
    let digits := Nat.toDigits 10 d.coefficient
    let point := digits.length + d.exponent
    if layout.pointAbove < point && point ≤ layout.pointUpTo then
      let shown := Decimal.positional digits point
      ⟨s.negative, shown.takeWhile (· != '.'), some ((shown.dropWhile (· != '.')).drop 1), none⟩
    else
      let fraction := if digits.length ≤ 1 then none else some (digits.drop 1)
      ⟨s.negative, digits.take 1, fraction, some (point - 1)⟩

end NumberText

end RegisterVm.Json
