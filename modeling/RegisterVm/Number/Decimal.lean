import RegisterVm.Number.Binary64

/-!
# Decimal text of floats

`Decimal.shortest` gives the fewest digits that read back as a binary64 number. The interval of
reals that round to `m * 2 ^ e` is taken in units of `2 ^ (e - 2)`, its ends belonging to it when
`m` is even; for one digit, two digits and so on the two neighbours of the number on that decimal
grid are tried against it, and the nearer hit wins. `Decimal.laidOut` writes digits in a
`DecimalLayout`.
-/

namespace RegisterVm

/-- The number `coefficient * 10 ^ exponent`. -/
structure Decimal where
  coefficient : Nat
  exponent : Int
  deriving DecidableEq

/-- Where positional notation ends and how an exponent is written. -/
structure DecimalLayout where
  /-- Positional notation is used while the decimal point stands after more places than this. -/
  pointAbove : Int
  /-- Positional notation is used while the decimal point stands after at most this many places. -/
  pointUpTo : Int
  /-- Whether a positive exponent has a sign. -/
  plus : Bool
  /-- The least number of exponent digits. -/
  exponentDigits : Nat

namespace Decimal

/-- Numerator and denominator of `v * 2 ^ e / 10 ^ k`. -/
def ratio (v : Nat) (e k : Int) : Nat × Nat :=
  (v * Nat.pow 2 e.toNat * Nat.pow 10 (-k).toNat, Nat.pow 2 (-e).toNat * Nat.pow 10 k.toNat)

/-- The position of the decimal point of `num / den`, counted in digits from the first one:
the least `k` found from `guess` upwards with `num / den < 10 ^ k`. -/
def pointFrom (num den : Nat) : Nat → Int → Int
  | 0, k => k
  | n + 1, k =>
    if num * Nat.pow 10 (-k).toNat < den * Nat.pow 10 k.toNat then k
    else pointFrom num den n (k + 1)

/-- The hit on the grid of multiples of `10 ^ k`, when one of the two neighbours of the value
`v * 2 ^ e` lies between `low` and `high`. -/
def gridHit? (low v high : Nat) (closed : Bool) (e k : Int) : Option Nat :=
  let (num, den) := ratio v e k
  let inside (c : Nat) : Bool :=
    let (lowNum, lowDen) := ratio low e k
    let (highNum, highDen) := ratio high e k
    if closed then lowNum ≤ c * lowDen && c * highDen ≤ highNum
    else lowNum < c * lowDen && c * highDen < highNum
  let below := num / den
  let rest := num % den
  let nearer := if 2 * rest < den then below
    else if den < 2 * rest then below + 1
    else if below % 2 = 0 then below else below + 1
  let farther := if nearer = below then below + 1 else below
  if inside nearer then some nearer
  else if inside farther then some farther
  else none

/-- The first hit on the grids of one digit, two digits and so on. A hit has as many digits as its
grid, except that on the first grid the upper neighbour of 9 is 10. -/
def firstHit (low v high : Nat) (closed : Bool) (e point : Int) : Nat → Int → Decimal
  | 0, digits => ⟨(ratio v e (point - digits)).1 / (ratio v e (point - digits)).2, point - digits⟩
  | n + 1, digits =>
    match gridHit? low v high closed e (point - digits) with
    | some c => if c = 10 then ⟨1, point⟩ else ⟨c, point - digits⟩
    | none => firstHit low v high closed e point n (digits + 1)

/-- The fewest digits that read back as the finite number `s`; of two such numbers the nearer. -/
def shortest (s : Binary64.Scaled) : Decimal :=
  let v := 4 * s.significand
  let e := s.exponent - 2
  let low := if s.significand = Binary64.hiddenBit && -1074 < s.exponent then v - 1 else v - 2
  let (num, den) := ratio v e 0
  let guess := ((num.log2 : Int) - den.log2 - 1) * 1233 / 4096
  let point := pointFrom num den 4 guess
  firstHit low v (v + 2) (s.significand % 2 = 0) e point 17 1

/-- The exponent of scientific notation, with its sign. -/
def exponentText (layout : DecimalLayout) (n : Int) : List Char :=
  let digits := Nat.toDigits 10 n.natAbs
  let sign := if n < 0 then ['-'] else if layout.plus then ['+'] else []
  sign ++ (List.replicate (layout.exponentDigits - digits.length) '0' ++ digits)

/-- The digits with a point after the first `point` places, zeros filling the gaps. -/
def positional (digits : List Char) (point : Int) : List Char :=
  if point ≤ 0 then '0' :: '.' :: (List.replicate (-point).toNat '0' ++ digits)
  else
    let n := point.toNat
    let whole := digits.take n ++ List.replicate (n - digits.length) '0'
    let fraction := digits.drop n
    whole ++ '.' :: (if fraction.isEmpty then ['0'] else fraction)

/-- The text of the positive number `0.digits * 10 ^ point`. -/
def laidOut (layout : DecimalLayout) (digits : List Char) (point : Int) : List Char :=
  if layout.pointAbove < point && point ≤ layout.pointUpTo then positional digits point
  else
    let mantissa := digits.take 1 ++ (if digits.length ≤ 1 then [] else '.' :: digits.drop 1)
    mantissa ++ 'e' :: exponentText layout (point - 1)

/-- The text of a positive number without trailing zeros in its coefficient. -/
def text (layout : DecimalLayout) (d : Decimal) : String :=
  let digits := Nat.toDigits 10 d.coefficient
  String.ofList (laidOut layout digits (digits.length + d.exponent))

end Decimal

namespace Binary64

/-- The text of a finite number in a layout; `none` for infinities and NaN. -/
def text? (layout : DecimalLayout) (x : Float) : Option String :=
  (scaled? x).map fun s =>
    let magnitude := if s.significand = 0 then "0.0" else (Decimal.shortest s).text layout
    if s.negative then "-" ++ magnitude else magnitude

/-- The form of a float in a listing. -/
def listedLayout : DecimalLayout := ⟨-4, 16, false, 1⟩

def special (nan : String) (x : Float) : String :=
  if x.isNaN then nan else if isNegative x then "-inf" else "inf"

/-- How a listing writes a float. -/
def listed (x : Float) : String := (text? listedLayout x).getD (special "NaN" x)

end Binary64

end RegisterVm
