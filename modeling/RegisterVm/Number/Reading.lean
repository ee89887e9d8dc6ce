import RegisterVm.Number.Decimal

/-!
# Reading numbers

The decimal texts of floats and integers. A float is a signed run of digits with an optional
point and exponent, or one of the words for infinity and NaN; an integer is a signed run of digits
in which underscores may follow the first digit. Settings are plain digits, at most with a sign.
-/

namespace RegisterVm

namespace Reading

def digitValue (c : Char) : Nat := c.toNat - '0'.toNat

/-- The number written by decimal digits. -/
def ofDigits (cs : List Char) : Nat :=
  cs.foldl (fun n c => 10 * n + digitValue c) 0

/-- A leading minus sign, and the text after any leading sign. -/
def takeSign : List Char → Bool × List Char
  | '-' :: cs => (true, cs)
  | '+' :: cs => (false, cs)
  | cs => (false, cs)

/-- The nearest float to `coefficient * 10 ^ exponent`. Exponents far out of range are decided
without computing the power. -/
def nearestFloat (coefficient : Nat) (exponent : Int) : Float :=
  let point := (Nat.toDigits 10 coefficient).length + exponent
  if coefficient = 0 || point < -400 then 0.0
  else if 400 < point then 1.0 / 0.0
  else Float.ofScientific coefficient (exponent < 0) exponent.natAbs

/-- The exponent at the end of a number, 0 when there is none. -/
def exponent? : List Char → Option Int
  | [] => some 0
  | c :: cs =>
    if c = 'e' || c = 'E' then
      let (negative, digits) := takeSign cs
      if digits.isEmpty || !digits.all Char.isDigit then none
      else some (if negative then -(ofDigits digits : Int) else ofDigits digits)
    else none

/-- An unsigned decimal number: digits, a point among or beside them, an exponent. -/
def magnitude? (cs : List Char) : Option Float :=
  let whole := cs.takeWhile Char.isDigit
  let afterWhole := cs.dropWhile Char.isDigit
  let (fraction, rest) := match afterWhole with
    | '.' :: r => (r.takeWhile Char.isDigit, r.dropWhile Char.isDigit)
    | r => ([], r)
  if whole.isEmpty && fraction.isEmpty then none
  else (exponent? rest).map fun e =>
    nearestFloat (ofDigits (whole ++ fraction)) (e - fraction.length)

/-- The float written by `cs`. -/
def float? (cs : List Char) : Option Float :=
  let (negative, body) := takeSign cs
  let word := body.map Char.toLower
  let unsigned :=
    if word = "inf".toList || word = "infinity".toList then some (1.0 / 0.0)
    else if word = "nan".toList then some (0.0 / 0.0)
    else magnitude? body
  unsigned.map fun x => if negative then -x else x

/-- The digits of a natural number; the first character is a digit, later ones may be
underscores, which count for nothing. -/
def natural? (cs : List Char) : Option Nat :=
  match cs with
  | [] => none
  | '_' :: _ => none
  | _ => if cs.all (fun c => c.isDigit || c = '_') then some (ofDigits (cs.filter Char.isDigit))
    else none

/-- The integer written by `cs`, with at most one sign. -/
def integer? : List Char → Option Int
  | '-' :: cs => (natural? cs).map fun n => -n
  | '+' :: cs => (natural? cs).map fun n => n
  | cs => (natural? cs).map fun n => n

/-- The number written by decimal digits alone. -/
def digits? (cs : List Char) : Option Nat :=
  if !cs.isEmpty && cs.all Char.isDigit then some (ofDigits cs) else none

/-- A number below `bound`, with or without a plus sign. -/
def below? (bound : Nat) (cs : List Char) : Option Nat :=
  (digits? (match cs with
    | '+' :: ds => ds
    | ds => ds)).filter (· < bound)

/-- A 32-bit number, which may have any sign that does not take it below 0. -/
def signedUInt32? (cs : List Char) : Option UInt32 :=
  let (negative, ds) := takeSign cs
  ((digits? ds).filter fun n => n < if negative then 1 else 0x100000000).map UInt32.ofNat

/-- An integer of 32 bits, at most with a sign. -/
def int32? (cs : List Char) : Option Int :=
  let (negative, ds) := takeSign cs
  ((digits? ds).map fun n => if negative then -(n : Int) else n).filter fun i =>
    -0x80000000 ≤ i && i < 0x80000000

end Reading

end RegisterVm
