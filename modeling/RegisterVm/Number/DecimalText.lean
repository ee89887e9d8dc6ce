import RegisterVm.Number.Reading

/-!
# Shown floats

A program sees a float in the fewest digits that read back as it, in a layout of its own. Those
digits come as a text in some decimal notation: `DecimalText.ofChars` takes such a text apart,
`DecimalText.significant` are its digits without the zeros around them, `DecimalText.point` is the
place of the decimal point, and `DecimalText.relaid` writes them again.
-/

namespace RegisterVm

/-- A decimal number in the parts of its text. -/
structure DecimalText where
  negative : Bool
  whole : List Char
  /-- The text after the point, when there is a point. -/
  fraction : Option (List Char)
  /-- The text after the exponent letter, when there is one. -/
  exponent : Option (List Char)

namespace DecimalText

/-- The text up to the first `c` and, when there is one, the text after it. -/
def cut (c : Char) (cs : List Char) : List Char × Option (List Char) :=
  match cs.dropWhile (· != c) with
  | [] => (cs, none)
  | _ :: rest => (cs.takeWhile (· != c), some rest)

/-- A leading minus sign, and the text after it. -/
def takeMinus : List Char → Bool × List Char
  | '-' :: cs => (true, cs)
  | cs => (false, cs)

def ofChars (cs : List Char) : DecimalText :=
  let (negative, body) := takeMinus cs
  let (mantissa, exponent) := cut 'e' body
  let (whole, fraction) := cut '.' mantissa
  ⟨negative, whole, fraction, exponent⟩

/-- The digits on both sides of the point. -/
def digits (n : DecimalText) : List Char := n.whole ++ n.fraction.getD []

/-- The digits from the first to the last one that is not zero. -/
def significant (n : DecimalText) : List Char :=
  ((n.digits.dropWhile (· = '0')).reverse.dropWhile (· = '0')).reverse

/-- The place of the decimal point, counted from the first digit that is not zero. An exponent that
is no integer of 32 bits counts for nothing. -/
def point (n : DecimalText) : Int :=
  n.whole.length + (n.exponent.bind Reading.int32?).getD 0 -
    (n.digits.takeWhile (· = '0')).length

/-- The text of a number written again in a layout. -/
def relaid (layout : DecimalLayout) (cs : List Char) : List Char :=
  let n := ofChars cs
  (if n.negative then ['-'] else []) ++ Decimal.laidOut layout n.significant n.point

end DecimalText

namespace Binary64

/-- The layout of the shortest text of a float: positional from `1e-5` up to `1e16`. -/
def shortestLayout : DecimalLayout := ⟨-5, 16, false, 1⟩

/-- The text with the fewest digits that reads back as this number other than zero. -/
def Scaled.shortestText (s : Scaled) : List Char :=
  (if s.negative then ['-'] else []) ++ ((Decimal.shortest s).text shortestLayout).toList

/-- The shown form of a float: positional from `1e-4` up to `1e16`, at least two exponent digits. -/
def shownLayout : DecimalLayout := ⟨-4, 16, true, 2⟩

/-- How a program sees a float written, given the shortest texts of the numbers other than zero. -/
def shownBy (shortestText : Scaled → List Char) (x : Float) : String :=
  match scaled? x with
  | none => special "nan" x
  | some s =>
    if s.significand = 0 then if s.negative then "-0.0" else "0.0"
    else String.ofList (DecimalText.relaid shownLayout (shortestText s))

/-- How a program sees a float written. -/
def shown (x : Float) : String := shownBy Scaled.shortestText x

end Binary64

end RegisterVm
