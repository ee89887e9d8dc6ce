import RegisterVm.Number.Word

/-!
# Word arithmetic of compiled loops

Addition, subtraction and multiplication wrap at 64 bits and tell by bit tests whether the exact
result was lost.
-/

namespace RegisterVm

inductive WordForm where
  | add | sub | mul | and | or | xor
  deriving DecidableEq

namespace WordForm

/-- The upper half of a product of 128 bits. -/
def mulHigh (a b : Int64) : Int64 := Int64.ofInt ((a.toInt * b.toInt) >>> (64 : Nat))

/-- The wrapped result. -/
def result : WordForm → Int64 → Int64 → Int64
  | add, a, b => a + b
  | sub, a, b => a - b
  | mul, a, b => a * b
  | and, a, b => a &&& b
  | or, a, b => a ||| b
  | xor, a, b => a ^^^ b

/-- Whether the wrapped result differs from the exact one. A sum is wrong when its sign differs from
both operands' signs, a difference when the operands' signs differ and the result has not the sign
of the first, a product when its upper half does not repeat the sign of the lower half. -/
def overflows : WordForm → Int64 → Int64 → Bool
  | add, a, b => (a ^^^ (a + b)) &&& (b ^^^ (a + b)) < 0
  | sub, a, b => (a ^^^ b) &&& (a ^^^ (a - b)) < 0
  | mul, a, b => mulHigh a b != (a * b) >>> 63
  | and, _, _ | or, _, _ | xor, _, _ => false

end WordForm

end RegisterVm
