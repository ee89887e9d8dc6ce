/-!
# Bitwise operations on integers

An integer is read as an infinite two's-complement word: a negative number `-(n + 1)` has the bits
of `n` inverted.
-/

namespace RegisterVm.Bits

/-- The bits of `m` that are not bits of `n`. -/
def without (m n : Nat) : Nat := m ^^^ (m &&& n)

def and : Int → Int → Int
  | .ofNat m, .ofNat n => .ofNat (m &&& n)
  | .ofNat m, .negSucc n => .ofNat (without m n)
  | .negSucc m, .ofNat n => .ofNat (without n m)
  | .negSucc m, .negSucc n => .negSucc (m ||| n)

def or : Int → Int → Int
  | .ofNat m, .ofNat n => .ofNat (m ||| n)
  | .ofNat m, .negSucc n => .negSucc (without n m)
  | .negSucc m, .ofNat n => .negSucc (without m n)
  | .negSucc m, .negSucc n => .negSucc (m &&& n)

def xor : Int → Int → Int
  | .ofNat m, .ofNat n => .ofNat (m ^^^ n)
  | .ofNat m, .negSucc n => .negSucc (m ^^^ n)
  | .negSucc m, .ofNat n => .negSucc (m ^^^ n)
  | .negSucc m, .negSucc n => .ofNat (m ^^^ n)

/-- `-(i + 1)`. -/
def not : Int → Int
  | .ofNat m => .negSucc m
  | .negSucc m => .ofNat m

/-- The number of binary digits of the magnitude, 0 for zero. -/
def length (i : Int) : Nat :=
  if i = 0 then 0 else i.natAbs.log2 + 1

end RegisterVm.Bits
