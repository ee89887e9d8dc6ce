import RegisterVm.Number.Word

/-!
# Integer ranges

The integers from `start` on in steps of `step`, as long as they are before `stop`. Main
definitions: `IntRange.count`, `IntRange.nth`, `IntRange.contains`.
-/

namespace RegisterVm

structure IntRange where
  start : Int64
  stop : Int64
  /-- Not zero. -/
  step : Int64
  deriving DecidableEq

namespace IntRange

/-- The number of integers, which may be more than a word can hold. -/
def count (r : IntRange) : Nat :=
  let start := r.start.toInt
  let stop := r.stop.toInt
  let step := r.step.toInt
  if 0 < step then
    if stop ≤ start then 0 else ((stop - start + step - 1) / step).toNat
  else
    if start ≤ stop then 0 else ((start - stop - step - 1) / (-step)).toNat

def isEmpty (r : IntRange) : Bool := r.count = 0

/-- The number of integers, when a word can hold it. -/
def length? (r : IntRange) : Option Int64 := Word.ofInt? r.count

/-- The integer at a position below `count`. -/
def nth (r : IntRange) (position : Nat) : Int64 :=
  Int64.ofInt (r.start.toInt + position * r.step.toInt)

/-- The integer at an index; a negative index counts from the end. -/
def get? (r : IntRange) (index : Int64) : Option Int64 :=
  let i := if index < 0 then index.toInt + r.count else index.toInt
  if 0 ≤ i && i < r.count then some (r.nth i.toNat) else none

def contains (r : IntRange) (i : Int64) : Bool :=
  let inside := if 0 < r.step then r.start ≤ i && i < r.stop else i ≤ r.start && r.stop < i
  inside && (i.toInt - r.start.toInt).tmod r.step.toInt = 0

/-- The first integer and the range of the others. An overflowing step ends the range. -/
def next? (r : IntRange) : Option (Int64 × IntRange) :=
  let done := if 0 < r.step then r.stop ≤ r.start else r.start ≤ r.stop
  if done then none
  else some (r.start, { r with start := (Word.add? r.start r.step).getD r.stop })

end IntRange

/-- The position of an index in a sequence; a negative index counts from the end. -/
def position? (index : Int64) (length : Nat) : Option Nat :=
  let i := if index < 0 then index.toInt + length else index.toInt
  if 0 ≤ i && i < length then some i.toNat else none

end RegisterVm
