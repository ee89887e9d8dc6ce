/-!
# Machine integers

Small integers are 64-bit words. Arithmetic on them is exact integer arithmetic followed by
`Word.ofInt?`, which answers only when the result is again a word; the caller moves to unbounded
integers otherwise.
-/

namespace RegisterVm

namespace Word

/-- Whether `i` is a 64-bit signed integer. -/
def fits (i : Int) : Bool :=
  -9223372036854775808 ≤ i && i ≤ 9223372036854775807

/-- The word equal to `i`, when there is one. -/
def ofInt? (i : Int) : Option Int64 :=
  if fits i then some (Int64.ofInt i) else none

/-- The word nearest to `i`. -/
def clamp (i : Int) : Int64 :=
  if i < -9223372036854775808 then Int64.minValue
  else if 9223372036854775807 < i then Int64.maxValue
  else Int64.ofInt i

theorem fits_toInt (a : Int64) : fits a.toInt = true := by
  have h₁ := Int64.le_toInt a
  have h₂ := Int64.toInt_lt a
  simp only [fits, Bool.and_eq_true, decide_eq_true_eq]
  omega

theorem ofInt?_toInt (a : Int64) : ofInt? a.toInt = some a := by
  simp [ofInt?, fits_toInt, Int64.ofInt_toInt]

theorem toInt_of_ofInt? {i : Int} {a : Int64} (h : ofInt? i = some a) : a.toInt = i := by
  unfold ofInt? at h
  split at h
  · rename_i hf
    simp only [fits, Bool.and_eq_true, decide_eq_true_eq] at hf
    obtain rfl := Option.some.inj h
    exact Int64.toInt_ofInt_of_le (by omega) (by omega)
  · cases h

def add? (a b : Int64) : Option Int64 := ofInt? (a.toInt + b.toInt)

def sub? (a b : Int64) : Option Int64 := ofInt? (a.toInt - b.toInt)

def mul? (a b : Int64) : Option Int64 := ofInt? (a.toInt * b.toInt)

def neg? (a : Int64) : Option Int64 := ofInt? (-a.toInt)

/-- Division rounded down; no answer for a zero divisor. -/
def floorDiv? (a b : Int64) : Option Int64 :=
  if b = 0 then none else ofInt? (a.toInt.fdiv b.toInt)

/-- The remainder of division rounded down, with the sign of the divisor. -/
def floorMod? (a b : Int64) : Option Int64 :=
  if b = 0 then none else ofInt? (a.toInt.fmod b.toInt)

/-- Powers of words other than 0, 1 and -1 leave the words at exponent 64 at the latest. -/
def pow? (a : Int64) (n : Nat) : Option Int64 :=
  if a = 0 || a = 1 then some (if n = 0 then 1 else a)
  else if a = -1 then some (if n % 2 = 0 then 1 else -1)
  else if 64 ≤ n then none
  else ofInt? (Int.pow a.toInt n)

def shiftLeft? (a : Int64) (n : Nat) : Option Int64 :=
  if a = 0 then some 0
  else if 64 ≤ n then none
  else ofInt? (a.toInt * Int.pow 2 n)

/-- Shift towards the sign: division by a power of two, rounded down. -/
def shiftRight (a : Int64) (n : Nat) : Int64 :=
  if 64 ≤ n then (if a < 0 then -1 else 0) else Int64.ofInt (a.toInt >>> n)

end Word

end RegisterVm
