import RegisterVm.Value

/-!
# Native slots

A compiled loop keeps a register as a pair of machine words, a tag and a payload. `Slot.ofValue`
writes a value as a slot and `Slot.value?` reads it back.
-/

namespace RegisterVm

/-- A register as compiled code sees it. -/
structure Slot where
  tag : UInt64
  bits : UInt64
  deriving DecidableEq

namespace Slot

def noneTag : UInt64 := 0

def boolTag : UInt64 := 1

def intTag : UInt64 := 2

def floatTag : UInt64 := 3

def objectTag : UInt64 := 4

def ofBool (b : Bool) : Slot := ⟨boolTag, if b then 1 else 0⟩

def ofInt (i : Int64) : Slot := ⟨intTag, i.toUInt64⟩

def ofFloat (x : Float) : Slot := ⟨floatTag, x.toBits⟩

def ofValue : Value → Slot
  | .none => ⟨noneTag, 0⟩
  | .bool b => ofBool b
  | .int i => ofInt i
  | .float x => ofFloat x
  | .object h => ⟨objectTag, h.index.toUInt64⟩

/-- The value of a slot; an unknown tag or a handle beyond 32 bits has none. -/
def value? (s : Slot) : Option Value :=
  if s.tag = noneTag then some .none
  else if s.tag = boolTag then some (.bool (s.bits != 0))
  else if s.tag = intTag then some (.int s.bits.toInt64)
  else if s.tag = floatTag then some (.float (Float.ofBits s.bits))
  else if s.tag = objectTag then
    if s.bits < 4294967296 then some (.object ⟨s.bits.toUInt32⟩) else none
  else none

end Slot

end RegisterVm
