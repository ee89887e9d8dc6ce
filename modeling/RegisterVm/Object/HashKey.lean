import RegisterVm.Number.Binary64
import RegisterVm.Value

/-!
# Keys

The key of a hashable value: two values are the same entry of a dict or set exactly when they have
the same key. A float that is a word has the key of the word.
-/

namespace RegisterVm

mutual

inductive HashKey where
  | none
  | int (i : Int64)
  | big (n : Int)
  | float (bits : UInt64)
  | str (s : String)
  | tuple (items : HashKeys)
  | identity (h : Handle)
  deriving DecidableEq, Hashable

/-- The keys of the items of a tuple. -/
inductive HashKeys where
  | nil
  | cons (head : HashKey) (tail : HashKeys)
  deriving DecidableEq, Hashable

end

namespace HashKeys

def ofList : List HashKey → HashKeys
  | [] => nil
  | k :: ks => cons k (ofList ks)

def toList : HashKeys → List HashKey
  | nil => []
  | cons k ks => k :: toList ks

theorem toList_ofList (ks : List HashKey) : (ofList ks).toList = ks := by
  induction ks with
  | nil => rfl
  | cons k ks ih => simp [ofList, toList, ih]

end HashKeys

/-- The key of a float. -/
def HashKey.ofFloat (x : Float) : HashKey :=
  match Binary64.scaled? x with
  | some s =>
    if s.isWhole then
      match Word.ofInt? s.floor with
      | some i => .int i
      | Option.none => .float x.toBits
    else .float x.toBits
  | Option.none => .float x.toBits

end RegisterVm
