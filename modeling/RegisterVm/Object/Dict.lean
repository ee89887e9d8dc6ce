import RegisterVm.Object.HashKey
import Std.Data.HashMap

/-!
# Dicts and sets

Tables that keep their entries in the order of insertion and find them through an index of keys.
Storing under a key that is there replaces the value alone.
-/

namespace RegisterVm

structure Dict where
  entries : Array (Value × Value)
  /-- The position of the entry of each key. -/
  index : Std.HashMap HashKey Nat

namespace Dict

def empty : Dict := ⟨#[], ∅⟩

def size (d : Dict) : Nat := d.entries.size

def get? (key : HashKey) (d : Dict) : Option Value :=
  match d.index[key]? with
  | some i => d.entries[i]?.map (·.2)
  | none => none

def contains (key : HashKey) (d : Dict) : Bool := d.index.contains key

/-- Stores `value` under `key`, which is the key of `name`. -/
def insert (key : HashKey) (name value : Value) : Dict → Dict
  | ⟨entries, index⟩ =>
    match index[key]? with
    | some i => ⟨entries.modify i fun e => (e.1, value), index⟩
    | none => ⟨entries.push (name, value), index.insert key entries.size⟩

/-- The value under `key` and the dict without that entry. -/
def remove? (key : HashKey) (d : Dict) : Option (Value × Dict) :=
  match d.index[key]? with
  | some i =>
    match d.entries[i]? with
    | some e =>
      let index := (d.index.erase key).map fun _ j => if i < j then j - 1 else j
      some (e.2, ⟨d.entries.eraseIdxIfInBounds i, index⟩)
    | none => none
  | none => none

def keys (d : Dict) : Array Value := d.entries.map (·.1)

end Dict

structure KeySet where
  items : Array Value
  /-- The position of the item of each key. -/
  index : Std.HashMap HashKey Nat

namespace KeySet

def empty : KeySet := ⟨#[], ∅⟩

def size (s : KeySet) : Nat := s.items.size

def contains (key : HashKey) (s : KeySet) : Bool := s.index.contains key

/-- Adds an item with its key; of equal items the first stays. -/
def insert (key : HashKey) (item : Value) : KeySet → KeySet
  | ⟨items, index⟩ =>
    if index.contains key then ⟨items, index⟩
    else ⟨items.push item, index.insert key items.size⟩

end KeySet

end RegisterVm
