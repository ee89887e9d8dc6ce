import RegisterVm.Heap

/-!
# Keys of values

Strings, numbers and tuples of hashable values are keyed by what they are, lists, dicts and sets
not at all, everything else by identity.
-/

namespace RegisterVm

namespace Heap

/-- The keys of several values. -/
def keysBy (key : Value → Outcome HashKey) : List Value → Outcome HashKeys
  | [] => .ok .nil
  | v :: vs => do
    let head ← key v
    return .cons head (← keysBy key vs)

/-- The key of a value in which tuples are nested less than `depth` deep. -/
def keyWithin (h : Heap) : (depth : Nat) → Value → Outcome HashKey
  | _, .none => .ok .none
  | _, .bool b => .ok (.int (if b then 1 else 0))
  | _, .int i => .ok (.int i)
  | _, .float x => .ok (.ofFloat x)
  | 0, .object handle => .ok (.identity handle)
  | depth + 1, .object handle => do
    match ← h.get handle with
    | .str s => return .str s
    | .big n => return .big n
    | .tuple items => return .tuple (← keysBy (h.keyWithin depth) items.toList)
    | .list _ => refuse (.unhashable "list")
    | .dict _ => refuse (.unhashable "dict")
    | .set _ => refuse (.unhashable "set")
    | _ => return .identity handle

/-- The key of a value. A tuple holds values that are older than itself, so tuples are nested at
most as deep as there are objects. -/
def key (h : Heap) (v : Value) : Outcome HashKey := h.keyWithin (h.size + 1) v

/-- The dict of some pairs, a later one replacing the value of an earlier one. -/
def dictOf (h : Heap) (pairs : List (Value × Value)) : Outcome Dict :=
  pairs.foldlM (fun d pair => do return d.insert (← h.key pair.1) pair.1 pair.2) .empty

/-- The set of some items. -/
def setOf (h : Heap) (items : List Value) : Outcome KeySet :=
  items.foldlM (fun s item => do return s.insert (← h.key item) item) .empty

end Heap

namespace HeapM

def allocDict (pairs : List (Value × Value)) : HeapM Value := do
  alloc (.dict (← inspect fun h => h.dictOf pairs))

def allocSet (items : List Value) : HeapM Value := do
  alloc (.set (← inspect fun h => h.setOf items))

end HeapM

end RegisterVm
