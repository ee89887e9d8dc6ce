import RegisterVm.Heap

/-!
# Iteration

An iterator over a list or tuple sees items that are added while it runs; one over a dict or set
goes through the entries it had at the start. One over a string stands at a byte of its UTF-8 form.
-/

namespace RegisterVm

/-- The character of a string that starts at a byte; `none` when none does. -/
def Object.characterAt? (offset : Nat) : Object → Option Char
  | str s => String.Pos.Raw.get? s ⟨offset⟩
  | _ => none

namespace HeapM

/-- An iterator over a value; an iterator is its own. -/
def iterator (v : Value) : HeapM Value := do
  match ← view v, v with
  | some (.iterator _), _ => return v
  | some (.list _), .object source | some (.tuple _), .object source =>
    alloc (.iterator (.sequence source 0))
  | some (.str _), .object source => alloc (.iterator (.chars source 0))
  | some (.range r), _ => alloc (.iterator (.range r))
  | some (.dict d), _ => alloc (.iterator (.values d.keys.toList))
  | some (.set s), _ => alloc (.iterator (.values s.items.toList))
  | _, _ => inspect fun h => refuse (.notIterable (h.typeText v))

/-- The item of a list or tuple at an index. -/
def sequenceItem (source : Handle) (index : Nat) : HeapM (Option Value) :=
  inspect fun h => do
    match ← h.get source with
    | .list items | .tuple items => return items[index]?
    | _ => return none

def characterAt (source : Handle) (offset : Nat) : HeapM (Option Char) :=
  inspect fun h => return (← h.get source).characterAt? offset

/-- The next item of an iterator; `none` when there is none left. -/
def next (it : Value) : HeapM (Option Value) := do
  match ← view it with
  | some (.iterator (.range r)) =>
    match r.next? with
    | some (i, rest) =>
      modify it fun _ => .iterator (.range rest)
      return some (.int i)
    | none => return none
  | some (.iterator (.values (v :: rest))) =>
    modify it fun _ => .iterator (.values rest)
    return some v
  | some (.iterator (.values [])) => return none
  | some (.iterator (.sequence source index)) =>
    match ← sequenceItem source index with
    | some v =>
      modify it fun _ => .iterator (.sequence source (index + 1))
      return some v
    | none => return none
  | some (.iterator (.chars source offset)) =>
    match ← characterAt source offset with
    | some c =>
      let v ← allocChars [c]
      modify it fun _ => .iterator (.chars source (offset + c.utf8Size))
      return some v
    | none => return none
  | some other => fail (.notAnIterator other.typeName)
  | none => fail (.notAnIterator it.typeName)

/-- How many items an iterator has left at most. A character takes a byte or more. -/
def remaining (it : Value) : HeapM Nat := do
  match ← view it with
  | some (.iterator (.range r)) => return r.count
  | some (.iterator (.values rest)) => return rest.length
  | some (.iterator (.sequence source position)) | some (.iterator (.chars source position)) =>
    inspect fun h => do
      match ← h.get source with
      | .list items | .tuple items => return items.size - position
      | .str s => return s.utf8ByteSize - position
      | _ => return 0
  | _ => return 0

/-- The next `count` items of an iterator, after those in `done`. -/
def drain (it : Value) : (count : Nat) → (done : Array Value) → HeapM (Array Value)
  | 0, done => return done
  | count + 1, done => do
    match ← next it with
    | some v => drain it count (done.push v)
    | none => return done

/-- All items of a value. -/
def collect (v : Value) : HeapM (Array Value) := do
  match ← view v with
  | some (.list items) | some (.tuple items) => return items
  | some (.set s) => return s.items
  | some (.dict d) => return d.keys
  | _ =>
    let it ← iterator v
    drain it (← remaining it) #[]

end HeapM

end RegisterVm
