import RegisterVm.Failure
import RegisterVm.Object

/-!
# The heap

Objects are appended and never removed, so a handle stays valid. Reading is a function of the heap;
what may change it is in `HeapM`, which keeps the heap also when it fails. Main statements:
`object?_alloc` and `object?_of_lt`, what allocation adds and leaves alone.
-/

namespace RegisterVm

structure Heap where
  objects : Array Object
  /-- The strings that are shared by text. -/
  interned : Std.HashMap String Handle

/-- An operation that may change the heap and may fail. -/
abbrev HeapM := EStateM Failure Heap

namespace Heap

def empty : Heap := ⟨#[], ∅⟩

instance : Inhabited Heap := ⟨empty⟩

def size (h : Heap) : Nat := h.objects.size

/-- The object at a position. -/
def object? (h : Heap) (handle : Handle) : Option Object := h.objects[handle.index.toNat]?

def get (h : Heap) (handle : Handle) : Outcome Object :=
  match h.object? handle with
  | some o => .ok o
  | none => refuse (.danglingHandle handle.index.toNat)

/-- The object of a value; a primitive value has none. -/
def view (h : Heap) : Value → Outcome (Option Object)
  | .object handle => (h.get handle).map some
  | _ => .ok none

/-- The heap with another object, and its handle. -/
def alloc (o : Object) : Heap → Handle × Heap
  | ⟨objects, interned⟩ => (⟨UInt32.ofNat objects.size⟩, ⟨objects.push o, interned⟩)

def modify (handle : Handle) (f : Object → Object) : Heap → Heap
  | ⟨objects, interned⟩ => ⟨objects.modify handle.index.toNat f, interned⟩

theorem object?_alloc (h : Heap) (o : Object) (bound : h.size < 0x100000000) :
    (h.alloc o).2.object? (h.alloc o).1 = some o := by
  cases h with
  | mk objects interned =>
    simp only [size] at bound
    simp [alloc, object?, UInt32.toNat_ofNat_of_lt' bound]

theorem object?_of_lt (h : Heap) (o : Object) (handle : Handle)
    (bound : handle.index.toNat < h.size) : (h.alloc o).2.object? handle = h.object? handle := by
  cases h with
  | mk objects interned =>
    simp only [size] at bound
    simp [alloc, object?, Array.getElem?_push, Nat.ne_of_lt bound]

/-! ## Views of values -/

/-- The text of a string. -/
def text? (h : Heap) (v : Value) : Option String :=
  match h.view v with
  | .ok (some (.str s)) => some s
  | _ => none

/-- The integer that a value stands for, however large. -/
def integer? (h : Heap) : Value → Option Int
  | .int i => some i.toInt
  | .bool b => some (if b then 1 else 0)
  | .object handle =>
    match h.object? handle with
    | some (.big n) => some n
    | _ => none
  | _ => none

/-- Whether a value is an integer that is no word. -/
def isBig (h : Heap) (v : Value) : Bool :=
  match h.view v with
  | .ok (some (.big _)) => true
  | _ => false

/-- The float that a number stands for. -/
def float? (h : Heap) (v : Value) : Option Float :=
  match v.asFloat? with
  | some x => some x
  | none =>
    match h.view v with
    | .ok (some (.big n)) => some (Float.ofInt n)
    | _ => none

/-- The type of a value; an instance has its class as type, an exception its exception class. -/
def typeName (h : Heap) (v : Value) : Outcome String := do
  match ← h.view v with
  | none => return v.typeName
  | some (.instanceOf cls _) =>
    match ← h.get cls with
    | .cls name _ _ => return name
    | other => return other.typeName
  | some (.exception kind _) => return kind.className
  | some o => return o.typeName

/-- The type of a value as far as it has one, for messages. -/
def typeText (h : Heap) (v : Value) : String :=
  match h.typeName v with
  | .ok name => name
  | .error _ => ""

end Heap

/-! ## Operations -/

/-- Reads the heap. -/
def inspect {α : Type} (f : Heap → Outcome α) : HeapM α := fun h =>
  match f h with
  | .ok a => .ok a h
  | .error e => .error e h

namespace HeapM

def fail {α : Type} (fault : Fault) : HeapM α := throw (.ofFault fault)

def alloc (o : Object) : HeapM Value := fun h =>
  let (handle, h) := h.alloc o
  .ok (.object handle) h

def allocText (s : String) : HeapM Value := alloc (.str s)

/-- A string as a value, from its characters. -/
def allocChars (cs : List Char) : HeapM Value := allocText (String.ofList cs)

/-- The integer as a word, or as an object when it is none. -/
def allocInteger (n : Int) : HeapM Value :=
  match Word.ofInt? n with
  | some i => pure (.int i)
  | none => alloc (.big n)

/-- The one string that stands for a text. -/
def intern (s : String) : HeapM Value := fun h =>
  match h.interned[s]? with
  | some handle => .ok (.object handle) h
  | none =>
    let (handle, ⟨objects, interned⟩) := h.alloc (.str s)
    .ok (.object handle) ⟨objects, interned.insert s handle⟩

/-- The object of a value. -/
def view (v : Value) : HeapM (Option Object) := inspect fun h => h.view v

/-- Changes the object of a value, if it has one. -/
def modify (v : Value) (f : Object → Object) : HeapM Unit := fun h =>
  match v with
  | .object handle => .ok () (h.modify handle f)
  | _ => .ok () h

end HeapM

end RegisterVm
