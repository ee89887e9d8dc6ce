import RegisterVm.Heap.Shown

/-!
# Exceptions

What a handler receives for a failure, the failure of a raised value, and which exceptions belong
to an exception class.
-/

namespace RegisterVm

/-- Whether exceptions of another kind belong to the class of `kind`. All belong to `Exception`. -/
def ErrorKind.takesIn (kind other : ErrorKind) : Bool :=
  kind = .uncaughtException || other.className = kind.className

namespace Heap

/-- The exception class at the end of a chain of bases. -/
def exceptionBaseWithin (h : Heap) : (bases : Nat) → Option Handle → Outcome (Option ErrorKind)
  | 0, _ => .ok none
  | _, none => .ok none
  | bases + 1, some handle => do
    match ← h.get handle with
    | .cls _ base _ => h.exceptionBaseWithin bases base
    | .exceptionClass kind => return some kind
    | _ => return none

/-- Whether a value is an exception of the class of `kind`. A class is older than those derived
from it, so a chain of bases is at most as long as there are objects. -/
def isException (h : Heap) (v : Value) (kind : ErrorKind) : Outcome Bool := do
  match ← h.view v with
  | some (.exception other _) => return kind.takesIn other
  | some (.instanceOf cls _) =>
    return (← h.exceptionBaseWithin (h.size + 1) (some cls)).any kind.takesIn
  | _ => return false

/-- The message of a failure that carries an exception. -/
def raisedMessage (h : Heap) (exception : Value) : String :=
  match h.view exception with
  | .ok (some (.exception kind message)) =>
    if message.isEmpty then kind.className else s!"{kind.className}: {message}"
  | _ => h.typeText exception

/-- The failure that carries an exception. -/
def raised (h : Heap) (exception : Value) : Failure :=
  ⟨.stated .uncaughtException (h.raisedMessage exception), [], some exception⟩

end Heap

namespace HeapM

/-- An exception with its first argument as message. -/
def newException (kind : ErrorKind) (args : List Value) : HeapM Value := do
  let message ← match args with
    | [] => pure ""
    | v :: _ => inspect fun h => h.text v
  alloc (.exception kind message)

/-- What a handler receives: the exception that was raised, or a new one for a fault. -/
def caught (f : Failure) : HeapM Value :=
  match f.exception with
  | some v => return v
  | none => alloc (.exception f.kind f.message)

/-- Raises a value. A class is made an instance first. -/
def raise {α : Type} (v : Value) : HeapM α := do
  let exception ← match ← view v, v with
    | some (.exceptionClass kind), _ => newException kind []
    | some (.cls _ _ _), .object handle => alloc (.instanceOf handle [])
    | some (.exception _ _), v | some (.instanceOf _ _), v => pure v
    | _, _ => fail .notAnException
  throw ((← get).raised exception)

end HeapM

end RegisterVm
