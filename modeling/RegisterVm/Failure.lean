import RegisterVm.Fault
import RegisterVm.Value

/-!
# Failures

A failure is a fault on its way out: the calls it has passed through, innermost first, and the
exception object that a program raised.
-/

namespace RegisterVm

/-- A call that a failure has passed through. -/
structure TraceEntry where
  function : String
  pc : Nat
  line : Option Nat
  deriving DecidableEq

def TraceEntry.text (e : TraceEntry) : String :=
  match e.line with
  | some line => s!"in {e.function} at pc {e.pc} (line {line})"
  | none => s!"in {e.function} at pc {e.pc}"

structure Failure where
  fault : Fault
  trace : List TraceEntry
  exception : Option Value
  deriving DecidableEq

namespace Failure

def ofFault (fault : Fault) : Failure := ⟨fault, [], none⟩

def kind (f : Failure) : ErrorKind := f.fault.kind

def message (f : Failure) : String := f.fault.message

/-- The failure after it has left one more call. -/
def leave (entry : TraceEntry) (f : Failure) : Failure := { f with trace := f.trace ++ [entry] }

def text (f : Failure) : String := s!"{f.kind.name}: {f.message}"

/-- The calls, outermost first, and the error. -/
def traceback (f : Failure) : String :=
  let lines := f.trace.reverse.map fun e => "  " ++ e.text ++ "\n"
  "Traceback (most recent call last):\n" ++ String.join lines ++
    s!"{f.kind.className}: {f.message}"

end Failure

/-- What an operation on the heap gives. -/
abbrev Outcome (α : Type) := Except Failure α

/-- Stops with a fault. -/
def refuse {α : Type} (fault : Fault) : Outcome α := .error (.ofFault fault)

end RegisterVm
