import RegisterVm.Json.Document
import RegisterVm.Loop.Compiled
import RegisterVm.Loop.HotCounter

/-!
# Records and events of loops

A loop has a record from its first backward branch on. Every attempt to compile a loop leaves one
event.
-/

namespace RegisterVm

structure LoopRecord where
  range : LoopRange
  counter : HotCounter
  compiled : Option CompiledLoop

namespace LoopRecord

def start (range : LoopRange) : LoopRecord := ⟨range, .start, none⟩

/-- Publishes compiled code; code that is there already is kept. -/
def install (code : CompiledLoop) (r : LoopRecord) : LoopRecord :=
  { r with counter := r.counter.install, compiled := r.compiled.or (some code) }

def reject (r : LoopRecord) : LoopRecord := { r with counter := r.counter.reject }

end LoopRecord

inductive LoopEvent where
  | compiled (function : String) (header backEdge registers : Nat)
  | rejected (function : String) (header : Nat) (reason : String)
  deriving DecidableEq

namespace LoopEvent

def text : LoopEvent → String
  | compiled function header _ _ => s!"JIT: Compiled loop {function} at PC {header}"
  | rejected function header reason => s!"JIT: Rejected loop {function} at PC {header}: {reason}"

open Json in
def document : LoopEvent → Document
  | compiled function header backEdge registers =>
    .record
      [("event", .text "compiled"), ("function", .text function), ("header", .int header),
        ("back_edge", .int backEdge), ("registers", .int registers)]
  | rejected function header reason =>
    .record
      [("event", .text "rejected"), ("function", .text function), ("header", .int header),
        ("reason", .text reason)]

end LoopEvent

end RegisterVm
