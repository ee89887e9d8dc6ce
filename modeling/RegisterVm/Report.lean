import RegisterVm.Machine.Call

/-!
# Reports of runs

`Machine.report` loads a chunk, runs it without arguments and tells what came of it. Machines can
run one chunk after another; a report shows the loop events of its own run. What a run prints is
kept until a run succeeds and its report takes it.
-/

namespace RegisterVm

open Json

structure Report where
  function : String
  /-- The returned value, as it is shown in listings of values. -/
  result : String
  output : String
  events : List LoopEvent
  deriving DecidableEq

namespace Report

def returnedNone (r : Report) : Bool := r.result = "None"

def document (r : Report) : Document :=
  .record
    [("function", .text r.function), ("result", .text r.result), ("output", .text r.output),
      ("jit_events", .list (r.events.map LoopEvent.document))]

end Report

/-- Runs a chunk with an amount of fuel. -/
def Machine.report (fuel : Nat) (c : Chunk) (m : Machine) : Option (Machine × Outcome Report) :=
  let before := m.events.size
  match m.load c with
  | .error e => some (m, .error e)
  | .ok (id, m) =>
    (m.execute fuel id []).map fun (m, result) =>
      match result.bind m.heap.shown with
      | .error e => (m, .error e)
      | .ok shown =>
        let (output, m) := m.takeOutput
        (m, .ok ⟨c.name, shown, output, m.events.toList.drop before⟩)

end RegisterVm
