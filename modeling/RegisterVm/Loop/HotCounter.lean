/-!
# Counters of loop iterations

A loop is counted at every backward branch. Once the count has reached a threshold the loop may be
compiled, by one claimant only, after which it is either installed or given up.
-/

namespace RegisterVm

inductive LoopState where
  | counting
  | compiling
  | installed
  | notPromotable
  deriving DecidableEq

def LoopState.name : LoopState → String
  | counting => "Counting"
  | compiling => "Compiling"
  | installed => "Installed"
  | notPromotable => "NotPromotable"

structure HotCounter where
  count : Nat
  state : LoopState
  deriving DecidableEq

namespace HotCounter

def start : HotCounter := ⟨0, .counting⟩

/-- Counts a backward branch, and says whether the loop may now be compiled. -/
def record (threshold : Nat) (c : HotCounter) : Bool × HotCounter :=
  (threshold ≤ c.count + 1 && c.state = .counting, { c with count := c.count + 1 })

/-- Claims the right to compile the loop. -/
def claim? (c : HotCounter) : Option HotCounter :=
  if c.state = .counting then some { c with state := .compiling } else none

def install (c : HotCounter) : HotCounter := { c with state := .installed }

def reject (c : HotCounter) : HotCounter := { c with state := .notPromotable }

end HotCounter

end RegisterVm
