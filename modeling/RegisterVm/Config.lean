import RegisterVm.Json.Decoder
import RegisterVm.Number.Reading
import RegisterVm.Text.Blank

/-!
# Configuration

The settings of a machine. They come, in increasing priority, from the defaults, a JSON document,
the environment and explicit settings. Settings that cannot be read from the environment are left
as they are.
-/

namespace RegisterVm

open Json

structure Config where
  /-- Whether hot loops are compiled. -/
  compileLoops : Bool
  /-- The number of backward branches that make a loop hot. -/
  threshold : UInt32
  /-- The largest number of active calls. -/
  maxDepth : Nat
  traceLoops : Bool
  captureOutput : Bool
  deriving DecidableEq

namespace Config

def standard : Config := ⟨true, 10000, 1000, false, false⟩

instance : Inhabited Config := ⟨standard⟩

/-- Sets the threshold, which is at least 1. -/
def withThreshold (threshold : UInt32) (c : Config) : Config :=
  { c with threshold := max threshold 1 }

/-! ## JSON -/

def fields : List (RecordField Config) :=
  [.withDefault "jit_enabled" .bool fun c compileLoops => { c with compileLoops },
    .withDefault "hot_loop_threshold" .uint32 fun c threshold => { c with threshold },
    .withDefault "max_call_depth" .natural fun c maxDepth => { c with maxDepth },
    .withDefault "trace_jit" .bool fun c traceLoops => { c with traceLoops },
    .withDefault "capture_output" .bool fun c captureOutput => { c with captureOutput }]

def decoder : Decoder Config := Decoder.record fields standard

def ofJson (text : String) : Except ReadError Config := decoder.run text

def document (c : Config) : Document :=
  .record
    [("jit_enabled", .bool c.compileLoops), ("hot_loop_threshold", .int c.threshold.toNat),
      ("max_call_depth", .int c.maxDepth), ("trace_jit", .bool c.traceLoops),
      ("capture_output", .bool c.captureOutput)]

/-! ## Environment -/

/-- A truth value in one of its usual spellings. -/
def flag? (text : String) : Option Bool :=
  let word := String.ofList ((Text.trim text.toList).map Char.toLower)
  if ["1", "true", "on", "yes"].contains word then some true
  else if ["0", "false", "off", "no"].contains word then some false
  else none

/-- The variables of an environment with their values. -/
abbrev Environment := List (String × String)

/-- The settings that an environment changes. -/
def withEnvironment (env : Environment) (c : Config) : Config :=
  let compileLoops := ((env.lookup "BASALT_JIT").bind flag?).getD c.compileLoops
  let traceLoops := ((env.lookup "BASALT_TRACE_JIT").bind flag?).getD c.traceLoops
  let threshold := (env.lookup "BASALT_JIT_THRESHOLD").bind fun t =>
    Reading.below? 0x100000000 (Text.trim t.toList)
  let c := { c with compileLoops, traceLoops }
  match threshold with
  | some n => c.withThreshold (UInt32.ofNat n)
  | none => c

end Config

end RegisterVm
