import RegisterVm.Bytecode.Document
import RegisterVm.Bytecode.Listing
import RegisterVm.CommandLine.Options
import RegisterVm.Report

/-!
# The command

A command selects a chunk, from a file or a demonstration, and lists or runs it. Its configuration
comes, in increasing priority, from the defaults, a file, the environment and the options.
-/

namespace RegisterVm.CommandLine

open Json

/-- What a command sees of the system. Reading a file gives its text or the reason against it. -/
structure Surroundings where
  read : String → Except String String
  environment : Config.Environment

/-- The documents that a command reads. -/
inductive DocumentKind where
  | bytecode | configuration
  deriving DecidableEq

def DocumentKind.name : DocumentKind → String
  | bytecode => "bytecode"
  | configuration => "configuration"

/-- Why a command comes to no run. -/
inductive CommandError where
  | nothingToRun
  | unreadable (path reason : String)
  | badDocument (kind : DocumentKind) (path : String) (error : ReadError)
  deriving DecidableEq

def CommandError.message : CommandError → String
  | nothingToRun => "nothing to run: pass --file <FILE> or --demo <NAME>"
  | unreadable path reason => "could not read '" ++ path ++ "': " ++ reason
  | badDocument kind path error =>
    "invalid " ++ kind.name ++ " '" ++ path ++ "': " ++ error.category

/-- What a command gives. -/
inductive Answer where
  | listing (text : String)
  /-- The configuration, the machine after the run, and the report. -/
  | run (config : Config) (machine : Machine) (result : Outcome Report)

namespace Options

/-- The document in a file. -/
def readDocument {α : Type} (kind : DocumentKind) (ofJson : String → Except ReadError α)
    (path : String) (s : Surroundings) : Except CommandError α :=
  match s.read path with
  | .error reason => .error (.unreadable path reason)
  | .ok text => (ofJson text).mapError (.badDocument kind path)

/-- The chunk to list or run. -/
def chunk (o : Options) (s : Surroundings) : Except CommandError Chunk :=
  match o.file, o.demo with
  | some path, _ => readDocument .bytecode Chunk.ofJson path s
  | none, some demo => .ok demo.chunk
  | none, none => .error .nothingToRun

/-- The configuration with the options applied. -/
def override (o : Options) (c : Config) : Config :=
  let c := { c with compileLoops := c.compileLoops && !o.noCompile }
  let c := match o.threshold with
    | some n => c.withThreshold n
    | none => c
  { c with
    maxDepth := o.maxDepth.getD c.maxDepth
    traceLoops := c.traceLoops || o.trace
    captureOutput := c.captureOutput || o.format = .json }

/-- The configuration of a run. -/
def configuration (o : Options) (s : Surroundings) : Except CommandError Config := do
  let c ← match o.config with
    | some path => readDocument .configuration Config.ofJson path s
    | none => pure .standard
  return o.override (c.withEnvironment s.environment)

/-- Carries the command out with an amount of fuel. -/
def answer (fuel : Nat) (o : Options) (s : Surroundings) : Except CommandError (Option Answer) := do
  let chunk ← o.chunk s
  if o.listing then return some (.listing chunk.listing)
  let config ← o.configuration s
  return ((Machine.start config).report fuel chunk).map fun (m, result) => .run config m result

end Options

end RegisterVm.CommandLine
