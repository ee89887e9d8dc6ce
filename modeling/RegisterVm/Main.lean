import RegisterVm.CommandLine
import RegisterVm.Json.Printer

/-!
# The program

Reads the files that the options name, carries the command out and prints what came of it.
-/

namespace RegisterVm.CommandLine

/-- The most steps that a run takes. -/
def fuel : Nat := 4000000000000000000

def help : String :=
  "Run register bytecode with hot-loop compilation\n\nOptions:\n" ++
    "  -f, --file <FILE>             Bytecode file (JSON) to run\n" ++
    "  -d, --demo <NAME>             Run a built-in demo program:\n" ++
    "                                sum, triple, power, fib, strings, guarded\n" ++
    "      --disasm                  Print the disassembly instead of running\n" ++
    "      --no-jit                  Keep every loop interpreted\n" ++
    "      --jit-threshold <COUNT>   Backward branches before a loop is compiled\n" ++
    "      --max-call-depth <DEPTH>  Maximum number of active frames\n" ++
    "      --trace-jit               Echo loop events to the error stream\n" ++
    "      --config <FILE>           Configuration file (JSON)\n" ++
    "      --report <FORMAT>         Format of the run report: text, json\n" ++
    "  -v, --verbose                 Enable debug logging\n" ++
    "  -h, --help                    Print help\n" ++
    "  -V, --version                 Print version\n"

def version : String := "0.1.0"

def Usage.message : Usage → String
  | unknownArgument => "unexpected argument"
  | invalidValue => "missing or invalid value"
  | unreadableValue => "value cannot be read"
  | conflict => "arguments exclude each other"
  | unexpectedValue => "unexpected value"
  | helpWanted => help
  | versionWanted => version

/-- The text of a file, or the reason why there is none. -/
def readText (path : String) : IO (Except String String) := do
  try
    return .ok (← IO.FS.readFile path)
  catch e =>
    match e with
    | .noFileOrDirectory _ _ _ => return .error "No such file or directory (os error 2)"
    | e => return .error (toString e)

/-- The files that the options name and the variables that matter. -/
def surroundings (o : Options) : IO Surroundings := do
  let files ← (o.file.toList ++ o.config.toList).mapM fun path => do
    return (path, ← readText path)
  let names := ["BASALT_JIT", "BASALT_JIT_THRESHOLD", "BASALT_TRACE_JIT"]
  let environment ← names.filterMapM fun name => do
    return (← IO.getEnv name).map fun value => (name, value)
  return ⟨fun path => (files.lookup path).getD (.error "not a file"), environment⟩

/-- Prints what a run gave; the result is the exit code. -/
def printRun (o : Options) (config : Config) (m : Machine) (result : Outcome Report) :
    IO UInt32 := do
  if config.traceLoops then
    for event in m.events do
      IO.eprintln event.text
  match result with
  | .error e =>
    unless config.captureOutput do IO.print m.output
    IO.eprintln e.traceback
    return 1
  | .ok report =>
    match o.format with
    | .json => IO.println report.document.pretty
    | .text =>
      unless config.captureOutput do IO.print report.output
      unless report.returnedNone do IO.println report.result
    return 0

def start (args : List String) : IO UInt32 := do
  match Options.ofArguments args with
  | .error .helpWanted =>
    IO.print help
    return 0
  | .error .versionWanted =>
    IO.println version
    return 0
  | .error usage =>
    IO.eprintln ("error: " ++ usage.message)
    return 2
  | .ok options =>
    match options.answer fuel (← surroundings options) with
    | .error e =>
      IO.eprintln ("Error: " ++ e.message)
      return 2
    | .ok none =>
      IO.eprintln "Error: the run does not end"
      return 2
    | .ok (some (.listing text)) =>
      IO.print text
      return 0
    | .ok (some (.run config m result)) => printRun options config m result

end RegisterVm.CommandLine

def main (args : List String) : IO UInt32 := RegisterVm.CommandLine.start args
