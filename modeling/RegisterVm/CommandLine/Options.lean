import RegisterVm.Demo
import RegisterVm.Number.Reading

/-!
# Options of the command line

`Options.ofArguments` reads the words of a command line. A long option takes its value from the
same word after an equals sign or from the next word; short options can share a word, and the rest
of the word is the value of the first that takes one. A value that stands in its own word is
examined when the next option begins, so an unknown option after it is reported first.
-/

namespace RegisterVm.CommandLine

inductive Format where
  | text | json
  deriving DecidableEq

structure Options where
  file : Option String
  demo : Option Demo
  /-- Print the listing instead of running. -/
  listing : Bool
  noCompile : Bool
  threshold : Option UInt32
  maxDepth : Option Nat
  trace : Bool
  config : Option String
  format : Format
  verbose : Bool
  deriving DecidableEq

def Options.standard : Options :=
  ⟨none, none, false, false, none, none, false, none, .text, false⟩

/-- What ends the reading of a command line. -/
inductive Usage where
  | unknownArgument
  /-- A value is missing or none of the possible ones. -/
  | invalidValue
  /-- A value cannot be read. -/
  | unreadableValue
  | conflict
  /-- A value is given to an option that takes none. -/
  | unexpectedValue
  | helpWanted
  | versionWanted
  deriving DecidableEq

/-- The options that take a value. -/
inductive ValueOption where
  | file | demo | threshold | maxDepth | config | format
  deriving DecidableEq

/-- The options that take no value. -/
inductive Switch where
  | listing | noCompile | trace | verbose | help | version
  deriving DecidableEq

inductive OptionName where
  | value (o : ValueOption)
  | switch (s : Switch)
  deriving DecidableEq

namespace OptionName

def ofLong? : String → Option OptionName
  | "file" => some (.value .file)
  | "demo" => some (.value .demo)
  | "disasm" => some (.switch .listing)
  | "no-jit" => some (.switch .noCompile)
  | "jit-threshold" => some (.value .threshold)
  | "max-call-depth" => some (.value .maxDepth)
  | "trace-jit" => some (.switch .trace)
  | "config" => some (.value .config)
  | "report" => some (.value .format)
  | "verbose" => some (.switch .verbose)
  | "help" => some (.switch .help)
  | "version" => some (.switch .version)
  | _ => none

def ofShort? : Char → Option OptionName
  | 'f' => some (.value .file)
  | 'd' => some (.value .demo)
  | 'v' => some (.switch .verbose)
  | 'h' => some (.switch .help)
  | 'V' => some (.switch .version)
  | _ => none

end OptionName

/-- What has been read: the settings, the options given so far, and the last option when its value
is yet to come or to be examined. -/
structure Scan where
  options : Options
  given : List OptionName
  pending : Option (ValueOption × Option String)

namespace Scan

def start : Scan := ⟨.standard, [], none⟩

/-- Notes that an option is given, which it can be once. -/
def give (name : OptionName) (s : Scan) : Except Usage Scan :=
  if s.given.contains name then .error .conflict else .ok { s with given := name :: s.given }

/-- The value that a reader gives, or the usage error of one it refuses. -/
def require {α : Type} (e : Usage) : Option α → Except Usage α
  | some a => .ok a
  | none => .error e

/-- A path, which is never empty. -/
def path (text : String) : Except Usage String :=
  if text.isEmpty then .error .invalidValue else .ok text

def formatOfName? : String → Option Format
  | "text" => some .text
  | "json" => some .json
  | _ => none

/-- The options with the value of one of them read from a text. -/
def setValue (o : ValueOption) (text : String) (options : Options) : Except Usage Options :=
  match o with
  | .file => (path text).map fun p => { options with file := some p }
  | .config => (path text).map fun p => { options with config := some p }
  | .demo =>
    (require .invalidValue (Demo.ofName? text)).map fun d => { options with demo := some d }
  | .format =>
    (require .invalidValue (formatOfName? text)).map fun format => { options with format }
  | .threshold =>
    (require .unreadableValue (Reading.signedUInt32? text.toList)).map fun n =>
      { options with threshold := some n }
  | .maxDepth =>
    (require .unreadableValue (Reading.below? 0x10000000000000000 text.toList)).map fun n =>
      { options with maxDepth := some n }

/-- Gives an option its value. -/
def assign (o : ValueOption) (text : String) (s : Scan) : Except Usage Scan := do
  let s ← s.give (.value o)
  return { s with options := ← setValue o text s.options }

/-- Examines the pending value. -/
def settle (s : Scan) : Except Usage Scan :=
  match s.pending with
  | none => .ok s
  | some (_, none) => .error .invalidValue
  | some (o, some text) => assign o text { s with pending := none }

/-- Turns a switch on. -/
def turnOn (sw : Switch) (s : Scan) : Except Usage Scan := do
  let s ← s.settle
  match sw with
  | .help => .error .helpWanted
  | .version => .error .versionWanted
  | .listing => return { ← s.give (.switch sw) with options.listing := true }
  | .noCompile => return { ← s.give (.switch sw) with options.noCompile := true }
  | .trace => return { ← s.give (.switch sw) with options.trace := true }
  | .verbose => return { ← s.give (.switch sw) with options.verbose := true }

/-- An option with a value in the same word, or one whose value is to come. -/
def begin (o : ValueOption) (attached : Option String) (s : Scan) : Except Usage Scan := do
  let s ← s.settle
  match attached with
  | some text => s.assign o text
  | none => return { s with pending := some (o, none) }

/-- A word of long form, without its hyphens. -/
def long (cs : List Char) (s : Scan) : Except Usage Scan :=
  let name := String.ofList (cs.takeWhile (· ≠ '='))
  let attached := match cs.dropWhile (· ≠ '=') with
    | [] => none
    | _ :: value => some (String.ofList value)
  match OptionName.ofLong? name, attached with
  | none, _ => .error .unknownArgument
  | some (.value o), attached => s.begin o attached
  | some (.switch _), some _ => .error .unexpectedValue
  | some (.switch sw), none => s.turnOn sw

/-- A word of short options, without its hyphen. -/
def short (s : Scan) : List Char → Except Usage Scan
  | [] => .ok s
  | c :: cs =>
    match OptionName.ofShort? c, cs with
    | none, _ => .error .unknownArgument
    | some (.value o), [] => s.begin o none
    | some (.value o), '=' :: value => s.begin o (some (String.ofList value))
    | some (.value o), value => s.begin o (some (String.ofList value))
    | some (.switch sw), cs => do (← s.turnOn sw).short cs

/-- A word that is no option: the value that the last option waits for. -/
def plain (word : String) (s : Scan) : Except Usage Scan :=
  match s.pending with
  | some (o, none) => .ok { s with pending := some (o, some word) }
  | _ => .error .unknownArgument

/-- The words of a command line. After a word of two hyphens there can be no more. -/
def words (s : Scan) : List String → Except Usage Scan
  | [] => .ok s
  | word :: rest =>
    match word.toList, rest with
    | ['-', '-'], [] => .ok s
    | ['-', '-'], _ :: _ => .error .unknownArgument
    | '-' :: '-' :: cs, rest => do (← s.long cs).words rest
    | ['-'], rest => do (← s.plain word).words rest
    | '-' :: cs, rest => do (← s.short cs).words rest
    | _, rest => do (← s.plain word).words rest

end Scan

/-- The options of a command line; a file and a demonstration exclude each other. -/
def Options.ofArguments (args : List String) : Except Usage Options := do
  let s ← Scan.start.words args
  let s ← s.settle
  if s.options.file.isSome && s.options.demo.isSome then .error .conflict else return s.options

end RegisterVm.CommandLine
