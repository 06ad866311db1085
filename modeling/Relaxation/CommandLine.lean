import Relaxation.Benchmark
import Relaxation.Description.Decode
import Relaxation.Fault.Message
import Relaxation.Report
import Relaxation.Samples
import Relaxation.Scenario

/-!
# The command line

The program runs one scenario and prints a report. Arguments are read from left to right, and the
first that is wrong, or asks for help, decides. `run` is given what it needs of its surroundings,
so it is free of both files and clocks.
-/

namespace Relaxation.CommandLine

/-- What to run: a scenario file, and for how many milliseconds in the background, if at all. -/
structure Invocation where
  file : String
  background : Option Nat
  deriving Repr, DecidableEq

inductive UsageFault where
  | unexpected (argument : String)
  | missingValue (option : String)
  | repeated (option : String)
  | notANumber (text : String)
  deriving Repr, DecidableEq

def UsageFault.message : UsageFault → String
  | unexpected argument => "unexpected argument '" ++ argument ++ "' found"
  | missingValue option => "a value is required for '" ++ option ++ "' but none was supplied"
  | repeated option => "the argument '" ++ option ++ "' cannot be used multiple times"
  | notANumber text =>
    "invalid value '" ++ text ++ "' for '--background-ms <BACKGROUND_MS>': invalid digit"

inductive Failure where
  | usage (fault : UsageFault)
  | unreadable (file : String)
  | malformed (file : String)
  | refused (fault : Fault Binary64)
  deriving Repr

namespace Failure

/-- A wrong call is told apart from a scenario that cannot be run. -/
def exitCode : Failure → Nat
  | usage _ => 2
  | unreadable _ | malformed _ | refused _ => 1

def message : Failure → String
  | usage fault => fault.message
  | unreadable file => "opening " ++ file
  | malformed file => "parsing " ++ file
  | refused fault => "building scenario: " ++ fault.message

end Failure

/-! ## Arguments -/

/-- The options read so far. -/
structure Options where
  file : Option String
  background : Option Nat
  benchmark : Bool

def Options.initial : Options := ⟨none, none, false⟩

def fileOption : String := "-f <FILE_NAME>"

def backgroundOption : String := "--background-ms <BACKGROUND_MS>"

def Options.setFile (file : String) (o : Options) : Except UsageFault Options :=
  if o.file.isSome then .error (.repeated fileOption) else .ok { o with file := some file }

/-- A natural number of 64 bits, with an optional plus sign in front. -/
def milliseconds? (text : String) : Option Nat :=
  let digits :=
    match text.toList with
    | '+' :: cs => cs
    | cs => cs
  if digits.isEmpty then none else (Decimal.digits? digits).filter (· < Yaml.wordSize)

def Options.setBackground (text : String) (o : Options) : Except UsageFault Options :=
  match milliseconds? text with
  | none => .error (.notANumber text)
  | some n =>
    if o.background.isSome then .error (.repeated backgroundOption)
    else .ok { o with background := some n }

def Options.setBenchmark (o : Options) : Except UsageFault Options :=
  if o.benchmark then .error (.repeated "--bench") else .ok { o with benchmark := true }

/-- Whether an argument is an option by its form, rather than a value. -/
def isOption (argument : String) : Bool := argument.startsWith "-" && argument != "-"

inductive Command where
  | help
  | benchmark
  | run (i : Invocation)
  deriving Repr, DecidableEq

/-- The scenario that is run when none is named. -/
def defaultFile : String := "hanging_chain.yaml"

/-- The text after a leading part, if the text starts with it. -/
def after? (start text : String) : Option String :=
  if text.startsWith start then some (String.ofList (text.toList.drop start.length)) else none

/-- Reads the arguments; help is `none`. -/
def readOptions (o : Options) : List String → Except UsageFault (Option Options)
  | [] => .ok (some o)
  | "--help" :: _ => .ok none
  | "--bench" :: rest => do readOptions (← o.setBenchmark) rest
  | ["--"] => .ok (some o)
  | "--" :: argument :: _ => .error (.unexpected argument)
  | ["-f"] => .error (.missingValue fileOption)
  | ["--background-ms"] => .error (.missingValue backgroundOption)
  | "-f" :: value :: rest =>
    if isOption value then .error (.missingValue fileOption)
    else do readOptions (← o.setFile value) rest
  | "--background-ms" :: value :: rest =>
    if isOption value then .error (.missingValue backgroundOption)
    else do readOptions (← o.setBackground value) rest
  | argument :: rest =>
    match after? "--background-ms=" argument with
    | some value => do readOptions (← o.setBackground value) rest
    | none =>
      match after? "-f" argument with
      | some value => do readOptions (← o.setFile ((after? "=" value).getD value)) rest
      | none =>
        if argument.startsWith "-h" then .ok none else .error (.unexpected argument)

def parse (arguments : List String) : Except UsageFault Command := do
  match ← readOptions .initial arguments with
  | none => return .help
  | some o =>
    return if o.benchmark then .benchmark else .run ⟨o.file.getD defaultFile, o.background⟩

/-- The line of an option in the help. What it does stands two columns to the right of the longest
option. -/
def optionLine (option text : String) : String :=
  let width := 6 + backgroundOption.length + 2
  option ++ String.ofList (List.replicate (width - option.length) ' ') ++ text

/-- The help for a program of a given name. -/
def help (program : String) : List String :=
  [ "Run a goal-based constraint solver scenario",
    "",
    "Usage: " ++ program ++ " [OPTIONS]",
    "",
    "Options:",
    optionLine ("  " ++ fileOption) ("Scenario file; looked up in `" ++ Samples.folder ++
      "/` when not found as given [default: " ++ defaultFile ++ "]"),
    optionLine ("      " ++ backgroundOption)
      "Run on the background loop for this many milliseconds instead of `execute`",
    optionLine "      --bench" "Run the built-in benchmarks and exit",
    optionLine "  -h, --help" "Print help" ]

/-! ## Running -/

/-- The scenario that the text of a file describes. -/
def load (file text : String) : Except Failure (Scenario Binary64) :=
  match (Yaml.Document.read? text).bind ScenarioDescription.ofDocument? with
  | none => .error (.malformed file)
  | some d => (Scenario.build d).mapError .refused

/-- The report of a run to the end. -/
def foreground (s : Scenario Binary64) : List String :=
  let (s, report) := s.run
  Report.summary report :: Report.solverLines s.solver

/-- What the program needs of its surroundings. -/
structure Surroundings (m : Type → Type) where
  /-- The name that the program was called by. -/
  program : String
  /-- The text of a file, if it can be read. -/
  readFile : String → m (Option String)
  /-- Lets a solver run for a number of milliseconds. -/
  background : Nat → Solver Binary64 → m (Solver Binary64)
  /-- Does some work and tells how many seconds it took. -/
  timed : {β : Type} → (Unit → β) → m (β × Float)

section

variable {m : Type → Type} [Monad m] (around : Surroundings m)

/-- Runs a scenario and gives the lines to print. A file that cannot be read is looked up among
the samples. -/
def runScenario (i : Invocation) : ExceptT Failure m (List String) := do
  let some text := (← around.readFile i.file).or (Samples.find? i.file)
    | throw (.unreadable i.file)
  let s ← ExceptT.mk (pure (load i.file text))
  match i.background with
  | none => return foreground s
  | some milliseconds => return Report.solverLines (← around.background milliseconds s.solver)

/-- Runs the program on its arguments and gives the lines to print. -/
def run (arguments : List String) : ExceptT Failure m (List String) := do
  match ← ExceptT.mk (pure ((parse arguments).mapError Failure.usage)) with
  | .help => return help around.program
  | .benchmark => (Benchmark.run around.timed).adapt Failure.refused
  | .run i => runScenario around i

end

end Relaxation.CommandLine
