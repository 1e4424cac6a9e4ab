/-
Starting the daemon. The variable for the log is read first, then the options are, the registry is
made, a listener is bound, and at last one line on standard output says that clients may come. Each
stage but the first can fail, and a stage that fails is the last one. All that can be seen of a start
is its list of effects and its exit code.
-/
import Polyglot.Launch.Help
import Polyglot.Launch.LogVariable
import Polyglot.Registry

namespace Polyglot.Launch

/-- The state of standard output. -/
inductive Output where
  /-- It takes all that is written, whether or not somebody reads it. -/
  | takesAll
  /-- It takes a number of bytes, and behind them writing fails for a reason. -/
  | fails (room : Nat) (reason : String)
  deriving DecidableEq, Repr

/-- What an output takes of bytes. -/
def Output.take (output : Output) (bytes : List UInt8) : List UInt8 :=
  match output with
  | .takesAll => bytes
  | .fails room _ => bytes.take room

/-- Why bytes cannot be written as a whole. -/
def Output.fault? (output : Output) (bytes : List UInt8) : Option String :=
  match output with
  | .takesAll => none
  | .fails room reason => if bytes.length ≤ room then none else some reason

/-- The machine that the daemon is started on. -/
structure Machine where
  grammars : Grammars
  environment : String → Option String
  /-- Reads the value of the variable for the log. -/
  readLogVariable : String → LogReading
  /-- Binds a listener to a host and a port: the address it listens on, or what went wrong. -/
  bind : (host : String) → (port : Nat) → Except String String
  output : Output

/-- Something that a start does. -/
inductive Effect where
  /-- Remarks on standard error that a part of the variable for the log is left out. -/
  | remark (text : String)
  /-- Writes to standard output, as far as that goes. -/
  | print (text : String)
  | log (line : Log.Line)
  /-- Tells on standard error what is wrong with the command line. -/
  | complain (fault : UsageFault)
  /-- Tells on standard error why the start failed. -/
  | report (message : String)
  /-- Tries to bind a listener. -/
  | bind (host : String) (port : Nat)
  deriving DecidableEq, Repr

/-- How a start ends. -/
inductive Ending where
  | usageFault (fault : UsageFault)
  | help
  /-- The registry could not be made. -/
  | noRegistry (failure : Failure)
  /-- The listener could not be bound. -/
  | notBound (reason : String)
  /-- The readiness line could not be written. -/
  | notAnnounced (reason : String)
  /-- Clients may come. -/
  | ready (options : Options)
  deriving DecidableEq, Repr

/-- The exit code of a start; none if the daemon is running. -/
def Ending.exitCode : Ending → Option Nat
  | .usageFault _ => some 2
  | .help => some 0
  | .noRegistry _ => some 1
  | .notBound _ => some 1
  | .notAnnounced _ => some 1
  | .ready _ => none

/-- The line that says that the daemon is ready. -/
def readinessLine : String := "OK\n"

/-- The log line about the backends. -/
def backendsLine (registry : Registry) : Log.Line :=
  ⟨.info, Log.daemonTarget, "Backends: " ++ ", ".intercalate registry.selectors ++ " (default: " ++
    registry.default.name ++ ")"⟩

/-- The log line about the listener. -/
def listeningLine (address : String) : Log.Line :=
  ⟨.info, Log.daemonTarget, "Langdetect daemon listening on ws://" ++ address⟩

/-- The registry that the options ask for, and what there is to log about its making. -/
def Options.registry (grammars : Grammars) (options : Options) :
    Except Failure Registry × List Event :=
  Registry.standard grammars ⟨options.maxPredictions, options.maxContentBytes⟩
    options.defaultBackend

namespace Machine

/-- What the variable for the log says. -/
def logReading (machine : Machine) : LogReading :=
  machine.readLogVariable ((machine.environment logVariable).getD "")

/-- The directives that log lines are shown by. -/
def directives (machine : Machine) : List Log.Directive := machine.logReading.directives ++ Log.own

/-- Logs lines: those that are shown are written. -/
def log (machine : Machine) (lines : List Log.Line) : List Effect :=
  (lines.filter (Log.shows machine.directives)).map .log

/-- Remarks on the variable for the log. -/
def remarks (machine : Machine) : List Effect := machine.logReading.remarks.map .remark

end Machine

/-- Binds the listener and announces it. -/
def listen (machine : Machine) (options : Options) : List Effect × Ending :=
  let tried := Effect.bind options.host options.port
  match machine.bind options.host options.port with
  | .error reason => ([tried, .report reason], .notBound reason)
  | .ok address =>
    let effects := tried :: machine.log [listeningLine address] ++ [.print readinessLine]
    match machine.output.fault? (Text.Utf8.encode readinessLine.toList) with
    | some reason => (effects ++ [.report reason], .notAnnounced reason)
    | none => (effects, .ready options)

/-- Starts with the given options. -/
def startWith (machine : Machine) (options : Options) : List Effect × Ending :=
  let (made, events) := options.registry machine.grammars
  let logged := machine.log (events.map Event.line)
  match made with
  | .error failure => (logged ++ [.report failure.message], .noRegistry failure)
  | .ok registry =>
    let (effects, ending) := listen machine options
    (logged ++ machine.log [backendsLine registry] ++ effects, ending)

/-- Goes on when it is known which log lines are shown. Whether the help can be written makes no
difference. -/
def startLogging (machine : Machine) (arguments : List String) : List Effect × Ending :=
  match configure arguments machine.environment with
  | .error fault => ([.complain fault], .usageFault fault)
  | .ok .help => ([.print (helpText machine.environment)], .help)
  | .ok (.options options) => startWith machine options

/-- Starts the daemon. -/
def start (machine : Machine) (arguments : List String) : List Effect × Ending :=
  let (effects, ending) := startLogging machine arguments
  (machine.remarks ++ effects, ending)

/-- What an effect writes to standard output. -/
def Effect.outputText? : Effect → Option String
  | .print text => some text
  | _ => none

/-- The bytes that standard output has taken. -/
def output (machine : Machine) (effects : List Effect) : List UInt8 :=
  machine.output.take
    ((effects.filterMap Effect.outputText?).flatMap fun text => Text.Utf8.encode text.toList)

/-- What an effect writes to standard error. -/
def Effect.errorText? : Effect → Option String
  | .remark text => some text
  | .log line => some line.text
  | .complain fault => some fault.message
  | .report message => some ("Error: " ++ message)
  | _ => none

/-- What a start writes to standard error, each text on lines of its own. -/
def errorTexts (effects : List Effect) : List String := effects.filterMap Effect.errorText?

end Polyglot.Launch
