/-
The options of the daemon. Each has a value from the command line, or else from its variable in the
environment, or else a default. Arguments are read from left to right; a value is looked at when the
next option or the end shows that it is complete.
-/
import Polyglot.Launch.Whole
import Polyglot.Text.Plain

namespace Polyglot.Launch

/-- The values of all options. -/
structure Options where
  host : String
  port : Nat
  defaultBackend : String
  maxPredictions : Nat
  maxContentBytes : Nat
  deriving DecidableEq, Repr

/-- The values of options that are not given. -/
def Options.standard : Options := ⟨"localhost", 15151, "vscode-languagedetection", 10, 100000⟩

/-- An option that takes a value. -/
inductive Setting where
  | host | port | defaultBackend | maxPredictions | maxContentBytes
  deriving DecidableEq, Repr

namespace Setting

/-- All settings, in the order in which the help lists them and variables are read. -/
def all : List Setting := [host, port, defaultBackend, maxPredictions, maxContentBytes]

/-- The long name. -/
def name : Setting → String
  | host => "host"
  | port => "port"
  | defaultBackend => "default-backend"
  | maxPredictions => "max-predictions"
  | maxContentBytes => "max-content-bytes"

/-- The setting of a long name. -/
def ofName? (name : String) : Option Setting := all.find? (·.name == name)

/-- The variable in the environment. -/
def environmentName : Setting → String
  | host => "HOST"
  | port => "PORT"
  | defaultBackend => "LANGDETECT_DEFAULT_BACKEND"
  | maxPredictions => "LANGDETECT_MAX_PREDICTIONS"
  | maxContentBytes => "LANGDETECT_MAX_CONTENT_BYTES"

/-- What the value is called. -/
def placeholder : Setting → String
  | host => "HOST"
  | port => "PORT"
  | defaultBackend => "DEFAULT_BACKEND"
  | maxPredictions => "MAX_PREDICTIONS"
  | maxContentBytes => "MAX_CONTENT_BYTES"

/-- The value if none is given, as the help shows it. -/
def defaultText : Setting → String
  | host => Options.standard.host
  | port => toString Options.standard.port
  | defaultBackend => Options.standard.defaultBackend
  | maxPredictions => toString Options.standard.maxPredictions
  | maxContentBytes => toString Options.standard.maxContentBytes

/-- What the setting is for. -/
def about : Setting → String
  | host => "Host to bind to"
  | port => "Port to listen on"
  | defaultBackend => "Backend used when a request names none or an unknown one"
  | maxPredictions => "Maximum number of predictions the model backend returns"
  | maxContentBytes => "Content beyond this many bytes is ignored by the model backend"

/-- The option with its value, as messages name it. -/
def usage (s : Setting) : String := "--" ++ s.name ++ " <" ++ s.placeholder ++ ">"

end Setting

/-- Why a value does not fit its option. -/
inductive ValueFault where
  | whole (fault : WholeFault)
  /-- A port beyond 65535, or a negative one. -/
  | outOfRange (value : Int)
  deriving DecidableEq, Repr

/-- The fault in words. -/
def ValueFault.message : ValueFault → String
  | .whole fault => fault.message
  | .outOfRange value => toString value ++ " is not in 0..=65535"

/-- What is wrong with the command line. -/
inductive UsageFault where
  | unexpectedArgument (argument : String)
  | valueRequired (setting : Setting)
  | usedTwice (setting : Setting)
  /-- The help option was given a value. -/
  | unexpectedValue (value : String)
  | invalidValue (value : String) (setting : Setting) (fault : ValueFault)
  deriving DecidableEq, Repr

/-- The fault in words. Arguments are shown plainly. -/
def UsageFault.message : UsageFault → String
  | .unexpectedArgument argument =>
    "error: unexpected argument '" ++ Text.plain argument ++ "' found"
  | .valueRequired setting =>
    "error: a value is required for '" ++ setting.usage ++ "' but none was supplied"
  | .usedTwice setting =>
    "error: the argument '" ++ setting.usage ++ "' cannot be used multiple times"
  | .unexpectedValue value =>
    "error: unexpected value '" ++ Text.plain value ++
      "' for '--help' found; no more were expected"
  | .invalidValue value setting fault =>
    "error: invalid value '" ++ Text.plain value ++ "' for '" ++ setting.usage ++ "': " ++
      fault.message

/-- The values that are known so far. -/
structure Draft where
  host : Option String
  port : Option Nat
  defaultBackend : Option String
  maxPredictions : Option Nat
  maxContentBytes : Option Nat
  deriving DecidableEq, Repr

namespace Draft

/-- No value is known. -/
def blank : Draft := ⟨none, none, none, none, none⟩

/-- Whether the value of a setting is known. -/
def has (d : Draft) : Setting → Bool
  | .host => d.host.isSome
  | .port => d.port.isSome
  | .defaultBackend => d.defaultBackend.isSome
  | .maxPredictions => d.maxPredictions.isSome
  | .maxContentBytes => d.maxContentBytes.isSome

/-- Reads a port: a number of 64 bits that lies in the range of ports. -/
def readPort (text : String) : Except ValueFault Nat :=
  match readInteger text.toList with
  | .error fault => .error (.whole fault)
  | .ok n => if 0 ≤ n ∧ n ≤ 65535 then .ok n.toNat else .error (.outOfRange n)

/-- Reads a count: a number of 64 bits without sign. -/
def readCount (text : String) : Except ValueFault Nat :=
  match readNatural 0xFFFFFFFFFFFFFFFF text.toList with
  | .error fault => .error (.whole fault)
  | .ok n => .ok n

/-- Takes up the value of a setting. -/
def put (d : Draft) (s : Setting) (text : String) : Except UsageFault Draft :=
  let result : Except ValueFault Draft := match s with
    | .host => .ok { d with host := some text }
    | .port => (readPort text).map fun n => { d with port := some n }
    | .defaultBackend => .ok { d with defaultBackend := some text }
    | .maxPredictions => (readCount text).map fun n => { d with maxPredictions := some n }
    | .maxContentBytes => (readCount text).map fun n => { d with maxContentBytes := some n }
  match result with
  | .ok d => .ok d
  | .error fault => .error (.invalidValue text s fault)

/-- Takes up the value of a setting that must not be known yet. -/
def give (d : Draft) (s : Setting) (text : String) : Except UsageFault Draft :=
  if d.has s then .error (.usedTwice s) else d.put s text

/-- Takes up the variables of the settings whose values are not known. -/
def fill (environment : String → Option String) : Draft → List Setting → Except UsageFault Draft
  | d, [] => .ok d
  | d, s :: rest =>
    if d.has s then fill environment d rest
    else match environment s.environmentName with
      | none => fill environment d rest
      | some text =>
        match d.put s text with
        | .error fault => .error fault
        | .ok d => fill environment d rest

/-- The options, with the defaults for what is not known. -/
def complete (d : Draft) : Options where
  host := d.host.getD Options.standard.host
  port := d.port.getD Options.standard.port
  defaultBackend := d.defaultBackend.getD Options.standard.defaultBackend
  maxPredictions := d.maxPredictions.getD Options.standard.maxPredictions
  maxContentBytes := d.maxContentBytes.getD Options.standard.maxContentBytes

end Draft

/-! ## Reading arguments -/

/-- An option whose value is not looked at yet, or not even there. -/
abbrev Pending := Option (Setting × Option String)

/-- Takes up the option that is pending. -/
def settle (d : Draft) : Pending → Except UsageFault Draft
  | none => .ok d
  | some (s, none) => .error (.valueRequired s)
  | some (s, some text) => d.give s text

/-- What an argument is. -/
inductive Argument where
  /-- An option with a value, with its value attached to it or not. -/
  | option (setting : Setting) (attached : Option String)
  | help
  | helpWithValue (value : String)
  /-- No more options follow. -/
  | separator
  /-- An option that is not known; of an attached value only the option is kept. -/
  | unknown (shown : String)
  /-- No option. -/
  | word

/-- What a word of letters behind one dash is: the first letter tells. -/
def Argument.ofLetters (letter : Char) (rest : List Char) : Argument :=
  if letter == 'h' then .help
  else if letter == 'p' then
    match rest with
    | [] => .option .port none
    | '=' :: value => .option .port (some (String.ofList value))
    | value => .option .port (some (String.ofList value))
  else .unknown (String.ofList ['-', letter])

/-- What a word behind two dashes is. -/
def Argument.ofLongName (text : List Char) : Argument :=
  let name := String.ofList (text.takeWhile (· != '='))
  let attached := match text.dropWhile (· != '=') with
    | [] => none
    | _ :: value => some (String.ofList value)
  if name == "help" then
    match attached with
    | none => .help
    | some value => .helpWithValue value
  else match Setting.ofName? name with
    | some s => .option s attached
    | none => .unknown ("--" ++ name)

/-- What an argument is, by its first characters. -/
def Argument.ofText (text : String) : Argument :=
  match text.toList with
  | ['-', '-'] => .separator
  | '-' :: '-' :: rest => .ofLongName rest
  | '-' :: letter :: rest => .ofLetters letter rest
  | _ => .word

/-- What the command line asks for. -/
inductive Wish where
  | help
  | options (draft : Draft)

/-- Reads arguments up to the first fault or the wish for help. -/
def readArguments (d : Draft) (pending : Pending) : List String → Except UsageFault Wish
  | [] => (settle d pending).map .options
  | argument :: rest =>
    match Argument.ofText argument with
    | .separator =>
      -- behind it everything is a positional argument, and there are none
      match rest with
      | [] => (settle d pending).map .options
      | next :: _ => .error (.unexpectedArgument next)
    | .unknown shown => .error (.unexpectedArgument shown)
    | .helpWithValue value => .error (.unexpectedValue value)
    -- a pending value is looked at before help is given
    | .help => (settle d pending).map fun _ => .help
    | .option s (some text) =>
      match settle d pending with
      | .error fault => .error fault
      | .ok d =>
        match d.give s text with
        | .error fault => .error fault
        | .ok d => readArguments d none rest
    | .option s none =>
      match settle d pending with
      | .error fault => .error fault
      | .ok d => readArguments d (some (s, none)) rest
    | .word =>
      match pending with
      | some (s, none) => readArguments d (some (s, some argument)) rest
      | _ => .error (.unexpectedArgument argument)

/-- What the command line and the environment come to. -/
inductive Configuration where
  | help
  | options (options : Options)
  deriving DecidableEq, Repr

/-- Reads the command line, then the variables of options that it does not give. -/
def configure (arguments : List String) (environment : String → Option String) :
    Except UsageFault Configuration :=
  match readArguments .blank none arguments with
  | .error fault => .error fault
  | .ok .help => .ok .help
  | .ok (.options draft) =>
    (draft.fill environment Setting.all).map fun d => .options d.complete

end Polyglot.Launch
