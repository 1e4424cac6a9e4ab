/-
The variable that says which log lines are shown. Its value is a list of directives with commas
between them. A directive names a target, with a level behind an equals sign or without one; a level
that stands alone is for all targets. In brackets it may ask for a field, or else for a span or for
the value of a field; lines have neither, so a directive of that kind decides about none. A part that
is no directive is left out, with a remark.
-/
import Polyglot.Launch.Whole
import Polyglot.Log

namespace Polyglot.Launch

/-- The name of the variable. -/
def logVariable : String := "RUST_LOG"

/-- What the value of the variable comes to. -/
structure LogReading where
  directives : List Log.Directive
  /-- What there is to say about the parts that are no directives. -/
  remarks : List String
  deriving DecidableEq, Repr

/-- Why a part of the value is no directive. -/
inductive DirectiveFault where
  | invalid
  | invalidLevel
  deriving DecidableEq, Repr

/-- The fault in words. -/
def DirectiveFault.message : DirectiveFault → String
  | .invalid => "invalid filter directive"
  | .invalidLevel => "error parsing level filter: expected one of \"off\", \"error\", \"warn\", " ++
    "\"info\", \"debug\", \"trace\", or a number 0-5"

/-- Reads a limit: the name of a level or `off`, in any case, or a number from zero on. -/
def readLimit? (text : List Char) : Option (Option Level) :=
  match readNatural Level.all.length text with
  | .ok count => some (Level.all.take count).getLast?
  | .error _ =>
    let word := text.map Char.toUpper
    if word = "OFF".toList then some none
    else (Level.all.find? fun level => level.name.toList == word).map some

/-- Reads what stands behind the target and the brackets. Without a level all lines are shown. -/
def readLimitBehind : List Char → Except DirectiveFault (Option Level)
  | [] => .ok (some .trace)
  | ['='] => .ok (some .trace)
  | '=' :: level =>
    match readLimit? level with
    | some limit => .ok limit
    | none => .error .invalidLevel
  | _ => .error .invalid

/-- Reads what stands behind an opening bracket. The result is none if it asks for more than the
presence of a field. -/
def readBracket (target : Option String) (text : List Char) :
    Except DirectiveFault (Option Log.Directive) :=
  let span := text.takeWhile fun c => c != ']' && c != '\x7b'
  match text.drop span.length with
  | ']' :: rest => (readLimitBehind rest).map fun _ => none
  | '\x7b' :: inner =>
    let field := inner.takeWhile (· != '\x7d')
    match inner.drop field.length with
    | '\x7d' :: ']' :: rest =>
      if field.isEmpty then .error .invalid
      else (readLimitBehind rest).map fun limit =>
        if span.isEmpty && !field.contains '=' then some ⟨target, some (String.ofList field), limit⟩
        else none
    | _ => .error .invalid
  | _ => .error .invalid

/-- Whether a target can begin with the character. -/
def beginsTarget (c : Char) : Bool := c.isAlphanum || c == '-' || c == ':' || c == '_'

/-- Reads one part of the value. The result is none if it is a directive that decides about no
line. -/
def readDirective (text : List Char) : Except DirectiveFault (Option Log.Directive) :=
  let target := text.takeWhile fun c => c != '[' && c != '='
  if target.isEmpty then
    match text with
    | '[' :: rest => readBracket none rest
    | _ => .error .invalid
  else if !target.head?.any beginsTarget then .error .invalid
  else
    let name := some (String.ofList target)
    match text.drop target.length with
    | [] => match readLimit? target with
      | some limit => .ok (some ⟨none, none, limit⟩)
      | none => .ok (some ⟨name, none, some .trace⟩)
    | '[' :: rest => readBracket name rest
    | rest => (readLimitBehind rest).map fun limit => some ⟨name, none, limit⟩

/-- Reads the parts of the value, one after the other. -/
def readParts : List (List Char) → LogReading
  | [] => ⟨[], []⟩
  | part :: rest =>
    let ⟨directives, remarks⟩ := readParts rest
    if part.isEmpty then ⟨directives, remarks⟩
    else match readDirective part with
      | .ok d => ⟨d.toList ++ directives, remarks⟩
      | .error fault =>
        ⟨directives, ("ignoring `" ++ String.ofList part ++ "`: " ++ fault.message) :: remarks⟩

/-- Reads the value of the variable. -/
def readLogVariable (value : String) : LogReading := readParts (value.toList.splitOn ',')

end Polyglot.Launch
