/-
What is logged while the backends are made and while a request is handled. An event holds only what
its line shows.
-/
import Polyglot.Failure
import Polyglot.Log
import Polyglot.Rule.Score
import Polyglot.Text.Quoted

namespace Polyglot

/-- Something worth a log line. -/
inductive Event where
  /-- The selector of a request is no text. -/
  | ignoredSelector (typeName : String)
  /-- The bias of a request is no object. -/
  | ignoredBias (typeName : String)
  /-- A field of a request has a name that only responses use. -/
  | droppedField (key : String)
  /-- No backend has the name that a request asks for. -/
  | unknownSelector (selector default : String)
  /-- A request goes to a backend. -/
  | dispatching (bytes : Nat) (backend : String) (fields : Nat)
  /-- A language is a candidate. -/
  | ruleScore (language : String) (score : Score)
  /-- The grammars of a number of languages are loaded. -/
  | grammarsLoaded (count : Nat)
  /-- A request was answered with a failure. -/
  | requestFailed (failure : Failure)
  deriving DecidableEq, Repr

namespace Event

def level : Event → Level
  | ruleScore .. => .trace
  | requestFailed .. => .warn
  | _ => .debug

/-- The part of the program that the event is from. -/
def target : Event → String
  | ignoredSelector .. | ignoredBias .. | droppedField .. =>
    Log.serverTarget ++ "::socket_server::protocol"
  | unknownSelector .. => Log.serverTarget ++ "::socket_server::registry"
  | dispatching .. | requestFailed .. => Log.serverTarget ++ "::socket_server::dispatcher"
  | ruleScore .. => Log.serverTarget ++ "::engine::rules"
  | grammarsLoaded .. => Log.serverTarget ++ "::engine::model"

/-- The event in words. -/
def message : Event → String
  | ignoredSelector typeName => "Ignoring non-string selector of type " ++ typeName
  | ignoredBias typeName => "Ignoring non-object bias of type " ++ typeName
  | droppedField key => "Dropping reserved request field '" ++ key ++ "'"
  | unknownSelector selector default =>
    "Unknown backend selector " ++ Text.quoted selector ++ ", using " ++ default
  | dispatching bytes backend fields =>
    "Dispatching " ++ toString bytes ++ " bytes to " ++ backend ++ " (" ++ toString fields ++
      " passthrough fields)"
  | ruleScore language score => "rule score " ++ language ++ " = " ++ score.text
  | grammarsLoaded count => "Grammar model loaded " ++ toString count ++ " languages"
  | requestFailed failure => "Request failed: " ++ failure.message

/-- The log line of the event. -/
def line (event : Event) : Log.Line := ⟨event.level, event.target, event.message⟩

end Event

end Polyglot
