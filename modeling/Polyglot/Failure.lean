/-
What can go wrong with a request or at start-up. Each failure has one wording, which clients and the
log both get. A computation may also crash; what it leaves behind then is worded by whoever notices.
-/
namespace Polyglot

/-- What a crashed computation leaves behind. -/
inductive Crash where
  | text (message : String)
  /-- Something that is no text. -/
  | wordless
  deriving DecidableEq, Repr

/-- A failure. -/
inductive Failure where
  /-- The frame is no request. -/
  | malformedRequest (message : String)
  /-- The backend failed while it was detecting. -/
  | backendInvocation (backend message : String)
  /-- The ranking could not be made. -/
  | model (message : String)
  /-- A pattern of the rules is not valid. -/
  | invalidRule (language message : String)
  /-- A response could not be written. -/
  | encode (message : String)
  /-- The default backend asked for is not registered. -/
  | unknownDefaultBackend (selector : String)
  deriving DecidableEq, Repr

/-- The failure in words. -/
def Failure.message : Failure → String
  | .malformedRequest message => "Malformed request: " ++ message
  | .backendInvocation backend message => "Backend '" ++ backend ++ "' failed: " ++ message
  | .model message => "Model failure: " ++ message
  | .invalidRule language message =>
    "Invalid rule pattern for '" ++ language ++ "': " ++ message
  | .encode message => "Failed to encode response: " ++ message
  | .unknownDefaultBackend selector => "Unknown default backend: " ++ selector

end Polyglot
