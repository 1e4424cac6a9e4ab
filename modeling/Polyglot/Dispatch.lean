/-
Handling a frame: it is read, a backend is chosen and called once, and the response is written.
Every frame gets exactly one response, whatever goes wrong on the way.
-/
import Polyglot.Registry
import Polyglot.Response

namespace Polyglot

/-- A call of a backend that a request has led to. -/
structure Call where
  backend : Backend
  request : Request

/-- What handling a frame leaves behind beside the response. -/
structure Trace where
  /-- What was logged, the oldest event first. -/
  events : List Event
  /-- The backends that were called, the first call first. -/
  calls : List Call
  /-- How often a parser was called. -/
  parses : Nat

/-- Calls the backend. The call and all that comes of it are added to what was there before. -/
def Call.make (host : Host) (call : Call) (before : Trace) : Outcome × Trace :=
  let reply := call.backend.detect host call.request.content call.request.options
  (reply.outcome, ⟨before.events ++ reply.events, before.calls ++ [call],
    reply.parses + before.parses⟩)

/-- What handling a frame comes to. -/
structure Handled where
  response : String
  events : List Event
  calls : List Call
  parses : Nat

namespace Dispatch

/-- Reads a request and chooses the backend that it is for. -/
def accept (registry : Registry) (raw : List Char) : Except Malformation Call × List Event :=
  match Request.decode raw with
  | (.error m, events) => (.error m, events)
  | (.ok request, events) =>
    let (backend, more) := registry.resolve request.selector
    let sent := Event.dispatching request.content.utf8ByteSize backend.name
      request.passthrough.length
    (.ok ⟨backend, request⟩, events ++ more ++ [sent])

/-- The predictions of an outcome, or the failure that is reported: it names the backend once. -/
def settle (name : String) : Outcome → Except Failure (List Prediction)
  | .predictions list => .ok list
  | .failure (.backendInvocation backend message) => .error (.backendInvocation backend message)
  | .failure f => .error (.backendInvocation name f.message)
  | .crash crash => .error (.backendInvocation name crash.message)

/-- The response to a failure, and its log line. -/
def refuse (failure : Failure) : String × List Event :=
  (Response.encodeFailure failure, [.requestFailed failure])

/-- The response to an outcome, and what is logged about it. -/
def answer (call : Call) (outcome : Outcome) : String × List Event :=
  match settle call.backend.name outcome with
  | .ok predictions => (Response.encode predictions call.request.passthrough, [])
  | .error f => refuse f

/-- Handles a text frame. -/
def handle (host : Host) (registry : Registry) (raw : List Char) : Handled :=
  match accept registry raw with
  | (.error m, events) =>
    let (response, more) := refuse m.failure
    ⟨response, events ++ more, [], 0⟩
  | (.ok call, events) =>
    let (outcome, trace) := call.make host ⟨events, [], 0⟩
    let (response, more) := answer call outcome
    ⟨response, trace.events ++ more, trace.calls, trace.parses⟩

/-- Handles a binary frame: it has to hold a text. -/
def handleBytes (host : Host) (registry : Registry) (raw : List UInt8) : Handled :=
  match Text.Utf8.decode raw with
  | .ok text => handle host registry text
  | .error fault =>
    let (response, events) := refuse (Malformation.notUtf8 fault).failure
    ⟨response, events, [], 0⟩

end Dispatch

end Polyglot
