/-
Requests: JSON objects with a text under `content`, perhaps the name of a backend under `model` and
options under `bias`. All other members are handed back with the response, except those whose names
only responses use.
-/
import Polyglot.Event
import Polyglot.Json.Reader

namespace Polyglot

/-- Why a frame is no request. -/
inductive Malformation where
  | invalidJson (fault : Json.Fault) (text : List Char)
  | notObject
  | contentType (typeName : String)
  | missingContent
  | notUtf8 (fault : Text.Utf8.Fault)

/-- The fault in words. -/
def Malformation.message : Malformation → String
  | .invalidJson fault text => "invalid JSON: " ++ fault.message text
  | .notObject => "request must be a JSON object"
  | .contentType typeName => "'content' must be a string, got " ++ typeName
  | .missingContent => "missing 'content' field"
  | .notUtf8 fault => "binary frame is not UTF-8: " ++ fault.message

/-- The failure that a client is told of. -/
def Malformation.failure (m : Malformation) : Failure := .malformedRequest m.message

/-- A request to detect the language of a text. -/
structure Request where
  content : String
  /-- The name of the backend that is to answer. -/
  selector : Option String
  options : Members
  /-- The members that are handed back. -/
  passthrough : Members

namespace Request

def contentField : String := "content"

def selectorField : String := "model"

def optionsField : String := "bias"

def dataField : String := "data"

def errorField : String := "error"

/-- What the members read so far say. -/
structure Draft where
  content : Option String
  selector : Option String
  options : Members
  /-- The members that are handed back, the last one first. -/
  passthrough : Members

/-- Nothing said yet. -/
def Draft.start : Draft := ⟨none, none, [], []⟩

/-- Takes up a member of the object. A selector or a bias of the wrong type counts as absent; a
content of the wrong type is refused. -/
def Draft.take (draft : Draft) (key : String) (value : Json) :
    Except Malformation (Draft × List Event) :=
  if key == contentField then
    match value with
    | .string text => .ok (⟨some text, draft.selector, draft.options, draft.passthrough⟩, [])
    | other => .error (.contentType other.typeName)
  else if key == selectorField then
    match value with
    | .string name => .ok (⟨draft.content, some name, draft.options, draft.passthrough⟩, [])
    | other => .ok (draft, [.ignoredSelector other.typeName])
  else if key == optionsField then
    match value with
    | .object members => .ok (⟨draft.content, draft.selector, members, draft.passthrough⟩, [])
    | .null => .ok (draft, [])
    | other => .ok (draft, [.ignoredBias other.typeName])
  else if key == dataField || key == errorField then .ok (draft, [.droppedField key])
  else
    .ok (⟨draft.content, draft.selector, draft.options, (key, value) :: draft.passthrough⟩, [])

/-- Takes up members one after the other, up to the first that is refused. The events are those of
the members before it. -/
def Draft.takeAll (draft : Draft) : Members → Except Malformation Draft × List Event
  | [] => (.ok draft, [])
  | (key, value) :: rest =>
    match draft.take key value with
    | .error m => (.error m, [])
    | .ok (draft, events) =>
      let (result, more) := draft.takeAll rest
      (result, events ++ more)

/-- The request that a JSON object makes. -/
def ofMembers (members : Members) : Except Malformation Request × List Event :=
  match Draft.start.takeAll members with
  | (.error m, events) => (.error m, events)
  | (.ok draft, events) =>
    match draft.content with
    | none => (.error .missingContent, events)
    | some content =>
      (.ok ⟨content, draft.selector, draft.options, draft.passthrough.reverse⟩, events)

/-- Reads the request in a text frame. -/
def decode (raw : List Char) : Except Malformation Request × List Event :=
  match Json.parse raw with
  | .error fault => (.error (.invalidJson fault raw), [])
  | .ok (.object members) => ofMembers members
  | .ok _ => (.error .notObject, [])

end Request

end Polyglot
