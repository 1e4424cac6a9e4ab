/-
Predictions: a language id and the confidence in it. As JSON a prediction is an object with the two
fields, or on reading also an array of the two.
-/
import Polyglot.Double.Accumulated
import Polyglot.Json.Skim

namespace Polyglot

/-- One guess about the language of a text. A confidence of minus one was not estimated. -/
structure Prediction where
  languageId : String
  confidence : Double
  deriving DecidableEq, Repr

namespace Prediction

/-- A guess whose confidence was not estimated. -/
def unestimated (languageId : String) : Prediction := ⟨languageId, .minusOne⟩

def idField : String := "languageId"

def confidenceField : String := "confidence"

/-- The prediction as a JSON object. A confidence that is not finite becomes null. -/
def toJson (p : Prediction) : Json :=
  .object [(idField, .string p.languageId), (confidenceField, p.confidence.toJson)]

/-! ## Reading -/

/-- Reads the id: a string. -/
def readId (text : List Char) : Option (String × List Char) :=
  match Json.skipBlanks text with
  | '"' :: rest => (Json.readString [] rest).toOption
  | _ => none

/-- Reads the confidence: a number, digit by digit. -/
def readConfidence (text : List Char) : Option (Double × List Char) :=
  match (Numeral.read (Json.skipBlanks text)).toOption with
  | none => none
  | some (n, rest) => (Double.accumulate n).map (·, rest)

/-- Reads a colon. -/
def readColon (text : List Char) : Option (List Char) :=
  match Json.skipBlanks text with
  | ':' :: rest => some rest
  | _ => none

/-- The fields that have been read so far. -/
structure Fields where
  languageId : Option String
  confidence : Option Double

/-- Reads a member of the object: one of the two fields for the first time, or another one, which is
passed over. -/
def readMember (fields : Fields) (text : List Char) : Option (Fields × List Char) :=
  match text with
  | '"' :: rest =>
    match (Json.readString [] rest).toOption with
    | none => none
    | some (key, rest) =>
      if key == idField then
        if fields.languageId.isSome then none
        else
          (readColon rest).bind fun rest =>
            (readId rest).map fun (s, rest) => (⟨some s, fields.confidence⟩, rest)
      else if key == confidenceField then
        if fields.confidence.isSome then none
        else
          (readColon rest).bind fun rest =>
            (readConfidence rest).map fun (x, rest) => (⟨fields.languageId, some x⟩, rest)
      else (readColon rest).bind fun rest => (Json.skim rest).map fun rest => (fields, rest)
  | _ => none

/-- Reads members, at least one, up to the end of the object. The length of the text is enough for
`limit`. -/
def readMembers : (limit : Nat) → Fields → List Char → Option (Fields × List Char)
  | 0, _, _ => none
  | limit + 1, fields, text =>
    match readMember fields text with
    | none => none
    | some (fields, rest) =>
      match Json.skipBlanks rest with
      | '\x7d' :: rest => some (fields, rest)
      | ',' :: rest => readMembers limit fields (Json.skipBlanks rest)
      | _ => none

/-- Reads the object behind its brace. -/
def readObject (text : List Char) : Option (Prediction × List Char) :=
  match readMembers (text.length + 1) ⟨none, none⟩ (Json.skipBlanks text) with
  | some (⟨some languageId, some confidence⟩, rest) => some (⟨languageId, confidence⟩, rest)
  | _ => none

/-- Reads the array behind its bracket. -/
def readArray (text : List Char) : Option (Prediction × List Char) :=
  match readId text with
  | none => none
  | some (languageId, rest) =>
    match Json.skipBlanks rest with
    | ',' :: rest =>
      match readConfidence rest with
      | none => none
      | some (confidence, rest) =>
        match Json.skipBlanks rest with
        | ']' :: rest => some (⟨languageId, confidence⟩, rest)
        | _ => none
    | _ => none

/-- Reads a text that is one prediction as a whole. -/
def parse (text : List Char) : Option Prediction :=
  let result := match Json.skipBlanks text with
    | '\x7b' :: rest => readObject rest
    | '[' :: rest => readArray rest
    | _ => none
  match result with
  | some (p, rest) => if (Json.skipBlanks rest).isEmpty then some p else none
  | none => none

end Prediction

end Polyglot
