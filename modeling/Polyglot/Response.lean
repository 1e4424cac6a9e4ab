/-
Responses: a JSON object with the predictions under `data`, followed by the members handed back from
the request, or one with the words of a failure under `error`.
-/
import Polyglot.Json.Printer
import Polyglot.Prediction
import Polyglot.Request

namespace Polyglot.Response

/-- What every client is sent first. -/
def greeting : String := "Welcome!"

/-- The members that may be handed back. -/
def allowed (passthrough : Members) : Members :=
  passthrough.filter fun (key, _) => key != Request.dataField && key != Request.errorField

/-- A success as a JSON object. -/
def success (predictions : List Prediction) (passthrough : Members) : Json :=
  .object ((Request.dataField, .array (predictions.map Prediction.toJson)) :: allowed passthrough)

/-- The text of a success. -/
def encode (predictions : List Prediction) (passthrough : Members) : String :=
  (success predictions passthrough).toText

/-- The text of a failure: its words and nothing else. -/
def encodeFailure (failure : Failure) : String :=
  (Json.object [(Request.errorField, .string failure.message)]).toText

end Polyglot.Response
