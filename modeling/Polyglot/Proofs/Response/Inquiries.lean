/-
What an inquiry is answered with. Both kinds of frames come down to the text that they hold, and a
frame that holds none is refused. Either way the response reads back, so no client can take it for
the greeting.
-/
import Polyglot.Connection
import Polyglot.Proofs.Response.Envelope

namespace Polyglot.Inquiry

open Json

variable (host : Host) (registry : Registry) {inquiry : Inquiry} {raw : List Char}

/-- The text that an inquiry holds, if it holds one. -/
def text? : Inquiry → Option (List Char)
  | .text characters => some characters
  | .binary bytes => (Text.Utf8.decode bytes).toOption

/-- What an inquiry is answered with: predictions and what is handed back, or a failure. -/
def result : Inquiry → Except Failure (List Prediction × Members)
  | .text characters => Dispatch.result host registry characters
  | .binary bytes =>
    match Text.Utf8.decode bytes with
    | .ok characters => Dispatch.result host registry characters
    | .error fault => .error (Malformation.notUtf8 fault).failure

/-- A text is answered the same in both kinds of frames. -/
theorem result_of_text? (h : inquiry.text? = some raw) :
    inquiry.result host registry = Dispatch.result host registry raw := by
  cases inquiry with
  | text characters =>
    simp only [text?, Option.some.injEq] at h
    rw [h, result]
  | binary bytes =>
    rw [result]
    cases hdecode : Text.Utf8.decode bytes with
    | ok characters =>
      simp only [text?, hdecode, Except.toOption, Option.some.injEq] at h
      rw [h]
    | error fault => simp [text?, hdecode, Except.toOption] at h

theorem response_eq (inquiry : Inquiry) :
    inquiry.response host registry = match inquiry.result host registry with
      | .ok (predictions, passthrough) => Response.encode predictions passthrough
      | .error f => Response.encodeFailure f := by
  cases inquiry with
  | text characters => exact Dispatch.response_handle host registry characters
  | binary bytes =>
    rw [response, Dispatch.handleBytes, result]
    cases Text.Utf8.decode bytes with
    | ok characters => exact Dispatch.response_handle host registry characters
    | error fault => rfl

/-- An inquiry is answered with predictions just if it holds a request and the backend returned
them. -/
theorem result_eq_ok_iff {predictions : List Prediction} {passthrough : Members} :
    inquiry.result host registry = .ok (predictions, passthrough) ↔
      ∃ raw request, inquiry.text? = some raw ∧ (Request.decode raw).1 = .ok request ∧
        Dispatch.outcome host registry request = .predictions predictions ∧
        request.passthrough = passthrough := by
  cases htext : inquiry.text? with
  | some raw => simp [result_of_text? host registry htext, Dispatch.result_eq_ok_iff]
  | none =>
    cases inquiry with
    | text characters => cases htext
    | binary bytes =>
      cases hdecode : Text.Utf8.decode bytes with
      | ok characters => simp [text?, hdecode, Except.toOption] at htext
      | error fault => simp [result, hdecode]

/-- Every response reads back. -/
theorem parse_response (inquiry : Inquiry) :
    ∃ v, parse (inquiry.response host registry).toList = .ok v := by
  rw [response_eq]
  cases hresult : inquiry.result host registry with
  | error f => exact ⟨_, Response.parse_encodeFailure f⟩
  | ok answer =>
    obtain ⟨predictions, passthrough⟩ := answer
    obtain ⟨_, _, -, hdecode, -, rfl⟩ := (result_eq_ok_iff host registry).1 hresult
    exact ⟨_, Response.parse_encode _ (Request.returnable_passthrough hdecode)⟩

theorem response_ne_greeting (inquiry : Inquiry) :
    inquiry.response host registry ≠ Response.greeting := by
  intro h
  obtain ⟨v, hv⟩ := parse_response host registry inquiry
  have hfails : (parse Response.greeting.toList).isOk = false := by decide +kernel
  rw [← h, hv] at hfails
  cases hfails

end Polyglot.Inquiry
