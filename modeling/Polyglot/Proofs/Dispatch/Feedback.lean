/-
No response is a request. Every response reads back as an object, and neither envelope has a content:
a success has the predictions and what is handed back, which never goes under a name that means
something, and a failure has its words. So a response that comes back as a frame is refused, always
with the same words, and reaches no backend.
-/
import Polyglot.Proofs.Dispatch.Routing
import Polyglot.Proofs.Response.Inquiries

namespace Polyglot

open Json Members

namespace Request

theorem decode_of_no_content {raw : List Char} {members : Members}
    (hread : parse raw = .ok (.object members)) (hn : (keys members).Nodup)
    (hcontent : contentField ∉ keys members) : (decode raw).1 = .error .missingContent := by
  rw [decode, hread, ofMembers_eq hn, find?_eq_none_iff.2 hcontent]

end Request

namespace Response

theorem encodeFailure_missingContent :
    encodeFailure Malformation.missingContent.failure =
      "\x7b\"error\":\"Malformed request: missing 'content' field\"\x7d" := by
  decide +kernel

end Response

namespace Inquiry

/-- A response reads back as an object without a content. -/
theorem parse_response_object (host : Host) (registry : Registry) (inquiry : Inquiry) :
    ∃ members, parse (inquiry.response host registry).toList = .ok (.object members) ∧
      (keys members).Nodup ∧ Request.contentField ∉ keys members := by
  rw [response_eq]
  cases hresult : inquiry.result host registry with
  | error f =>
    have hkeys : [Request.errorField].Nodup := by decide
    have hcontent : Request.contentField ∉ [Request.errorField] := by decide
    exact ⟨_, Response.parse_encodeFailure f, hkeys, hcontent⟩
  | ok answer =>
    obtain ⟨predictions, passthrough⟩ := answer
    obtain ⟨_, _, -, hdecode, -, rfl⟩ := (result_eq_ok_iff host registry).1 hresult
    have hreturnable := Request.returnable_passthrough hdecode
    refine ⟨_, Response.parse_encode predictions hreturnable,
      Response.nodup_success hreturnable.kept, ?_⟩
    rw [keys_cons, List.mem_cons, not_or, Response.allowed_eq hreturnable]
    refine ⟨by decide, fun hmem => ?_⟩
    exact hreturnable.unnamed _ hmem (by decide)

/-- Whatever a frame was answered with, in any process and by any backends: taken for a frame itself
it is refused for want of a content, in any process and by any backends, and none is called. -/
theorem response_refused (host host' : Host) (registry registry' : Registry) (inquiry : Inquiry) :
    let response := inquiry.response host registry
    let again := Dispatch.handle host' registry' response.toList
    (∃ members, parse response.toList = .ok (.object members) ∧
      Request.contentField ∉ keys members) ∧
    again.response = "\x7b\"error\":\"Malformed request: missing 'content' field\"\x7d" ∧
    again.calls = [] ∧ again.parses = 0 := by
  intro response again
  obtain ⟨members, hread, hn, hcontent⟩ := parse_response_object host registry inquiry
  have hagain : again = _ :=
    Dispatch.handle_of_error (Request.decode_of_no_content hread hn hcontent)
  refine ⟨⟨members, hread, hcontent⟩, ?_, ?_, ?_⟩
  · rw [hagain]
    exact Response.encodeFailure_missingContent
  · rw [hagain]
  · rw [hagain]

end Inquiry

end Polyglot
