/-
What becomes of the members that are handed back. A success is a document with the predictions first
and then those members in the order of the request, each value written plainly. That is the value
as the client wrote it, with repeated keys settled, just if every exponent has a small letter and a
sign and no object has the reserved key first: another exponent is spelled anew, and an object that
the reader takes for a number comes back as that number.
-/
import Polyglot.Proofs.Request.Replacing
import Polyglot.Proofs.Response.Envelope

namespace Polyglot.Dispatch

open Json Keyed Members Request

variable {host : Host} {registry : Registry} {raw : List Char}
  {members : List (String × Written)} {predictions : List Prediction} {passthrough : Members}

/-- The members of a success as they are written. -/
def answered (predictions : List Prediction) (members : List (String × Written)) :
    List (String × Written) :=
  (dataField, .array (predictions.map fun p => p.toJson.written)) ::
    mapValues (fun w : Written => w.value.written) (handedBack (Keyed.settle members))

theorem document_response (hraw : Document (.object members) raw)
    (hok : result host registry raw = .ok (predictions, passthrough)) :
    Document (.object (answered predictions members))
      (handle host registry raw).response.toList := by
  obtain ⟨request, hdecode, -, rfl⟩ := result_eq_ok_iff.1 hok
  have hreturnable := returnable_passthrough hdecode
  have hc := ((decode_document_ok_iff hraw).1 hdecode).2.2.2
  have hdoc := (Response.regular_success predictions hreturnable.kept).document
  rw [Response.success, Response.allowed_eq hreturnable, hc.passthrough, written_object,
    mapValues_cons, mapValues_mapValues, written_array, List.map_map] at hdoc
  rw [response_handle, hok]
  dsimp only
  rw [Response.encode, toText, String.toList_ofList, Response.success,
    Response.allowed_eq hreturnable, hc.passthrough]
  exact hdoc

/-- A value is handed back as it was written just if it is spelled the way it is written. -/
theorem written_value_iff (hraw : Document (.object members) raw)
    (hr : (Written.object members).Readable) {m : String × Written}
    (hm : m ∈ handedBack (Keyed.settle members)) :
    m.2.value.written = m.2.tidy ↔ m.2.tidy.Verbatim := by
  have hmem := mem_of_mem_settle (List.mem_filter.1 hm).1
  obtain ⟨b, t, b', -, hspells, -, -⟩ := hraw
  cases hr with
  | object _ hall =>
    cases hspells with
    | emptyObject => cases hmem
    | object _ hlist =>
      obtain ⟨t, ht⟩ := hlist.exists_of_mem m hmem
      obtain ⟨t, ht⟩ := ht.value
      exact ht.written_value_iff (hall m hmem)

/-- The response to a request that is answered with predictions is a document of these and of what
is handed back, in order. Each value is the one that the client wrote just if it is spelled the way
it is written. -/
theorem response_echo (hraw : Document (.object members) raw)
    (hok : result host registry raw = .ok (predictions, passthrough)) :
    Document (.object (answered predictions members))
      (handle host registry raw).response.toList ∧
    ∀ m ∈ handedBack (Keyed.settle members),
      (m.2.value.written = m.2.tidy ↔ m.2.tidy.Verbatim) := by
  refine ⟨document_response hraw hok, fun m hm => ?_⟩
  obtain ⟨request, hdecode, -, -⟩ := result_eq_ok_iff.1 hok
  exact written_value_iff hraw ((decode_document_ok_iff hraw).1 hdecode).2.1 hm

/-! ## Requests that are not handed back as written -/

/-- A backend that never has a guess. -/
def silent : Backend := ⟨"silent", fun _ _ _ => ⟨.predictions [], [], 0⟩⟩

/-- The process that it runs in. -/
def quiet : Host := ⟨.lenient, true, "1"⟩

/-- A registry of one backend gives it every request. -/
theorem resolve_ofBackend (backend : Backend) (selector : Option String) :
    ((Registry.ofBackend backend).resolve selector).1 = backend := by
  cases selector with
  | none => rfl
  | some name =>
    rw [Registry.resolve, Registry.find?_ofBackend]
    by_cases h : backend.name = name
    · rw [if_pos h]
    · rw [if_neg h]
      rfl

theorem result_silent {request : Request} (h : (decode raw).1 = .ok request) :
    result quiet (.ofBackend silent) raw = .ok ([], request.passthrough) := by
  refine result_eq_ok_iff.2 ⟨request, h, ?_, rfl⟩
  rw [outcome, resolve_ofBackend]
  rfl

/-- Null is handed back as null. -/
theorem response_echo_null :
    ∃ answer, Document (.object answer)
        (handle quiet (.ofBackend silent) nullRequest.render).response.toList ∧
      last? "id" answer = some .null := by
  obtain ⟨request, hdecode⟩ := decode_nullRequest
  have hraw : Document (.object [(contentField, .string "x"), ("id", .null)])
      nullRequest.render := regular_nullRequest.document
  exact ⟨_, (response_echo hraw (result_silent hdecode)).1, rfl⟩

/-- The number 1E5. -/
def capitalLiteral : Literal :=
  ⟨false, [⟨1, by decide⟩], [], some ⟨true, .none, [⟨5, by decide⟩]⟩⟩

/-- Not every response holds what is handed back as it was written: the exponent of 1E5 is spelled
anew. -/
theorem not_response_verbatim :
    ¬ ∀ (host : Host) (registry : Registry) (raw : List Char)
      (members answer : List (String × Written)) (predictions : List Prediction)
      (passthrough : Members), Document (.object members) raw →
      result host registry raw = .ok (predictions, passthrough) →
      Document (.object answer) (handle host registry raw).response.toList →
      ∀ m ∈ handedBack (Keyed.settle members), last? m.1 answer = some m.2.tidy := by
  intro h
  have hnull : Document (.object ([(contentField, .string "x")] ++ ("id", .null) :: []))
      nullRequest.render := regular_nullRequest.document
  obtain ⟨before, text, after, -, -, hall⟩ := hnull.replace
  have hraw := hall (.number capitalLiteral) _ (.number (by decide))
  have hreadable : (Written.object ([(contentField, .string "x")] ++
      ("id", .number capitalLiteral) :: [])).Readable := by
    refine .object (fun hfirst => absurd hfirst (by decide)) ?_
    simpa using ⟨Written.Throughout.string "x", Written.Throughout.number trivial⟩
  have hcontent : last? contentField ([(contentField, .string "x")] ++
      ("id", .number capitalLiteral) :: []) = some (Written.string "x") := rfl
  obtain ⟨request, hc⟩ := exists_classified hcontent
  have hdecode := (decode_document_ok_iff hraw).2
    ⟨by simp [Written.Fits, maxDepth], hreadable, by decide, hc⟩
  have hok := result_silent hdecode
  have hlast := h _ _ _ _ _ _ _ hraw hok (document_response hraw hok)
    ("id", .number capitalLiteral) (List.mem_singleton.2 rfl)
  -- the response has the literal with a small letter and a sign
  have hsame : some (Written.number (.ofNumeral capitalLiteral.numeral)) =
      some (.number capitalLiteral) := hlast
  rw [Option.some.injEq, Written.number.injEq, Literal.ofNumeral_numeral_iff] at hsame
  revert hsame
  decide

end Polyglot.Dispatch
