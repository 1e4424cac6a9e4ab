/-
Every text frame is answered by one of two envelopes. Whatever the backend makes of a request, be it
predictions with any ids and confidences, a failure or a crash, the response reads back as a JSON
object: a success holds the predictions in order and no failure, and a failure holds its words and
nothing else. It is a success just if the frame is a request and the backend returned predictions.

The response reads back because it is the text of a regular value that lies no deeper than the
reader allows: what is handed back was read from a request, one container further out.
-/
import Polyglot.Dispatch
import Polyglot.Proofs.Double.Shortest
import Polyglot.Proofs.Request.Decoding
import Mathlib.Data.List.Forall2

namespace Polyglot

open Json Keyed Members

/-! ## What is handed back -/

namespace Json

/-- Members that stood in an object that was read, all of them or some: each key once, and values
that lay inside another one. -/
structure Kept (ms : Members) : Prop where
  nodup : (keys ms).Nodup
  regular : ∀ m ∈ ms, m.2.Regular
  fits : ∀ m ∈ ms, m.2.Fits (maxDepth - 1)

theorem kept_of_object {ms : Members} (hr : (Json.object ms).Regular)
    (hf : (Json.object ms).Fits maxDepth) : Kept ms := by
  cases hr with
  | object hn _ hregular => exact ⟨hn, hregular, hf⟩

theorem Kept.sublist {ms ms' : Members} (h : Kept ms) (hs : ms'.Sublist ms) : Kept ms' :=
  ⟨(hs.map _).nodup h.nodup, fun m hm => h.regular m (hs.subset hm),
    fun m hm => h.fits m (hs.subset hm)⟩

end Json

namespace Request

/-- Members as a request hands them back: each key once and none of those that mean something, and
values that were read inside another one. -/
structure Returnable (ms : Members) : Prop where
  nodup : (keys ms).Nodup
  unnamed : ∀ key ∈ keys ms, key ∉ named
  regular : ∀ m ∈ ms, m.2.Regular
  fits : ∀ m ∈ ms, m.2.Fits (maxDepth - 1)

theorem Returnable.kept {ms : Members} (h : Returnable ms) : Kept ms :=
  ⟨h.nodup, h.regular, h.fits⟩

theorem returnable_handedBack {ms : Members} (hr : (Json.object ms).Regular)
    (hf : (Json.object ms).Fits maxDepth) : Returnable (handedBack ms) := by
  have hkept : Kept (handedBack ms) := (kept_of_object hr hf).sublist List.filter_sublist
  refine ⟨hkept.nodup, ?_, hkept.regular, hkept.fits⟩
  intro key hkey
  obtain ⟨m, hm, rfl⟩ := List.mem_map.1 hkey
  simpa using (List.mem_filter.1 hm).2

theorem returnable_passthrough {raw : List Char} {request : Request}
    (h : (decode raw).1 = .ok request) : Returnable request.passthrough := by
  obtain ⟨members, hraw, hf, hr, hk, hc⟩ := decode_ok_iff.1 h
  obtain ⟨b, t, b', -, hspells, -, -⟩ := hraw
  have hregular := hspells.regular hr
  have hfits := hf.value
  rw [Written.value_object hk] at hregular hfits
  rw [hc.passthrough, ← handedBack_mapValues]
  exact returnable_handedBack hregular hfits

end Request

/-! ## Responses as values -/

namespace Response

theorem regular_confidence (x : Double) : x.toJson.Regular := by
  cases x with
  | finite negative steps => exact .number (Double.Layout.wellFormed_numeral _ _ _)
  | infinite | nan => exact .null

theorem fits_confidence (x : Double) (depth : Nat) : x.toJson.Fits depth := by
  cases x <;> cases depth <;> trivial

theorem regular_prediction (p : Prediction) : p.toJson.Regular := by
  have hkeys : [Prediction.idField, Prediction.confidenceField].Nodup := by decide
  have hfirst : some Prediction.idField ≠ some numberKey := by decide
  refine .object hkeys hfirst ?_
  simpa using ⟨Regular.string p.languageId, regular_confidence p.confidence⟩

theorem fits_prediction (p : Prediction) (depth : Nat) : p.toJson.Fits (depth + 1) := by
  refine List.forall_mem_cons.2 ⟨?_, List.forall_mem_cons.2 ⟨fits_confidence _ _, by simp⟩⟩
  cases depth <;> trivial

theorem mem_keys_allowed {ms : Members} {key : String} (h : key ∈ keys (allowed ms)) :
    key ∈ keys ms ∧ key ≠ Request.dataField ∧ key ≠ Request.errorField := by
  obtain ⟨m, hm, rfl⟩ := List.mem_map.1 h
  obtain ⟨hm, hallowed⟩ := List.mem_filter.1 hm
  simp only [Bool.and_eq_true, bne_iff_ne] at hallowed
  exact ⟨List.mem_map_of_mem hm, hallowed⟩

theorem allowed_eq {passthrough : Members} (h : Request.Returnable passthrough) :
    allowed passthrough = passthrough := by
  refine List.filter_eq_self.2 fun m hm => ?_
  have hkey := h.unnamed m.1 (List.mem_map_of_mem hm)
  simp only [Request.named, List.mem_cons, List.not_mem_nil, or_false, not_or] at hkey
  simp [hkey]

theorem kept_allowed {ms : Members} (h : Kept ms) : Kept (allowed ms) :=
  h.sublist List.filter_sublist

/-- The keys of a success: the one of the predictions is there once. -/
theorem nodup_success {ms : Members} (h : Kept ms) :
    (Request.dataField :: keys (allowed ms)).Nodup := by
  refine List.nodup_cons.2 ⟨?_, (kept_allowed h).nodup⟩
  intro hmem
  exact (mem_keys_allowed hmem).2.1 rfl

theorem regular_success (predictions : List Prediction) {ms : Members} (h : Kept ms) :
    (success predictions ms).Regular := by
  refine .object (nodup_success h) (by simp [firstKey, Request.dataField, numberKey]) ?_
  refine List.forall_mem_cons.2 ⟨.array ?_, (kept_allowed h).regular⟩
  rintro v hv
  obtain ⟨p, -, rfl⟩ := List.mem_map.1 hv
  exact regular_prediction p

theorem fits_success (predictions : List Prediction) {ms : Members} (h : Kept ms) :
    (success predictions ms).Fits maxDepth := by
  refine List.forall_mem_cons.2 ⟨?_, (kept_allowed h).fits⟩
  rintro v hv
  obtain ⟨p, -, rfl⟩ := List.mem_map.1 hv
  exact fits_prediction p _

/-- The text of a success reads back, whatever members of an object are handed back in it. -/
theorem parse_encode_of_kept (predictions : List Prediction) {ms : Members} (h : Kept ms) :
    parse (encode predictions ms).toList = .ok (success predictions ms) := by
  rw [encode, toText, String.toList_ofList]
  exact parse_render (regular_success predictions h) (fits_success predictions h)

/-- The text of a success reads back. -/
theorem parse_encode (predictions : List Prediction) {passthrough : Members}
    (h : Request.Returnable passthrough) :
    parse (encode predictions passthrough).toList = .ok (success predictions passthrough) :=
  parse_encode_of_kept predictions h.kept

/-- The text of a failure reads back. -/
theorem parse_encodeFailure (f : Failure) :
    parse (encodeFailure f).toList = .ok (.object [(Request.errorField, .string f.message)]) := by
  rw [encodeFailure, toText, String.toList_ofList]
  have hkeys : [Request.errorField].Nodup := by decide
  have hfirst : some Request.errorField ≠ some numberKey := by decide
  refine parse_render (.object hkeys hfirst ?_) ?_
  · simpa using Regular.string f.message
  · simp [Json.Fits, maxDepth]

/-- The prediction as it is shown: its id, and its confidence, which is null if it is not finite. -/
def Shows (p : Prediction) (item : Json) : Prop :=
  ∃ confidence, item = .object [(Prediction.idField, .string p.languageId),
    (Prediction.confidenceField, confidence)] ∧ confidence = p.confidence.toJson ∧
    (confidence = .null ↔ p.confidence.isFinite = false)

/-- The predictions come first, one after the other, and there is no failure. -/
def IsSuccess (predictions : List Prediction) (v : Json) : Prop :=
  ∃ items rest, v = .object ((Request.dataField, .array items) :: rest) ∧
    List.Forall₂ Shows predictions items ∧ Request.errorField ∉ keys rest

/-- There are the words of the failure and nothing else. -/
def IsFailure (f : Failure) (v : Json) : Prop :=
  v = .object [(Request.errorField, .string f.message)]

theorem shows_toJson (p : Prediction) : Shows p p.toJson := by
  refine ⟨_, rfl, rfl, ?_⟩
  cases p.confidence <;> simp [Double.toJson, Double.isFinite]

theorem isSuccess_success (predictions : List Prediction) {passthrough : Members}
    (h : Request.Returnable passthrough) :
    IsSuccess predictions (success predictions passthrough) := by
  refine ⟨_, _, rfl, ?_, ?_⟩
  · rw [List.forall₂_map_right_iff]
    exact List.forall₂_same.2 fun p _ => shows_toJson p
  · rw [allowed_eq h]
    exact fun hmem => h.unnamed _ hmem (by decide)

/-- A response is not both. -/
theorem not_isSuccess_of_isFailure {f : Failure} {v : Json} (h : IsFailure f v) :
    ¬ ∃ predictions, IsSuccess predictions v := by
  rintro ⟨predictions, items, rest, rfl, -, -⟩
  simp [IsFailure, Request.dataField, Request.errorField] at h

end Response

/-! ## Handling -/

namespace Dispatch

/-- What the backend that a request is for makes of it. -/
def outcome (host : Host) (registry : Registry) (request : Request) : Outcome :=
  ((registry.resolve request.selector).1.detect host request.content request.options).outcome

/-- What a text frame is answered with: predictions and what is handed back, or the failure that is
reported. -/
def result (host : Host) (registry : Registry) (raw : List Char) :
    Except Failure (List Prediction × Members) :=
  match (Request.decode raw).1 with
  | .error m => .error m.failure
  | .ok request =>
    (settle (registry.resolve request.selector).1.name (outcome host registry request)).map
      (·, request.passthrough)

theorem response_handle (host : Host) (registry : Registry) (raw : List Char) :
    (handle host registry raw).response = match result host registry raw with
      | .ok (predictions, passthrough) => Response.encode predictions passthrough
      | .error f => Response.encodeFailure f := by
  unfold handle accept result
  generalize Request.decode raw = decoded
  obtain ⟨decoded, events⟩ := decoded
  cases decoded with
  | error m => rfl
  | ok request =>
    unfold Call.make answer outcome
    dsimp only
    cases settle (registry.resolve request.selector).1.name
      ((registry.resolve request.selector).1.detect host request.content
        request.options).outcome with
    | error f => rfl
    | ok predictions => rfl

theorem settle_eq_ok_iff {name : String} {outcome : Outcome} {predictions : List Prediction} :
    settle name outcome = .ok predictions ↔ outcome = .predictions predictions := by
  constructor
  · intro h
    unfold settle at h
    split at h
    · cases h
      rfl
    all_goals cases h
  · rintro rfl
    rfl

/-- A failure that is reported came up in the backend or is laid at its door. -/
theorem settle_eq_error {name : String} {outcome : Outcome} {f : Failure}
    (h : settle name outcome = .error f) : ∃ backend message,
      f = .backendInvocation backend message := by
  unfold settle at h
  split at h
  · cases h
  all_goals
    cases h
    exact ⟨_, _, rfl⟩

/-- A frame is answered with predictions just if it is a request and the backend returned them. -/
theorem result_eq_ok_iff {host : Host} {registry : Registry} {raw : List Char}
    {predictions : List Prediction} {passthrough : Members} :
    result host registry raw = .ok (predictions, passthrough) ↔
      ∃ request, (Request.decode raw).1 = .ok request ∧
        outcome host registry request = .predictions predictions ∧
        request.passthrough = passthrough := by
  unfold result
  cases hdecode : (Request.decode raw).1 with
  | error m => simp
  | ok request =>
    dsimp only
    cases hsettle : settle (registry.resolve request.selector).1.name
        (outcome host registry request) with
    | error f =>
      constructor
      · rintro ⟨⟩
      · rintro ⟨_, ⟨⟩, houtcome, -⟩
        rw [settle_eq_ok_iff.2 houtcome] at hsettle
        cases hsettle
    | ok list =>
      rw [settle_eq_ok_iff] at hsettle
      constructor
      · rintro ⟨⟩
        exact ⟨request, rfl, hsettle, rfl⟩
      · rintro ⟨_, ⟨⟩, houtcome, rfl⟩
        rw [hsettle] at houtcome
        cases houtcome
        rfl

/-- The failures that are reported are malformed requests and failed backends. -/
theorem result_eq_error {host : Host} {registry : Registry} {raw : List Char} {f : Failure}
    (h : result host registry raw = .error f) :
    (∃ message, f = .malformedRequest message) ∨
      ∃ backend message, f = .backendInvocation backend message := by
  unfold result at h
  split at h
  · cases h
    exact .inl ⟨_, rfl⟩
  · rename_i request hdecode
    cases hsettle : settle (registry.resolve request.selector).1.name
        (outcome host registry request) with
    | error f' =>
      rw [hsettle] at h
      cases h
      -- whatever the failure was, settling has put it behind the name of a backend
      exact .inr (settle_eq_error hsettle)
    | ok list =>
      rw [hsettle] at h
      cases h

/-- Every text frame is answered by one text, which reads back as a success with what the backend
predicted or as a failure with its words. It is a success just if the frame is a request and the
backend returned predictions, and no failure is that of a response that could not be written. -/
theorem handle_envelope (host : Host) (registry : Registry) (raw : List Char) :
    ∃ v, parse (handle host registry raw).response.toList = .ok v ∧
      ((∃ predictions, Response.IsSuccess predictions v) ↔
        ∃ request predictions, (Request.decode raw).1 = .ok request ∧
          outcome host registry request = .predictions predictions) ∧
      (∀ request predictions, (Request.decode raw).1 = .ok request →
        outcome host registry request = .predictions predictions →
        Response.IsSuccess predictions v) ∧
      ((¬ ∃ predictions, Response.IsSuccess predictions v) →
        ∃ f, result host registry raw = .error f ∧ Response.IsFailure f v ∧
          ∀ message, f ≠ .encode message) := by
  rw [response_handle]
  -- the two envelopes exclude each other, so each case settles both directions
  cases hresult : result host registry raw with
  | error f =>
    have hfailure : Response.IsFailure f (.object [(Request.errorField, .string f.message)]) := rfl
    have hnone : ∀ request predictions, (Request.decode raw).1 = .ok request →
        outcome host registry request ≠ .predictions predictions := by
      intro request predictions hdecode houtcome
      have hok := result_eq_ok_iff.2 ⟨request, hdecode, houtcome, rfl⟩
      rw [hresult] at hok
      cases hok
    refine ⟨_, Response.parse_encodeFailure f, ⟨fun h => ?_, ?_⟩, ?_, fun _ => ?_⟩
    · exact absurd h (Response.not_isSuccess_of_isFailure hfailure)
    · rintro ⟨request, predictions, hdecode, houtcome⟩
      exact absurd houtcome (hnone request predictions hdecode)
    · intro request predictions hdecode houtcome
      exact absurd houtcome (hnone request predictions hdecode)
    · refine ⟨f, rfl, hfailure, fun message => ?_⟩
      rcases result_eq_error hresult with ⟨_, rfl⟩ | ⟨_, _, rfl⟩ <;> simp
  | ok answer =>
    obtain ⟨predictions, passthrough⟩ := answer
    obtain ⟨request, hdecode, houtcome, rfl⟩ := result_eq_ok_iff.1 hresult
    have hreturnable := Request.returnable_passthrough hdecode
    have hsuccess := Response.isSuccess_success predictions hreturnable
    refine ⟨_, Response.parse_encode predictions hreturnable, ⟨fun _ => ?_, fun _ => ?_⟩, ?_,
      fun h => absurd ⟨predictions, hsuccess⟩ h⟩
    · exact ⟨request, predictions, hdecode, houtcome⟩
    · exact ⟨predictions, hsuccess⟩
    · intro request' predictions' hdecode' houtcome'
      rw [hdecode] at hdecode'
      cases hdecode'
      rw [houtcome] at houtcome'
      cases houtcome'
      exact hsuccess

end Dispatch

end Polyglot
