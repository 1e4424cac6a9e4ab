/-
The keys of a success. Whatever members of an object that was read are handed back, all of them or
some and under any keys, the response reads back as an object with the predictions first and then
those members, in order and with their values, but for the two names that only responses use. So a
request that is answered with predictions has its own keys handed back, each once and in the order of
first occurrence, less the names that mean something.
-/
import Polyglot.Proofs.Response.Echo
import Polyglot.Proofs.Response.Inquiries

namespace Polyglot

open Json Keyed Members

namespace Json

/-! ## Values inside others -/

/-- `Part v w`: the value `v` is `w` or stands somewhere inside it. -/
inductive Part (v : Json) : Json → Prop
  | self : Part v v
  | item {w : Json} {items : List Json} (h : Part v w) (hw : w ∈ items) : Part v (.array items)
  | member {m : String × Json} {members : Members} (h : Part v m.2) (hm : m ∈ members) :
      Part v (.object members)

theorem Part.regular {v w : Json} (h : Part v w) (hr : w.Regular) : v.Regular := by
  induction h with
  | self => exact hr
  | item _ hw ih =>
    cases hr with
    | array hall => exact ih (hall _ hw)
  | member _ hm ih =>
    cases hr with
    | object _ _ hall => exact ih (hall _ hm)

theorem Fits.succ {v : Json} {depth : Nat} (h : v.Fits depth) : v.Fits (depth + 1) := by
  induction v generalizing depth with
  | null | bool | number | string => trivial
  | array items ih =>
    cases depth with
    | zero => exact h.elim
    | succ depth => exact fun v hv => ih v hv (h v hv)
  | object members ih =>
    cases depth with
    | zero => exact h.elim
    | succ depth => exact fun m hm => ih m hm (h m hm)

theorem Part.fits {v w : Json} {depth : Nat} (h : Part v w) (hf : w.Fits depth) :
    v.Fits depth := by
  induction h generalizing depth with
  | self => exact hf
  | item _ hw ih =>
    cases depth with
    | zero => exact hf.elim
    | succ depth => exact (ih (hf _ hw)).succ
  | member _ hm ih =>
    cases depth with
    | zero => exact hf.elim
    | succ depth => exact (ih (hf _ hm)).succ

/-- The members of any object in a text that was read. -/
theorem kept_of_parse {raw : List Char} {v : Json} {members : Members}
    (hread : parse raw = .ok v) (hpart : Part (.object members) v) : Kept members := by
  obtain ⟨w, ⟨_, _, _, -, hspells, -, -⟩, hf, hr, rfl⟩ := parse_ok hread
  exact kept_of_object (hpart.regular (hspells.regular hr)) (hpart.fits hf.value)

end Json

namespace Response

theorem allowed_eq_filter (ms : Members) :
    allowed ms = ms.filter fun m => m.1 ∉ [Request.dataField, Request.errorField] := by
  refine List.filter_congr fun m _ => ?_
  by_cases hd : m.1 = Request.dataField <;> by_cases he : m.1 = Request.errorField <;>
    simp [hd, he]

theorem shows_all (predictions : List Prediction) :
    List.Forall₂ Shows predictions (predictions.map Prediction.toJson) := by
  rw [List.forall₂_map_right_iff]
  exact List.forall₂_same.2 fun p _ => shows_toJson p

/-- Members of an object that was read, all of them or some and under any keys, are handed back in
order and with their values behind the predictions, but for the two names that only responses use.
So the keys of the response to a request that is answered with predictions are those of the request,
each once and in the order of first occurrence, less the names that mean something. -/
theorem success_members :
    (∀ (raw : List Char) (v : Json) (members kept : Members) (predictions : List Prediction),
      parse raw = .ok v → Part (.object members) v → kept.Sublist members →
      ∃ items, List.Forall₂ Shows predictions items ∧
        parse (encode predictions kept).toList =
          .ok (.object ((Request.dataField, .array items) ::
            kept.filter fun m => m.1 ∉ [Request.dataField, Request.errorField]))) ∧
    ∀ (host : Host) (registry : Registry) (inquiry : Inquiry) (raw : List Char)
      (request : Request) (predictions : List Prediction),
      inquiry.text? = some raw → (Request.decode raw).1 = .ok request →
      Dispatch.outcome host registry request = .predictions predictions →
      ∃ members items, Document (.object members) raw ∧ List.Forall₂ Shows predictions items ∧
        parse (inquiry.response host registry).toList =
          .ok (.object ((Request.dataField, .array items) :: request.passthrough)) ∧
        keys request.passthrough =
          (members.map (·.1)).eraseDups.filter (· ∉ Request.named) ∧
        (Request.dataField :: keys request.passthrough).Nodup := by
  constructor
  · intro raw v members kept predictions hread hpart hsub
    have hkept : Kept kept := (kept_of_parse hread hpart).sublist hsub
    refine ⟨_, shows_all predictions, ?_⟩
    rw [parse_encode_of_kept predictions hkept, success, allowed_eq_filter]
  · intro host registry inquiry raw request predictions htext hdecode houtcome
    obtain ⟨members, hraw, -, -, -, hc⟩ := Request.decode_ok_iff.1 hdecode
    have hreturnable := Request.returnable_passthrough hdecode
    -- what decoding leaves out covers what encoding leaves out
    have hallowed : allowed request.passthrough = request.passthrough := allowed_eq hreturnable
    have hnodup := nodup_success hreturnable.kept
    have hresult := Dispatch.result_eq_ok_iff.2 ⟨request, hdecode, houtcome, rfl⟩
    refine ⟨members, _, hraw, shows_all predictions, ?_, ?_, ?_⟩
    · rw [Inquiry.response_eq, Inquiry.result_of_text? host registry htext, hresult]
      dsimp only
      rw [parse_encode predictions hreturnable, success, hallowed]
    · rw [hc.passthrough, Request.keys_passthrough]
    · rwa [hallowed] at hnodup

/-- An object with a key that only responses use, and one that a request means something by. -/
def mixed : Members := [("data", .null), ("content", .string "x"), ("id", .null)]

/-- Of the mixed members the first gives way to the predictions; and the request that has null handed
back gets its key back. -/
theorem success_members_mixed :
    (∃ items, List.Forall₂ Shows [] items ∧
      parse (encode [] mixed).toList =
        .ok (.object [("data", .array items), ("content", .string "x"), ("id", .null)])) ∧
    ∃ (request : Request) (members : List (String × Written)) (items : List Json),
      Document (.object members) Request.nullRequest.render ∧ List.Forall₂ Shows [] items ∧
      parse ((Inquiry.text Request.nullRequest.render).response Dispatch.quiet
        (.ofBackend Dispatch.silent)).toList =
          .ok (.object ((Request.dataField, .array items) :: request.passthrough)) ∧
      keys request.passthrough =
        (members.map (·.1)).eraseDups.filter (· ∉ Request.named) := by
  constructor
  · have hregular : (Json.object mixed).Regular := by
      refine .object (by decide) (by decide) ?_
      simpa [mixed] using ⟨Regular.null, Regular.string "x", Regular.null⟩
    have hread := parse_render hregular (by simp [mixed, Json.Fits, maxDepth])
    exact success_members.1 _ _ _ mixed [] hread .self (.refl _)
  · obtain ⟨request, hdecode⟩ := Request.decode_nullRequest
    have houtcome : Dispatch.outcome Dispatch.quiet (.ofBackend Dispatch.silent) request =
        .predictions [] := by
      rw [Dispatch.outcome, Dispatch.resolve_ofBackend]
      rfl
    obtain ⟨members, items, hraw, hitems, hparse, hkeys, -⟩ := success_members.2
      Dispatch.quiet (.ofBackend Dispatch.silent) (.text _) _ request [] rfl hdecode houtcome
    exact ⟨request, members, items, hraw, hitems, hparse, hkeys⟩

end Response

end Polyglot
