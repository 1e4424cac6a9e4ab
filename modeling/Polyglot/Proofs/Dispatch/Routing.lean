/-
Which backend is called for a frame. A frame that is no request reaches none. A request reaches one,
once: the one registered last under the name that it asks for, and for no name or an unknown one the
default, with its own content and options. What comes of the frame is what comes of that call, so
with any other backends in the places of the rest it would be the same.
-/
import Polyglot.Proofs.Registry.History
import Polyglot.Proofs.Response.Echo

namespace Polyglot

open Json Members

/-! ## The backend that is chosen -/

namespace Registry

variable {first : Backend} {changes : List Change} {r : Registry}

/-- The backend that a history of changes gives to a selector: the one registered last under it, else
the one registered last under the name of the default. -/
def chosen? (first : Backend) (changes : List Change) (selector : Option String) :
    Option Backend :=
  (selector.bind (newest? first changes)).or (newest? first changes (standing first changes))

theorem Recounts.chosen? (h : Recounts first changes r) (selector : Option String) :
    chosen? first changes selector = some (r.resolve selector).1 := by
  rw [Registry.chosen?, h.default]
  cases selector with
  | none => rfl
  | some name =>
    rw [h.resolve, Option.bind_some]
    cases newest? first changes name <;> rfl

/-- The registry with another backend in the place of each. -/
def exchange (f : Backend → Backend) (r : Registry) : Registry :=
  ⟨r.backends.map fun (key, b) => (key, f b), f r.default⟩

/-- Backends are chosen by their names alone. -/
theorem resolve_exchange {f : Backend → Backend} (hname : ∀ b, (f b).name = b.name) (r : Registry)
    (selector : Option String) :
    (r.exchange f).resolve selector = (f (r.resolve selector).1, (r.resolve selector).2) := by
  have hfind : ∀ name, (r.exchange f).find? name = (r.find? name).map f := by
    intro name
    show (r.backends.map fun entry => (entry.1, f entry.2)).lookup name = _
    rw [find?]
    induction r.backends with
    | nil => rfl
    | cons entry rest ih =>
      rw [List.map_cons, lookup_cons, lookup_cons, ih]
      split_ifs <;> rfl
  cases selector with
  | none => rfl
  | some name =>
    rw [resolve, resolve, hfind]
    cases r.find? name with
    | none => simp [exchange, hname]
    | some b => rfl

end Registry

/-- What a backend makes of a call. -/
def Call.reply (host : Host) (call : Call) : Reply :=
  call.backend.detect host call.request.content call.request.options

namespace Dispatch

variable {host : Host} {registry : Registry} {raw : List Char}

/-! ## What handling comes to -/

theorem handle_of_error {m : Malformation} (h : (Request.decode raw).1 = .error m) :
    handle host registry raw =
      ⟨(refuse m.failure).1, (Request.decode raw).2 ++ (refuse m.failure).2, [], 0⟩ := by
  rw [handle, accept]
  generalize Request.decode raw = decoded at h
  obtain ⟨result, events⟩ := decoded
  dsimp only at h
  subst h
  rfl

/-- The call that a request leads to. -/
def callFor (registry : Registry) (request : Request) : Call :=
  ⟨(registry.resolve request.selector).1, request⟩

theorem handle_of_ok {request : Request} (h : (Request.decode raw).1 = .ok request) :
    let call := callFor registry request
    let answered := answer call (call.reply host).outcome
    handle host registry raw = ⟨answered.1,
      (accept registry raw).2 ++ (call.reply host).events ++ answered.2, [call],
      (call.reply host).parses⟩ := by
  rw [handle, accept]
  generalize Request.decode raw = decoded at h
  obtain ⟨result, events⟩ := decoded
  dsimp only at h
  subst h
  rfl

/-- What is logged before the call depends on the names of the backends only. -/
theorem events_accept_exchange {f : Backend → Backend} (hname : ∀ b, (f b).name = b.name) :
    (accept (registry.exchange f) raw).2 = (accept registry raw).2 := by
  rw [accept, accept]
  generalize Request.decode raw = decoded
  obtain ⟨result, events⟩ := decoded
  cases result with
  | error m => rfl
  | ok request => simp [Registry.resolve_exchange hname, hname]

theorem callFor_exchange {f : Backend → Backend} (hname : ∀ b, (f b).name = b.name)
    (registry : Registry) (request : Request) :
    callFor (registry.exchange f) request = ⟨f (callFor registry request).backend, request⟩ := by
  rw [callFor, callFor, Registry.resolve_exchange hname]

theorem answer_exchange {f : Backend → Backend} (hname : ∀ b, (f b).name = b.name)
    (registry : Registry) (request : Request) (outcome : Outcome) :
    answer (callFor (registry.exchange f) request) outcome =
      answer (callFor registry request) outcome := by
  rw [callFor_exchange hname, answer, answer, hname]
  rfl

/-- With other backends of the same names in the places of all, a request comes to the same if the
one that it is for makes the same of it. -/
theorem handle_exchange {f : Backend → Backend} (hname : ∀ b, (f b).name = b.name)
    {request : Request} (h : (Request.decode raw).1 = .ok request)
    (hsame : (callFor (registry.exchange f) request).reply host =
      (callFor registry request).reply host) :
    handle host (registry.exchange f) raw =
      { handle host registry raw with calls := [callFor (registry.exchange f) request] } := by
  rw [handle_of_ok h, handle_of_ok h, hsame, events_accept_exchange hname, answer_exchange hname]

/-- A frame that is no request reaches no backend, and is answered the same whatever backends there
are. Any other makes exactly one call: of the backend registered last under the name that the last
`model` member has if it is a text and registered, and of the default otherwise; with the text of the
last content and the members of the last bias. What that call comes to, whether it succeeds, fails
or crashes, is all there is: what it logs is logged once, and with any backends of the same names in
the places of the others, or in its own if it makes the same of this request, the frame comes to the
same. -/
theorem routed (host : Host) (first : Backend) (changes : List Registry.Change)
    (raw : List Char) :
    let registry := Registry.after first changes
    let handled := handle host registry raw
    (∀ m, (Request.decode raw).1 = .error m →
      handled.calls = [] ∧ handled.parses = 0 ∧
        ∀ host' registry', handle host' registry' raw = handled) ∧
    ∀ request, (Request.decode raw).1 = .ok request →
      ∃ members backend, Document (.object members) raw ∧ Request.Classified members request ∧
        Registry.chosen? first changes request.selector = some backend ∧
        handled.calls = [⟨backend, request⟩] ∧
        let reply := backend.detect host request.content request.options
        handled.response = (answer ⟨backend, request⟩ reply.outcome).1 ∧
        handled.events = (accept registry raw).2 ++ reply.events ++
          (answer ⟨backend, request⟩ reply.outcome).2 ∧
        handled.parses = reply.parses ∧
        ∀ f : Backend → Backend, (∀ b, (f b).name = b.name) →
          (f backend).detect host request.content request.options = reply →
          handle host (registry.exchange f) raw =
            { handled with calls := [⟨f backend, request⟩] } := by
  intro registry handled
  constructor
  · intro m hm
    have hrefused : ∀ host' registry', handle host' registry' raw = _ :=
      fun host' registry' => handle_of_error hm
    refine ⟨?_, ?_, fun host' registry' => ?_⟩
    · exact congrArg Handled.calls (hrefused host registry)
    · exact congrArg Handled.parses (hrefused host registry)
    · exact (hrefused host' registry').trans (hrefused host registry).symm
  · intro request hrequest
    obtain ⟨members, hraw, -, -, -, hclassified⟩ := Request.decode_ok_iff.1 hrequest
    have hrecounts : registry.Recounts first changes := Registry.recounts_after first changes
    have hhandled : handled = _ := handle_of_ok hrequest
    refine ⟨members, (registry.resolve request.selector).1, hraw, hclassified,
      hrecounts.chosen? request.selector, ?_, ?_, ?_, ?_, fun f hname hsame => ?_⟩
    · exact congrArg Handled.calls hhandled
    · exact congrArg Handled.response hhandled
    · exact congrArg Handled.events hhandled
    · exact congrArg Handled.parses hhandled
    · -- it is the newest backend of its name there too, and makes the same of the request
      have hcall := callFor_exchange hname registry request
      rw [handle_exchange hname hrequest (hcall ▸ hsame), hcall]
      rfl

/-- A backend that crashes on everything. -/
def crashing (name : String) : Backend := ⟨name, fun _ _ _ => ⟨.crash .wordless, [], 0⟩⟩

/-- A request that asks for a backend by name. -/
def asking : Members :=
  [(Request.contentField, .string "x"), (Request.selectorField, .string "silent")]

/-- A request for a name that was registered twice reaches the newer backend, also where the default
is another one. -/
theorem routed_newer : ∃ request, (Request.decode (Json.object asking).render).1 = .ok request ∧
    (handle quiet (Registry.after (crashing "default")
      [.register silent, .register (crashing "silent")]) (Json.object asking).render).calls =
        [⟨silent, request⟩] := by
  have hregular : (Json.object asking).Regular := by
    refine .object (by decide) (by decide) ?_
    simpa [asking] using ⟨Regular.string "x", Regular.string "silent"⟩
  have hfits : (Json.object asking).Fits maxDepth := by simp [asking, Json.Fits, maxDepth]
  have hrequest : (Request.decode (Json.object asking).render).1 =
      .ok ⟨"x", some "silent", [], []⟩ := by
    rw [Request.decode_render hregular hfits]
    rfl
  obtain ⟨members, backend, -, -, hchosen, hcalls, -⟩ := (routed quiet (crashing "default")
    [.register silent, .register (crashing "silent")] _).2 _ hrequest
  have hsilent : Registry.chosen? (crashing "default")
      [.register silent, .register (crashing "silent")] (some "silent") = some silent := rfl
  rw [hsilent, Option.some.injEq] at hchosen
  exact ⟨_, hrequest, hchosen ▸ hcalls⟩

end Dispatch

end Polyglot
