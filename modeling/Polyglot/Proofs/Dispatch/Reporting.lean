/-
How failures are reported. Whatever goes wrong on the way, be it a frame that is no request, a failure
or a crash of the backend, or a task of one of the built-in backends that does not come to its end,
the failure names the backend once, and it is reported twice: the response reads back to its words,
and one warning says them. Nothing else on the way is a warning, but for what backends log themselves.
-/
import Polyglot.Proofs.Dispatch.Routing

namespace Polyglot

open Json

/-! ## Warnings -/

/-- The warnings among events, in words. -/
def warnings (events : List Event) : List String :=
  (events.filter fun event => event.level = .warn).map Event.message

theorem warnings_append (events more : List Event) :
    warnings (events ++ more) = warnings events ++ warnings more := by
  unfold warnings
  rw [List.filter_append, List.map_append]

theorem warnings_eq_nil {events : List Event} (h : ∀ event ∈ events, event.level ≠ .warn) :
    warnings events = [] := by
  unfold warnings
  rw [List.map_eq_nil_iff, List.filter_eq_nil_iff]
  intro event hevent
  simpa using h event hevent

namespace Request

theorem Draft.level_take {draft next : Draft} {key : String} {value : Json} {events : List Event}
    (h : draft.take key value = .ok (next, events)) : ∀ event ∈ events, event.level = .debug := by
  unfold Draft.take at h
  split_ifs at h
  · cases value <;> cases h
    simp
  · cases value <;> cases h <;> simp [Event.level]
  · cases value <;> cases h <;> simp [Event.level]
  · cases h
    simp [Event.level]
  · cases h
    simp

theorem Draft.level_takeAll (draft : Draft) (members : Members) :
    ∀ event ∈ (draft.takeAll members).2, event.level = .debug := by
  induction members generalizing draft with
  | nil => simp [takeAll]
  | cons m members ih =>
    obtain ⟨key, value⟩ := m
    rw [takeAll]
    cases htake : draft.take key value with
    | error m => simp
    | ok taken =>
      obtain ⟨next, events⟩ := taken
      intro event hevent
      rcases List.mem_append.1 hevent with hevent | hevent
      · exact level_take htake event hevent
      · exact ih next event hevent

/-- Reading a request warns of nothing. -/
theorem level_decode (raw : List Char) : ∀ event ∈ (decode raw).2, event.level = .debug := by
  unfold decode
  split
  · simp
  · rw [events_ofMembers]
    exact Draft.level_takeAll _ _
  · simp

end Request

theorem Registry.level_resolve (registry : Registry) (selector : Option String) :
    ∀ event ∈ (registry.resolve selector).2, event.level = .debug := by
  unfold resolve
  split
  · simp
  · split <;> simp [Event.level]

namespace Dispatch

theorem warnings_decode (raw : List Char) : warnings (Request.decode raw).2 = [] := by
  refine warnings_eq_nil fun event hevent => ?_
  rw [Request.level_decode raw event hevent]
  decide

/-- Choosing a backend warns of nothing. -/
theorem warnings_accept (registry : Registry) (raw : List Char) :
    warnings (accept registry raw).2 = [] := by
  have hdecode := Request.level_decode raw
  refine warnings_eq_nil fun event hevent => ?_
  have hlevel : event.level = .debug := by
    unfold accept at hevent
    generalize Request.decode raw = decoded at hdecode hevent
    rcases decoded with ⟨m | request, events⟩
    · exact hdecode event hevent
    · rcases List.mem_append.1 hevent with hevent | hevent
      · rcases List.mem_append.1 hevent with hevent | hevent
        · exact hdecode event hevent
        · exact Registry.level_resolve registry request.selector event hevent
      · rw [List.mem_singleton.1 hevent]
        rfl
  rw [hlevel]
  decide

/-! ## Reports -/

/-- A frame is answered with the words of a failure and nothing else, and beside the backend's own
warnings there is one, which says the same words. -/
def Reports (own : List Event) (words : String) (handled : Handled) : Prop :=
  parse handled.response.toList = .ok (.object [(Request.errorField, .string words)]) ∧
  warnings handled.events = warnings own ++ ["Request failed: " ++ words]

variable {host : Host} {registry : Registry} {raw : List Char}

theorem reports_refuse {before own : List Event} (h : warnings before = []) (f : Failure)
    (calls : List Call) (parses : Nat) : Reports own f.message
      ⟨(refuse f).1, before ++ own ++ (refuse f).2, calls, parses⟩ := by
  refine ⟨Response.parse_encodeFailure f, ?_⟩
  rw [warnings_append, warnings_append, h, List.nil_append]
  rfl

theorem reports_of_error {m : Malformation} (h : (Request.decode raw).1 = .error m) :
    Reports [] m.failure.message (handle host registry raw) := by
  rw [handle_of_error h]
  simpa using @reports_refuse _ [] (warnings_decode raw) m.failure [] 0

theorem reports_notUtf8 {bytes : List UInt8} {fault : Text.Utf8.Fault}
    (h : Text.Utf8.decode bytes = .error fault) :
    Reports [] (Malformation.notUtf8 fault).failure.message (handleBytes host registry bytes) := by
  rw [handleBytes, h]
  exact @reports_refuse [] [] rfl (Malformation.notUtf8 fault).failure [] 0

section Accepted

variable {request : Request} (h : (Request.decode raw).1 = .ok request)

include h

/-- The failure that an outcome settles to is the one that is reported. -/
theorem reports_of_settle {f : Failure}
    (hf : settle (callFor registry request).backend.name
      ((callFor registry request).reply host).outcome = .error f) :
    Reports ((callFor registry request).reply host).events f.message
      (handle host registry raw) := by
  rw [handle_of_ok h, answer, hf]
  exact reports_refuse (warnings_accept registry raw) f _ _

theorem warnings_of_predictions {list : List Prediction}
    (hlist : ((callFor registry request).reply host).outcome = .predictions list) :
    warnings (handle host registry raw).events =
      warnings ((callFor registry request).reply host).events := by
  rw [handle_of_ok h, answer, settle_eq_ok_iff.2 hlist]
  dsimp only
  rw [List.append_nil, warnings_append, warnings_accept, List.nil_append]

end Accepted

end Dispatch

/-! ## Tasks -/

/-- A task does not come to its end: the process takes none, or the work crashes. -/
inductive TaskFailure.Befalls (host : Host) (crashes : Crash → Prop) : TaskFailure → Prop where
  | cancelled : host.takesTasks = false → Befalls host crashes .cancelled
  | crashed {crash : Crash} : host.takesTasks = true → crashes crash →
    Befalls host crashes (.crashed crash)

namespace Backend

variable {host : Host} {content : String} {options : Members} {f : TaskFailure}

theorem detect_ranking_of_befalls {limits : Ranking.Limits}
    (h : f.Befalls host fun crash =>
      (Ranking.run host.grammars limits content.toList).result = .error (.crash crash)) :
    ((ranking limits).detect host content options).outcome = rankingTaskFailure host f := by
  unfold ranking
  cases h with
  | cancelled hhost => simp [hhost]
  | crashed hhost hcrash => simp [hhost, hcrash]

theorem events_detect_ranking (limits : Ranking.Limits) :
    ((ranking limits).detect host content options).events = [] := by
  unfold ranking
  dsimp only
  split_ifs <;> rfl

theorem detect_guessing_of_befalls
    {work : Page → Members → Except Crash (List (String × Score))}
    (h : f.Befalls host fun crash => work (Page.ofText content.toList) options = .error crash) :
    (guessing work).detect host content options = ⟨guessingTaskFailure host f, [], 0⟩ := by
  unfold guessing
  cases h with
  | cancelled hhost => simp [hhost]
  | crashed hhost hcrash => simp [hhost, hcrash]

theorem warnings_detect_guessing (work : Page → Members → Except Crash (List (String × Score))) :
    warnings ((guessing work).detect host content options).events = [] := by
  unfold guessing
  dsimp only
  split_ifs
  · split
    · refine warnings_eq_nil fun event hevent => ?_
      obtain ⟨score, -, rfl⟩ := List.mem_map.1 hevent
      simp [Event.level]
    · rfl
  · rfl

end Backend

/-! ## The report of every failure -/

namespace Dispatch

/-- A frame that is no request is reported in its own words. Of a request, predictions are no
warning; a failure that the backend reports as its own is reported in its own words, and any other
one, and a crash, behind the name of the backend. So are tasks of the built-in backends that do not
come to their end, and these backends warn of nothing themselves. -/
theorem reported_once (host : Host) (registry : Registry) (raw : List Char) :
    let handled := handle host registry raw
    (∀ m, (Request.decode raw).1 = .error m → Reports [] m.failure.message handled) ∧
    (∀ request, (Request.decode raw).1 = .ok request →
      let backend := (registry.resolve request.selector).1
      let reply := backend.detect host request.content request.options
      let blames words :=
        Reports reply.events ("Backend '" ++ backend.name ++ "' failed: " ++ words) handled
      (∀ list, reply.outcome = .predictions list →
        warnings handled.events = warnings reply.events) ∧
      (∀ name message, reply.outcome = .failure (.backendInvocation name message) →
        Reports reply.events ("Backend '" ++ name ++ "' failed: " ++ message) handled) ∧
      (∀ f, reply.outcome = .failure f → (∀ name message, f ≠ .backendInvocation name message) →
        blames f.message) ∧
      (∀ words, reply.outcome = .crash (.text words) → blames ("panicked: " ++ words)) ∧
      (reply.outcome = .crash .wordless → blames "panicked") ∧
      (∀ limits, backend = .ranking limits → warnings reply.events = [] ∧
        ∀ f : TaskFailure, (f.Befalls host fun crash =>
            (Ranking.run host.grammars limits request.content.toList).result =
              .error (.crash crash)) →
          blames ("Model failure: " ++ ("model task did not complete: " ++ f.message host.task))) ∧
      (∀ work, backend = .guessing work → warnings reply.events = [] ∧
        ∀ f : TaskFailure, (f.Befalls host fun crash =>
            work (Page.ofText request.content.toList) request.options = .error crash) →
          blames ("rule task did not complete: " ++ f.message host.task))) ∧
    (∀ bytes fault, Text.Utf8.decode bytes = .error fault →
      Reports [] (Malformation.notUtf8 fault).failure.message (handleBytes host registry bytes)) ∧
    ∀ bytes, Text.Utf8.decode bytes = .ok raw → handleBytes host registry bytes = handled := by
  intro handled
  refine ⟨fun m => reports_of_error, fun request hrequest => ?_, fun bytes fault => reports_notUtf8,
    fun bytes hbytes => ?_⟩
  · intro backend reply blames
    have hreports {f : Failure} (hf : settle backend.name reply.outcome = .error f) :
        Reports reply.events f.message handled := reports_of_settle hrequest hf
    refine ⟨fun list => warnings_of_predictions hrequest, ?_, ?_, ?_, ?_, ?_, ?_⟩
    · intro name message houtcome
      exact hreports (f := .backendInvocation name message) (by rw [houtcome]; rfl)
    · intro f houtcome hother
      refine hreports (f := .backendInvocation backend.name f.message) ?_
      rw [houtcome]
      cases f with
      | backendInvocation name message => exact absurd rfl (hother name message)
      | _ => rfl
    · intro words houtcome
      exact hreports (f := .backendInvocation backend.name _) (by rw [houtcome]; rfl)
    · intro houtcome
      exact hreports (f := .backendInvocation backend.name _) (by rw [houtcome]; rfl)
    · intro limits hbackend
      constructor
      · show warnings (backend.detect host request.content request.options).events = []
        rw [hbackend, Backend.events_detect_ranking]
        rfl
      · intro f hf
        have houtcome : reply.outcome = Backend.rankingTaskFailure host f := by
          show (backend.detect host request.content request.options).outcome = _
          rw [hbackend, Backend.detect_ranking_of_befalls hf]
        exact hreports (f := .backendInvocation backend.name _) (by rw [houtcome]; rfl)
    · intro work hbackend
      constructor
      · show warnings (backend.detect host request.content request.options).events = []
        rw [hbackend, Backend.warnings_detect_guessing]
      · intro f hf
        have hreply : reply = _ := hbackend ▸ Backend.detect_guessing_of_befalls hf
        -- here the wrapping names the rules, and the words say so too
        have hname : backend.name = Backend.rulesName := by
          rw [hbackend]
          rfl
        show Reports reply.events ("Backend '" ++ backend.name ++ _ ++ _) handled
        rw [hname]
        exact hreports (f := .backendInvocation Backend.rulesName _) (by rw [hreply]; rfl)
  · rw [handleBytes, hbytes]

/-- A process that takes no tasks: a request that the rules are to answer is reported with the name of
their backend, and a frame without any text in its own words. -/
theorem reported_once_cancelled :
    let host : Host := ⟨.lenient, false, "7"⟩
    let registry := Registry.ofBackend .rules
    (∃ request, (Request.decode Request.nullRequest.render).1 = .ok request ∧
      (registry.resolve request.selector).1 = .rules ∧
      TaskFailure.cancelled.Befalls host (fun _ => False) ∧
      Reports [] ("Backend 'vscode-regexp-languagedetection' failed: " ++
          "rule task did not complete: task 7 was cancelled")
        (handle host registry Request.nullRequest.render)) ∧
    ∃ m, (Request.decode []).1 = .error m ∧ Reports [] m.failure.message (handle host registry []) := by
  intro host registry
  have hcancelled {crashes : Crash → Prop} : TaskFailure.cancelled.Befalls host crashes :=
    .cancelled rfl
  obtain ⟨request, hrequest⟩ := Request.decode_nullRequest
  have hbackend : (registry.resolve request.selector).1 = .rules := resolve_ofBackend _ _
  obtain ⟨-, haccepted, -, -⟩ := reported_once host registry Request.nullRequest.render
  obtain ⟨-, -, -, -, -, -, hrules⟩ := haccepted request hrequest
  have hreports := (hrules _ hbackend).2 _ hcancelled
  rw [hbackend] at hreports
  refine ⟨⟨request, hrequest, hbackend, hcancelled, hreports⟩, ?_⟩
  cases hempty : (Request.decode []).1 with
  | error m => exact ⟨m, rfl, (reported_once host registry []).1 m hempty⟩
  | ok request =>
    have hfails : (Request.decode []).1.isOk = false := by decide +kernel
    rw [hempty] at hfails
    cases hfails

end Dispatch

end Polyglot
