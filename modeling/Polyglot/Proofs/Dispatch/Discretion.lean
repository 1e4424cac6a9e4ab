/-
What the log says about requests. On the way to a backend events name the members that have a meaning
of their own, the types of two values, the selector, the size of the content and the number of members
that are handed back. Requests that agree in these leave the same log, whatever else they hold, if
the backend that they are for answers both with predictions and logs nothing itself.
-/
import Polyglot.Proofs.Dispatch.Routing

namespace Polyglot

open Json Members

namespace Request

variable {draft next : Draft} {key : String} {value : Json} {members members' : Members}

/-! ## Remarks on members -/

/-- The names of members that may be remarked upon. -/
def remarkable : List String := [selectorField, optionsField, dataField, errorField]

theorem remarks_of_not_mem {typeName : String} (h : key ∉ remarkable) :
    remarks key typeName = [] := by
  simp only [remarkable, List.mem_cons, List.not_mem_nil, or_false, not_or] at h
  obtain ⟨hs, ho, hd, he⟩ := h
  rw [remarks, if_neg hs, if_neg ho, if_neg (not_or.2 ⟨hd, he⟩)]

theorem events_take {events : List Event} (h : draft.take key value = .ok (next, events)) :
    events = remarks key value.typeName := by
  rw [take_eq] at h
  cases hcontent : contentAfter draft.content (find? contentField [(key, value)]) with
  | error m =>
    rw [hcontent] at h
    cases h
  | ok content =>
    rw [hcontent] at h
    cases h
    rfl

/-- Of members that are all taken up each is remarked upon in its turn. -/
theorem events_takeAll (h : (draft.takeAll members).1 = .ok next) :
    (draft.takeAll members).2 = members.flatMap fun m => remarks m.1 m.2.typeName := by
  induction members generalizing draft with
  | nil => rfl
  | cons m members ih =>
    obtain ⟨key, value⟩ := m
    rw [Draft.takeAll] at h ⊢
    cases htake : draft.take key value with
    | error m =>
      rw [htake] at h
      cases h
    | ok taken =>
      obtain ⟨taken, events⟩ := taken
      rw [htake] at h
      rw [List.flatMap_cons, ← ih h, ← events_take htake]

/-! ## What remarks depend on -/

/-- The keys of the members that may be remarked upon, in order. -/
def remarked (members : Members) : List String := (keys members).filter (· ∈ remarkable)

/-- The type of the value under a key. -/
def typeOf? (key : String) (members : Members) : Option String :=
  (find? key members).map typeName

theorem typeOf?_of_mem (hn : (keys members).Nodup) (h : (key, value) ∈ members) :
    typeOf? key members = some value.typeName := by
  induction members with
  | nil => cases h
  | cons m members ih =>
    obtain ⟨k, v⟩ := m
    rw [keys_cons, List.nodup_cons] at hn
    rcases List.mem_cons.1 h with heq | hmem
    · cases heq
      simp [typeOf?, find?]
    · have hne : k ≠ key := by
        rintro rfl
        exact hn.1 (List.mem_map_of_mem hmem)
      rw [← ih hn.2 hmem]
      simp [typeOf?, find?, hne]

theorem flatMap_filter {α β : Type} {p : α → Bool} {f : α → List β} {as : List α}
    (h : ∀ a ∈ as, p a = false → f a = []) : (as.filter p).flatMap f = as.flatMap f := by
  induction as with
  | nil => rfl
  | cons a as ih =>
    rw [List.forall_mem_cons] at h
    rw [List.flatMap_cons, ← ih h.2]
    cases hp : p a with
    | true => rw [List.filter_cons_of_pos hp, List.flatMap_cons]
    | false => rw [List.filter_cons_of_neg (by simp [hp]), h.1 hp, List.nil_append]

theorem flatMap_remarks (hn : (keys members).Nodup) :
    (members.flatMap fun m => remarks m.1 m.2.typeName) =
      (remarked members).flatMap fun key => remarks key ((typeOf? key members).getD "") := by
  rw [remarked, flatMap_filter, keys, List.flatMap_map]
  · refine List.flatMap_congr fun m hm => ?_
    rw [typeOf?_of_mem hn hm, Option.getD_some]
  · intro key _ hkey
    exact remarks_of_not_mem (by simpa using hkey)

/-- Members with the same keys to remark upon, in the same order and with the same types where these
matter, are remarked upon alike. -/
theorem flatMap_remarks_congr (hn : (keys members).Nodup) (hn' : (keys members').Nodup)
    (horder : remarked members = remarked members')
    (hselector : typeOf? selectorField members = typeOf? selectorField members')
    (hoptions : typeOf? optionsField members = typeOf? optionsField members') :
    (members.flatMap fun m => remarks m.1 m.2.typeName) =
      members'.flatMap fun m => remarks m.1 m.2.typeName := by
  rw [flatMap_remarks hn, flatMap_remarks hn', horder]
  refine List.flatMap_congr fun key hkey => ?_
  have hkey : key ∈ remarkable := by simpa using (List.mem_filter.1 hkey).2
  simp only [remarkable, List.mem_cons, List.not_mem_nil, or_false] at hkey
  rcases hkey with rfl | rfl | rfl | rfl
  · rw [hselector]
  · rw [hoptions]
  · rfl
  · rfl

/-! ## Requests -/

/-- The text is an object with the given members, and it is accepted as the given request. -/
structure Accepts (raw : List Char) (members : Members) (request : Request) : Prop where
  object : parse raw = .ok (.object members)
  accepted : (decode raw).1 = .ok request

theorem Accepts.nodup {raw : List Char} {request : Request} (h : Accepts raw members request) :
    (keys members).Nodup := by
  obtain ⟨w, ⟨_, _, _, -, hspells, -, -⟩, -, hr, hw⟩ := parse_ok h.object
  have hregular := hspells.regular hr
  rw [hw] at hregular
  cases hregular with
  | object hn _ _ => exact hn

/-- What is logged while a request is read is what there is to remark upon its members. -/
theorem Accepts.events {raw : List Char} {request : Request} (h : Accepts raw members request) :
    (decode raw).2 = members.flatMap fun m => remarks m.1 m.2.typeName := by
  have hdecode : decode raw = ofMembers members := by rw [decode, h.object]
  have hok := h.accepted
  rw [hdecode, ofMembers_eq h.nodup] at hok
  rw [hdecode, events_ofMembers]
  split at hok
  · rename_i content hcontent
    have htake := takeAll_eq Draft.start h.nodup
    rw [hcontent] at htake
    exact events_takeAll htake
  · cases hok
  · cases hok

/-- The requests look alike from outside: they ask for the same backend, the values under the names of
the selector and of the options have the same types, the contents are of one size, as many members
are handed back, and the members that may be remarked upon stand in the same order. -/
structure LookAlike (members members' : Members) (request request' : Request) : Prop where
  selector : request.selector = request'.selector
  selectorType : typeOf? selectorField members = typeOf? selectorField members'
  optionsType : typeOf? optionsField members = typeOf? optionsField members'
  order : remarked members = remarked members'
  size : request.content.utf8ByteSize = request'.content.utf8ByteSize
  fields : request.passthrough.length = request'.passthrough.length

end Request

/-- The reply is predictions, and nothing was logged for it. -/
def Reply.IsUnlogged (reply : Reply) : Prop :=
  reply.events = [] ∧ ∃ list, reply.outcome = .predictions list

namespace Dispatch

variable {host host' : Host} {registry : Registry} {raw raw' : List Char}
  {request request' : Request}

/-! ## The log of a frame -/

theorem events_accept (h : (Request.decode raw).1 = .ok request) :
    (accept registry raw).2 = (Request.decode raw).2 ++ (registry.resolve request.selector).2 ++
      [.dispatching request.content.utf8ByteSize (registry.resolve request.selector).1.name
        request.passthrough.length] := by
  rw [accept]
  generalize Request.decode raw = decoded at h
  obtain ⟨result, events⟩ := decoded
  dsimp only at h
  subst h
  rfl

theorem events_handle (h : (Request.decode raw).1 = .ok request)
    (hreply : ((callFor registry request).reply host).IsUnlogged) :
    (handle host registry raw).events = (accept registry raw).2 := by
  obtain ⟨hevents, list, hlist⟩ := hreply
  rw [handle_of_ok h, hevents, hlist]
  simp [answer, settle]

/-- Two requests that look alike from outside leave the same log, event by event and at all levels, if
the backend that they are for answers both with predictions and logs nothing itself. So what the
content says, what is handed back and under which keys, the options and the predictions are never
in the log. -/
theorem log_of_lookAlike (registry : Registry) {members members' : Members}
    (h : Request.Accepts raw members request) (h' : Request.Accepts raw' members' request')
    (halike : Request.LookAlike members members' request request')
    (hreply : ((callFor registry request).reply host).IsUnlogged)
    (hreply' : ((callFor registry request').reply host').IsUnlogged) :
    (handle host registry raw).events = (handle host' registry raw').events := by
  have hremarks := Request.flatMap_remarks_congr h.nodup h'.nodup halike.order
    halike.selectorType halike.optionsType
  rw [events_handle h.accepted hreply, events_handle h'.accepted hreply',
    events_accept h.accepted, events_accept h'.accepted, h.events, h'.events, hremarks,
    halike.selector, halike.size, halike.fields]

/-- A request in which much is out of order. -/
def odd : Members :=
  [("data", .null), ("content", .string "abc"), ("id", .string "x"), ("model", .bool true)]

/-- Another one, which says something else wherever it can. -/
def odder : Members :=
  [("secret", .null), ("data", .array []), ("model", .bool false), ("content", .string "xyz")]

/-- The two requests leave the same log. -/
theorem log_of_lookAlike_odd :
    (handle quiet (.ofBackend silent) (Json.object odd).render).events =
      (handle quiet (.ofBackend silent) (Json.object odder).render).events := by
  have hodd : Request.Accepts (Json.object odd).render odd
      ⟨"abc", none, [], [("id", .string "x")]⟩ := by
    have hregular : (Json.object odd).Regular := by
      refine .object (by decide) (by decide) ?_
      simpa [odd] using ⟨Regular.null, Regular.string "abc", Regular.string "x", Regular.bool true⟩
    have hfits : (Json.object odd).Fits maxDepth := by simp [odd, Json.Fits, maxDepth]
    exact ⟨parse_render hregular hfits, by rw [Request.decode_render hregular hfits]; rfl⟩
  have hodder : Request.Accepts (Json.object odder).render odder
      ⟨"xyz", none, [], [("secret", .null)]⟩ := by
    have hregular : (Json.object odder).Regular := by
      refine .object (by decide) (by decide) ?_
      simpa [odder] using ⟨Regular.null, Regular.array (by simp), Regular.bool false,
        Regular.string "xyz"⟩
    have hfits : (Json.object odder).Fits maxDepth := by simp [odder, Json.Fits, maxDepth]
    exact ⟨parse_render hregular hfits, by rw [Request.decode_render hregular hfits]; rfl⟩
  have hunlogged (request : Request) :
      ((callFor (.ofBackend silent) request).reply quiet).IsUnlogged := by
    rw [callFor, resolve_ofBackend]
    exact ⟨rfl, [], rfl⟩
  exact log_of_lookAlike _ hodd hodder ⟨rfl, rfl, rfl, rfl, rfl, rfl⟩ (hunlogged _) (hunlogged _)

end Dispatch

end Polyglot
