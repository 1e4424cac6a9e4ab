/-
Which texts are requests, and what they ask for. The members of an object are taken up one after the
other, but since each key is there once the outcome is a matter of what stands under the names that
mean something, whatever the order: `ofMembers_eq` states it at once for all members.

With the grammar of texts this says which texts are accepted and how their members are classified.
-/
import Polyglot.Proofs.Json.Printing
import Polyglot.Request

namespace Polyglot.Request

open Json Keyed Members

/-! ## Members taken up -/

/-- The text that a value is. -/
def text? : Json → Option String
  | .string s => some s
  | _ => none

/-- The members of the object that a value is. -/
def members? : Json → Option Members
  | .object members => some members
  | _ => none

/-- The names of the members that are not handed back. -/
def named : List String := [contentField, selectorField, optionsField, dataField, errorField]

/-- The members that are handed back. -/
def handedBack {α : Type} (ms : List (String × α)) : List (String × α) :=
  ms.filter fun m => m.1 ∉ named

/-- The content once a value under its name has been seen, or none. -/
def contentAfter (before : Option String) : Option Json → Except Malformation (Option String)
  | none => .ok before
  | some (.string s) => .ok (some s)
  | some v => .error (.contentType v.typeName)

/-- What a draft says with the given content, once members have been taken up. -/
def Draft.extended (draft : Draft) (members : Members) (content : Option String) : Draft where
  content := content
  selector := ((find? selectorField members).bind text?).or draft.selector
  options := ((find? optionsField members).bind members?).getD draft.options
  passthrough := (handedBack members).reverse ++ draft.passthrough

/-- What is logged about a member, by its key and the type of its value. -/
def remarks (key typeName : String) : List Event :=
  if key = selectorField then if typeName = "string" then [] else [.ignoredSelector typeName]
  else if key = optionsField then
    if typeName = "object" ∨ typeName = "null" then [] else [.ignoredBias typeName]
  else if key = dataField ∨ key = errorField then [.droppedField key]
  else []

/-- One member is taken up as the list of it alone, and remarked upon. -/
theorem take_eq (draft : Draft) (key : String) (v : Json) :
    draft.take key v =
      (contentAfter draft.content (find? contentField [(key, v)])).map fun content =>
        (draft.extended [(key, v)] content, remarks key v.typeName) := by
  -- one case for each field, then one for all members that are passed through
  unfold Draft.take
  split
  · rename_i h
    rw [beq_iff_eq] at h
    subst h
    cases v <;> rfl
  split
  · rename_i h
    rw [beq_iff_eq] at h
    subst h
    cases v <;> rfl
  split
  · rename_i h
    rw [beq_iff_eq] at h
    subst h
    cases v <;> rfl
  split
  · rename_i h
    rw [Bool.or_eq_true, beq_iff_eq, beq_iff_eq] at h
    rcases h with rfl | rfl <;> rfl
  · rename_i hc hs ho hde
    rw [Bool.or_eq_true, not_or] at hde
    obtain ⟨hd, he⟩ := hde
    rw [beq_iff_eq] at hc hs ho hd he
    simp [find?, hc, hs, ho, hd, he, contentAfter, Draft.extended, handedBack, named, remarks,
      Except.map]

theorem extended_extended (draft : Draft) {key : String} {v : Json} {members : Members}
    (hkey : key ∉ keys members) (content content' : Option String) :
    (draft.extended [(key, v)] content).extended members content' =
      draft.extended ((key, v) :: members) content' := by
  have hfind : ∀ field, key = field → find? field members = none := by
    rintro field rfl
    exact find?_eq_none_iff.2 hkey
  rw [Draft.extended, Draft.extended, Draft.extended, Draft.mk.injEq]
  refine ⟨rfl, ?_, ?_, ?_⟩
  · by_cases h : key = selectorField <;> simp [find?, h, hfind]
  · by_cases h : key = optionsField <;> simp [find?, h, hfind]
  · by_cases h : key ∈ named <;> simp [handedBack, h]

theorem contentAfter_cons (before : Option String) {key : String} {v : Json} {members : Members}
    (hkey : key ∉ keys members) :
    contentAfter before (find? contentField ((key, v) :: members)) =
      (contentAfter before (find? contentField [(key, v)])).bind
        (contentAfter · (find? contentField members)) := by
  by_cases h : key = contentField
  · subst h
    have hnone := find?_eq_none_iff.2 hkey
    cases v <;> simp [find?, hnone, contentAfter, Except.bind]
  · simp [find?, h, contentAfter, Except.bind]

theorem takeAll_cons (draft : Draft) (key : String) (v : Json) (members : Members) :
    (draft.takeAll ((key, v) :: members)).1 =
      (contentAfter draft.content (find? contentField [(key, v)])).bind fun content =>
        ((draft.extended [(key, v)] content).takeAll members).1 := by
  rw [Draft.takeAll, take_eq]
  cases contentAfter draft.content (find? contentField [(key, v)]) <;> rfl

/-- What members with different keys come to is a matter of what stands under each name. -/
theorem takeAll_eq (draft : Draft) {members : Members} (hn : (keys members).Nodup) :
    (draft.takeAll members).1 =
      (contentAfter draft.content (find? contentField members)).map (draft.extended members) := by
  induction members generalizing draft with
  | nil => rfl
  | cons m members ih =>
    obtain ⟨key, v⟩ := m
    rw [keys_cons, List.nodup_cons] at hn
    obtain ⟨hkey, hn⟩ := hn
    -- the key does not come again, so what it sets stays
    rw [takeAll_cons, contentAfter_cons _ hkey]
    cases contentAfter draft.content (find? contentField [(key, v)]) with
    | error m => rfl
    | ok content =>
      change ((draft.extended [(key, v)] content).takeAll members).1 =
        (contentAfter content (find? contentField members)).map _
      rw [ih _ hn]
      congr 1
      funext content'
      exact extended_extended draft hkey content content'

/-- The request that an object makes: it is refused if its content is missing or no text. -/
theorem ofMembers_eq {members : Members} (hn : (keys members).Nodup) :
    (ofMembers members).1 = match find? contentField members with
      | some (.string content) => .ok {
          content := content
          selector := (find? selectorField members).bind text?
          options := ((find? optionsField members).bind members?).getD []
          passthrough := handedBack members }
      | some v => .error (.contentType v.typeName)
      | none => .error .missingContent := by
  have htake := takeAll_eq Draft.start hn
  -- only the result matters here, whatever is logged on the way
  unfold ofMembers
  generalize Draft.start.takeAll members = taken at htake
  obtain ⟨result, events⟩ := taken
  dsimp only at htake
  subst htake
  cases find? contentField members with
  | none => rfl
  | some v =>
    cases v with
    | string content => simp [contentAfter, Except.map, Draft.extended, Draft.start]
    | null | bool | number | array | object => rfl

/-- What is logged about an object is what is logged about its members. -/
theorem events_ofMembers (members : Members) :
    (ofMembers members).2 = (Draft.start.takeAll members).2 := by
  rw [ofMembers]
  rcases Draft.start.takeAll members with ⟨_ | draft, events⟩
  · rfl
  · dsimp only
    cases draft.content <;> rfl

/-! ## Requests as texts -/

/-- What the members of an object, as they are written, ask for. -/
structure Classified (members : List (String × Written)) (request : Request) : Prop where
  content : last? contentField members = some (.string request.content)
  selector : request.selector = ((last? selectorField members).map Written.value).bind text?
  options : request.options =
    (((last? optionsField members).map Written.value).bind members?).getD []
  passthrough : request.passthrough = mapValues Written.value (handedBack (settle members))

theorem exists_classified {members : List (String × Written)} {content : String}
    (h : last? contentField members = some (.string content)) :
    ∃ request, Classified members request :=
  ⟨⟨content, _, _, _⟩, h, rfl, rfl, rfl⟩

theorem handedBack_mapValues {α β : Type} (f : α → β) (ms : List (String × α)) :
    handedBack (mapValues f ms) = mapValues f (handedBack ms) := by
  simp [handedBack, mapValues, List.filter_map, Function.comp_def]

theorem find?_value (key : String) (members : List (String × Written)) :
    find? key (mapValues Written.value (settle members)) =
      (last? key members).map Written.value := by
  rw [← settle_mapValues, find?_settle, last?_mapValues]

theorem nodup_value (members : List (String × Written)) :
    (keys (mapValues Written.value (settle members))).Nodup := by
  rw [← settle_mapValues]
  exact nodup_settle _

/-- A written value is taken for a text only if it is one. -/
theorem value_eq_string_iff {w : Written} {s : String} : w.value = .string s ↔ w = .string s := by
  cases w with
  | string s' => simp [Written.value]
  | object members =>
    rw [Written.value]
    split <;> simp
  | null | bool | number | array => simp [Written.value]

/-- Members are those of a request just if the last content is a text; which request, their
classification tells. -/
theorem ofMembers_value_iff {members : List (String × Written)} {request : Request} :
    (ofMembers (mapValues Written.value (settle members))).1 = .ok request ↔
      Classified members request := by
  rw [ofMembers_eq (nodup_value members), find?_value, find?_value, find?_value,
    handedBack_mapValues]
  constructor
  · intro h
    split at h
    · rename_i content hcontent
      cases h
      obtain ⟨w, hw, hs⟩ := Option.map_eq_some_iff.1 hcontent
      rw [value_eq_string_iff.1 hs] at hw
      exact ⟨hw, rfl, rfl, rfl⟩
    · cases h
    · cases h
  · intro h
    obtain ⟨content, selector, options, passthrough⟩ := request
    obtain ⟨hc, hs, ho, hp⟩ := h
    dsimp only at hc hs ho hp
    rw [hc, hs, ho, hp]
    rfl

/-- An object that does not have the reserved key first is decoded by its members. -/
theorem decode_eq {raw : List Char} {members : List (String × Written)}
    (h : Document (.object members) raw) (hf : (Written.object members).Fits maxDepth)
    (hr : (Written.object members).Readable) (hk : firstKey members ≠ some numberKey) :
    decode raw = ofMembers (mapValues Written.value (settle members)) := by
  rw [decode, h.parse_eq_ok_iff.2 ⟨hf, hr, Written.value_object hk⟩]

theorem decode_ok_iff {raw : List Char} {request : Request} :
    (decode raw).1 = .ok request ↔ ∃ members, Document (.object members) raw ∧
      (Written.object members).Fits maxDepth ∧ (Written.object members).Readable ∧
      firstKey members ≠ some numberKey ∧ Classified members request := by
  constructor
  · intro h
    unfold decode at h
    split at h
    · cases h
    · rename_i ms hparse
      obtain ⟨w, hw, hf, hr, hv⟩ := parse_ok hparse
      cases w with
      | object members =>
        -- with the reserved key first it would have been read as a number
        have hk : firstKey members ≠ some numberKey := by
          intro hk
          cases hr with
          | object hq _ =>
            obtain ⟨l, hl, rfl⟩ := hq hk
            rw [Written.value_quoted hl] at hv
            cases hv
        rw [Written.value_object hk] at hv
        cases hv
        exact ⟨members, hw, hf, hr, hk, ofMembers_value_iff.1 h⟩
      | array items =>
        rw [Written.value_array] at hv
        cases hv
      | null | bool | number | string => cases hv
    · cases h
  · rintro ⟨members, hw, hf, hr, hk, hc⟩
    rw [decode_eq hw hf hr hk]
    exact ofMembers_value_iff.2 hc

/-- Of a document whose members are known: what it asks for, if it is a request. -/
theorem decode_document_ok_iff {raw : List Char} {members : List (String × Written)}
    (h : Document (.object members) raw) {request : Request} :
    (decode raw).1 = .ok request ↔ (Written.object members).Fits maxDepth ∧
      (Written.object members).Readable ∧ firstKey members ≠ some numberKey ∧
      Classified members request := by
  rw [decode_ok_iff]
  constructor
  · rintro ⟨members', h', hread⟩
    cases h.unique h'
    exact hread
  · intro hread
    exact ⟨members, h, hread⟩

/-- The text of an object is decoded by its members. -/
theorem decode_render {members : Members} (h : (Json.object members).Regular)
    (hf : (Json.object members).Fits maxDepth) :
    decode (Json.object members).render = ofMembers members := by
  rw [decode, parse_render h hf]

/-! ## The order of members -/

/-- The requests say the same, but for the order of what is handed back. -/
structure Alike (request request' : Request) : Prop where
  content : request'.content = request.content
  selector : request'.selector = request.selector
  options : request'.options = request.options
  passthrough : request'.passthrough.Perm request.passthrough

theorem Alike.symm {request request' : Request} (h : Alike request request') :
    Alike request' request :=
  ⟨h.content.symm, h.selector.symm, h.options.symm, h.passthrough.symm⟩

/-- Members with different keys may come in any order. -/
theorem Classified.perm {members members' : List (String × Written)} {request : Request}
    (h : Classified members request) (hp : members.Perm members')
    (hn : (members.map (·.1)).Nodup) :
    ∃ request', Classified members' request' ∧ Alike request request' := by
  have hn' : (members'.map (·.1)).Nodup := (hp.map _).nodup_iff.1 hn
  obtain ⟨hc, hs, ho, hpass⟩ := h
  rw [last?_perm hp hn] at hc hs ho
  refine ⟨⟨request.content, request.selector, request.options,
    mapValues Written.value (handedBack (settle members'))⟩, ⟨hc, hs, ho, rfl⟩,
    ⟨rfl, rfl, rfl, ?_⟩⟩
  rw [hpass, settle_of_nodup hn, settle_of_nodup hn']
  exact ((hp.filter _).map _).symm

theorem fits_perm {members members' : List (String × Written)} {depth : Nat}
    (h : (Written.object members).Fits depth) (hp : members.Perm members') :
    (Written.object members').Fits depth := by
  cases depth with
  | zero => exact h.elim
  | succ depth =>
    intro m hm
    exact h m (hp.mem_iff.2 hm)

theorem firstKey_of_plain {members : List (String × Written)}
    (h : (Written.object members).Plain) : firstKey members ≠ some numberKey := by
  cases h with
  | object hk _ => exact hk

/-- Of two documents with the same members in another order, what the one asks for, if it is a
request, the other asks for too. -/
theorem decode_perm {raw raw' : List Char} {members members' : List (String × Written)}
    (h : Document (.object members) raw) (h' : Document (.object members') raw')
    (hplain : (Written.object members').Plain) (hp : members.Perm members')
    (hn : (members.map (·.1)).Nodup) {request : Request} (hok : (decode raw).1 = .ok request) :
    ∃ request', (decode raw').1 = .ok request' ∧ Alike request request' := by
  obtain ⟨hf, -, -, hc⟩ := (decode_document_ok_iff h).1 hok
  obtain ⟨request', hc', halike⟩ := hc.perm hp hn
  exact ⟨request', (decode_document_ok_iff h').2 ⟨fits_perm hf hp, hplain.readable,
    firstKey_of_plain hplain, hc'⟩, halike⟩

/-- And what is wrong with the one, unless it is how deep it goes, is wrong with the other. -/
theorem decode_perm_error {raw raw' : List Char} {members members' : List (String × Written)}
    (h : Document (.object members) raw) (h' : Document (.object members') raw')
    (hplain : (Written.object members).Plain) (hplain' : (Written.object members').Plain)
    (hp : members.Perm members') (hn : (members.map (·.1)).Nodup)
    (hf : (Written.object members).Fits maxDepth) {m : Malformation}
    (herr : (decode raw).1 = .error m) : (decode raw').1 = .error m := by
  rw [decode_eq h hf hplain.readable (firstKey_of_plain hplain),
    ofMembers_eq (nodup_value members), find?_value, last?_perm hp hn] at herr
  rw [decode_eq h' (fits_perm hf hp) hplain'.readable (firstKey_of_plain hplain'),
    ofMembers_eq (nodup_value members'), find?_value]
  cases hc : (last? contentField members').map Written.value with
  | none =>
    rw [hc] at herr
    exact herr
  | some v =>
    rw [hc] at herr
    cases v with
    | string => cases herr
    | null | bool | number | array | object => exact herr

/-- Texts in which no object has the reserved key first. They are accepted just if they are one
object whose last content is a text, in which containers lie no deeper than allowed; what they ask
for is told by the last member of each name; every rejection is a malformed request; and reordering
members with different keys changes the order of what is handed back only. -/
theorem decode_plain {raw : List Char} (hplain : ∀ w, Document w raw → w.Plain) :
    ((∃ request, (decode raw).1 = .ok request) ↔
      ∃ members content, Document (.object members) raw ∧
        (Written.object members).Fits maxDepth ∧
        last? contentField members = some (.string content)) ∧
    (∀ members request, Document (.object members) raw → (decode raw).1 = .ok request →
      Classified members request) ∧
    (∀ m, (decode raw).1 = .error m → ∃ message, m.failure = .malformedRequest message) ∧
    ∀ members members' raw', Document (.object members) raw → Document (.object members') raw' →
      members.Perm members' → (members.map (·.1)).Nodup → (Written.object members').Plain →
        (∀ request, (decode raw).1 = .ok request →
          ∃ request', (decode raw').1 = .ok request' ∧ Alike request request') ∧
        (∀ request', (decode raw').1 = .ok request' →
          ∃ request, (decode raw).1 = .ok request ∧ Alike request request') ∧
        ((Written.object members).Fits maxDepth →
          ∀ m, (decode raw).1 = .error m ↔ (decode raw').1 = .error m) := by
  refine ⟨⟨?_, ?_⟩, ?_, ?_, ?_⟩
  · rintro ⟨request, h⟩
    obtain ⟨members, hraw, hf, -, -, hc⟩ := decode_ok_iff.1 h
    exact ⟨members, request.content, hraw, hf, hc.content⟩
  · rintro ⟨members, content, hraw, hf, hc⟩
    have hplain := hplain _ hraw
    obtain ⟨request, hc⟩ := exists_classified hc
    exact ⟨request, decode_ok_iff.2
      ⟨members, hraw, hf, hplain.readable, firstKey_of_plain hplain, hc⟩⟩
  · intro members request hraw h
    exact ((decode_document_ok_iff hraw).1 h).2.2.2
  · intro m _
    exact ⟨m.message, rfl⟩
  · intro members members' raw' hraw hraw' hp hn hplain'
    have hn' : (members'.map (·.1)).Nodup := (hp.map _).nodup_iff.1 hn
    refine ⟨fun request h => decode_perm hraw hraw' hplain' hp hn h, fun request' h => ?_,
      fun hf m => ⟨?_, ?_⟩⟩
    · obtain ⟨request, hok, halike⟩ := decode_perm hraw' hraw (hplain _ hraw) hp.symm hn' h
      exact ⟨request, hok, halike.symm⟩
    · exact decode_perm_error hraw hraw' (hplain _ hraw) hplain' hp hn hf
    · exact decode_perm_error hraw' hraw hplain' (hplain _ hraw) hp.symm hn' (fits_perm hf hp)

/-- The object with a content and nothing else is accepted. -/
theorem decode_plain_content :
    ∃ request, (decode (Json.object [(contentField, .string "x")]).render).1 = .ok request := by
  have hregular : (Json.object [(contentField, .string "x")]).Regular :=
    .object (by decide) (by decide) (by simpa using .string "x")
  refine (decode_plain fun w hw => hregular.plain_of_document hw).1.2
    ⟨[(contentField, .string "x")], "x", hregular.document, ?_, rfl⟩
  simp [Written.Fits, maxDepth]

end Polyglot.Request
