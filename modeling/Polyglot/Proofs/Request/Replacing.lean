/-
How far the members that are handed back are opaque. One of them may be exchanged for any other
value that is readable and lies no deeper than allowed: the text is still a request, for the same
content, backend and options, and only what is handed back under that key is another. A value that
is not readable, an object with the reserved key first that does not stand for a number, makes the
reader reject the whole request.
-/
import Polyglot.Proofs.Request.Decoding

namespace Polyglot

namespace Json

open Keyed

/-! ## One member in a text -/

/-- One of the listed elements may be exchanged for another, and the text that spells it for one
that spells the other. -/
theorem Listed.replace {α : Type} {Spell : α → List Char → Prop} {as₁ as₂ : List α} {a : α}
    {t : List Char} (h : Listed Spell (as₁ ++ a :: as₂) t) :
    ∃ before text after, t = before ++ (text ++ after) ∧ Spell a text ∧
      ∀ a' text', Spell a' text' →
        Listed Spell (as₁ ++ a' :: as₂) (before ++ (text' ++ after)) := by
  induction as₁ generalizing t with
  | nil =>
    rw [List.nil_append] at h
    cases h with
    | @last _ t b h hb =>
      refine ⟨[], t, b, rfl, h, fun a' text' h' => ?_⟩
      rw [List.nil_append, List.nil_append]
      exact .last h' hb
    | @more _ _ t b b' r h hb hb' hr =>
      refine ⟨[], t, b ++ ',' :: (b' ++ r), rfl, h, fun a' text' h' => ?_⟩
      rw [List.nil_append, List.nil_append]
      exact .more h' hb hb' hr
  | cons x as₁ ih =>
    rw [List.cons_append] at h
    -- the list goes by a name, so that the cases can be told apart
    generalize hrest : as₁ ++ a :: as₂ = rest at h
    cases h with
    | last => simp at hrest
    | @more _ _ tx b b' r hx hb hb' hr =>
      subst hrest
      obtain ⟨before, text, after, rfl, hspell, hall⟩ := ih hr
      refine ⟨tx ++ (b ++ ',' :: (b' ++ before)), text, after, by simp, hspell, ?_⟩
      intro a' text' h'
      have hmore := Listed.more hx hb hb' (hall a' text' h')
      simpa using hmore

theorem SpellsMember.replace {key : String} {w : Written} {t : List Char}
    (h : SpellsMember (key, w) t) :
    ∃ before text, t = before ++ text ∧ Spells w text ∧
      ∀ w' text', Spells w' text' → SpellsMember (key, w') (before ++ text') := by
  cases h with
  | @intro _ _ k b b' t hk hb hb' hw =>
    refine ⟨k ++ (b ++ ':' :: b'), t, by simp, hw, fun w' text' h' => ?_⟩
    have hm := SpellsMember.intro hk hb hb' h'
    simpa using hm

/-- The value of a member may be exchanged for another in the text of an object. -/
theorem Document.replace {ms₁ ms₂ : List (String × Written)} {key : String} {old : Written}
    {raw : List Char} (h : Document (.object (ms₁ ++ (key, old) :: ms₂)) raw) :
    ∃ before text after, raw = before ++ (text ++ after) ∧ Spells old text ∧
      ∀ new text', Spells new text' →
        Document (.object (ms₁ ++ (key, new) :: ms₂)) (before ++ (text' ++ after)) := by
  obtain ⟨b, t, b', hb, hw, hb', rfl⟩ := h
  generalize hms : ms₁ ++ (key, old) :: ms₂ = ms at hw
  cases hw with
  | emptyObject => simp at hms
  | @object _ b1 t1 hb1 hlist =>
    subst hms
    obtain ⟨before, text, after, rfl, hm, hall⟩ := hlist.replace
    obtain ⟨before', text, rfl, hold, hall'⟩ := hm.replace
    refine ⟨b ++ '\x7b' :: (b1 ++ (before ++ before')), text, after ++ '\x7d' :: b', by simp, hold,
      ?_⟩
    intro new text' hnew
    refine ⟨b, _, b', hb, .object hb1 (hall _ _ (hall' _ _ hnew)), hb', by simp⟩

end Json

namespace Request

open Json Keyed Members

variable {ms₁ ms₂ : List (String × Written)} {key : String} {old new : Written}

/-! ## What the other members say -/

theorem last?_replace {k : String} (h : k ≠ key) :
    last? k (ms₁ ++ (key, new) :: ms₂) = last? k (ms₁ ++ (key, old) :: ms₂) := by
  rw [last?_append, last?_append, last?_cons, last?_cons, if_neg (Ne.symm h), if_neg (Ne.symm h)]

theorem firstKey_replace :
    firstKey (ms₁ ++ (key, new) :: ms₂) = firstKey (ms₁ ++ (key, old) :: ms₂) := by
  cases ms₁ <;> rfl

theorem fits_replace {depth : Nat}
    (h : (Written.object (ms₁ ++ (key, old) :: ms₂)).Fits (depth + 1)) :
    (Written.object (ms₁ ++ (key, new) :: ms₂)).Fits (depth + 1) ↔ new.Fits depth := by
  have hall : ∀ m ∈ ms₁ ++ (key, old) :: ms₂, m.2.Fits depth := h
  rw [List.forall_mem_append, List.forall_mem_cons] at hall
  constructor
  · intro h'
    exact h' (key, new) (by simp)
  · intro h'
    have hall' : ∀ m ∈ ms₁ ++ (key, new) :: ms₂, m.2.Fits depth := by
      rw [List.forall_mem_append, List.forall_mem_cons]
      exact ⟨hall.1, h', hall.2.2⟩
    exact hall'

theorem readable_replace (hk : firstKey (ms₁ ++ (key, old) :: ms₂) ≠ some numberKey)
    (h : (Written.object (ms₁ ++ (key, old) :: ms₂)).Readable) :
    (Written.object (ms₁ ++ (key, new) :: ms₂)).Readable ↔ new.Readable := by
  cases h with
  | object _ hall =>
    rw [List.forall_mem_append, List.forall_mem_cons] at hall
    constructor
    · rintro (_ | _ | _ | _ | _ | ⟨_, hall'⟩)
      exact hall' (key, new) (by simp)
    · intro h'
      refine .object (fun hk' => absurd (firstKey_replace ▸ hk') hk) ?_
      rw [List.forall_mem_append, List.forall_mem_cons]
      exact ⟨hall.1, h', hall.2.2⟩

/-- The requests say the same, but for what is handed back under one key. -/
structure SameBut (key : String) (request request' : Request) : Prop where
  content : request'.content = request.content
  selector : request'.selector = request.selector
  options : request'.options = request.options
  order : keys request'.passthrough = keys request.passthrough
  others : ∀ k, k ≠ key → find? k request'.passthrough = find? k request.passthrough

theorem find?_handedBack (key : String) (members : Members) :
    find? key (handedBack members) = if key ∈ named then none else find? key members := by
  induction members with
  | nil => simp [handedBack, find?]
  | cons m members ih =>
    obtain ⟨k, v⟩ := m
    unfold handedBack at ih ⊢
    rw [List.filter_cons]
    by_cases hk : k ∈ named
    · rw [if_neg (by simpa using hk), ih, find?]
      by_cases hkey : key ∈ named
      · rw [if_pos hkey, if_pos hkey]
      · have hne : (k == key) = false := beq_false_of_ne fun e => hkey (e ▸ hk)
        rw [if_neg hkey, if_neg hkey, hne]
        rfl
    · rw [if_pos (by simpa using hk), find?, find?, ih]
      by_cases hne : k = key
      · subst hne
        simp [hk]
      · simp [hne]

theorem find?_passthrough (k : String) (members : List (String × Written)) :
    find? k (mapValues Written.value (handedBack (settle members))) =
      if k ∈ named then none else (last? k members).map Written.value := by
  rw [← handedBack_mapValues, find?_handedBack, find?_value]

theorem keys_passthrough (members : List (String × Written)) :
    keys (mapValues Written.value (handedBack (settle members))) =
      (members.map (·.1)).eraseDups.filter (· ∉ named) := by
  rw [keys, keys_mapValues, ← Keyed.keys_settle, List.filter_map]
  rfl

theorem last?_named {k : String} (hkey : key ∉ named) (hk : k ∈ named) :
    last? k (ms₁ ++ (key, new) :: ms₂) = last? k (ms₁ ++ (key, old) :: ms₂) := by
  refine last?_replace ?_
  rintro rfl
  exact hkey hk

/-- A member that is handed back is exchanged without changing what else is asked for. -/
theorem Classified.replace {request request' : Request} (hkey : key ∉ named)
    (h : Classified (ms₁ ++ (key, old) :: ms₂) request)
    (h' : Classified (ms₁ ++ (key, new) :: ms₂) request') : SameBut key request request' := by
  have hlast : ∀ k ∈ named, last? k (ms₁ ++ (key, new) :: ms₂) =
      last? k (ms₁ ++ (key, old) :: ms₂) := fun k => last?_named hkey
  obtain ⟨hc, hs, ho, hp⟩ := h
  obtain ⟨hc', hs', ho', hp'⟩ := h'
  rw [hlast _ (by decide)] at hc' hs' ho'
  refine ⟨?_, by rw [hs, hs'], by rw [ho, ho'], ?_, fun k hk => ?_⟩
  · rw [hc, Option.some.injEq, Written.string.injEq] at hc'
    exact hc'.symm
  · rw [hp, hp', keys_passthrough, keys_passthrough]
    simp
  · rw [hp, hp', find?_passthrough, find?_passthrough, last?_replace hk]

/-! ## Texts -/

/-- The value of a member that is handed back may be exchanged in the text of a request for any
other. The text is still a request just if the new value is readable and lies no deeper than
allowed, and then only what is handed back under that key is another. -/
theorem decode_replace {raw : List Char} {request : Request}
    (hraw : Document (.object (ms₁ ++ (key, old) :: ms₂)) raw) (hkey : key ∉ named)
    (hok : (decode raw).1 = .ok request) :
    ∃ before text after, raw = before ++ (text ++ after) ∧ Spells old text ∧
      ∀ new text', Spells new text' →
        Document (.object (ms₁ ++ (key, new) :: ms₂)) (before ++ (text' ++ after)) ∧
        ((∃ request', (decode (before ++ (text' ++ after))).1 = .ok request') ↔
          new.Fits (maxDepth - 1) ∧ new.Readable) ∧
        ∀ request', (decode (before ++ (text' ++ after))).1 = .ok request' →
          SameBut key request request' := by
  obtain ⟨before, text, after, he, hold, hall⟩ := hraw.replace
  obtain ⟨hf, hr, hk, hc⟩ := (decode_document_ok_iff hraw).1 hok
  refine ⟨before, text, after, he, hold, fun new text' hnew => ?_⟩
  have hdoc := hall new text' hnew
  refine ⟨hdoc, ⟨?_, ?_⟩, ?_⟩
  · rintro ⟨request', hok'⟩
    obtain ⟨hf', hr', -, -⟩ := (decode_document_ok_iff hdoc).1 hok'
    exact ⟨(fits_replace hf).1 hf', (readable_replace hk hr).1 hr'⟩
  · rintro ⟨hf', hr'⟩
    -- the content is not what was replaced
    have hlast := hc.content
    rw [← last?_named hkey (by decide)] at hlast
    obtain ⟨request', hc'⟩ := exists_classified hlast
    exact ⟨request', (decode_document_ok_iff hdoc).2 ⟨(fits_replace hf).2 hf',
      (readable_replace hk hr).2 hr', firstKey_replace ▸ hk, hc'⟩⟩
  · intro request' hok'
    exact hc.replace hkey ((decode_document_ok_iff hdoc).1 hok').2.2.2

/-! ### An object that the reader rejects -/

/-- A request that has null handed back. -/
def nullRequest : Json := .object [(contentField, .string "x"), ("id", .null)]

theorem regular_nullRequest : nullRequest.Regular := by
  refine .object (by decide) (by decide) ?_
  simpa using ⟨Regular.string "x", Regular.null⟩

theorem decode_nullRequest : ∃ request, (decode nullRequest.render).1 = .ok request := by
  have hfits : nullRequest.Fits maxDepth := by simp [nullRequest, Json.Fits, maxDepth]
  rw [nullRequest, decode_render regular_nullRequest hfits]
  exact ⟨_, rfl⟩

/-- In the request that has null handed back, the null may become true. -/
theorem decode_replace_null :
    ∃ raw request, Document (.object [(contentField, .string "x"), ("id", .bool true)]) raw ∧
      (decode raw).1 = .ok request := by
  obtain ⟨request, hok⟩ := decode_nullRequest
  have hraw : Document (.object ([(contentField, .string "x")] ++ ("id", .null) :: []))
      nullRequest.render := regular_nullRequest.document
  obtain ⟨before, text, after, -, -, hall⟩ := decode_replace hraw (by decide) hok
  obtain ⟨hdoc, hiff, -⟩ := hall (.bool true) _ .true
  obtain ⟨request', hok'⟩ := hiff.2 ⟨trivial, .bool true⟩
  exact ⟨_, request', hdoc, hok'⟩

/-- The value that the reader takes for a number and then finds to be none. -/
def reserved : Written := .object [(numberKey, .string "abc")]

theorem not_readable_reserved : ¬ reserved.Readable := by
  rintro (_ | _ | _ | _ | _ | ⟨hq, -⟩)
  obtain ⟨l, hl, e⟩ := hq rfl
  have htext : l.text = ['a', 'b', 'c'] := by
    simp only [List.cons.injEq, Prod.mk.injEq, Written.string.injEq, true_and, and_true] at e
    rw [← String.toList_ofList (l := l.text), ← e]
    rfl
  obtain ⟨c, t, hhead, hc⟩ := Numeral.head_text hl
  rw [htext] at hhead
  obtain ⟨rfl, -⟩ := List.cons.inj hhead
  revert hc
  decide

/-- Not every value may be put in the place of one that is handed back: in the request that has null
handed back, an object with the reserved key makes the reader reject the whole. -/
theorem not_decode_replace_all :
    ¬ ∀ (ms₁ ms₂ : List (String × Written)) (key : String) (old new : Written)
      (raw raw' : List Char), Document (.object (ms₁ ++ (key, old) :: ms₂)) raw →
      key ∉ named → (∃ request, (decode raw).1 = .ok request) →
      Document (.object (ms₁ ++ (key, new) :: ms₂)) raw' → new.Fits (maxDepth - 1) →
      ∃ request, (decode raw').1 = .ok request := by
  intro h
  have hraw : Document (.object ([(contentField, .string "x")] ++ ("id", .null) :: []))
      nullRequest.render := regular_nullRequest.document
  obtain ⟨before, text, after, -, -, hall⟩ := hraw.replace
  have hmembers : ∀ m ∈ [(numberKey, Json.string "abc")], Spells m.2.written m.2.render := by
    simpa using (Regular.string "abc").spells
  have hreserved : Spells reserved (Json.object [(numberKey, .string "abc")]).render :=
    .object blank_nil (listed_renderMembers (List.cons_ne_nil _ _) hmembers)
  have hraw' := hall _ _ hreserved
  obtain ⟨request, hok⟩ := h _ _ _ _ _ _ _ hraw (by decide) decode_nullRequest hraw' (by
    simp [reserved, Written.Fits, maxDepth])
  obtain ⟨-, hr, -, -⟩ := (decode_document_ok_iff hraw').1 hok
  rcases hr with _ | _ | _ | _ | _ | ⟨-, hr⟩
  exact not_readable_reserved (hr ("id", reserved) (by simp))

end Request

end Polyglot
