/-
Predictions read back from a response. A response lists them one after the other, each as an object of
its own, and what stands there for one is read as a prediction of the same language. Its confidence is
read back digit by digit, which need not give the same double, but always gives one close by.
-/
import Polyglot.Proofs.Double.Accumulated
import Polyglot.Proofs.Json.Printing
import Polyglot.Response

namespace Polyglot

open Json

namespace Prediction

/-! ## Members -/

theorem readString_renderString (s : String) (rest : List Char) :
    ∃ t, renderString s ++ rest = '"' :: t ∧ readString [] t = .ok (s, rest) := by
  obtain ⟨t, ht, hread⟩ := readString_of_spells (spellsString_renderString s) rest
  exact ⟨t ++ rest, by rw [ht, List.cons_append], hread⟩

theorem readId_append (s : String) (rest : List Char) :
    readId (renderString s ++ rest) = some (s, rest) := by
  obtain ⟨t, ht, hread⟩ := readString_renderString s rest
  rw [ht, readId, skipBlanks_cons (by decide)]
  show (readString [] t).toOption = some (s, rest)
  rw [hread]
  rfl

theorem readColon_cons (rest : List Char) : readColon (':' :: rest) = some rest := by
  rw [readColon, skipBlanks_cons (by decide)]
  rfl

theorem readConfidence_append {n : Numeral} (h : n.WellFormed) {rest : List Char}
    (hrest : Numeral.Ends rest) :
    readConfidence (n.render ++ rest) = (Double.accumulate n).map (·, rest) := by
  have hl : (Literal.ofNumeral n).WellFormed := by
    rwa [Literal.WellFormed, Literal.numeral_ofNumeral]
  have hread := Numeral.read_append hl hrest
  rw [Literal.numeral_ofNumeral] at hread
  obtain ⟨c, t, hc, hfirst⟩ := Numeral.head_text hl
  -- a number does not begin with a blank
  have hblank : c ∉ [' ', '\n', '\t', '\r'] := by
    rcases hfirst with rfl | hdigit
    · decide
    · rintro hmem
      simp only [List.mem_cons, List.not_mem_nil, or_false] at hmem
      rcases hmem with rfl | rfl | rfl | rfl <;> cases hdigit
  rw [← Literal.text_ofNumeral, readConfidence, hc, List.cons_append, skipBlanks_cons hblank,
    ← List.cons_append, ← hc, hread]
  rfl

theorem readMember_id (s : String) (rest : List Char) :
    readMember ⟨none, none⟩ (renderString idField ++ ':' :: (renderString s ++ rest)) =
      some (⟨some s, none⟩, rest) := by
  obtain ⟨t, ht, hread⟩ := readString_renderString idField (':' :: (renderString s ++ rest))
  rw [ht, readMember]
  dsimp only
  rw [hread]
  dsimp only [Except.toOption]
  rw [if_pos (beq_self_eq_true _), readColon_cons, Option.bind_some, readId_append]
  rfl

theorem readMember_confidence (languageId : String) {n : Numeral} (h : n.WellFormed)
    {rest : List Char} (hrest : Numeral.Ends rest) :
    readMember ⟨some languageId, none⟩ (renderString confidenceField ++ ':' :: (n.render ++ rest)) =
      (Double.accumulate n).map fun x => (⟨some languageId, some x⟩, rest) := by
  obtain ⟨t, ht, hread⟩ := readString_renderString confidenceField (':' :: (n.render ++ rest))
  have hother : (confidenceField == idField) = false := by decide
  rw [ht, readMember]
  dsimp only
  rw [hread]
  dsimp only [Except.toOption]
  rw [hother, if_neg Bool.false_ne_true, if_pos (beq_self_eq_true _), readColon_cons,
    Option.bind_some, readConfidence_append h hrest]
  cases Double.accumulate n <;> rfl

/-! ## Objects -/

theorem skipBlanks_renderString (s : String) (rest : List Char) :
    skipBlanks (renderString s ++ rest) = renderString s ++ rest :=
  skipBlanks_cons (by decide) _

theorem readMembers_append (limit : Nat) (languageId : String) {n : Numeral} (h : n.WellFormed)
    (rest : List Char) :
    readMembers (limit + 2) ⟨none, none⟩ (renderString idField ++ ':' :: (renderString languageId ++
      ',' :: (renderString confidenceField ++ ':' :: (n.render ++ '\x7d' :: rest)))) =
      (Double.accumulate n).map fun x => (⟨some languageId, some x⟩, rest) := by
  have hends : Numeral.Ends ('\x7d' :: rest) := by
    intro c hc
    cases hc
    decide
  rw [readMembers, readMember_id]
  dsimp only
  rw [skipBlanks_cons (by decide)]
  show readMembers (limit + 1) _ (skipBlanks _) = _
  rw [skipBlanks_renderString, readMembers, readMember_confidence languageId h hends]
  cases Double.accumulate n with
  | none => rfl
  | some x =>
    dsimp only [Option.map_some]
    rw [skipBlanks_cons (by decide)]
    rfl

theorem readObject_append (languageId : String) {n : Numeral} (h : n.WellFormed) (rest : List Char) :
    readObject (renderString idField ++ ':' :: (renderString languageId ++
      ',' :: (renderString confidenceField ++ ':' :: (n.render ++ '\x7d' :: rest)))) =
      (Double.accumulate n).map fun x => (⟨languageId, x⟩, rest) := by
  obtain ⟨limit, hlimit⟩ : ∃ limit, (renderString idField ++ ':' :: (renderString languageId ++
      ',' :: (renderString confidenceField ++ ':' :: (n.render ++ '\x7d' :: rest)))).length + 1 =
      limit + 2 := ⟨_, by rw [List.length_append, List.length_cons]; rfl⟩
  rw [readObject, skipBlanks_renderString, hlimit, readMembers_append limit languageId h rest]
  cases Double.accumulate n <;> rfl

theorem parse_brace (rest : List Char) : parse ('\x7b' :: rest) =
    (readObject rest).bind fun r => if (skipBlanks r.2).isEmpty then some r.1 else none := by
  rw [parse, skipBlanks_cons (by decide)]
  split
  all_goals
    rename_i hread
    change readObject rest = _ at hread
    rw [hread]
    rfl

/-- An object of the two members is read as the prediction that they make. -/
theorem parse_object (languageId : String) {n : Numeral} (h : n.WellFormed) :
    parse (Json.object [(idField, .string languageId), (confidenceField, .number n)]).render =
      (Double.accumulate n).map fun x => ⟨languageId, x⟩ := by
  have htext : (Json.object [(idField, .string languageId), (confidenceField, .number n)]).render =
      '\x7b' :: (renderString idField ++ ':' :: (renderString languageId ++
        ',' :: (renderString confidenceField ++ ':' :: (n.render ++ ['\x7d'])))) := by
    simp [render, renderMembers]
  rw [htext, parse_brace, readObject_append languageId h []]
  cases Double.accumulate n <;> rfl

theorem parse_toJson (languageId : String) (negative : Bool) (steps : Nat) :
    parse (Prediction.mk languageId (.finite negative steps)).toJson.render =
      (Double.accumulate (Double.Layout.response.numeral negative steps)).map fun x => ⟨languageId, x⟩ :=
  parse_object languageId (Double.Layout.response.wellFormed_numeral negative steps)

/-! ## Elements of a response -/

theorem renderItems_eq (items : List Json) : renderItems items = [','].intercalate (items.map render) := by
  induction items with
  | nil => rfl
  | cons item items ih =>
    cases items with
    | nil => simp [renderItems, List.intercalate]
    | cons next items =>
      rw [renderItems, ih]
      · simp [List.intercalate]
      · simp

/-- A response lists the texts of its predictions in their order. -/
theorem encode_eq (predictions : List Prediction) (passthrough : Members) :
    ∃ rest, (Response.encode predictions passthrough).toList = "\x7b\"data\":[".toList ++
      [','].intercalate (predictions.map fun p => p.toJson.render) ++ ']' :: rest := by
  have hitems : (Json.array (predictions.map toJson)).render =
      '[' :: ([','].intercalate (predictions.map fun p => p.toJson.render) ++ [']']) := by
    rw [render, renderItems_eq, List.map_map]
    rfl
  have hdata : renderString Request.dataField = "\"data\"".toList := by decide
  rw [Response.encode, toText, String.toList_ofList, Response.success, render]
  cases Response.allowed passthrough with
  | nil =>
    rw [renderMembers, hitems, hdata]
    exact ⟨['\x7d'], by simp⟩
  | cons m rest =>
    rw [renderMembers, hitems, hdata]
    · exact ⟨_, by simp; rfl⟩
    · simp

section Elements

open Double

/-- What a response holds for a prediction with a finite confidence is read as a prediction: of the same
id, and with a finite confidence of the same sign, at most three spacings of doubles away. It is the
same confidence where all digits as written are a double when taken for a whole number, and the power of
ten that scales them has an exponent of at most 22. -/
theorem parse_element (languageId : String) (negative : Bool) {steps : Nat}
    (h : Representable steps) :
    (∀ predictions passthrough, ∃ rest, (Response.encode predictions passthrough).toList =
      "\x7b\"data\":[".toList ++ [','].intercalate (predictions.map fun p => p.toJson.render) ++
        ']' :: rest) ∧
    ∃ steps', parse (Prediction.mk languageId (.finite negative steps)).toJson.render =
        some ⟨languageId, .finite negative steps'⟩ ∧
      Representable steps' ∧
      steps' ≤ steps + 3 * spacing steps ∧ steps ≤ steps' + 3 * spacing steps ∧
      (Representable ((Layout.response.numeral negative steps).scaled.1 * one) →
        (Layout.response.numeral negative steps).scaled.2.natAbs ≤ 22 → steps' = steps) := by
  refine ⟨encode_eq, ?_⟩
  obtain ⟨steps', hread, hrepresentable, hhigh, hlow⟩ := accumulate_numeral negative h
  refine ⟨steps', ?_, hrepresentable, hhigh, hlow, fun hdigits hexponent => ?_⟩
  · rw [parse_toJson, hread]
    rfl
  · rw [accumulate_numeral_exact negative h hdigits hexponent] at hread
    cases hread
    rfl

/-- A confidence that was not estimated is read back. -/
theorem parse_element_unestimated :
    Representable one ∧
    parse (Prediction.unestimated "py").toJson.render = some (Prediction.unestimated "py") := by
  have h : Representable one := by decide +kernel
  obtain ⟨-, steps', hparse, -, -, -, hexact⟩ := parse_element "py" true h
  rw [hexact (by decide +kernel) (by decide +kernel)] at hparse
  exact ⟨h, hparse⟩

/-- The largest double below one is read back as one. -/
theorem parse_element_below_one :
    Representable (one - 2 ^ 1021) ∧
    (Prediction.mk "py" (.finite false (one - 2 ^ 1021))).toJson.toText =
      "\x7b\"languageId\":\"py\",\"confidence\":0.9999999999999999\x7d" ∧
    parse (Prediction.mk "py" (.finite false (one - 2 ^ 1021))).toJson.render =
      some ⟨"py", .finite false one⟩ ∧
    parse (Prediction.mk "py" (.finite false (one - 2 ^ 1021))).toJson.render ≠
      some ⟨"py", .finite false (one - 2 ^ 1021)⟩ := by
  have hread : accumulate (Layout.response.numeral false (one - 2 ^ 1021)) =
      some (.finite false one) := by decide +kernel
  have hne : (Prediction.mk "py" (.finite false one)) ≠ ⟨"py", .finite false (one - 2 ^ 1021)⟩ := by
    decide +kernel
  rw [parse_toJson, hread]
  exact ⟨by decide +kernel, by decide +kernel, rfl, fun heq => hne (Option.some.inj heq)⟩

end Elements

end Prediction

end Polyglot
