/-
A text says one thing: the grammar is unambiguous. No two written values are spelled by one text,
since every value is over where the next character cannot go on with it, and its first character
tells its kind.

So what holds of a written value that a text spells can be said of the text, and whether the text
is read and as what is a matter of that one written value.
-/
import Polyglot.Proofs.Json.Completeness

namespace Polyglot.Json

open Keyed

/-! ## Pieces -/

/-- Blanks end where something else begins. -/
theorem Blank.append_inj {b b' r r' : List Char} (hb : Blank b) (hb' : Blank b')
    (hr : skipBlanks r = r) (hr' : skipBlanks r' = r') (e : b ++ r = b' ++ r') :
    b = b' ∧ r = r' := by
  have hrest : r = r' := by
    calc r = skipBlanks (b ++ r) := by rw [skipBlanks_append hb, hr]
      _ = skipBlanks (b' ++ r') := by rw [e]
      _ = r' := by rw [skipBlanks_append hb', hr']
  subst hrest
  exact ⟨List.append_cancel_right e, rfl⟩

theorem skipBlanks_cons {c : Char} (h : c ∉ [' ', '\n', '\t', '\r']) (rest : List Char) :
    skipBlanks (c :: rest) = c :: rest :=
  skipBlanks_append_cons blank_nil h rest

theorem Begins.skipBlanks {t : List Char} (h : Begins t) (rest : List Char) :
    Json.skipBlanks (t ++ rest) = t ++ rest :=
  h.skipBlanks_append blank_nil rest

theorem SpellsString.append_inj {s s' : String} {t t' r r' : List Char} (h : SpellsString s t)
    (h' : SpellsString s' t') (e : t ++ r = t' ++ r') : s = s' ∧ t = t' ∧ r = r' := by
  have hread := readKey_append h r
  rw [e, readKey_append h' r', Except.ok.injEq, Prod.mk.injEq] at hread
  obtain ⟨rfl, rfl⟩ := hread
  exact ⟨rfl, List.append_cancel_right e, rfl⟩

theorem Literal.append_inj {l l' : Literal} {r r' : List Char} (hl : l.WellFormed)
    (hl' : l'.WellFormed) (hr : Numeral.Ends r) (hr' : Numeral.Ends r')
    (e : l.text ++ r = l'.text ++ r') : l = l' := by
  have hread := Numeral.read_append hl hr
  rw [e, Numeral.read_append hl' hr', Except.ok.injEq, Prod.mk.injEq] at hread
  obtain ⟨-, rfl⟩ := hread
  exact Literal.text_injective hl hl' (List.append_cancel_right e)

/-! ## Lists of elements -/

/-- What spells the element, with text behind it that could follow a value, spells no other. -/
def Unambiguous {α : Type} (Spell : α → List Char → Prop) (a : α) : Prop :=
  ∀ t a' t' r r', Spell a t → Spell a' t' → Stops r → Stops r' → t ++ r = t' ++ r' →
    a = a' ∧ t = t'

/-- What stands between the brackets: blanks only, or listed elements behind blanks. -/
inductive Filled {α : Type} (Spell : α → List Char → Prop) : List α → List Char → Prop
  | none {b : List Char} (hb : Blank b) : Filled Spell [] b
  | some {as : List α} {b t : List Char} (hb : Blank b) (h : Listed Spell as t) :
      Filled Spell as (b ++ t)

/-- The character closes an array or an object. -/
def Closes (c : Char) : Prop := c = ']' ∨ c = '\x7d'

theorem Closes.skipBlanks {c : Char} (h : Closes c) (rest : List Char) :
    Json.skipBlanks (c :: rest) = c :: rest := by
  rcases h with rfl | rfl <;> exact skipBlanks_cons (by decide) rest

theorem Closes.stops {c : Char} (h : Closes c) {b : List Char} (hb : Blank b)
    (rest : List Char) : Stops (b ++ c :: rest) := by
  rcases h with rfl | rfl <;> exact stops_append hb (stops_cons (by decide) rest)

theorem Closes.notMem {c : Char} (h : Closes c) : c ∈ stoppers ∧ c ≠ ',' := by
  rcases h with rfl | rfl <;> decide

theorem stops_comma {b : List Char} (hb : Blank b) (rest : List Char) :
    Stops (b ++ ',' :: rest) :=
  stops_append hb (stops_cons (by decide) rest)

section

variable {α : Type} {Spell : α → List Char → Prop} {close : Char}

/-- Listed elements that cannot be mistaken for others cannot be so as a list, up to the character
that closes it. -/
theorem Listed.append_inj (hc : Closes close) (hp : ∀ a t, Spell a t → Begins t)
    {as as' : List α} {t t' r r' : List Char} (h : Listed Spell as t) (h' : Listed Spell as' t')
    (hu : ∀ a ∈ as, Unambiguous Spell a) (e : t ++ close :: r = t' ++ close :: r') :
    as = as' ∧ t = t' := by
  have hcomma : ∀ r, skipBlanks (',' :: r) = ',' :: r := skipBlanks_cons (by decide)
  -- both lists begin with the same element; then either both end or both go on, as the character
  -- that closes a list is no comma
  induction h generalizing as' t' with
  | last h hb =>
    cases h' with
    | last h' hb' =>
      rw [List.append_assoc, List.append_assoc] at e
      obtain ⟨rfl, rfl⟩ := hu _ List.mem_cons_self _ _ _ _ _ h h' (hc.stops hb _)
        (hc.stops hb' _) e
      obtain ⟨rfl, -⟩ := hb.append_inj hb' (hc.skipBlanks _) (hc.skipBlanks _)
        (List.append_cancel_left e)
      exact ⟨rfl, rfl⟩
    | more h' hb' _ _ =>
      simp only [List.append_assoc, List.cons_append] at e
      obtain ⟨rfl, rfl⟩ := hu _ List.mem_cons_self _ _ _ _ _ h h' (hc.stops hb _)
        (stops_comma hb' _) e
      obtain ⟨-, e'⟩ := hb.append_inj hb' (hc.skipBlanks _) (hcomma _)
        (List.append_cancel_left e)
      exact absurd (List.cons.inj e').1 hc.notMem.2
  | more h hb hb2 hr ih =>
    cases h' with
    | last h' hb' =>
      simp only [List.append_assoc, List.cons_append] at e
      obtain ⟨rfl, rfl⟩ := hu _ List.mem_cons_self _ _ _ _ _ h h' (stops_comma hb _)
        (hc.stops hb' _) e
      obtain ⟨-, e'⟩ := hb.append_inj hb' (hcomma _) (hc.skipBlanks _)
        (List.append_cancel_left e)
      exact absurd (List.cons.inj e').1.symm hc.notMem.2
    | more h' hb' hb2' hr' =>
      simp only [List.append_assoc, List.cons_append] at e
      obtain ⟨rfl, rfl⟩ := hu _ List.mem_cons_self _ _ _ _ _ h h' (stops_comma hb _)
        (stops_comma hb' _) e
      obtain ⟨rfl, e1⟩ := hb.append_inj hb' (hcomma _) (hcomma _) (List.append_cancel_left e)
      obtain ⟨rfl, e2⟩ := hb2.append_inj hb2' ((hr.begins hp).skipBlanks _)
        ((hr'.begins hp).skipBlanks _) (List.cons.inj e1).2
      obtain ⟨rfl, rfl⟩ := ih hr' (fun a ha => hu a (List.mem_cons_of_mem _ ha)) e2
      exact ⟨rfl, rfl⟩

/-- Nor can what stands between brackets be mistaken. -/
theorem Filled.append_inj (hc : Closes close) (hp : ∀ a t, Spell a t → Begins t)
    {as as' : List α} {t t' r r' : List Char} (h : Filled Spell as t) (h' : Filled Spell as' t')
    (hu : ∀ a ∈ as, Unambiguous Spell a) (e : t ++ close :: r = t' ++ close :: r') :
    as = as' ∧ t = t' := by
  cases h with
  | none hb =>
    cases h' with
    | none hb' =>
      obtain ⟨rfl, -⟩ := hb.append_inj hb' (hc.skipBlanks _) (hc.skipBlanks _) e
      exact ⟨rfl, rfl⟩
    | some hb' h' =>
      rw [List.append_assoc] at e
      obtain ⟨-, e'⟩ := hb.append_inj hb' (hc.skipBlanks _) ((h'.begins hp).skipBlanks _) e
      obtain ⟨c, t, rfl, hstop⟩ := h'.begins hp
      -- an element cannot begin with what closes the list
      exact absurd ((List.cons.inj e').1 ▸ hc.notMem.1) hstop
  | some hb h =>
    cases h' with
    | none hb' =>
      rw [List.append_assoc] at e
      obtain ⟨-, e'⟩ := hb.append_inj hb' ((h.begins hp).skipBlanks _) (hc.skipBlanks _) e
      obtain ⟨c, t, rfl, hstop⟩ := h.begins hp
      exact absurd ((List.cons.inj e').1 ▸ hc.notMem.1) hstop
    | some hb' h' =>
      rw [List.append_assoc, List.append_assoc] at e
      obtain ⟨rfl, e'⟩ := hb.append_inj hb' ((h.begins hp).skipBlanks _)
        ((h'.begins hp).skipBlanks _) e
      obtain ⟨rfl, rfl⟩ := h.append_inj hc hp h' hu e'
      exact ⟨rfl, rfl⟩

end

/-- A member cannot be mistaken if its value cannot. -/
theorem SpellsMember.unambiguous {m : String × Written} (h : Unambiguous Spells m.2) :
    Unambiguous SpellsMember m := by
  intro t m' t' r r' hm hm' hr hr' e
  have hcolon : ∀ r, skipBlanks (':' :: r) = ':' :: r := skipBlanks_cons (by decide)
  obtain ⟨hk, hb1, hb2, hw⟩ := hm
  obtain ⟨hk', hb1', hb2', hw'⟩ := hm'
  simp only [List.append_assoc, List.cons_append] at e
  obtain ⟨rfl, rfl, e1⟩ := hk.append_inj hk' e
  obtain ⟨rfl, e2⟩ := hb1.append_inj hb1' (hcolon _) (hcolon _) e1
  obtain ⟨rfl, e3⟩ := hb2.append_inj hb2' (hw.begins.skipBlanks _) (hw'.begins.skipBlanks _)
    (List.cons.inj e2).2
  obtain ⟨rfl, rfl⟩ := h _ _ _ _ _ hw hw' hr hr' e3
  exact ⟨rfl, rfl⟩

theorem Spells.filled_of_array {items : List Written} {t : List Char}
    (h : Spells (.array items) t) :
    ∃ t', Filled Spells items t' ∧ t = '[' :: (t' ++ [']']) := by
  cases h with
  | emptyArray hb => exact ⟨_, .none hb, rfl⟩
  | array hb h => exact ⟨_, .some hb h, by simp⟩

theorem Spells.filled_of_object {members : List (String × Written)} {t : List Char}
    (h : Spells (.object members) t) :
    ∃ t', Filled SpellsMember members t' ∧ t = '\x7b' :: (t' ++ ['\x7d']) := by
  cases h with
  | emptyObject hb => exact ⟨_, .none hb, rfl⟩
  | object hb h => exact ⟨_, .some hb h, by simp⟩

/-! ## Values -/

/-- The kind of a value, as the character that it begins with; numbers are taken to begin with a
zero. -/
def Written.opening : Written → Char
  | .null => 'n'
  | .bool true => 't'
  | .bool false => 'f'
  | .number _ => '0'
  | .string _ => '"'
  | .array _ => '['
  | .object _ => '\x7b'

/-- The kind that a first character tells. -/
def openingOf (c : Char) : Char := if c = '-' ∨ c.isDigit = true then '0' else c

theorem Spells.opening {w : Written} {t : List Char} (h : Spells w t) :
    t.head?.map openingOf = some w.opening := by
  cases h with
  | number h =>
    obtain ⟨c, t, e, hc⟩ := Numeral.head_text h
    rw [e, List.head?_cons, Option.map_some, openingOf, if_pos hc, Written.opening]
  | string h =>
    obtain ⟨h⟩ := h
    rfl
  | null | true | false | emptyArray | array | emptyObject | object => rfl

/-- Values of one kind; of the two booleans each is a kind of its own. -/
inductive SameKind : Written → Written → Prop
  | null : SameKind .null .null
  | bool (b : Bool) : SameKind (.bool b) (.bool b)
  | number (l l' : Literal) : SameKind (.number l) (.number l')
  | string (s s' : String) : SameKind (.string s) (.string s')
  | array (items items' : List Written) : SameKind (.array items) (.array items')
  | object (members members' : List (String × Written)) :
      SameKind (.object members) (.object members')

theorem sameKind_of_opening {w w' : Written} (h : w.opening = w'.opening) : SameKind w w' := by
  rcases w with _ | (_ | _) | _ | _ | _ | _ <;> rcases w' with _ | (_ | _) | _ | _ | _ | _ <;>
    simp [Written.opening] at h <;> constructor

/-- What begins alike is of one kind. -/
theorem Spells.sameKind {w w' : Written} {t t' r r' : List Char} (h : Spells w t)
    (h' : Spells w' t') (e : t ++ r = t' ++ r') : SameKind w w' := by
  have hopening := h.opening
  have hopening' := h'.opening
  obtain ⟨c, t, rfl, -⟩ := h.begins
  obtain ⟨c', t', rfl, -⟩ := h'.begins
  obtain ⟨rfl, -⟩ := List.cons.inj e
  exact sameKind_of_opening (Option.some.inj (hopening.symm.trans hopening'))

theorem Spells.unambiguous (w : Written) : Unambiguous Spells w := by
  induction w with
  | null =>
    intro t w' t' r r' h h' _ _ e
    -- the first character tells the kind
    cases h.sameKind h' e
    cases h
    cases h'
    exact ⟨rfl, rfl⟩
  | bool b =>
    intro t w' t' r r' h h' _ _ e
    cases h.sameKind h' e
    cases h <;> cases h' <;> exact ⟨rfl, rfl⟩
  | number l =>
    intro t w' t' r r' h h' hr hr' e
    cases h.sameKind h' e
    cases h with
    | number hl =>
      cases h' with
      | number hl' =>
        obtain rfl := Literal.append_inj hl hl' hr.ends hr'.ends e
        exact ⟨rfl, rfl⟩
  | string s =>
    intro t w' t' r r' h h' _ _ e
    cases h.sameKind h' e
    cases h with
    | string hs =>
      cases h' with
      | string hs' =>
        obtain ⟨rfl, rfl, -⟩ := hs.append_inj hs' e
        exact ⟨rfl, rfl⟩
  | array items ih =>
    intro t w' t' r r' h h' _ _ e
    cases h.sameKind h' e
    obtain ⟨t, hitems, rfl⟩ := h.filled_of_array
    obtain ⟨t', hitems', rfl⟩ := h'.filled_of_array
    simp only [List.append_assoc, List.cons_append, List.nil_append] at e
    obtain ⟨rfl, rfl⟩ := hitems.append_inj (.inl rfl) (fun _ _ => Spells.begins) hitems' ih
      (List.cons.inj e).2
    exact ⟨rfl, rfl⟩
  | object members ih =>
    intro t w' t' r r' h h' _ _ e
    cases h.sameKind h' e
    obtain ⟨t, hmembers, rfl⟩ := h.filled_of_object
    obtain ⟨t', hmembers', rfl⟩ := h'.filled_of_object
    simp only [List.append_assoc, List.cons_append, List.nil_append] at e
    obtain ⟨rfl, rfl⟩ := hmembers.append_inj (.inr rfl) (fun _ _ => SpellsMember.begins) hmembers'
      (fun m hm => SpellsMember.unambiguous (ih m hm)) (List.cons.inj e).2
    exact ⟨rfl, rfl⟩

/-- A text is one written value at most. -/
theorem Document.unique {w w' : Written} {text : List Char} (h : Document w text)
    (h' : Document w' text) : w = w' := by
  obtain ⟨b, t, r, hb, hw, hr, rfl⟩ := h
  obtain ⟨b', t', r', hb', hw', hr', e⟩ := h'
  obtain ⟨-, e'⟩ := hb.append_inj hb' (hw.begins.skipBlanks _) (hw'.begins.skipBlanks _) e
  have stops : ∀ {r}, Blank r → Stops r := fun hr => by
    simpa using stops_append hr stops_nil
  exact (Spells.unambiguous w _ _ _ _ _ hw hw' (stops hr) (stops hr') e').1

/-- Whether a document is read, and as what, is a matter of the written value. -/
theorem Document.parse_eq_ok_iff {w : Written} {text : List Char} (h : Document w text)
    {v : Json} : parse text = .ok v ↔ w.Fits maxDepth ∧ w.Readable ∧ w.value = v := by
  rw [Json.parse_eq_ok_iff]
  constructor
  · rintro ⟨w', h', hread⟩
    rwa [h.unique h']
  · intro hread
    exact ⟨w, h, hread⟩

end Polyglot.Json
