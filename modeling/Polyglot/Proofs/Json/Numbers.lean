/-
Reading numbers. The reader accepts exactly the literals of the grammar: a literal is read as its
numeral whenever what follows cannot belong to it, and what is read was a literal. So a quoted
number is one whose whole text is a literal.
-/
import Polyglot.Proofs.Json.Grammar
import Mathlib.Data.List.Basic

namespace Polyglot

/-! ## Digits -/

namespace Digit

theorem ofChar?_eq_some_iff {c : Char} {d : Digit} : ofChar? c = some d ↔ c = d.toChar := by
  constructor
  · exact fun h => (toChar_of_ofChar? h).symm
  · rintro rfl
    exact ofChar?_toChar d

theorem ofChar?_eq_none_iff {c : Char} : ofChar? c = none ↔ c.isDigit = false := by
  unfold ofChar?
  by_cases h : c.isDigit <;> simp [h]

@[simp]
theorem isDigit_toChar (d : Digit) : d.toChar.isDigit = true := by
  by_contra h
  rw [Bool.not_eq_true, ← ofChar?_eq_none_iff, ofChar?_toChar] at h
  cases h

theorem toChar_ne_of_isDigit {c : Char} (h : c.isDigit = false) (d : Digit) : d.toChar ≠ c := by
  rintro rfl
  simp at h

/-- The number that digits write behind those of a number. -/
def valueBehind (n : Nat) (ds : List Digit) : Nat := ds.foldl (fun n d => 10 * n + d.val) n

theorem valueBehind_cons (n : Nat) (d : Digit) (ds : List Digit) :
    valueBehind n (d :: ds) = valueBehind (10 * n + d.val) ds := rfl

theorem le_valueBehind (n : Nat) (ds : List Digit) : n ≤ valueBehind n ds := by
  induction ds generalizing n with
  | nil => exact Nat.le_refl n
  | cons d ds ih =>
    rw [valueBehind_cons]
    exact Nat.le_trans (by omega) (ih (10 * n + d.val))

end Digit

namespace Numeral

open Json Json.Literal

/-- The text does not go on with a digit. -/
def NoDigit (rest : List Char) : Prop := ∀ c ∈ rest.head?, Digit.ofChar? c = none

/-- The text does not go on with a character that a number could go on with. -/
def Ends (rest : List Char) : Prop :=
  ∀ c ∈ rest.head?, Digit.ofChar? c = none ∧ c ≠ '.' ∧ c ≠ 'e' ∧ c ≠ 'E'

theorem Ends.noDigit {rest : List Char} (h : Ends rest) : NoDigit rest := fun c hc => (h c hc).1

theorem ends_nil : Ends [] := by simp [Ends]

theorem digits_map_append {rest : List Char} (h : NoDigit rest) (ds : List Digit) :
    digits (ds.map Digit.toChar ++ rest) = (ds, rest) := by
  induction ds with
  | nil =>
    cases rest with
    | nil => rfl
    | cons c rest => rw [List.map_nil, List.nil_append, digits, h c rfl]
  | cons d ds ih => rw [List.map_cons, List.cons_append, digits, Digit.ofChar?_toChar, ih]

theorem eq_of_digits {text rest : List Char} {ds : List Digit} (h : digits text = (ds, rest)) :
    text = ds.map Digit.toChar ++ rest := by
  rw [← digits_append text, h]

/-! ## The parts of a number -/

theorem readWhole_append {ds : List Digit} {rest : List Char} (hds : Digit.IsWhole ds)
    (h : NoDigit rest) : readWhole (ds.map Digit.toChar ++ rest) = .ok (ds, rest) := by
  obtain ⟨hne, hzero⟩ := hds
  cases ds with
  | nil => exact absurd rfl hne
  | cons d ds =>
    rw [List.map_cons, List.cons_append, readWhole, Digit.ofChar?_toChar]
    by_cases hd : d = Digit.zero
    · have hds : ds = [] := by simpa [hd] using hzero (by rw [hd]; rfl)
      subst hds
      cases rest with
      | nil => simp [hd]
      | cons c rest => simp [hd, Digit.ofChar?_eq_none_iff.1 (h c rfl)]
    · simp only [hd, if_false, digits_map_append h]

theorem readWhole_ok {text rest : List Char} {ds : List Digit}
    (h : readWhole text = .ok (ds, rest)) :
    Digit.IsWhole ds ∧ text = ds.map Digit.toChar ++ rest := by
  cases text with
  | nil => cases h
  | cons c text =>
    rw [readWhole] at h
    split at h
    · cases h
    · rename_i d hd
      rw [Digit.ofChar?_eq_some_iff] at hd
      subst hd
      split at h
      · rename_i hd
        split at h
        · cases h
          exact ⟨⟨by simp, fun _ => by rw [hd]⟩, rfl⟩
        · split at h
          · cases h
          · cases h
            exact ⟨⟨by simp, fun _ => by rw [hd]⟩, rfl⟩
      · rename_i hd
        cases h
        exact ⟨⟨by simp, fun h0 => absurd (Option.some.inj h0) hd⟩, by
          rw [List.map_cons, List.cons_append, digits_append]⟩

theorem readFraction_append (ds : List Digit) {rest : List Char} (h : NoDigit rest)
    (hp : rest.head? ≠ some '.') : readFraction (fractionText ds ++ rest) = .ok (ds, rest) := by
  cases ds with
  | nil =>
    show readFraction rest = .ok ([], rest)
    unfold readFraction
    split
    · simp at hp
    · rfl
  | cons d ds =>
    rw [fractionText, List.isEmpty_cons, if_neg (by simp), List.cons_append, readFraction,
      digits_map_append h]

theorem readFraction_ok {text rest : List Char} {ds : List Digit}
    (h : readFraction text = .ok (ds, rest)) : text = fractionText ds ++ rest := by
  unfold readFraction at h
  split at h
  · rename_i text
    split at h
    · cases h
    · cases h
    · rename_i ds' behind h1 h2 hd
      cases h
      rw [eq_of_digits hd]
      cases ds with
      | nil => exact absurd rfl h2
      | cons d ds => rfl
  · cases h
    rfl

theorem readExponentDigits_append (negative : Bool) {ds : List Digit} {rest : List Char}
    (hds : ds ≠ []) (h : NoDigit rest) :
    readExponentDigits negative (ds.map Digit.toChar ++ rest) =
      .ok (some ⟨negative, ds⟩, rest) := by
  cases ds with
  | nil => exact absurd rfl hds
  | cons d ds =>
    rw [readExponentDigits, digits_map_append h]
    simp

theorem readExponentDigits_ok {negative : Bool} {text rest : List Char} {e : Option Exponent}
    (h : readExponentDigits negative text = .ok (e, rest)) :
    ∃ ds, ds ≠ [] ∧ e = some ⟨negative, ds⟩ ∧ text = ds.map Digit.toChar ++ rest := by
  unfold readExponentDigits at h
  split at h
  · cases h
  · split at h
    · cases h
    · rename_i ds behind hne hd
      cases h
      exact ⟨ds, hne, rfl, eq_of_digits hd⟩

/-- The value of an exponent, however it is spelled. -/
def exponentOf (e : ExponentText) : Exponent := ⟨e.sign == .minus, e.digits⟩

theorem readExponent_append {e : Option ExponentText} {rest : List Char}
    (he : ∀ x, e = some x → x.digits ≠ []) (h : Ends rest) :
    readExponent (exponentText e ++ rest) = .ok (e.map exponentOf, rest) := by
  cases e with
  | none =>
    cases rest with
    | nil => rfl
    | cons c rest =>
      obtain ⟨-, -, h1, h2⟩ := h c rfl
      simp [exponentText, readExponent, h1, h2]
  | some x =>
    obtain ⟨capital, sign, ds⟩ := x
    have hds : ds ≠ [] := he _ rfl
    rw [exponentText, List.cons_append, List.append_assoc]
    cases sign with
    | plus =>
      have hread := readExponentDigits_append false hds h.noDigit
      cases capital <;> exact hread
    | minus =>
      have hread := readExponentDigits_append true hds h.noDigit
      cases capital <;> exact hread
    | none =>
      -- without a sign a digit comes next, which the reader must not take for one
      cases ds with
      | nil => exact absurd rfl hds
      | cons d ds =>
        have hplus := Digit.toChar_ne_of_isDigit (c := '+') (by decide) d
        have hminus := Digit.toChar_ne_of_isDigit (c := '-') (by decide) d
        have hread := readExponentDigits_append false hds h.noDigit
        simp only [signText, List.nil_append, List.map_cons, List.cons_append] at hread ⊢
        cases capital <;> simp [readExponent, hplus, hminus, hread, exponentOf]

theorem readExponent_ok {text rest : List Char} {e : Option Exponent}
    (h : readExponent text = .ok (e, rest)) :
    ∃ x, (∀ y, x = some y → y.digits ≠ []) ∧ e = x.map exponentOf ∧
      text = exponentText x ++ rest := by
  cases text with
  | nil =>
    cases h
    exact ⟨none, by simp, rfl, rfl⟩
  | cons c text =>
    unfold readExponent at h
    dsimp only at h
    split at h
    · rename_i hc
      -- which letter it was, and which sign if any, is all that the exponent itself does not say
      have hletter : c = if c == 'E' then 'E' else 'e' := by
        by_cases hE : c = 'E' <;> simp_all
      have hsign : ∃ sign t, text = signText sign ++ t ∧
          readExponentDigits (sign == .minus) t = .ok (e, rest) := by
        split at h
        · exact ⟨.plus, _, rfl, h⟩
        · exact ⟨.minus, _, rfl, h⟩
        · exact ⟨.none, _, rfl, h⟩
      obtain ⟨sign, t, rfl, hd⟩ := hsign
      obtain ⟨ds, hne, rfl, rfl⟩ := readExponentDigits_ok hd
      refine ⟨some ⟨c == 'E', sign, ds⟩, ?_, rfl, ?_⟩
      · rintro y hy
        cases hy
        exact hne
      · rw [exponentText, ← hletter, List.cons_append, List.append_assoc]
    · cases h
      exact ⟨none, by simp, rfl, rfl⟩

/-! ## Numbers -/

theorem exponentText_ends (e : Option ExponentText) {rest : List Char} (h : Ends rest) :
    NoDigit (exponentText e ++ rest) ∧ (exponentText e ++ rest).head? ≠ some '.' := by
  cases e with
  | none => exact ⟨h.noDigit, fun hp => (h '.' hp).2.1 rfl⟩
  | some e =>
    obtain ⟨capital, sign, ds⟩ := e
    cases capital <;> simp [exponentText, NoDigit] <;> decide

theorem fractionText_ends (fraction : List Digit) {rest : List Char} (h : NoDigit rest) :
    NoDigit (fractionText fraction ++ rest) := by
  cases fraction with
  | nil => exact h
  | cons d ds =>
    simp only [fractionText, List.isEmpty_cons, NoDigit]
    intro c hc
    cases hc
    decide

theorem readUnsigned_append {l : Literal} {rest : List Char} (hl : l.WellFormed) (h : Ends rest) :
    readUnsigned l.negative (l.whole.map Digit.toChar ++
      (fractionText l.fraction ++ (exponentText l.exponent ++ rest))) = .ok (l.numeral, rest) := by
  obtain ⟨hw, he⟩ := hl
  obtain ⟨h1, h2⟩ := exponentText_ends l.exponent h
  have hexp : ∀ x, l.exponent = some x → x.digits ≠ [] := by
    intro x hx
    refine he (exponentOf x) ?_
    simp [Literal.numeral, hx, exponentOf]
  have hwhole : readWhole (l.whole.map Digit.toChar ++ _) = _ :=
    readWhole_append hw (fractionText_ends l.fraction h1)
  unfold readUnsigned
  simp only [hwhole, readFraction_append _ h1 h2, readExponent_append hexp h]
  rfl

theorem readUnsigned_ok {negative : Bool} {text rest : List Char} {n : Numeral}
    (h : readUnsigned negative text = .ok (n, rest)) :
    ∃ l : Literal, l.WellFormed ∧ l.numeral = n ∧ l.negative = negative ∧
      text = l.whole.map Digit.toChar ++
        (fractionText l.fraction ++ (exponentText l.exponent ++ rest)) := by
  unfold readUnsigned at h
  split at h
  · cases h
  rename_i whole text1 h1
  split at h
  · cases h
  rename_i fraction text2 h2
  split at h
  · cases h
  rename_i exponent text3 h3
  cases h
  obtain ⟨hw, rfl⟩ := readWhole_ok h1
  have := readFraction_ok h2
  subst this
  obtain ⟨x, hx, rfl, rfl⟩ := readExponent_ok h3
  refine ⟨⟨negative, whole, fraction, x⟩, ⟨hw, ?_⟩, rfl, rfl, rfl⟩
  intro e he
  obtain ⟨y, hy, rfl⟩ := Option.map_eq_some_iff.1 he
  exact hx y hy

/-- A number begins with a minus or a digit. -/
theorem head_text {l : Literal} (hl : l.WellFormed) :
    ∃ c t, l.text = c :: t ∧ (c = '-' ∨ c.isDigit = true) := by
  obtain ⟨negative, whole, fraction, exponent⟩ := l
  cases negative with
  | true => exact ⟨'-', _, rfl, .inl rfl⟩
  | false =>
    cases whole with
    | nil => exact absurd rfl hl.1.1
    | cons d ds => exact ⟨d.toChar, _, rfl, .inr (Digit.isDigit_toChar d)⟩

/-- A literal is read as its numeral. -/
theorem read_append {l : Literal} {rest : List Char} (hl : l.WellFormed) (h : Ends rest) :
    read (l.text ++ rest) = .ok (l.numeral, rest) := by
  have hu := readUnsigned_append hl h
  obtain ⟨negative, whole, fraction, exponent⟩ := l
  simp only [Literal.text, List.append_assoc] at hu ⊢
  cases negative with
  | true => exact hu
  | false =>
    cases whole with
    | nil => exact absurd rfl hl.1.1
    | cons d ds =>
      have hminus := Digit.toChar_ne_of_isDigit (c := '-') (by decide) d
      rw [← hu]
      unfold read
      split
      · simp_all
      · rfl

/-- What is read as a number is a literal. -/
theorem read_ok {text rest : List Char} {n : Numeral} (h : read text = .ok (n, rest)) :
    ∃ l : Literal, l.WellFormed ∧ l.numeral = n ∧ text = l.text ++ rest := by
  unfold read at h
  split at h
  all_goals
    obtain ⟨l, hl, hn, hneg, rfl⟩ := readUnsigned_ok h
    exact ⟨l, hl, hn, by simp [Literal.text, hneg]⟩

end Numeral

namespace Json

open Numeral

/-- A text is read as a quoted number just if it is a literal as a whole. -/
theorem readQuoted_eq_ok_iff {text : List Char} {n : Numeral} :
    readQuoted text = .ok n ↔ ∃ l : Literal, l.WellFormed ∧ l.text = text ∧ l.numeral = n := by
  constructor
  · intro h
    unfold readQuoted at h
    dsimp only at h
    split at h
    · rename_i n' hr
      cases h
      split at hr
      · cases hr
      · split at hr
        · obtain ⟨l, hl, hn, ht⟩ := read_ok hr
          exact ⟨l, hl, by simpa using ht.symm, hn⟩
        · cases hr
    · cases h
    · split at h <;> cases h
  · rintro ⟨l, hl, rfl, rfl⟩
    -- a literal begins with a sign or a digit, which is where the reader looks first
    obtain ⟨c, t, ht, hc⟩ := head_text hl
    have hr := read_append hl ends_nil
    rw [List.append_nil, ht] at hr
    have hdispatch : (c == '-' || c.isDigit) = true := by simpa using hc
    simp [readQuoted, ht, hdispatch, hr]

/-- Different literals have different texts. -/
theorem Literal.text_injective {l l' : Literal} (hl : l.WellFormed) (hl' : l'.WellFormed)
    (h : l.text = l'.text) : l = l' := by
  -- the text fixes the numeral, and what is left is how the exponent is spelled
  have hn : l.numeral = l'.numeral := by
    have h1 := read_append hl ends_nil
    rw [h, read_append hl' ends_nil, Except.ok.injEq, Prod.mk.injEq] at h1
    exact h1.1.symm
  obtain ⟨negative, whole, fraction, exponent⟩ := l
  obtain ⟨negative', whole', fraction', exponent'⟩ := l'
  simp only [Literal.numeral, Numeral.mk.injEq] at hn
  obtain ⟨rfl, rfl, rfl, he⟩ := hn
  simp only [Literal.text, List.append_cancel_left_eq] at h
  cases exponent with
  | none =>
    cases exponent' with
    | none => rfl
    | some e' => simp at he
  | some e =>
    cases exponent' with
    | none => simp at he
    | some e' =>
      obtain ⟨capital, sign, ds⟩ := e
      obtain ⟨capital', sign', ds'⟩ := e'
      simp only [Option.map_some, Option.some.injEq, Exponent.mk.injEq] at he
      obtain ⟨-, rfl⟩ := he
      simp only [exponentText, List.cons.injEq, List.append_cancel_right_eq] at h
      obtain ⟨hc, hs⟩ := h
      have hc : capital = capital' := by cases capital <;> cases capital' <;> simp_all
      have hs : sign = sign' := by cases sign <;> cases sign' <;> simp_all [signText]
      rw [hc, hs]

end Json

end Polyglot
