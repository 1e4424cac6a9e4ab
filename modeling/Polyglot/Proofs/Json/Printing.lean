/-
What is written is in the grammar: the text of a regular value spells that value, written plainly.
So the text is a document of it, and reading it gives the value back if its containers lie no
deeper than the reader allows.
-/
import Polyglot.Proofs.Json.Unique

namespace Polyglot.Json

open Keyed

/-! ## Strings -/

theorem isHex_hexChar {n : Nat} (h : n < 16) : IsHex (hexChar n) n := by
  revert n
  simp only [IsHex]
  decide

/-- A character below U+0020 is spelled by the two last digits of its escape. -/
theorem spellsHex_control {n : Nat} (h : n < 0x20) :
    SpellsHex n ['0', '0', hexChar (n / 16), hexChar (n % 16)] := by
  have hzero : IsHex '0' 0 := by simp [IsHex]
  have hhigh : IsHex (hexChar (n / 16)) (n / 16) := isHex_hexChar (by omega)
  have hlow : IsHex (hexChar (n % 16)) (n % 16) := isHex_hexChar (by omega)
  have hspells := SpellsHex.intro hzero hzero hhigh hlow
  rwa [show ((0 * 16 + 0) * 16 + n / 16) * 16 + n % 16 = n by omega] at hspells

theorem spellsChar_escapeChar (c : Char) : SpellsChar c (escapeChar c) := by
  have short : ∀ c' letter, (c', letter) ∈ shortEscapes → (c == c') = true →
      SpellsChar c ['\\', letter] := by
    intro c' letter h hc
    rw [beq_iff_eq.1 hc]
    exact .short h
  unfold escapeChar
  -- in the order of the printer; the letters of the table come first
  split
  · exact short '"' '"' (by decide) ‹_›
  split
  · exact short '\\' '\\' (by decide) ‹_›
  split
  · exact short '\x08' 'b' (by decide) ‹_›
  split
  · exact short '\x0c' 'f' (by decide) ‹_›
  split
  · exact short '\n' 'n' (by decide) ‹_›
  split
  · exact short '\r' 'r' (by decide) ‹_›
  split
  · exact short '\t' 't' (by decide) ‹_›
  split
  · exact .code (spellsHex_control ‹_›)
  · rename_i hq hb _ _ _ _ _ hlow
    rw [beq_iff_eq] at hq hb
    exact .plain (by omega) hq hb

theorem spellsString_renderString (s : String) : SpellsString s (renderString s) := by
  refine .intro ?_
  induction s.toList with
  | nil => exact .nil
  | cons c cs ih => exact .cons (spellsChar_escapeChar c) ih

/-! ## Values -/

theorem listed_renderItems {items : List Json} (hne : items ≠ [])
    (h : ∀ v ∈ items, Spells v.written v.render) :
    Listed Spells (items.map written) (renderItems items) := by
  induction items with
  | nil => exact absurd rfl hne
  | cons v items ih =>
    rw [List.forall_mem_cons] at h
    obtain ⟨hv, htail⟩ := h
    cases items with
    | nil => simpa [renderItems] using Listed.last hv blank_nil
    | cons v' items =>
      have hlist := Listed.more hv blank_nil blank_nil (ih (List.cons_ne_nil _ _) htail)
      simpa [renderItems] using hlist

theorem listed_renderMembers {members : Members} (hne : members ≠ [])
    (h : ∀ m ∈ members, Spells m.2.written m.2.render) :
    Listed SpellsMember (mapValues written members) (renderMembers members) := by
  induction members with
  | nil => exact absurd rfl hne
  | cons m members ih =>
    obtain ⟨key, v⟩ := m
    rw [List.forall_mem_cons] at h
    obtain ⟨hv, htail⟩ := h
    have hm := SpellsMember.intro (spellsString_renderString key) blank_nil blank_nil hv
    cases members with
    | nil => simpa [renderMembers] using Listed.last hm blank_nil
    | cons m' members =>
      have hlist := Listed.more hm blank_nil blank_nil (ih (List.cons_ne_nil _ _) htail)
      simpa [renderMembers] using hlist

/-- The text of a regular value spells it, written plainly. -/
theorem Regular.spells {v : Json} (h : v.Regular) : Spells v.written v.render := by
  induction h with
  | null => exact .null
  | bool b => cases b <;> constructor
  | @number n h =>
    rw [written, render, ← Literal.text_ofNumeral]
    refine .number ?_
    rwa [Literal.WellFormed, Literal.numeral_ofNumeral]
  | string s => exact .string (spellsString_renderString s)
  | @array items _ ih =>
    rw [written_array, render]
    by_cases hne : items = []
    · subst hne
      exact .emptyArray blank_nil
    · exact .array blank_nil (listed_renderItems hne ih)
  | @object members _ _ _ ih =>
    rw [written_object, render]
    by_cases hne : members = []
    · subst hne
      exact .emptyObject blank_nil
    · exact .object blank_nil (listed_renderMembers hne ih)

theorem Regular.document {v : Json} (h : v.Regular) : Document v.written v.render :=
  ⟨[], v.render, [], blank_nil, h.spells, blank_nil, by simp⟩

/-- The text of a regular value is plain. -/
theorem Regular.plain_of_document {v : Json} (h : v.Regular) {w : Written}
    (hw : Document w v.render) : w.Plain :=
  hw.unique h.document ▸ h.verbatim.plain

/-- What is written is read back, if its containers lie no deeper than allowed. -/
theorem parse_render {v : Json} (h : v.Regular) (hf : v.Fits maxDepth) :
    parse v.render = .ok v :=
  h.document.parse_eq_ok_iff.2 ⟨hf.written, h.verbatim.plain.readable, h.value_written⟩

end Polyglot.Json
