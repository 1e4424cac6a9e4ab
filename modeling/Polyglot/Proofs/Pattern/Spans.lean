/-
What spans look like. A span of a composed pattern is composed of spans of its parts, and a pattern
any number of times spans what some steps of it lead to. No span leaves the text.

A pattern sees no more of a text than the sets and the edges that it is made of tell apart: where
these hold in another text too, the pattern spans the same part there.
-/
import Polyglot.Pattern.Basic
import Mathlib.Logic.Relation

namespace Polyglot.Pattern

open Relation (ReflTransGen)

variable {text : List Char} {p q : Pattern} {i j : Nat}

/-! ## Spans of composed patterns -/

theorem spans_empty_iff : Spans text empty i j ↔ i = j := by
  constructor
  · rintro ⟨⟩
    rfl
  · rintro rfl
    exact .empty i

theorem spans_one_iff {s : CharSet} :
    Spans text (one s) i j ↔ i + 1 = j ∧ (text[i]?).any s.contains = true := by
  constructor
  · intro h
    cases h with
    | one hc hs => exact ⟨rfl, (Option.any_eq_true _ _).2 ⟨_, hc, hs⟩⟩
  · rintro ⟨rfl, h⟩
    obtain ⟨c, hc, hs⟩ := (Option.any_eq_true _ _).1 h
    exact .one hc hs

theorem spans_edge_iff {e : Edge} : Spans text (edge e) i j ↔ i = j ∧ e.holdsAt text i = true := by
  constructor
  · intro h
    cases h with
    | edge he => exact ⟨rfl, he⟩
  · rintro ⟨rfl, he⟩
    exact .edge he

theorem spans_both_iff : Spans text (both p q) i j ↔ ∃ k, Spans text p i k ∧ Spans text q k j := by
  constructor
  · intro h
    cases h with
    | both hp hq => exact ⟨_, hp, hq⟩
  · rintro ⟨k, hp, hq⟩
    exact .both hp hq

theorem spans_either_iff : Spans text (either p q) i j ↔ Spans text p i j ∨ Spans text q i j := by
  constructor
  · intro h
    cases h with
    | left hp => exact .inl hp
    | right hq => exact .inr hq
  · rintro (hp | hq)
    · exact .left hp
    · exact .right hq

theorem spans_many_iff : Spans text (many p) i j ↔ ReflTransGen (Spans text p) i j := by
  constructor
  · intro h
    generalize hm : many p = m at h
    induction h with
    | stop i => exact .refl
    | more hp _ _ ih =>
      cases hm
      exact .head hp (ih rfl)
    | _ => cases hm
  · intro h
    induction h using ReflTransGen.head_induction_on with
    | refl => exact .stop j
    | head hp _ ih => exact .more hp ih

/-! ## Bounds -/

/-- A span that is not empty ends within the text. -/
theorem Spans.eq_or_le_length (h : Spans text p i j) : i = j ∨ j ≤ text.length := by
  induction h with
  | one hc _ => exact .inr (List.getElem?_eq_some_iff.1 hc).1
  | both _ _ ihp ihq | more _ _ ihp ihq =>
    rcases ihq with rfl | hle
    · exact ihp
    · exact .inr hle
  | left _ ih | right _ ih => exact ih
  | _ => exact .inl rfl

theorem Spans.le_length (h : Spans text p i j) (hi : i ≤ text.length) : j ≤ text.length := by
  rcases h.eq_or_le_length with rfl | hle
  · exact hi
  · exact hle

/-! ## Spans in another text -/

/-- The sets of characters that a pattern is made of. -/
def sets : Pattern → List CharSet
  | empty | edge _ => []
  | one s => [s]
  | both p q | either p q => p.sets ++ q.sets
  | many p => p.sets

/-- The edges that a pattern is made of. -/
def edges : Pattern → List Edge
  | empty | one _ => []
  | edge e => [e]
  | both p q | either p q => p.edges ++ q.edges
  | many p => p.edges

/-- What sets and edges tell of a text holds of another one too, `shift` gaps further on. -/
structure Kept (sets : List CharSet) (edges : List Edge) (text other : List Char) (shift : Nat) :
    Prop where
  set : ∀ s ∈ sets, ∀ i, (text[i]?).any s.contains = true →
    (other[shift + i]?).any s.contains = true
  edge : ∀ e ∈ edges, ∀ i ≤ text.length, e.holdsAt text i = true →
    e.holdsAt other (shift + i) = true

theorem Kept.mono {sets sets' : List CharSet} {edges edges' : List Edge} {other : List Char}
    {shift : Nat} (h : Kept sets edges text other shift) (hsets : sets' ⊆ sets)
    (hedges : edges' ⊆ edges) : Kept sets' edges' text other shift where
  set s hs := h.set s (hsets hs)
  edge e he := h.edge e (hedges he)

/-- A pattern spans the same part of another text if all that it is made of is kept. -/
theorem Spans.of_kept {other : List Char} {shift : Nat} (h : Spans text p i j)
    (hkept : Kept p.sets p.edges text other shift) (hi : i ≤ text.length) :
    Spans other p (shift + i) (shift + j) := by
  induction h with
  | empty i => exact .empty _
  | one hc hs =>
    refine spans_one_iff.2 ⟨rfl, hkept.set _ (List.mem_singleton_self _) _ ?_⟩
    rw [hc]
    exact hs
  | edge he => exact .edge (hkept.edge _ (List.mem_singleton_self _) _ hi he)
  | both hp _ ihp ihq =>
    exact .both
      (ihp (hkept.mono (List.subset_append_left _ _) (List.subset_append_left _ _)) hi)
      (ihq (hkept.mono (List.subset_append_right _ _) (List.subset_append_right _ _))
        (hp.le_length hi))
  | left _ ih =>
    exact .left (ih (hkept.mono (List.subset_append_left _ _) (List.subset_append_left _ _)) hi)
  | right _ ih =>
    exact .right (ih (hkept.mono (List.subset_append_right _ _) (List.subset_append_right _ _)) hi)
  | stop i => exact .stop _
  | more hp _ ihp ihmany => exact .more (ihp hkept hi) (ihmany hkept (hp.le_length hi))

theorem Occurs.of_kept {other : List Char} {shift : Nat} (h : Occurs p text)
    (hkept : Kept p.sets p.edges text other shift) (hlength : shift + text.length ≤ other.length) :
    Occurs p other := by
  obtain ⟨i, j, hi, hspan⟩ := h
  exact ⟨shift + i, shift + j, by omega, hspan.of_kept hkept hi⟩

end Polyglot.Pattern
