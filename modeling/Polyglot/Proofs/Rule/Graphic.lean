/-
Rules and graphic characters. Whether a pattern asks for a graphic character of ASCII is read off
its sets: one of two patterns in a row has to ask for it, or both of two alternatives. All rules ask
for one, whatever letters, digits and blanks of other scripts they let in beside it. So no rule
occurs in a text that has none, and no language is a candidate for it.
-/
import Polyglot.Proofs.Pattern.Matching
import Polyglot.Proofs.Rule.Guessing

namespace Polyglot

/-! ## Graphic characters -/

/-- The graphic characters of ASCII: from the exclamation mark to the tilde. -/
def Text.IsGraphic (c : Char) : Prop := 0x21 ≤ c.toNat ∧ c.toNat ≤ 0x7E

instance (c : Char) : Decidable (Text.IsGraphic c) := by
  unfold Text.IsGraphic; infer_instance

/-- Whether the set is made of graphic characters alone. -/
def CharSet.isGraphic : CharSet → Bool
  | only c => decide (Text.IsGraphic c)
  | between first last => decide (Text.IsGraphic first) && decide (Text.IsGraphic last)
  | union s t => s.isGraphic && t.isGraphic
  -- sets of all scripts, and those that are given by what they lack
  | any | word | digit | blank | except _ => false

theorem CharSet.isGraphic_of_contains {s : CharSet} {c : Char} (h : s.isGraphic = true)
    (hc : s.contains c = true) : Text.IsGraphic c := by
  induction s with
  | only d =>
    have hd : c = d := eq_of_beq hc
    exact hd ▸ of_decide_eq_true h
  | between first last =>
    simp only [isGraphic, Bool.and_eq_true, decide_eq_true_eq] at h
    simp only [contains, Bool.and_eq_true, decide_eq_true_eq] at hc
    have hlow : first.toNat ≤ c.toNat := hc.1
    have hhigh : c.toNat ≤ last.toNat := hc.2
    exact ⟨Nat.le_trans h.1.1 hlow, Nat.le_trans hhigh h.2.2⟩
  | union s t ihs iht =>
    simp only [isGraphic, Bool.and_eq_true] at h
    simp only [contains, Bool.or_eq_true] at hc
    rcases hc with hc | hc
    · exact ihs h.1 hc
    · exact iht h.2 hc
  | any | word | digit | blank | except _ _ => cases h

namespace Pattern

variable {text : List Char} {p : Pattern} {i j : Nat}

/-- Whether the pattern asks for a graphic character. -/
def asksGraphic : Pattern → Bool
  | one s => s.isGraphic
  | both p q => p.asksGraphic || q.asksGraphic
  | either p q => p.asksGraphic && q.asksGraphic
  | empty | edge _ | many _ => false

/-- A span of a pattern that asks for a graphic character has one. -/
theorem Spans.exists_graphic (h : Spans text p i j) (hp : p.asksGraphic = true) :
    ∃ c ∈ text, Text.IsGraphic c := by
  -- one half of a sequence is enough, but an alternative has to ask for it on both sides
  induction h with
  | one hc hs => exact ⟨_, List.mem_of_getElem? hc, CharSet.isGraphic_of_contains hp hs⟩
  | both _ _ ihp ihq =>
    simp only [asksGraphic, Bool.or_eq_true] at hp
    rcases hp with hp | hq
    · exact ihp hp
    · exact ihq hq
  | left _ ih =>
    simp only [asksGraphic, Bool.and_eq_true] at hp
    exact ih hp.1
  | right _ ih =>
    simp only [asksGraphic, Bool.and_eq_true] at hp
    exact ih hp.2
  | empty | edge _ | stop | more _ _ _ _ => cases hp

end Pattern

namespace Rule

/-! ## Rules and text without graphic characters -/

theorem asksGraphic_of_mem_table : ∀ entry ∈ table, ∀ rule ∈ entry.2,
    rule.pattern.asksGraphic = true := by
  decide +kernel

/-- In a text without any graphic character of ASCII no rule occurs. So there are no candidates for
it, whatever the biases, no guess, and no prediction. -/
theorem unguessed_without_graphic {content : String}
    (h : ∀ c ∈ content.toList, ¬ (0x21 ≤ c.toNat ∧ c.toNat ≤ 0x7E)) :
    let page := Page.ofText content.toList
    (∀ entry ∈ table, ∀ rule ∈ entry.2, rule.pattern.occursIn page = false) ∧
    (∀ options, candidates page options = []) ∧
    (∀ options, guess page options = none) ∧
    ∀ host options, host.takesTasks = true →
      Backend.rules.detect host content options = ⟨.predictions [], [], 0⟩ := by
  intro page
  have hrule : ∀ entry ∈ table, ∀ rule ∈ entry.2, rule.pattern.occursIn page = false := by
    intro entry hentry rule hrule
    rw [← Bool.not_eq_true, Pattern.occursIn_iff]
    rintro ⟨i, j, -, hspan⟩
    obtain ⟨c, hc, hgraphic⟩ :=
      hspan.exists_graphic (asksGraphic_of_mem_table entry hentry rule hrule)
    exact h c hc hgraphic
  -- a candidate needs a rule that occurs
  have hcandidates (options : Members) : candidates page options = [] := by
    rw [candidates_eq, List.filterMap_eq_nil_iff]
    intro entry hentry
    rw [Option.eq_none_iff_forall_ne_some]
    rintro c hc
    obtain ⟨⟨rule, hmem, hoccurs, -⟩, -⟩ := standing_eq_some_iff.1 hc
    rw [hrule entry hentry rule hmem] at hoccurs
    cases hoccurs
  refine ⟨hrule, hcandidates, fun options => ?_, fun host options htasks => ?_⟩
  · unfold guess
    rw [hcandidates]
    rfl
  · unfold Backend.rules Backend.guessing
    dsimp only
    rw [if_pos htasks, hcandidates]
    rfl

/-- Blanks, controls, Chinese, the digits of another script, and the two characters beyond ASCII
that stand for letters where case is ignored. -/
theorem unguessed_without_graphic_mixed :
    let content := String.ofList ['\x00', '\t', '\n', '\x7f', '\u00a0', '\u6587', '\u5b57', ' ',
      '\u017f', '\u212a', '\u0663', '\u0664', '\u2028', '\u00e9']
    (∀ c ∈ content.toList, ¬ (0x21 ≤ c.toNat ∧ c.toNat ≤ 0x7E)) ∧
      guess (Page.ofText content.toList) [("rust", .number ⟨false, [1, 0, 0], [], none⟩)] =
        none := by
  intro content
  have h : ∀ c ∈ content.toList, ¬ (0x21 ≤ c.toNat ∧ c.toNat ≤ 0x7E) := by
    rw [String.toList_ofList]
    simp
  exact ⟨h, (unguessed_without_graphic h).2.2.1 _⟩

end Rule

end Polyglot
