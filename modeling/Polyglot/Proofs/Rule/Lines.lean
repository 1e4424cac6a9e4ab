/-
Rules and lines. A text that stands among other lines keeps its own lines: line feeds on both sides
are no word characters, and the edges of its first and its last line are still edges of lines. Only
the start of the text is another one if something stands before it, and two rules look at that.
-/
import Polyglot.Proofs.Pattern.Matching
import Polyglot.Proofs.Rule.Guessing

namespace Polyglot

namespace Pattern

variable {before text after : List Char}

/-! ## A text among other lines -/

/-- Nothing, or lines with a line feed at their end. -/
def LinesBefore (before : List Char) : Prop := before = [] ∨ ∃ lines, before = lines ++ ['\n']

/-- Nothing, or lines with a line feed in front of them. -/
def LinesAfter (after : List Char) : Prop := after = [] ∨ ∃ lines, after = '\n' :: lines

theorem isWordAt_of_feed {text : List Char} {i : Nat} (h : text[i]? = some '\n') :
    isWordAt text i = false := by
  rw [isWordAt, h]
  decide

theorem getElem?_inside {i : Nat} (hi : i < text.length) :
    (before ++ text ++ after)[before.length + i]? = text[i]? := by
  rw [List.append_assoc, List.getElem?_append_right (Nat.le_add_right _ _), Nat.add_sub_cancel_left,
    List.getElem?_append_left hi]

/-- The character in front of the text, if there is one. -/
theorem feed_before (text after : List Char) (h : LinesBefore before) :
    before = [] ∨ 0 < before.length ∧ (before ++ text ++ after)[before.length - 1]? = some '\n' := by
  rcases h with rfl | ⟨lines, rfl⟩
  · exact .inl rfl
  · exact .inr ⟨by simp, by simp⟩

/-- The character behind the text, if there is one. -/
theorem feed_after (before text : List Char) (h : LinesAfter after) :
    after = [] ∨ (before ++ text ++ after)[before.length + text.length]? = some '\n' := by
  rcases h with rfl | ⟨lines, rfl⟩
  · exact .inl rfl
  · refine .inr ?_
    rw [← List.length_append, List.getElem?_append_right (Nat.le_refl _), Nat.sub_self]
    rfl

/-- The gaps of a text are between the same kinds of characters when it stands among lines. -/
theorem isWordAt_inside (before : List Char) (h : LinesAfter after) {i : Nat}
    (hi : i ≤ text.length) :
    isWordAt (before ++ text ++ after) (before.length + i) = isWordAt text i := by
  rcases Nat.lt_or_eq_of_le hi with hlt | rfl
  · rw [isWordAt, isWordAt, getElem?_inside hlt]
  · have hend : isWordAt text text.length = false := by
      rw [isWordAt, List.getElem?_eq_none (Nat.le_refl _)]
      rfl
    rw [hend]
    rcases feed_after before text h with rfl | hfeed
    · rw [isWordAt, List.getElem?_eq_none (by simp)]
      rfl
    · exact isWordAt_of_feed hfeed

/-- The edges of a text stay edges when it stands among lines, but for its start. -/
theorem holdsAt_inside (hbefore : LinesBefore before) (hafter : LinesAfter after) {e : Edge}
    (he : before = [] ∨ e ≠ .textStart) {i : Nat} (hi : i ≤ text.length)
    (h : e.holdsAt text i = true) :
    e.holdsAt (before ++ text ++ after) (before.length + i) = true := by
  cases e with
  | textStart =>
    rw [he.resolve_right fun hne => hne rfl]
    simpa [Edge.holdsAt] using h
  | lineStart =>
    cases i with
    | zero =>
      rcases feed_before text after hbefore with rfl | ⟨-, hfeed⟩
      · rfl
      · simp only [Edge.holdsAt, Nat.add_zero, hfeed, beq_self_eq_true, Bool.or_true]
    | succ i =>
      have hin : (before ++ text ++ after)[before.length + (i + 1) - 1]? = text[i]? :=
        getElem?_inside hi
      simp only [Edge.holdsAt, Nat.add_sub_cancel, Nat.succ_ne_zero, beq_iff_eq,
        Bool.or_eq_true, false_or] at h
      simp only [Edge.holdsAt, hin, h, beq_self_eq_true, Bool.or_true]
  | lineEnd =>
    rcases Nat.lt_or_eq_of_le hi with hlt | rfl
    · simp only [Edge.holdsAt, Nat.ne_of_lt hlt, beq_iff_eq, Bool.or_eq_true, false_or] at h
      simp only [Edge.holdsAt, getElem?_inside hlt, h, beq_self_eq_true, Bool.or_true]
    · -- the end of the text becomes the end of a line
      rcases feed_after before text hafter with rfl | hfeed
      · simp [Edge.holdsAt]
      · simp only [Edge.holdsAt, hfeed, beq_self_eq_true, Bool.or_true]
  | word =>
    -- a feed is no character of a word, and nor is the place before the text
    have hfront : (0 < before.length + i &&
          isWordAt (before ++ text ++ after) (before.length + i - 1)) =
        (0 < i && isWordAt text (i - 1)) := by
      cases i with
      | zero =>
        rcases feed_before text after hbefore with rfl | ⟨-, hfeed⟩
        · rfl
        · rw [Nat.add_zero, isWordAt_of_feed hfeed, Bool.and_false]
          rfl
      | succ i =>
        have hin := isWordAt_inside before hafter (Nat.le_of_succ_le hi)
        rw [Nat.add_sub_cancel, show before.length + (i + 1) - 1 = before.length + i by omega, hin]
        simp
    rw [Edge.holdsAt, isWordAt_inside before hafter hi, hfront]
    exact h

/-- What occurs in a text occurs in it among other lines. -/
theorem Occurs.inside {p : Pattern} (h : Occurs p text) (hbefore : LinesBefore before)
    (hafter : LinesAfter after) (hstart : before = [] ∨ .textStart ∉ p.edges) :
    Occurs p (before ++ text ++ after) := by
  have hkept : Kept p.sets p.edges text (before ++ text ++ after) before.length := by
    refine ⟨fun s _ i hs => ?_, fun e he i hi hholds => ?_⟩
    · have hi : i < text.length := by
        by_contra hle
        rw [List.getElem?_eq_none (Nat.le_of_not_lt hle)] at hs
        cases hs
      rwa [getElem?_inside hi]
    · refine holdsAt_inside hbefore hafter (hstart.imp_right fun hnot heq => ?_) hi hholds
      exact hnot (heq ▸ he)
  exact h.of_kept hkept (by simp)

end Pattern

namespace Rule

open Pattern

/-! ## The rules that look at the start of the text -/

/-- The patterns that ask for a brace and a first key, or for a bracket, at the start of the text. -/
def opening : List Pattern := [
  seq [textStart, gap, text "\x7b", gap, text "\"", oneOrMore (noneOf "\""), text "\"", gap,
    text ":"],
  seq [textStart, gap, anyOf "\x7b["]]

/-- They are the only patterns that do, and they are rules for one language. -/
theorem opening_eq_edges : ∀ entry ∈ table, ∀ rule ∈ entry.2,
    (rule.pattern ∈ opening ↔ .textStart ∈ rule.pattern.edges) ∧
      (rule.pattern ∈ opening → entry.1 = "json") := by
  decide +kernel

/-! ## Rules among lines -/

variable {page page' : Page} {rules : List Rule}

/-- A candidate stays one as long as its rules still occur. -/
theorem IsCandidate.imp (h : IsCandidate page rules)
    (hoccurs : ∀ rule ∈ rules, rule.pattern.occursIn page = true →
      rule.pattern.occursIn page' = true) : IsCandidate page' rules := by
  obtain ⟨rule, hrule, hfound, hweight⟩ := h
  exact ⟨rule, hrule, hoccurs rule hrule hfound, hweight⟩

/-- A rule that occurs in a text occurs in it with a line feed and any text behind it. With any text
and a line feed in front as well all rules still occur, but for those that look at the start of the
text, which are rules for JSON. So all candidates stay candidates, JSON apart in the second case. -/
theorem candidates_among_lines (before content after : String) :
    let page := Page.ofText content.toList
    let followed := Page.ofText (content ++ "\n" ++ after).toList
    let surrounded := Page.ofText (before ++ "\n" ++ content ++ "\n" ++ after).toList
    (∀ entry ∈ table, ∀ rule ∈ entry.2, rule.pattern.occursIn page = true →
      rule.pattern.occursIn followed = true) ∧
    (∀ entry ∈ table, ∀ rule ∈ entry.2, rule.pattern ∉ opening →
      rule.pattern.occursIn page = true → rule.pattern.occursIn surrounded = true) ∧
    (∀ entry ∈ table, ∀ rule ∈ entry.2, rule.pattern ∈ opening → entry.1 = "json") ∧
    (∀ entry ∈ table, IsCandidate page entry.2 → IsCandidate followed entry.2) ∧
    ∀ entry ∈ table, entry.1 ≠ "json" → IsCandidate page entry.2 →
      IsCandidate surrounded entry.2 := by
  intro page followed surrounded
  have hfollowed (rule : Rule) (hfound : rule.pattern.occursIn page = true) :
      rule.pattern.occursIn followed = true := by
    rw [occursIn_iff] at hfound ⊢
    have h : Occurs rule.pattern ([] ++ content.toList ++ '\n' :: after.toList) :=
      hfound.inside (.inl rfl) (.inr ⟨_, rfl⟩) (.inl rfl)
    simpa using h
  have hsurrounded (rule : Rule) (hstart : .textStart ∉ rule.pattern.edges)
      (hfound : rule.pattern.occursIn page = true) : rule.pattern.occursIn surrounded = true := by
    rw [occursIn_iff] at hfound ⊢
    have h : Occurs rule.pattern
        (before.toList ++ ['\n'] ++ content.toList ++ '\n' :: after.toList) :=
      hfound.inside (.inr ⟨_, rfl⟩) (.inr ⟨_, rfl⟩) (.inr hstart)
    simpa using h
  refine ⟨fun entry _ rule _ => hfollowed rule, fun entry hentry rule hrule hnot => ?_,
    fun entry hentry rule hrule => (opening_eq_edges entry hentry rule hrule).2,
    fun entry _ h => h.imp fun rule _ => hfollowed rule, fun entry hentry hname h => ?_⟩
  · refine hsurrounded rule ?_
    rwa [← (opening_eq_edges entry hentry rule hrule).1]
  · refine h.imp fun rule hrule => hsurrounded rule fun hstart => hname ?_
    obtain ⟨hiff, hjson⟩ := opening_eq_edges entry hentry rule hrule
    exact hjson (hiff.2 hstart)

/-- The word that ends a block in Ruby has to stand alone on its line, and it does among others. -/
theorem candidates_among_lines_end :
    let rule : Rule := ⟨seq [lineStart, gap, text "end", gap, lineEnd], 3⟩
    let page := Page.ofText "end".toList
    let followed := Page.ofText ("end" ++ "\n" ++ "x").toList
    let surrounded := Page.ofText ("the" ++ "\n" ++ "end" ++ "\n" ++ "x").toList
    (rule.pattern ∉ opening ∧ rule.pattern.occursIn page = true ∧ IsCandidate page ruby) ∧
      (rule.pattern.occursIn followed = true ∧ IsCandidate followed ruby) ∧
      rule.pattern.occursIn surrounded = true ∧ IsCandidate surrounded ruby := by
  intro rule page followed surrounded
  have hentry : ("ruby", ruby) ∈ table := by simp [table]
  have hrule : rule ∈ ruby := by simp [ruby, rule]
  have hnot : rule.pattern ∉ opening := by decide +kernel
  have hfound : rule.pattern.occursIn page = true := by decide +kernel
  have hcandidate : IsCandidate page ruby := ⟨rule, hrule, hfound, by decide⟩
  obtain ⟨hfollowed, hsurrounded, -, hcandidate₁, hcandidate₂⟩ :=
    candidates_among_lines "the" "end" "x"
  exact ⟨⟨hnot, hfound, hcandidate⟩,
    ⟨hfollowed _ hentry rule hrule hfound, hcandidate₁ _ hentry hcandidate⟩,
    hsurrounded _ hentry rule hrule hnot hfound,
    hcandidate₂ _ hentry (by decide) hcandidate⟩

end Rule

end Polyglot
