/-
Rules and the case of letters. A set of characters that holds both cases of every letter or neither
one does not tell a text from the same text in lower case, and neither does any edge. The rules for
SQL and for HTML are made of such sets alone.
-/
import Polyglot.Proofs.Pattern.Matching
import Polyglot.Proofs.Rule.Guessing

namespace Polyglot

/-! ## Sets that do not tell cases apart -/

/-- A letter is brought to lower case by its place in the alphabet, and all else stays. -/
theorem Text.toLower_cases (c : Char) : c.toLower = c ∨
    ∃ n < 26, c = Char.ofNat ('A'.toNat + n) ∧ c.toLower = Char.ofNat ('a'.toNat + n) := by
  by_cases h : c.val ≥ 'A'.val ∧ c.val ≤ 'Z'.val
  · right
    have hlow : 'A'.toNat ≤ c.toNat := h.1
    have hhigh : c.toNat ≤ 'Z'.toNat := h.2
    have hplace : c = Char.ofNat ('A'.toNat + (c.toNat - 'A'.toNat)) := by
      rw [Nat.add_sub_cancel' hlow, Char.ofNat_toNat]
    have hlt : c.toNat - 'A'.toNat < 26 := by
      simp only [Char.reduceToNat] at hlow hhigh ⊢
      omega
    -- twenty-six letters to try
    have hlower : ∀ n < 26, (Char.ofNat ('A'.toNat + n)).toLower = Char.ofNat ('a'.toNat + n) := by
      decide
    refine ⟨_, hlt, hplace, ?_⟩
    rw [← hlower _ hlt, ← hplace]
  · left
    exact dif_neg h

namespace CharSet

/-- Of every letter both cases are in the set, or neither one. -/
def CaseBlind (s : CharSet) : Prop :=
  ∀ n < 26, s.contains (Char.ofNat ('A'.toNat + n)) = s.contains (Char.ofNat ('a'.toNat + n))

instance (s : CharSet) : Decidable s.CaseBlind := inferInstanceAs (Decidable (∀ n < 26, _))

theorem CaseBlind.contains_toLower {s : CharSet} (h : s.CaseBlind) (c : Char) :
    s.contains c.toLower = s.contains c := by
  rcases Text.toLower_cases c with heq | ⟨n, hn, hupper, hlower⟩
  · rw [heq]
  · rw [hlower, ← h n hn, ← hupper]

theorem caseBlind_word : word.CaseBlind := by decide

theorem caseBlind_feed : (only '\n').CaseBlind := by decide

end CharSet

namespace Pattern

variable {text : List Char}

theorem any_toLower {s : CharSet} (h : s.CaseBlind) (text : List Char) (i : Nat) :
    ((text.map Char.toLower)[i]?).any s.contains = (text[i]?).any s.contains := by
  rw [List.getElem?_map, Option.any_map]
  congr 1
  funext c
  exact h.contains_toLower c

/-- Edges are where they are in lower case. -/
theorem holdsAt_toLower (e : Edge) (text : List Char) (i : Nat) :
    e.holdsAt (text.map Char.toLower) i = e.holdsAt text i := by
  have hfeed (o : Option Char) : (o == some '\n') = o.any (CharSet.only '\n').contains := by
    cases o <;> rfl
  have hword (i : Nat) : isWordAt (text.map Char.toLower) i = isWordAt text i :=
    any_toLower CharSet.caseBlind_word text i
  cases e with
  | textStart => rfl
  | lineStart => simp only [Edge.holdsAt, hfeed, any_toLower CharSet.caseBlind_feed]
  | lineEnd => simp only [Edge.holdsAt, hfeed, any_toLower CharSet.caseBlind_feed, List.length_map]
  | word => simp only [Edge.holdsAt, hword]

/-- A pattern that does not tell cases apart occurs in a text just if it occurs in lower case. -/
theorem occurs_toLower_iff {p : Pattern} (h : ∀ s ∈ p.sets, s.CaseBlind) :
    Occurs p (text.map Char.toLower) ↔ Occurs p text := by
  -- a span is the same places in either text
  constructor
  · intro hoccurs
    have hkept : Kept p.sets p.edges (text.map Char.toLower) text 0 := by
      refine ⟨fun s hs i hi => ?_, fun e _ i _ hi => ?_⟩
      · rwa [Nat.zero_add, ← any_toLower (h s hs)]
      · rwa [Nat.zero_add, ← holdsAt_toLower]
    exact hoccurs.of_kept hkept (by simp)
  · intro hoccurs
    have hkept : Kept p.sets p.edges text (text.map Char.toLower) 0 := by
      refine ⟨fun s hs i hi => ?_, fun e _ i _ hi => ?_⟩
      · rwa [Nat.zero_add, any_toLower (h s hs)]
      · rwa [Nat.zero_add, holdsAt_toLower]
    exact hoccurs.of_kept hkept (by simp)

end Pattern

namespace Rule

/-! ## The rules for SQL and HTML -/

theorem caseBlind_of_mem_table : ∀ entry ∈ table, entry.1 ∈ ["sql", "html"] →
    ∀ rule ∈ entry.2, ∀ s ∈ rule.pattern.sets, s.CaseBlind := by
  decide +kernel

/-- In two texts that are the same but for the case of letters of ASCII, the same rules for SQL and
for HTML occur, so that both languages are candidates for both texts or for neither one, and have the
same scores under any bias. -/
theorem weigh_in_any_case {content other : String}
    (h : content.toList.map Char.toLower = other.toList.map Char.toLower) (options : Members) :
    let page := Page.ofText content.toList
    let page' := Page.ofText other.toList
    ∀ entry ∈ table, entry.1 ∈ ["sql", "html"] →
      (∀ rule ∈ entry.2, rule.pattern.occursIn page = rule.pattern.occursIn page') ∧
      (IsCandidate page entry.2 ↔ IsCandidate page' entry.2) ∧
      weigh page entry.2 = weigh page' entry.2 ∧
      score page options entry = score page' options entry := by
  intro page page' entry hentry hname
  have hoccurs (rule : Rule) (hrule : rule ∈ entry.2) :
      rule.pattern.occursIn page = rule.pattern.occursIn page' := by
    have hblind := caseBlind_of_mem_table entry hentry hname rule hrule
    rw [Bool.eq_iff_iff, Pattern.occursIn_iff, Pattern.occursIn_iff,
      ← Pattern.occurs_toLower_iff hblind, h, Pattern.occurs_toLower_iff hblind]
  have hoccurring : occurring page entry.2 = occurring page' entry.2 :=
    List.filter_congr hoccurs
  refine ⟨hoccurs, ?_, ?_, ?_⟩
  · refine exists_congr fun rule => and_congr_right fun hrule => ?_
    rw [hoccurs rule hrule]
  · rw [weigh, weigh, hoccurring]
  · rw [score, score, hoccurring]

/-- A query weighs the same in any case. The long s that it begins with is read as an s, and has no
other case in ASCII. -/
theorem weigh_in_any_case_query :
    let content := "\u017fELECT key FROM t WHERE key"
    let other := "\u017felect KEY fRoM T where Key"
    content.toList.map Char.toLower = other.toList.map Char.toLower ∧
      weigh (Page.ofText content.toList) sql = some 5 ∧
      weigh (Page.ofText other.toList) sql = some 5 ∧
      (IsCandidate (Page.ofText content.toList) html ↔
        IsCandidate (Page.ofText other.toList) html) := by
  intro content other
  have h : content.toList.map Char.toLower = other.toList.map Char.toLower := by decide +kernel
  have hsql := weigh_in_any_case h [] ("sql", sql) (by simp [table]) (by decide)
  have hhtml := weigh_in_any_case h [] ("html", html) (by simp [table]) (by decide)
  have hweigh : weigh (Page.ofText content.toList) sql = some 5 := by decide +kernel
  exact ⟨h, hweigh, hsql.2.2.1 ▸ hweigh, hhtml.2.1⟩

end Rule

end Polyglot
