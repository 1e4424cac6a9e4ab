/-
What the rules guess. The guess is decided by a fold over the table that keeps the best candidate so
far, with scores that are held as exact numbers of steps. Here it is compared with its description:
the score of a language is a sum of doubles, and the guess is the first of the candidates with the
highest score above zero.

The weights in the table are small whole numbers, so their sums are exact, and adding a bias of any
size to one of them yields a finite double.
-/
import Polyglot.Backend
import Polyglot.Proofs.Double.Sum
import Mathlib.Data.List.Induction

namespace Polyglot.Rule

variable {page : Page} {options : Members}

/-! ## The first of the highest -/

/-- Above zero, exceeded by none, and reached by none before it. -/
def Leads (scores : List (String × Score)) (lead : String × Score) : Prop :=
  ∃ before after, scores = before ++ lead :: after ∧ Score.zero < lead.2 ∧
    (∀ c ∈ before, c.2 < lead.2) ∧ ∀ c ∈ after, ¬ lead.2 < c.2

/-- There is one lead at the most. -/
theorem Leads.unique {scores : List (String × Score)} {a b : String × Score} (ha : Leads scores a)
    (hb : Leads scores b) : a = b := by
  obtain ⟨beforeA, afterA, hsplitA, -, hlowerA, hupperA⟩ := ha
  obtain ⟨beforeB, afterB, hsplitB, -, hlowerB, hupperB⟩ := hb
  rw [hsplitA] at hsplitB
  -- if one came before the other, it would be less and not less than that one
  rcases List.append_eq_append_iff.1 hsplitB with ⟨more, rfl, hrest⟩ | ⟨more, rfl, hrest⟩
  · cases more with
    | nil => exact (List.cons.inj hrest).1
    | cons c more =>
      obtain ⟨rfl, rfl⟩ := List.cons.inj hrest
      exact absurd (hlowerB a (by simp)) (hupperA b (by simp))
  · cases more with
    | nil => exact (List.cons.inj hrest).1.symm
    | cons c more =>
      obtain ⟨rfl, rfl⟩ := List.cons.inj hrest
      exact absurd (hlowerA b (by simp)) (hupperB a (by simp))

/-- None exceeds the lead. -/
theorem Leads.not_lt {scores : List (String × Score)} {lead c : String × Score}
    (h : Leads scores lead) (hc : c ∈ scores) : ¬ lead.2 < c.2 := by
  obtain ⟨before, after, rfl, -, hlower, hupper⟩ := h
  intro hlt
  rcases List.mem_append.1 hc with hc | hc
  · exact Score.lt_irrefl _ (Score.lt_trans hlt (hlower c hc))
  · rcases List.mem_cons.1 hc with rfl | hc
    · exact Score.lt_irrefl _ hlt
    · exact hupper c hc hlt

/-- The lead is kept against what does not exceed it. -/
theorem Leads.concat {scores : List (String × Score)} {lead c : String × Score}
    (h : Leads scores lead) (hc : ¬ lead.2 < c.2) : Leads (scores ++ [c]) lead := by
  obtain ⟨before, after, rfl, hpos, hlower, hupper⟩ := h
  refine ⟨before, after ++ [c], by simp, hpos, hlower, fun d hd => ?_⟩
  rcases List.mem_append.1 hd with hd | hd
  · exact hupper d hd
  · rwa [List.mem_singleton.1 hd]

/-- What exceeds all before it takes the lead. -/
theorem leads_concat {scores : List (String × Score)} {c : String × Score}
    (hpos : Score.zero < c.2) (h : ∀ d ∈ scores, d.2 < c.2) : Leads (scores ++ [c]) c :=
  ⟨scores, [], rfl, hpos, h, fun _ hd => nomatch hd⟩

theorem best_concat (scores : List (String × Score)) (c : String × Score) :
    best (scores ++ [c]) =
      if Score.zero < c.2 then
        match best scores with
        | none => some c
        | some held => if held.2 < c.2 then some c else some held
      else best scores := by
  unfold best
  rw [List.foldl_append]
  rfl

/-- The fold keeps the lead, and nothing as long as there is none. -/
theorem best_cases (scores : List (String × Score)) :
    (best scores = none ∧ ∀ c ∈ scores, ¬ Score.zero < c.2) ∨
      ∃ lead, best scores = some lead ∧ Leads scores lead := by
  induction scores using List.reverseRecOn with
  | nil => exact .inl ⟨rfl, fun _ h => nomatch h⟩
  | append_singleton scores c ih =>
    rw [best_concat]
    rcases ih with ⟨hnone, hlow⟩ | ⟨held, hheld, hleads⟩
    · rw [hnone]
      split_ifs with hpos
      · exact .inr ⟨c, rfl, leads_concat hpos fun d hd =>
          Score.lt_of_not_lt_of_lt (hlow d hd) hpos⟩
      · refine .inl ⟨rfl, fun d hd => ?_⟩
        rcases List.mem_append.1 hd with hd | hd
        · exact hlow d hd
        · rwa [List.mem_singleton.1 hd]
    · -- the held one gives way to a greater score only
      rw [hheld]
      dsimp only
      split_ifs with hpos hlt
      · exact .inr ⟨c, rfl, leads_concat hpos fun d hd =>
          Score.lt_of_not_lt_of_lt (hleads.not_lt hd) hlt⟩
      · exact .inr ⟨held, rfl, hleads.concat hlt⟩
      · obtain ⟨_, _, -, hheldpos, -⟩ := id hleads
        exact .inr ⟨held, rfl, hleads.concat fun hlt => hpos (Score.lt_trans hheldpos hlt)⟩

theorem best_eq_some_iff {scores : List (String × Score)} {lead : String × Score} :
    best scores = some lead ↔ Leads scores lead := by
  constructor
  · intro h
    rcases best_cases scores with ⟨hnone, -⟩ | ⟨held, hheld, hleads⟩
    · rw [hnone] at h
      cases h
    · rw [hheld, Option.some.injEq] at h
      exact h ▸ hleads
  · intro h
    rcases best_cases scores with ⟨-, hlow⟩ | ⟨held, hheld, hleads⟩
    · obtain ⟨before, after, rfl, hpos, -⟩ := h
      exact absurd hpos (hlow lead (by simp))
    · rw [hheld, hleads.unique h]

theorem best_eq_none_iff {scores : List (String × Score)} :
    best scores = none ↔ ∀ c ∈ scores, ¬ Score.zero < c.2 := by
  rcases best_cases scores with ⟨hnone, hlow⟩ | ⟨held, hheld, before, after, rfl, hpos, -⟩
  · exact ⟨fun _ => hlow, fun _ => hnone⟩
  · refine ⟨fun h => ?_, fun h => absurd hpos (h held (by simp))⟩
    rw [hheld] at h
    cases h

/-! ## Candidates -/

/-- A rule with a positive weight occurs. -/
def IsCandidate (page : Page) (rules : List Rule) : Prop :=
  ∃ rule ∈ rules, rule.pattern.occursIn page = true ∧ 0 < rule.weight

/-- The sum of the weights of the rules that occur. -/
def total (page : Page) (rules : List Rule) : Int := ((occurring page rules).map Rule.weight).sum

theorem weigh_eq_some_iff {rules : List Rule} {weight : Int} :
    weigh page rules = some weight ↔ IsCandidate page rules ∧ total page rules = weight := by
  have hany : (occurring page rules).any (0 < ·.weight) = true ↔ IsCandidate page rules := by
    simp only [List.any_eq_true, occurring, List.mem_filter, decide_eq_true_eq, and_assoc,
      IsCandidate]
  have hsum : (occurring page rules).foldr (fun rule sum => rule.weight + sum) 0
      = total page rules := by
    rw [total, List.sum_eq_foldr, List.foldr_map]
  unfold weigh
  dsimp only
  rw [hsum]
  split_ifs with h
  · rw [hany] at h
    simp [h]
  · rw [hany] at h
    simp [h]

/-- The score of an entry of the table as it is held. -/
def held (page : Page) (options : Members) (entry : String × List Rule) : Score :=
  Score.ofInt (total page entry.2) + bias options entry.1

/-- What an entry of the table adds to the candidates. -/
def standing (page : Page) (options : Members) (entry : String × List Rule) :
    Option (String × Score) :=
  (weigh page entry.2).map fun weight => (entry.1, Score.ofInt weight + bias options entry.1)

theorem candidates_eq : candidates page options = table.filterMap (standing page options) := rfl

theorem standing_eq_some_iff {entry : String × List Rule} {c : String × Score} :
    standing page options entry = some c ↔
      IsCandidate page entry.2 ∧ (entry.1, held page options entry) = c := by
  simp only [standing, Option.map_eq_some_iff, weigh_eq_some_iff, held]
  constructor
  · rintro ⟨weight, ⟨hcandidate, rfl⟩, rfl⟩
    exact ⟨hcandidate, rfl⟩
  · rintro ⟨hcandidate, rfl⟩
    exact ⟨_, ⟨hcandidate, rfl⟩, rfl⟩

theorem mem_filterMap_standing {entries : List (String × List Rule)} {c : String × Score} :
    c ∈ entries.filterMap (standing page options) ↔
      ∃ entry ∈ entries, IsCandidate page entry.2 ∧ (entry.1, held page options entry) = c := by
  simp only [List.mem_filterMap, standing_eq_some_iff]

/-- The lead among the candidates stands for an entry of the table. -/
theorem leads_candidates_iff {lead : String × Score} :
    Leads (candidates page options) lead ↔ ∃ before entry after, table = before ++ entry :: after ∧
      IsCandidate page entry.2 ∧ (entry.1, held page options entry) = lead ∧
      Score.zero < lead.2 ∧
      (∀ other ∈ before, IsCandidate page other.2 → held page options other < lead.2) ∧
      ∀ other ∈ after, IsCandidate page other.2 → ¬ lead.2 < held page options other := by
  rw [candidates_eq]
  constructor
  · rintro ⟨before, after, hsplit, hpos, hlower, hupper⟩
    obtain ⟨front, back, htable, rfl, hback⟩ := List.filterMap_eq_append_iff.1 hsplit
    obtain ⟨skipped, entry, rest, rfl, hskipped, hentry, rfl⟩ := List.filterMap_eq_cons_iff.1 hback
    obtain ⟨hcandidate, hlead⟩ := standing_eq_some_iff.1 hentry
    refine ⟨front ++ skipped, entry, rest, by rw [htable, List.append_assoc], hcandidate, hlead,
      hpos, fun other hother hc => ?_, fun other hother hc => ?_⟩
    · -- entries that were passed over are no candidates
      rcases List.mem_append.1 hother with hother | hother
      · exact hlower _ (mem_filterMap_standing.2 ⟨other, hother, hc, rfl⟩)
      · have hnone := hskipped other hother
        rw [standing_eq_some_iff.2 ⟨hc, rfl⟩] at hnone
        cases hnone
    · exact hupper _ (mem_filterMap_standing.2 ⟨other, hother, hc, rfl⟩)
  · rintro ⟨before, entry, after, htable, hcandidate, rfl, hpos, hlower, hupper⟩
    refine ⟨before.filterMap (standing page options), after.filterMap (standing page options), ?_,
      hpos, fun c hc => ?_, fun c hc => ?_⟩
    · rw [htable, List.filterMap_append,
        List.filterMap_cons_some (standing_eq_some_iff.2 ⟨hcandidate, rfl⟩)]
    · obtain ⟨other, hother, hcother, rfl⟩ := mem_filterMap_standing.1 hc
      exact hlower other hother hcother
    · obtain ⟨other, hother, hcother, rfl⟩ := mem_filterMap_standing.1 hc
      exact hupper other hother hcother

/-! ## Scores as sums of doubles -/

/-- The sum of the weights without their signs. -/
def heft (rules : List Rule) : Nat := (rules.map fun rule => rule.weight.natAbs).sum

/-- The weights in the table are far from the first whole number that is no double. -/
theorem heft_table : ∀ entry ∈ table, heft entry.2 < 2 ^ 53 := by decide

theorem heft_filter_le (p : Rule → Bool) (rules : List Rule) :
    heft (rules.filter p) ≤ heft rules := by
  induction rules with
  | nil => exact Nat.le_refl _
  | cons rule rules ih =>
    simp only [List.filter_cons, heft] at ih ⊢
    split_ifs <;> simp only [List.map_cons, List.sum_cons] <;> omega

theorem natAbs_sum_le (rules : List Rule) : (rules.map Rule.weight).sum.natAbs ≤ heft rules := by
  induction rules with
  | nil => exact Nat.le_refl _
  | cons rule rules ih =>
    simp only [heft, List.map_cons, List.sum_cons] at ih ⊢
    omega

theorem natAbs_total_lt {entry : String × List Rule} (h : entry ∈ table) :
    (total page entry.2).natAbs < 2 ^ 53 :=
  Nat.lt_of_le_of_lt (natAbs_sum_le _)
    (Nat.lt_of_le_of_lt (heft_filter_le _ _) (heft_table entry h))

/-- Adding up weights as doubles, one after the other, is exact. -/
theorem foldl_ofInt_add (rules : List Rule) (start : Int)
    (h : start.natAbs + heft rules < 2 ^ 53) :
    rules.foldl (fun sum rule => sum + Double.ofInt rule.weight) (Double.ofInt start) =
      Double.ofInt (start + (rules.map Rule.weight).sum) := by
  induction rules generalizing start with
  | nil => rw [List.foldl_nil, List.map_nil, List.sum_nil, Int.add_zero]
  | cons rule rules ih =>
    simp only [heft, List.map_cons, List.sum_cons] at h
    rw [List.foldl_cons, Double.ofInt_add_ofInt (by omega), ih _ (by simp only [heft]; omega),
      List.map_cons, List.sum_cons, Int.add_assoc]

/-- The bias for a language: the number under its name if a double can hold it. -/
def biasDouble (options : Members) (language : String) : Double :=
  match options.find? language with
  | some (.number n) => if (Double.ofNumeral n).isFinite then .ofNumeral n else .zero
  | _ => .zero

/-- The score of an entry of the table: the weights of the rules that occur, added up from zero, and
then the bias. -/
def score (page : Page) (options : Members) (entry : String × List Rule) : Double :=
  (occurring page entry.2).foldl (fun sum rule => sum + .ofInt rule.weight) .zero +
    biasDouble options entry.1

/-- A bias is held as what it is. -/
theorem biasDouble_eq (options : Members) (language : String) : ∃ negative steps,
    biasDouble options language = .finite negative steps ∧ Double.Representable steps ∧
      bias options language = ⟨Double.signed negative steps⟩ := by
  have hzero : ∃ negative steps, Double.zero = .finite negative steps ∧
      Double.Representable steps ∧ Score.zero = ⟨Double.signed negative steps⟩ :=
    ⟨false, 0, rfl, Double.representable_zero, rfl⟩
  unfold biasDouble bias
  cases options.find? language with
  | none => exact hzero
  | some value =>
    cases value with
    | number n =>
      dsimp only
      cases hn : Double.ofNumeral n with
      | finite negative steps =>
        refine ⟨negative, steps, rfl, Double.representable_ofNumeral hn, ?_⟩
        cases negative <;> rfl
      -- an infinite bias counts as none
      | infinite | nan => exact hzero
    | null | bool | string | array | object => exact hzero

/-- Adding up the weights of an entry of the table is exact. -/
theorem foldl_occurring {entry : String × List Rule} (h : entry ∈ table) :
    (occurring page entry.2).foldl (fun sum rule => sum + .ofInt rule.weight) .zero =
      Double.ofInt (total page entry.2) := by
  have hzero : Double.zero = Double.ofInt 0 := by
    rw [Double.ofInt, Int.natAbs_zero, Nat.zero_mul]
    rfl
  have hheft : heft (occurring page entry.2) < 2 ^ 53 :=
    Nat.lt_of_le_of_lt (heft_filter_le _ _) (heft_table entry h)
  rw [hzero, foldl_ofInt_add _ _ (by omega), Int.zero_add, total]

/-- The score of an entry of the table is held as what it is. -/
theorem score_eq {entry : String × List Rule} (h : entry ∈ table) :
    score page options entry = (held page options entry).toDouble := by
  obtain ⟨negative, steps, hdouble, hrepresentable, hheld⟩ := biasDouble_eq options entry.1
  have hbound : Double.nearest ((Score.ofInt (total page entry.2)).steps +
      Double.signed negative steps).natAbs 1 < Double.bound :=
    Score.ofInt_add_lt_bound (natAbs_total_lt h) hrepresentable
  rw [score, foldl_occurring h, hdouble, ← Score.toDouble_ofInt, Score.toDouble_add hbound, held,
    hheld]

theorem isFinite_score {entry : String × List Rule} (h : entry ∈ table) :
    (score page options entry).isFinite = true := by
  rw [score_eq h]
  rfl

theorem zero_lt_score {entry : String × List Rule} (h : entry ∈ table) :
    Double.zero < score page options entry ↔ Score.zero < held page options entry := by
  rw [score_eq h]
  exact Score.toDouble_lt (s := .zero)

theorem score_lt_score {entry other : String × List Rule} (h : entry ∈ table)
    (hother : other ∈ table) : score page options entry < score page options other ↔
      held page options entry < held page options other := by
  rw [score_eq h, score_eq hother]
  exact Score.toDouble_lt

/-! ## The guess -/

/-- The first candidate that no candidate scores more than, if it scores above zero. -/
def Wins (page : Page) (options : Members) (language : String) : Prop :=
  ∃ before rules after, table = before ++ (language, rules) :: after ∧ IsCandidate page rules ∧
    Double.zero < score page options (language, rules) ∧
    (∀ other ∈ table, IsCandidate page other.2 →
      ¬ score page options (language, rules) < score page options other) ∧
    ∀ other ∈ before, IsCandidate page other.2 →
      score page options other < score page options (language, rules)

theorem guess_eq_some_iff {language : String} :
    guess page options = some language ↔ Wins page options language := by
  simp only [guess, Option.map_eq_some_iff, best_eq_some_iff]
  constructor
  · rintro ⟨lead, hleads, rfl⟩
    obtain ⟨before, ⟨language, rules⟩, after, htable, hcandidate, rfl, hpos, hlower, -⟩ :=
      leads_candidates_iff.1 hleads
    have hwinner : (language, rules) ∈ table := by simp [htable]
    refine ⟨before, rules, after, htable, hcandidate, (zero_lt_score hwinner).2 hpos,
      fun other hother hc hlt => ?_, fun other hother hc => ?_⟩
    · exact hleads.not_lt (mem_filterMap_standing.2 ⟨other, hother, hc, rfl⟩)
        ((score_lt_score hwinner hother).1 hlt)
    · have hmem : other ∈ table := htable ▸ List.mem_append_left _ hother
      exact (score_lt_score hmem hwinner).2 (hlower other hother hc)
  · rintro ⟨before, rules, after, htable, hcandidate, hpos, hupper, hlower⟩
    have hwinner : (language, rules) ∈ table := by simp [htable]
    have hheld := (zero_lt_score hwinner).1 hpos
    refine ⟨_, leads_candidates_iff.2 ⟨before, (language, rules), after, htable, hcandidate, rfl,
      hheld, fun other hother hc => ?_, fun other hother hc hlt => ?_⟩, rfl⟩
    · have hmem : other ∈ table := htable ▸ List.mem_append_left _ hother
      exact (score_lt_score hmem hwinner).1 (hlower other hother hc)
    · have hmem : other ∈ table :=
        htable ▸ List.mem_append_right _ (List.mem_cons_of_mem _ hother)
      exact hupper other hmem hc ((score_lt_score hwinner hmem).2 hlt)

theorem guess_eq_none_iff : guess page options = none ↔
    ∀ entry ∈ table, IsCandidate page entry.2 → ¬ Double.zero < score page options entry := by
  rw [guess, Option.map_eq_none_iff, best_eq_none_iff, candidates_eq]
  constructor
  · intro h entry hentry hcandidate hpos
    exact h _ (mem_filterMap_standing.2 ⟨entry, hentry, hcandidate, rfl⟩)
      ((zero_lt_score hentry).1 hpos)
  · intro h c hc hpos
    obtain ⟨entry, hentry, hcandidate, rfl⟩ := mem_filterMap_standing.1 hc
    exact h entry hentry hcandidate ((zero_lt_score hentry).2 hpos)

/-- Every score is finite. There is no guess just if no candidate scores above zero, and otherwise it
is the first of the candidates with the highest score. The backend answers with the guess alone, and
minus one for its confidence, or with nothing. -/
theorem highest_guessed (host : Host) (content : String) (options : Members) :
    let page := Page.ofText content.toList
    (∀ entry ∈ table, (score page options entry).isFinite = true) ∧
    (guess page options = none ↔
      ∀ entry ∈ table, IsCandidate page entry.2 → ¬ Double.zero < score page options entry) ∧
    (∀ language, guess page options = some language ↔ Wins page options language) ∧
    (Backend.rules.detect host content options).outcome =
      if host.takesTasks then
        .predictions (match guess page options with
          | none => []
          | some language => [⟨language, .ofInt (-1)⟩])
      else
        .failure (.backendInvocation Backend.rulesName
          ("rule task did not complete: " ++ ("task " ++ host.task ++ " was cancelled"))) := by
  refine ⟨fun entry hentry => isFinite_score hentry, guess_eq_none_iff,
    fun language => guess_eq_some_iff, ?_⟩
  unfold Backend.rules Backend.guessing
  dsimp only
  split_ifs with htasks
  · rw [← Double.minusOne_eq]
    change Outcome.predictions (Backend.guessed (guess (Page.ofText content.toList) options)) = _
    cases guess (Page.ofText content.toList) options <;> rfl
  · rfl

end Polyglot.Rule
