/-
What a bias does to a guess. Adding a bias to a weight keeps the order of biases, so that a language
whose bias is raised scores no less, and one whose bias is lowered no more. A guess stays as long as
it scores no less than before and no other language scores more. Biases of languages that are no
candidates are never looked at.
-/
import Polyglot.Proofs.Json.Members
import Polyglot.Proofs.Rule.Guessing
import Mathlib.Data.List.Nodup

namespace Polyglot

/-! ## The order of finite doubles -/

namespace Double

theorem lt_irrefl (a : Double) : ¬ a < a := by
  cases a with
  | finite negative steps => exact Int.lt_irrefl _
  | infinite negative => exact fun ⟨htrue, hfalse⟩ => by rw [htrue] at hfalse; cases hfalse
  | nan => exact id

theorem not_lt_of_eq {a b : Double} (h : a = b) : ¬ a < b := h ▸ lt_irrefl a

theorem lt_of_lt_of_not_lt {a b c : Double} (hb : b.isFinite = true) (hc : c.isFinite = true)
    (hab : a < b) (hcb : ¬ c < b) : a < c := by
  cases b with
  | finite _ _ =>
    cases c with
    | finite _ _ =>
      cases a with
      | finite _ _ => exact Int.lt_of_lt_of_le hab (Int.not_lt.1 hcb)
      | infinite _ => exact hab
      | nan => exact hab
    | infinite _ | nan => cases hc
  | infinite _ | nan => cases hb

theorem lt_of_not_lt_of_lt {a b c : Double} (ha : a.isFinite = true) (hb : b.isFinite = true)
    (hba : ¬ b < a) (hbc : b < c) : a < c := by
  cases a with
  | finite _ _ =>
    cases b with
    | finite _ _ =>
      cases c with
      | finite _ _ => exact Int.lt_of_le_of_lt (Int.not_lt.1 hba) hbc
      | infinite _ => exact hbc
      | nan => exact hbc
    | infinite _ | nan => cases hb
  | infinite _ | nan => cases ha

end Double

namespace Rule

variable {page : Page} {options options' : Members} {language : String}
variable {entry other : String × List Rule}

/-! ## Names in the table -/

theorem nodup_names : (table.map (·.1)).Nodup := by decide

theorem eq_of_mem_table (hentry : entry ∈ table) (hother : other ∈ table)
    (hname : entry.1 = other.1) : entry = other :=
  List.inj_on_of_nodup_map nodup_names hentry hother hname

theorem ne_of_mem_before {before after : List (String × List Rule)}
    (htable : table = before ++ entry :: after) (hother : other ∈ before) : other.1 ≠ entry.1 := by
  have hnames := nodup_names
  rw [htable, List.map_append, List.map_cons, List.nodup_append] at hnames
  exact hnames.2.2 _ (List.mem_map_of_mem hother) _ List.mem_cons_self

/-! ## Scores under two biases -/

theorem biasDouble_lt_iff {other : String} :
    biasDouble options language < biasDouble options' other ↔
      bias options language < bias options' other := by
  obtain ⟨_, _, hdouble, -, hbias⟩ := biasDouble_eq options language
  obtain ⟨_, _, hdouble', -, hbias'⟩ := biasDouble_eq options' other
  rw [hdouble, hdouble', hbias, hbias']
  rfl

/-- A bias that is not lowered does not lower the score. -/
theorem score_not_lt (hentry : entry ∈ table)
    (h : ¬ biasDouble options' entry.1 < biasDouble options entry.1) :
    ¬ score page options' entry < score page options entry := by
  rw [biasDouble_lt_iff] at h
  rw [score_eq hentry, score_eq hentry, Score.toDouble_lt]
  exact Score.add_not_lt_add _ h

theorem score_congr (h : biasDouble options entry.1 = biasDouble options' entry.1) :
    score page options entry = score page options' entry := by
  rw [score, score, h]

/-! ## When a guess stays -/

/-- A guess stays if it does not score less than before, and no other language more. -/
theorem Wins.of_scores (h : Wins page options language)
    (hown : ∀ entry ∈ table, entry.1 = language →
      ¬ score page options' entry < score page options entry)
    (hothers : ∀ entry ∈ table, entry.1 ≠ language →
      ¬ score page options entry < score page options' entry) : Wins page options' language := by
  obtain ⟨before, rules, after, htable, hcandidate, hpos, hupper, hlower⟩ := h
  have hwinner : (language, rules) ∈ table := by simp [htable]
  have hkept := hown _ hwinner rfl
  refine ⟨before, rules, after, htable, hcandidate, ?_, fun other hother hc hlt => ?_,
    fun other hother hc => ?_⟩
  · exact Double.lt_of_lt_of_not_lt (isFinite_score hwinner) (isFinite_score hwinner) hpos hkept
  · -- an entry of the same name is the winner itself
    by_cases hname : other.1 = language
    · rw [eq_of_mem_table hother hwinner hname] at hlt
      exact Double.lt_irrefl _ hlt
    · have hlt' : score page options' (language, rules) < score page options other :=
        Double.lt_of_lt_of_not_lt (isFinite_score hother) (isFinite_score hother) hlt
          (hothers other hother hname)
      exact hupper other hother hc (Double.lt_of_not_lt_of_lt (isFinite_score hwinner)
        (isFinite_score hwinner) hkept hlt')
  · have hmem : other ∈ table := htable ▸ List.mem_append_left _ hother
    have hlt : score page options' other < score page options (language, rules) :=
      Double.lt_of_not_lt_of_lt (isFinite_score hmem) (isFinite_score hmem)
        (hothers other hmem (ne_of_mem_before htable hother)) (hlower other hother hc)
    exact Double.lt_of_lt_of_not_lt (isFinite_score hwinner) (isFinite_score hwinner) hlt hkept

/-- A guess stays if its bias is not lowered, and no other bias is raised. -/
theorem guess_of_bias (h : guess page options = some language)
    (hown : ¬ biasDouble options' language < biasDouble options language)
    (hothers : ∀ other ∈ table.map (·.1), other ≠ language →
      ¬ biasDouble options other < biasDouble options' other) :
    guess page options' = some language := by
  rw [guess_eq_some_iff] at h ⊢
  refine h.of_scores (fun entry hentry hname => ?_) fun entry hentry hname => ?_
  · exact score_not_lt hentry (hname ▸ hown)
  · exact score_not_lt hentry (hothers _ (List.mem_map_of_mem hentry) hname)

/-- If one bias alone is not raised, a guess that changes is for its language before or after. -/
theorem guess_eq_or_guess_eq (hothers : ∀ other, other ≠ language →
      biasDouble options other = biasDouble options' other)
    (hown : ¬ biasDouble options language < biasDouble options' language)
    (hne : guess page options ≠ guess page options') :
    guess page options = some language ∨ guess page options' = some language := by
  cases hguess : guess page options with
  | some winner =>
    by_cases hwinner : winner = language
    · exact .inl (hwinner ▸ rfl)
    · -- another winner would have stayed, as its own bias is the same
      refine absurd (hguess.trans (guess_of_bias hguess ?_ fun other _ _ => ?_).symm) hne
      · exact Double.not_lt_of_eq (hothers winner hwinner).symm
      · by_cases hother : other = language
        · exact hother ▸ hown
        · exact Double.not_lt_of_eq (hothers other hother)
  | none =>
    cases hguess' : guess page options' with
    | none => exact absurd (hguess.trans hguess'.symm) hne
    | some winner =>
      by_cases hwinner : winner = language
      · exact .inr (hwinner ▸ rfl)
      · -- it scores the same in both cases, and in the first one not above zero
        obtain ⟨before, rules, after, htable, hcandidate, hpos, -⟩ := guess_eq_some_iff.1 hguess'
        have hentry : (winner, rules) ∈ table := by simp [htable]
        rw [← score_congr (hothers winner hwinner)] at hpos
        exact absurd hpos (guess_eq_none_iff.1 hguess _ hentry hcandidate)

/-! ## A text with two candidates -/

/-- A bracket at the start speaks for JSON, and an arrow after it for JavaScript. -/
theorem weigh_bracket : (table.filterMap fun entry =>
    (weigh (Page.ofText "[=>".toList) entry.2).map (entry.1, ·)) =
      [("javascript", 1), ("json", 1)] := by
  decide +kernel

theorem guess_bracket (options : Members) : guess (Page.ofText "[=>".toList) options =
    (best [("javascript", .ofInt 1 + bias options "javascript"),
      ("json", .ofInt 1 + bias options "json")]).map (·.1) := by
  have hcandidates : candidates (Page.ofText "[=>".toList) options =
      (table.filterMap fun entry =>
        (weigh (Page.ofText "[=>".toList) entry.2).map (entry.1, ·)).map
          fun weighed => (weighed.1, Score.ofInt weighed.2 + bias options weighed.1) := by
    rw [List.map_filterMap, candidates]
    refine List.filterMap_congr fun entry _ => ?_
    rw [Option.map_map]
    rfl
  rw [guess, hcandidates, weigh_bracket]
  rfl

theorem candidate_bracket (hentry : entry ∈ table)
    (h : IsCandidate (Page.ofText "[=>".toList) entry.2) :
    entry.1 = "javascript" ∨ entry.1 = "json" := by
  have hmem : (entry.1, total (Page.ofText "[=>".toList) entry.2) ∈
      [("javascript", (1 : Int)), ("json", 1)] := by
    rw [← weigh_bracket, List.mem_filterMap]
    exact ⟨entry, hentry, congrArg (Option.map (entry.1, ·)) (weigh_eq_some_iff.2 ⟨h, rfl⟩)⟩
  rcases List.mem_cons.1 hmem with hname | hmem
  · exact .inl (congrArg Prod.fst hname)
  · exact .inr (congrArg Prod.fst (List.mem_singleton.1 hmem))

/-! ## Biases that make a difference -/

/-- With two maps of biases that differ for one language at the most, a guess that differs is for
that language in one of the two cases. Raising its bias does not take the guess away from it, and
lowering its bias does not bring the guess to it. Lowering other biases does not take the guess
away. -/
theorem own_bias (content language : String) (options options' : Members) :
    let page := Page.ofText content.toList
    ((∀ key, key ≠ language → options.find? key = options'.find? key) →
      (guess page options ≠ guess page options' →
        guess page options = some language ∨ guess page options' = some language) ∧
      (¬ biasDouble options' language < biasDouble options language →
        guess page options = some language → guess page options' = some language) ∧
      (¬ biasDouble options language < biasDouble options' language →
        guess page options ≠ some language → guess page options' ≠ some language)) ∧
    (options.find? language = options'.find? language →
      (∀ other ∈ table.map (·.1), other ≠ language →
        ¬ biasDouble options other < biasDouble options' other) →
      guess page options = some language → guess page options' = some language) := by
  intro page
  have hsame (key : String) (hfind : options.find? key = options'.find? key) :
      biasDouble options key = biasDouble options' key := by
    rw [biasDouble, biasDouble, hfind]
  constructor
  · intro hkeys
    have hothers (other : String) (h : other ≠ language) :
        biasDouble options other = biasDouble options' other := hsame other (hkeys other h)
    refine ⟨fun hne => ?_, fun hown hguess => ?_, fun hown hguess hguess' => hguess ?_⟩
    · -- the guess changes either way, so the two biases may change places
      by_cases hraised : biasDouble options language < biasDouble options' language
      · rw [Or.comm]
        refine guess_eq_or_guess_eq (fun other h => (hothers other h).symm) ?_ hne.symm
        rw [biasDouble_lt_iff] at hraised ⊢
        exact Int.lt_asymm hraised
      · exact guess_eq_or_guess_eq hothers hraised hne
    · exact guess_of_bias hguess hown fun other _ h => Double.not_lt_of_eq (hothers other h)
    · exact guess_of_bias hguess' hown fun other _ h => Double.not_lt_of_eq (hothers other h).symm
  · intro hfind hothers hguess
    exact guess_of_bias hguess (Double.not_lt_of_eq (hsame language hfind).symm) hothers

/-- A bracket and an arrow are taken for JavaScript. A bias for JSON makes them JSON, and a higher
one leaves it at that, as does another against JavaScript. A bias against JSON does not make them
JSON. -/
theorem own_bias_bracket :
    let page := Page.ofText "[=>".toList
    let five : Json := .number ⟨false, [5], [], none⟩
    let six : Json := .number ⟨false, [6], [], none⟩
    let minusFive : Json := .number ⟨true, [5], [], none⟩
    guess page [] ≠ guess page [("json", five)] ∧
      (guess page [] = some "json" ∨ guess page [("json", five)] = some "json") ∧
      guess page [("json", six)] = some "json" ∧
      guess page [("json", minusFive)] ≠ some "json" ∧
      guess page [("json", five), ("javascript", minusFive)] = some "json" := by
  intro page five six minusFive
  have hkey {value : Json} (key : String) (h : key ≠ "json") :
      Members.find? key [("json", value)] = Members.find? key [] :=
    if_neg fun hkey => h (eq_of_beq hkey).symm
  have hnone : guess page [] ≠ some "json" := by
    rw [guess_bracket]
    decide +kernel
  have hfive : guess page [("json", five)] = some "json" := by
    rw [guess_bracket]
    decide +kernel
  have hne : guess page [] ≠ guess page [("json", five)] := fun h => hnone (h.trans hfive)
  refine ⟨hne, ?_, ?_, ?_, ?_⟩
  · exact ((own_bias "[=>" "json" [] _).1 fun key h => (hkey key h).symm).1 hne
  · refine ((own_bias "[=>" "json" [("json", five)] [("json", six)]).1 fun key h => ?_).2.1 ?_ hfive
    · exact (hkey key h).trans (hkey key h).symm
    · decide +kernel
  · refine ((own_bias "[=>" "json" [] [("json", minusFive)]).1 fun key h => ?_).2.2 ?_ hnone
    · exact (hkey key h).symm
    · decide +kernel
  · refine (own_bias "[=>" "json" [("json", five)] _).2 rfl ?_ hfive
    decide +kernel

/-! ## Biases that make no difference -/

theorem bias_congr {other : String}
    (h : biasDouble options language = biasDouble options' other) :
    bias options language = bias options' other := by
  obtain ⟨_, _, hdouble, -, hbias⟩ := biasDouble_eq options language
  obtain ⟨_, _, hdouble', -, hbias'⟩ := biasDouble_eq options' other
  rw [hdouble, hdouble', Double.finite.injEq] at h
  rw [hbias, hbias', h.1, h.2]

/-- The guess depends on the biases of the candidates alone. -/
theorem guess_congr (h : ∀ entry ∈ table, IsCandidate page entry.2 →
    biasDouble options entry.1 = biasDouble options' entry.1) :
    guess page options = guess page options' := by
  have hcandidates : candidates page options = candidates page options' := by
    rw [candidates_eq, candidates_eq]
    refine List.filterMap_congr fun entry hentry => ?_
    unfold standing
    cases hweight : weigh page entry.2 with
    | none => rfl
    | some weight =>
      rw [bias_congr (h entry hentry (weigh_eq_some_iff.1 hweight).1)]
  rw [guess, guess, hcandidates]

theorem biasDouble_put_of_ne {key : String} {value : Json} (h : key ≠ language) :
    biasDouble (options.put key value) language = biasDouble options language := by
  rw [biasDouble, biasDouble, Members.find?_put, if_neg h]

/-- What is no number that a double can hold is no bias. -/
theorem biasDouble_put_self {key : String} {value : Json}
    (h : ∀ n, value = .number n → (Double.ofNumeral n).isFinite = false) :
    biasDouble (options.put key value) key = .zero := by
  rw [biasDouble, Members.find?_put, if_pos rfl]
  cases value with
  | number n =>
    dsimp only
    rw [h n rfl]
    rfl
  | null | bool | string | array | object => rfl

/-- Two maps of biases that hold the same doubles for the candidates lead to the same guess. So the
order of their entries makes no difference, nor does an entry for what is no candidate, nor one that
is no number that a double can hold, nor the way in which a double is written. -/
theorem irrelevant_bias (content : String) (options options' : Members) :
    let page := Page.ofText content.toList
    ((∀ entry ∈ table, IsCandidate page entry.2 →
        biasDouble options entry.1 = biasDouble options' entry.1) →
      guess page options = guess page options') ∧
    (options.Perm options' → options.keys.Nodup →
      guess page options = guess page options') ∧
    (∀ key value, (∀ entry ∈ table, entry.1 = key → ¬ IsCandidate page entry.2) →
      guess page (options.put key value) = guess page options) ∧
    (∀ key value, options.find? key = none →
      (∀ n, value = .number n → (Double.ofNumeral n).isFinite = false) →
      guess page (options.put key value) = guess page options) ∧
    ∀ key n n', Double.ofNumeral n = Double.ofNumeral n' →
      guess page (options.put key (.number n)) = guess page (options.put key (.number n')) := by
  intro page
  refine ⟨guess_congr, fun hperm hnodup => guess_congr fun entry _ _ => ?_,
    fun key value hnot => guess_congr fun entry hentry hcandidate => ?_,
    fun key value hnone hvalue => guess_congr fun entry _ _ => ?_,
    fun key n n' hsame => guess_congr fun entry _ _ => ?_⟩
  · rw [biasDouble, biasDouble, Members.find?_perm hperm hnodup]
  · exact biasDouble_put_of_ne fun hkey => hnot entry hentry hkey.symm hcandidate
  · by_cases hkey : key = entry.1
    · rw [← hkey, biasDouble_put_self hvalue, biasDouble, hnone]
    · exact biasDouble_put_of_ne hkey
  · by_cases hkey : key = entry.1
    · simp only [biasDouble, Members.find?_put, if_pos hkey, hsame]
    · rw [biasDouble_put_of_ne hkey, biasDouble_put_of_ne hkey]

/-- A bias of ten for JSON makes a bracket and an arrow JSON, however it is written. It makes no
difference where a bias for Rust stands, nor that JavaScript has null, or a number too large. -/
theorem irrelevant_bias_bracket :
    let page := Page.ofText "[=>".toList
    let ten : Json := .number ⟨false, [1, 0], [], none⟩
    let tens : Json := .number ⟨false, [1], [], some ⟨false, [1]⟩⟩
    let huge : Json := .number ⟨false, [9], [], some ⟨false, [3, 0, 7]⟩⟩
    let beyond : Json := .number ⟨false, [9], [], some ⟨false, [3, 0, 8]⟩⟩
    guess page [("json", ten)] = some "json" ∧
      guess page [("javascript", .null), ("json", tens)] = some "json" ∧
      guess page [("rust", huge), ("json", ten)] = some "json" ∧
      guess page [("json", ten), ("rust", huge)] = some "json" ∧
      guess page [("json", ten), ("javascript", beyond)] = some "json" ∧
      guess page [("json", tens)] = some "json" := by
  intro page ten tens huge beyond
  have hten : guess page [("json", ten)] = some "json" := by
    rw [guess_bracket]
    decide +kernel
  have hrust : guess page [("json", ten), ("rust", huge)] = some "json" := by
    refine Eq.trans ((irrelevant_bias "[=>" [("json", ten)] []).2.2.1 "rust" huge ?_) hten
    intro entry hentry hname h
    rcases candidate_bracket hentry h with hentry | hentry
    · exact absurd (hentry.symm.trans hname) (by decide)
    · exact absurd (hentry.symm.trans hname) (by decide)
  refine ⟨hten, Eq.trans ?_ hten, Eq.trans ?_ hrust, hrust, Eq.trans ?_ hten, Eq.trans ?_ hten⟩
  · refine (irrelevant_bias "[=>" _ [("json", ten)]).1 fun entry hentry h => ?_
    rcases candidate_bracket hentry h with hentry | hentry
    · rw [hentry]
      rfl
    · rw [hentry]
      decide +kernel
  · exact (irrelevant_bias "[=>" _ _).2.1 (.swap ..) (by decide)
  · refine (irrelevant_bias "[=>" [("json", ten)] []).2.2.2.1 "javascript" beyond rfl fun n h => ?_
    rw [← Json.number.inj h]
    decide +kernel
  · refine (irrelevant_bias "[=>" [] []).2.2.2.2 "json" _ _ ?_
    decide +kernel

end Rule

end Polyglot
