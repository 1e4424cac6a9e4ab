/-
A ranking is made of all languages or of none. The grammars are asked one after the other, in the
order of the table, and the first that is refused or gives no tree ends it: there is no answer but
that failure, no parser is called for a later language, and what the later grammars are like makes
no difference. If there is nothing to rank, no grammar is asked at all.

That a parser is called for a language is told from outside: a crash that is put in the place of
what parsing gives for it always shows.
-/
import Polyglot.Backend
import Polyglot.Proofs.Ranking.Order

namespace Polyglot

/-- The grammars with a crash in the place of what parsing gives for a language. -/
def Grammars.trap (g : Grammars) (l : Language) (crash : Crash) : Grammars where
  refusal := g.refusal
  parse k sample := if k = l then .crash crash else g.parse k sample

namespace Ranking

variable {g g' : Grammars} {limits : Limits} {content sample : List Char}

/-! ## Languages that counting stops at -/

/-- Why counting stops at a language: its grammar is refused, or parsing gives no tree. -/
inductive StopsAt (g : Grammars) (sample : List Char) (l : Language) : Stop → Prop where
  | refused {version : Nat} : g.refusal l = some version →
    StopsAt g sample l (.failure (.refused l version))
  | noTree : g.refusal l = none → g.parse l sample = .nothing →
    StopsAt g sample l (.failure (.noTree l))
  | crash {crash : Crash} : g.refusal l = none → g.parse l sample = .crash crash →
    StopsAt g sample l (.crash crash)

/-- Parsing gives a tree, and the grammar is not refused. -/
def Parses (g : Grammars) (sample : List Char) (l : Language) : Prop :=
  g.refusal l = none ∧ ∃ tree, g.parse l sample = .tree tree

theorem parses_or_stopsAt (g : Grammars) (sample : List Char) (l : Language) :
    Parses g sample l ∨ ∃ stop, StopsAt g sample l stop := by
  cases hrefusal : g.refusal l with
  | some version => exact .inr ⟨_, .refused hrefusal⟩
  | none =>
    cases hparse : g.parse l sample with
    | tree tree => exact .inl ⟨hrefusal, tree, hparse⟩
    | nothing => exact .inr ⟨_, .noTree hrefusal hparse⟩
    | crash crash => exact .inr ⟨_, .crash hrefusal hparse⟩

theorem not_parses_iff {l : Language} : ¬ Parses g sample l ↔
    (∃ version, g.refusal l = some version) ∨ g.parse l sample = .nothing ∨
      ∃ crash, g.parse l sample = .crash crash := by
  unfold Parses
  cases g.refusal l <;> cases g.parse l sample <;> simp

/-- Either all of the languages give trees or there is a first one that does not. -/
theorem all_parse_or_exists_first (g : Grammars) (sample : List Char) (languages : List Language) :
    (∀ l ∈ languages, Parses g sample l) ∨ ∃ before l after stop,
      languages = before ++ l :: after ∧ (∀ k ∈ before, Parses g sample k) ∧
      StopsAt g sample l stop := by
  induction languages with
  | nil => exact .inl (by simp)
  | cons l rest ih =>
    rcases parses_or_stopsAt g sample l with hl | ⟨stop, hstop⟩
    · rcases ih with hrest | ⟨before, k, after, stop, rfl, hbefore, hstop⟩
      · exact .inl (List.forall_mem_cons.2 ⟨hl, hrest⟩)
      · exact .inr ⟨l :: before, k, after, stop, rfl, List.forall_mem_cons.2 ⟨hl, hbefore⟩, hstop⟩
    · exact .inr ⟨[], l, rest, stop, rfl, by simp, hstop⟩

/-! ## Counting up to the first stop -/

/-- A parser is called for a language unless its grammar is refused. -/
def callsAt (g : Grammars) (l : Language) : Nat := if (g.refusal l).isSome then 0 else 1

theorem survey_of_stopsAt {l : Language} {stop : Stop} (h : StopsAt g sample l stop)
    (after : List Language) : survey g sample (l :: after) = (.error stop, callsAt g l) := by
  rw [survey, callsAt]
  cases h with
  | refused hrefusal => rw [hrefusal]; rfl
  | noTree hrefusal hparse => rw [hrefusal, hparse]; rfl
  | crash hrefusal hparse => rw [hrefusal, hparse]; rfl

/-- Languages that give trees are counted, and counting goes on. -/
theorem survey_append {before : List Language} (h : ∀ k ∈ before, Parses g sample k)
    (rest : List Language) : ∃ fits : List Fit, survey g sample (before ++ rest) =
      ((survey g sample rest).1.map (fits ++ ·), before.length + (survey g sample rest).2) := by
  -- languages that parse only add to the fits
  induction before with
  | nil =>
    refine ⟨[], ?_⟩
    rw [List.nil_append]
    rcases survey g sample rest with ⟨_ | fits, calls⟩ <;> simp [Except.map]
  | cons k before ih =>
    obtain ⟨⟨hrefusal, tree, hparse⟩, hbefore⟩ := List.forall_mem_cons.1 h
    obtain ⟨fits, hsurvey⟩ := ih hbefore
    refine ⟨⟨k, tree.rejectedBytes, countHints k sample⟩ :: fits, ?_⟩
    rw [List.cons_append, survey, hrefusal, hparse]
    dsimp only
    rw [hsurvey]
    rcases survey g sample rest with ⟨_ | _, calls⟩ <;>
      simp [Except.map, Nat.add_right_comm]

theorem survey_of_first {before : List Language} {l : Language} {stop : Stop}
    (hbefore : ∀ k ∈ before, Parses g sample k) (hstop : StopsAt g sample l stop)
    (after : List Language) :
    survey g sample (before ++ l :: after) = (.error stop, before.length + callsAt g l) := by
  obtain ⟨fits, hsurvey⟩ := survey_append hbefore (l :: after)
  rw [hsurvey, survey_of_stopsAt hstop]
  rfl

/-! ## The run as a whole -/

/-- If nothing is to be ranked, nothing is asked. -/
theorem run_of_nothing (h : Sample.isBlank (Sample.take limits.maxContentBytes content) = true ∨
    limits.maxPredictions = 0) (g : Grammars) :
    run g limits content = ⟨.ok [], 0, Sample.take limits.maxContentBytes content⟩ := by
  unfold run
  dsimp only
  refine if_pos ?_
  rcases h with hblank | hwanted
  · rw [hblank, Bool.true_or]
  · rw [hwanted, beq_self_eq_true, Bool.or_true]

/-- A parser is called for a language: whatever crash is put in the place of what parsing gives for
it, the run ends with that crash. -/
def IsCalled (g : Grammars) (limits : Limits) (content : List Char) (l : Language) : Prop :=
  ∀ crash, (run (g.trap l crash) limits content).result = .error (.crash crash)

theorem parses_trap {k l : Language} {crash : Crash} (hne : k ≠ l) (h : Parses g sample k) :
    Parses (g.trap l crash) sample k := by
  obtain ⟨hrefusal, tree, hparse⟩ := h
  refine ⟨hrefusal, tree, ?_⟩
  unfold Grammars.trap
  dsimp only
  rw [if_neg hne, hparse]

theorem parses_trap_of_not_mem {before : List Language} {k : Language} (hk : k ∉ before)
    (hbefore : ∀ j ∈ before, Parses g sample j) (crash : Crash) :
    ∀ j ∈ before, Parses (g.trap k crash) sample j := by
  intro j hj
  refine parses_trap ?_ (hbefore j hj)
  rintro rfl
  exact hk hj

theorem stopsAt_trap_self {l : Language} (h : g.refusal l = none) (crash : Crash) :
    StopsAt (g.trap l crash) sample l (.crash crash) :=
  .crash h (if_pos rfl)

theorem stopsAt_trap {k l : Language} {crash : Crash} {stop : Stop}
    (hne : g.refusal k = none → k ≠ l) (h : StopsAt g sample k stop) :
    StopsAt (g.trap l crash) sample k stop := by
  cases h with
  | refused hrefusal => exact .refused hrefusal
  | noTree hrefusal hparse => exact .noTree hrefusal ((if_neg (hne hrefusal)).trans hparse)
  | crash hrefusal hparse => exact .crash hrefusal ((if_neg (hne hrefusal)).trans hparse)

/-- What the grammars say up to a language, its refusal included and the parsing of a refused one
not. -/
structure AgreeUpTo (g g' : Grammars) (sample : List Char) (before : List Language)
    (l : Language) : Prop where
  earlier : ∀ k ∈ before, g'.refusal k = g.refusal k ∧ g'.parse k sample = g.parse k sample
  refusal : g'.refusal l = g.refusal l
  parse : g.refusal l = none → g'.parse l sample = g.parse l sample

theorem AgreeUpTo.parses {before : List Language} {l : Language}
    (h : AgreeUpTo g g' sample before l) (hbefore : ∀ k ∈ before, Parses g sample k) :
    ∀ k ∈ before, Parses g' sample k := by
  intro k hk
  obtain ⟨hrefusal, hparse⟩ := h.earlier k hk
  rw [Parses, hrefusal, hparse]
  exact hbefore k hk

theorem AgreeUpTo.stopsAt {before : List Language} {l : Language} {stop : Stop}
    (h : AgreeUpTo g g' sample before l) (hstop : StopsAt g sample l stop) :
    StopsAt g' sample l stop := by
  cases hstop with
  | refused hrefusal => exact .refused (h.refusal.trans hrefusal)
  | noTree hrefusal hparse =>
    exact .noTree (h.refusal.trans hrefusal) ((h.parse hrefusal).trans hparse)
  | crash hrefusal hparse =>
    exact .crash (h.refusal.trans hrefusal) ((h.parse hrefusal).trans hparse)

theorem exists_ne_crash (stop : Stop) : ∃ crash, stop ≠ .crash crash := by
  by_cases h : stop = .crash .wordless
  · exact ⟨.text "", by simp [h]⟩
  · exact ⟨.wordless, h⟩

section First

variable {before after : List Language} {l : Language} {stop : Stop}
  (hblank : Sample.isBlank (Sample.take limits.maxContentBytes content) = false)
  (hwanted : limits.maxPredictions ≠ 0) (hall : Language.all = before ++ l :: after)
  (hbefore : ∀ k ∈ before, Parses g (Sample.take limits.maxContentBytes content) k)

include hblank hwanted hall hbefore

theorem run_of_first (hstop : StopsAt g (Sample.take limits.maxContentBytes content) l stop) :
    run g limits content =
      ⟨.error stop, before.length + callsAt g l, Sample.take limits.maxContentBytes content⟩ := by
  rw [run_eq_survey hblank hwanted, hall, survey_of_first hbefore hstop]
  rfl

theorem isCalled_of_parses (h : g.refusal l = none) : IsCalled g limits content l := by
  intro crash
  have hnodup := Language.nodup_all
  rw [hall, List.nodup_middle, List.nodup_cons, List.mem_append, not_or] at hnodup
  rw [run_of_first hblank hwanted hall (parses_trap_of_not_mem hnodup.1.1 hbefore crash)
    (stopsAt_trap_self h crash)]

/-- The languages that a parser is called for are those before the first stop, and the one of the
stop itself if it is not refused. -/
theorem isCalled_iff_of_first (hstop : StopsAt g (Sample.take limits.maxContentBytes content) l stop)
    (k : Language) : IsCalled g limits content k ↔ k ∈ before ∨ k = l ∧ g.refusal l = none := by
  constructor
  · intro hcalled
    by_contra hk
    obtain ⟨hearlier, hlast⟩ := not_or.1 hk
    -- any crash in the place of `k` goes unseen, so one that differs from the stop tells
    obtain ⟨crash, hcrash⟩ := exists_ne_crash stop
    have htrapped : StopsAt (g.trap k crash) (Sample.take limits.maxContentBytes content) l stop := by
      refine stopsAt_trap ?_ hstop
      rintro hrefusal rfl
      exact hlast ⟨rfl, hrefusal⟩
    have hrun := hcalled crash
    rw [run_of_first hblank hwanted hall (parses_trap_of_not_mem hearlier hbefore crash)
      htrapped] at hrun
    exact hcrash (Except.error.inj hrun)
  · rintro (hk | ⟨rfl, hrefusal⟩)
    · obtain ⟨first, rest, rfl⟩ := List.append_of_mem hk
      have hsplit : Language.all = first ++ k :: (rest ++ l :: after) := by simp [hall]
      exact isCalled_of_parses hblank hwanted hsplit
        (fun j hj => hbefore j (List.mem_append_left _ hj)) (hbefore k hk).1
    · exact isCalled_of_parses hblank hwanted hall hbefore hrefusal

/-- Grammars that answer the same up to the first stop make the same run. -/
theorem run_of_agree (hstop : StopsAt g (Sample.take limits.maxContentBytes content) l stop)
    (hagree : AgreeUpTo g g' (Sample.take limits.maxContentBytes content) before l) :
    run g' limits content = run g limits content := by
  have hcalls : callsAt g' l = callsAt g l := by rw [callsAt, callsAt, hagree.refusal]
  rw [run_of_first hblank hwanted hall (hagree.parses hbefore) (hagree.stopsAt hstop),
    run_of_first hblank hwanted hall hbefore hstop, hcalls]

end First

/-! ## Success -/

theorem exists_trees (h : ∀ l, Parses g sample l) :
    ∃ trees : Language → SyntaxTree, ∀ l, g.parse l sample = .tree (trees l) :=
  ⟨fun l => (h l).2.choose, fun l => (h l).2.choose_spec⟩

theorem calls_run (hblank : Sample.isBlank (Sample.take limits.maxContentBytes content) = false)
    (hwanted : limits.maxPredictions ≠ 0)
    (h : ∀ l, Parses g (Sample.take limits.maxContentBytes content) l) :
    (run g limits content).calls = 17 := by
  obtain ⟨trees, htrees⟩ := exists_trees h
  rw [run_eq_survey hblank hwanted, survey_of_trees (fun l => (h l).1) htrees]
  rfl

theorem length_result_run
    (hblank : Sample.isBlank (Sample.take limits.maxContentBytes content) = false)
    (h : ∀ l, Parses g (Sample.take limits.maxContentBytes content) l) :
    ∃ predictions, (run g limits content).result = .ok predictions ∧
      predictions.length = min limits.maxPredictions 17 := by
  obtain ⟨trees, htrees⟩ := exists_trees h
  refine ⟨_, result_run rfl hblank (fun l => (h l).1) htrees, ?_⟩
  rw [List.length_take, List.length_map, ranking, List.length_mergeSort]
  rfl

theorem not_isCalled_of_nothing
    (h : Sample.isBlank (Sample.take limits.maxContentBytes content) = true ∨
      limits.maxPredictions = 0) (l : Language) : ¬ IsCalled g limits content l := by
  intro hcalled
  have hrun := hcalled .wordless
  rw [run_of_nothing h] at hrun
  cases hrun

theorem isCalled_of_all (hblank : Sample.isBlank (Sample.take limits.maxContentBytes content) = false)
    (hwanted : limits.maxPredictions ≠ 0)
    (h : ∀ l, Parses g (Sample.take limits.maxContentBytes content) l) (l : Language) :
    IsCalled g limits content l := by
  obtain ⟨before, after, hall⟩ := List.append_of_mem (Language.mem_all l)
  exact isCalled_of_parses hblank hwanted hall (fun k _ => h k) (h l).1

/-- A run fails if some grammar is refused or some parsing gives no tree, and only then. -/
theorem fails_iff (hblank : Sample.isBlank (Sample.take limits.maxContentBytes content) = false)
    (hwanted : limits.maxPredictions ≠ 0) :
    (∃ stop, (run g limits content).result = .error stop) ↔
      ∃ l, ¬ Parses g (Sample.take limits.maxContentBytes content) l := by
  constructor
  · rintro ⟨stop, hstop⟩
    by_contra hnone
    obtain ⟨predictions, hpredictions, -⟩ :=
      length_result_run hblank fun l => not_not.1 fun hl => hnone ⟨l, hl⟩
    rw [hpredictions] at hstop
    cases hstop
  · rintro ⟨l, hl⟩
    rcases all_parse_or_exists_first g (Sample.take limits.maxContentBytes content)
      Language.all with hparses | ⟨before, k, after, stop, hall, hbefore, hstop⟩
    · exact absurd (hparses l (Language.mem_all l)) hl
    · exact ⟨stop, by rw [run_of_first hblank hwanted hall hbefore hstop]⟩

/-! ## All or nothing -/

/-- If the sample is blank or no prediction is wanted, nothing is answered and no parser is called,
whatever the grammars are like. Otherwise ranking fails if some grammar is refused or gives no tree,
and only then: the first such language, in the order of the table, is the failure; parsers were
called for the languages before it, and for itself unless it is refused, and for no other; and what
the grammars would have said later makes no difference. If all give trees, as many predictions as
are wanted and there are come back after seventeen calls, one for each language. The ranking backend
passes all that on, failures as its own. -/
theorem all_or_nothing (g : Grammars) (limits : Limits) (content : List Char) :
    let sample := Sample.take limits.maxContentBytes content
    let ranked := run g limits content
    (Sample.isBlank sample = true ∨ limits.maxPredictions = 0 →
      ranked.result = .ok [] ∧ ranked.calls = 0 ∧ (∀ l, ¬ IsCalled g limits content l) ∧
        ∀ g', run g' limits content = ranked) ∧
    (Sample.isBlank sample = false → limits.maxPredictions ≠ 0 →
      ((∃ stop, ranked.result = .error stop) ↔
        ∃ l, (∃ version, g.refusal l = some version) ∨ g.parse l sample = .nothing ∨
          ∃ crash, g.parse l sample = .crash crash) ∧
      ((∀ l, Parses g sample l) ∨ ∃ before l after stop, Language.all = before ++ l :: after ∧
        (∀ k ∈ before, Parses g sample k) ∧ StopsAt g sample l stop) ∧
      (∀ before l after stop, Language.all = before ++ l :: after →
        (∀ k ∈ before, Parses g sample k) → StopsAt g sample l stop →
        ranked.result = .error stop ∧
        ranked.calls = before.length + (if (g.refusal l).isSome then 0 else 1) ∧
        (∀ k, IsCalled g limits content k ↔ k ∈ before ∨ k = l ∧ g.refusal l = none) ∧
        ∀ g', AgreeUpTo g g' sample before l → run g' limits content = ranked) ∧
      ((∀ l, Parses g sample l) →
        (∃ predictions, ranked.result = .ok predictions ∧
          predictions.length = min limits.maxPredictions 17) ∧
        ranked.calls = 17 ∧ ∀ l, IsCalled g limits content l)) ∧
    (∀ (host : Host) (text : String) (options : Members), host.grammars = g →
      host.takesTasks = true → text.toList = content →
      let reply := (Backend.ranking limits).detect host text options
      reply.parses = ranked.calls ∧
      (∀ predictions, ranked.result = .ok predictions → reply.outcome = .predictions predictions) ∧
      ∀ f, ranked.result = .error (.failure f) → reply.outcome = .failure (.model f.message)) := by
  intro sample ranked
  refine ⟨fun hnothing => ?_, fun hblank hwanted => ⟨?_, ?_, ?_, fun hall => ?_⟩, ?_⟩
  · have hrun := run_of_nothing hnothing
    refine ⟨congrArg Outcome.result (hrun g), congrArg Outcome.calls (hrun g),
      not_isCalled_of_nothing hnothing, fun g' => (hrun g').trans (hrun g).symm⟩
  · rw [fails_iff hblank hwanted]
    exact exists_congr fun l => not_parses_iff
  · exact (all_parse_or_exists_first g sample Language.all).imp_left
      fun hall l => hall l (Language.mem_all l)
  · intro before l after stop hall hbefore hstop
    have hrun : ranked = ⟨.error stop, before.length + callsAt g l, sample⟩ :=
      run_of_first hblank hwanted hall hbefore hstop
    exact ⟨congrArg Outcome.result hrun, congrArg Outcome.calls hrun,
      isCalled_iff_of_first hblank hwanted hall hbefore hstop,
      fun g' => run_of_agree hblank hwanted hall hbefore hstop⟩
  · exact ⟨length_result_run hblank hall, calls_run hblank hwanted hall,
      isCalled_of_all hblank hwanted hall⟩
  · -- the reply is the one for a process that takes tasks
    rintro host text options rfl htakes rfl reply
    have hreply : reply = _ := if_pos htakes
    rw [hreply]
    refine ⟨rfl, fun predictions hresult => ?_, fun f hresult => ?_⟩ <;>
    · dsimp only
      rw [show (run host.grammars limits text.toList).result = _ from hresult]

/-- Grammars of which the second gives no tree and the third is refused. -/
def halting : Grammars where
  refusal l := if l = .python then some 16 else none
  parse l sample := if l = .javascript then .nothing else Grammars.lenient.parse l sample

/-- No parser is called for a blank. For a letter, the second language ends the ranking and the third
is not asked; if there are trees, there are seventeen calls. -/
theorem all_or_nothing_halting :
    (run halting ⟨3, 8⟩ [' ']).calls = 0 ∧
    (run halting ⟨3, 8⟩ ['x']).result = .error (.failure (.noTree .javascript)) ∧
    (run halting ⟨3, 8⟩ ['x']).calls = 2 ∧ ¬ IsCalled halting ⟨3, 8⟩ ['x'] .python ∧
    ((Backend.ranking ⟨3, 8⟩).detect ⟨halting, true, "7"⟩ "x" []).outcome =
      .failure (.model "javascript parser returned no tree") ∧
    (run .lenient ⟨3, 8⟩ ['x']).calls = 17 := by
  obtain ⟨hnothing, -⟩ := all_or_nothing halting ⟨3, 8⟩ [' ']
  obtain ⟨-, hstops, hbackend⟩ := all_or_nothing halting ⟨3, 8⟩ ['x']
  obtain ⟨-, hall, -⟩ := all_or_nothing .lenient ⟨3, 8⟩ ['x']
  obtain ⟨-, -, hfirst, -⟩ := hstops (by decide) (by decide)
  obtain ⟨hresult, hcalls, hcalled, -⟩ := hfirst [.typescript] .javascript _
    (.failure (.noTree .javascript)) rfl (by simpa using ⟨rfl, _, rfl⟩) (.noTree rfl rfl)
  obtain ⟨-, -, hfailure⟩ := hbackend ⟨halting, true, "7"⟩ "x" [] rfl rfl rfl
  obtain ⟨-, -, -, hsuccess⟩ := hall (by decide) (by decide)
  exact ⟨(hnothing (.inl (by decide))).2.1, hresult, hcalls,
    fun h => absurd ((hcalled .python).1 h) (by decide), hfailure _ hresult,
    (hsuccess fun l => ⟨rfl, _, rfl⟩).2.1⟩

end Ranking

end Polyglot
