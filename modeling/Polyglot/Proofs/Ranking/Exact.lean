/-
Ranking in exact arithmetic. The arithmetic of machine numbers is replaced by that of any ordered
field, and the exponential function by any strictly increasing one with positive values: then the
confidences are a distribution over the languages, and their order is that of the scores.
-/
import Polyglot.Proofs.Ranking.Order
import Mathlib.Algebra.Order.BigOperators.Group.List
import Mathlib.Algebra.Order.Field.Basic
import Mathlib.Algebra.BigOperators.Ring.List
import Mathlib.Order.Bounds.Basic
import Mathlib.Tactic.Linarith
import Mathlib.Tactic.NormNum
import Mathlib.Tactic.Positivity

namespace Polyglot

/-- Exact arithmetic in an ordered field. Any function may take the place of the exponential one. -/
@[reducible] def Scale.exact {K : Type} [Field K] [LinearOrder K] (exp : K → K) : Scale K where
  ofNat n := n
  exp := exp
  larger := max
  atLeast x y := decide (y ≤ x)

namespace Ranking

/-! ## The ranking before it is shortened -/

/-- All languages with their confidences in the order of the answer, in any arithmetic. -/
def ranked {α : Type} [Scale α] (g : Grammars) (sample : List Char) :
    Except Stop (List (Language × α)) :=
  (survey g sample Language.all).1.map (order (Text.Utf8.size sample))

/-- A run answers with the ranking in machine numbers, as far as predictions are wanted. -/
theorem result_run_eq_ranked {g : Grammars} {limits : Limits} {content : List Char}
    (hblank : Sample.isBlank (Sample.take limits.maxContentBytes content) = false)
    (hwanted : limits.maxPredictions ≠ 0) :
    (run g limits content).result =
      (ranked g (Sample.take limits.maxContentBytes content)).map fun list =>
        (list.map fun (l, x) => ⟨l.id, Double.ofFloat x⟩).take limits.maxPredictions := by
  rw [run_eq_survey hblank hwanted]
  unfold ranked
  rcases survey g (Sample.take limits.maxContentBytes content) Language.all with ⟨_ | fits, calls⟩ <;>
    rfl

variable {K : Type} [Field K] [LinearOrder K]

/-- The score of a language in a sample if its tree is the given one. -/
def exactScore (exp : K → K) (sample : List Char) (trees : Language → SyntaxTree)
    (l : Language) : K :=
  letI := Scale.exact exp
  (Fit.ofTree sample (trees l) l).score (Text.Utf8.size sample)

/-- The full ranking if the trees are the given ones. -/
def exactRanking (exp : K → K) (sample : List Char) (trees : Language → SyntaxTree) :
    List (Language × K) :=
  letI := Scale.exact exp
  order (Text.Utf8.size sample) (Language.all.map fun l => Fit.ofTree sample (trees l) l)

theorem ranked_of_trees (exp : K → K) {g : Grammars} {sample : List Char}
    {trees : Language → SyntaxTree} (hrefusal : ∀ l, g.refusal l = none)
    (hparse : ∀ l, g.parse l sample = .tree (trees l)) :
    @ranked K (.exact exp) g sample = .ok (exactRanking exp sample trees) := by
  unfold ranked
  rw [survey_of_trees hrefusal hparse]
  rfl

/-! ## Portions of a whole -/

/-- What a weight makes of the sum of all weights. -/
def portion (w : Language → K) (l : Language) : K := w l / (Language.all.map w).sum

/-- The sum of the other weights. -/
def others (w : Language → K) (l : Language) : K := ((Language.all.erase l).map w).sum

theorem mem_erase_all {k l : Language} : k ∈ Language.all.erase l ↔ k ≠ l := by
  rw [Language.nodup_all.mem_erase_iff]
  exact and_iff_left (Language.mem_all k)

theorem erase_all_ne_nil (l : Language) : Language.all.erase l ≠ [] := by
  cases l <;> decide

section Portion

variable [IsStrictOrderedRing K] {w w' : Language → K}

theorem sum_map_pos (hw : ∀ l, 0 < w l) {languages : List Language} (h : languages ≠ []) :
    0 < (languages.map w).sum := by
  refine List.sum_pos _ ?_ (List.map_eq_nil_iff.not.2 h)
  intro x hx
  obtain ⟨l, -, rfl⟩ := List.mem_map.1 hx
  exact hw l

theorem sum_pos (hw : ∀ l, 0 < w l) : 0 < (Language.all.map w).sum :=
  sum_map_pos hw (List.cons_ne_nil _ _)

theorem others_pos (hw : ∀ l, 0 < w l) (l : Language) : 0 < others w l :=
  sum_map_pos hw (erase_all_ne_nil l)

omit [LinearOrder K] [IsStrictOrderedRing K] in
/-- One weight and all the others. -/
theorem sum_eq_add (w : Language → K) (l : Language) :
    (Language.all.map w).sum = w l + others w l :=
  (List.sum_map_erase w (Language.mem_all l)).symm

theorem portion_pos (hw : ∀ l, 0 < w l) (l : Language) : 0 < portion w l :=
  div_pos (hw l) (sum_pos hw)

theorem portion_lt_one (hw : ∀ l, 0 < w l) (l : Language) : portion w l < 1 := by
  rw [portion, div_lt_one (sum_pos hw), sum_eq_add w l]
  exact lt_add_of_pos_right _ (others_pos hw l)

theorem sum_portion (hw : ∀ l, 0 < w l) : (Language.all.map (portion w)).sum = 1 := by
  unfold portion
  simp only [div_eq_mul_inv]
  rw [List.sum_map_mul_right]
  exact mul_inv_cancel₀ (sum_pos hw).ne'

theorem portion_le_portion_iff (hw : ∀ l, 0 < w l) {k l : Language} :
    portion w k ≤ portion w l ↔ w k ≤ w l :=
  div_le_div_iff_of_pos_right (sum_pos hw)

/-- The greatest portion is an equal one at least. -/
theorem le_portion (hw : ∀ l, 0 < w l) {l : Language} (h : ∀ k, w k ≤ w l) :
    1 / 17 ≤ portion w l := by
  have hsum : (Language.all.map (portion w)).sum ≤ Language.all.length • portion w l := by
    have := List.sum_le_card_nsmul (Language.all.map (portion w)) (portion w l) (by
      intro x hx
      obtain ⟨k, -, rfl⟩ := List.mem_map.1 hx
      exact (portion_le_portion_iff hw).2 (h k))
    rwa [List.length_map] at this
  rw [sum_portion hw, nsmul_eq_mul] at hsum
  have hlength : ((Language.all.length : ℕ) : K) = 17 := by
    rw [show Language.all.length = 17 from rfl]
    norm_num
  rw [hlength] at hsum
  rwa [div_le_iff₀' (by norm_num)]

end Portion

/-! ## Scores and weights -/

/-- The weight of a language if `most` is the greatest score. -/
def exactWeight (exp : K → K) (score : Language → K) (most : K) (l : Language) : K :=
  exp ((score l - most) / (12 / 100))

theorem ratio_exact (exp : K → K) (m n : ℕ) : @Scale.ratio K (.exact exp) m n = m / n := rfl

/-- The count of every language for a sample. -/
def fits (sample : List Char) (trees : Language → SyntaxTree) (l : Language) : Fit :=
  Fit.ofTree sample (trees l) l

/-- The share of a sample that is accepted. -/
def accepted (size rejected : ℕ) : K :=
  if size = 0 then 0 else 1 - ((min rejected size : ℕ) : K) / size

/-- The score in exact arithmetic. -/
theorem exactScore_eq (exp : K → K) (sample : List Char) (trees : Language → SyntaxTree)
    (l : Language) :
    exactScore exp sample trees l =
      55 / 100 * accepted (Text.Utf8.size sample) (fits sample trees l).rejected +
        45 / 100 * (((min (fits sample trees l).hints saturation : ℕ) : K) / 3) := by
  have haccepted (size rejected : ℕ) :
      @syntaxFit K (.exact exp) size rejected = accepted size rejected := by
    unfold syntaxFit accepted
    rw [ratio_exact]
    split_ifs
    · exact Nat.cast_zero
    · exact congrArg (· - _) Nat.cast_one
  show @Scale.ratio K (.exact exp) 55 100 * @syntaxFit K (.exact exp) _ _ +
    @Scale.ratio K (.exact exp) 45 100 * @lexicalFit K (.exact exp) _ = _
  unfold lexicalFit
  rw [haccepted, ratio_exact, ratio_exact, ratio_exact]
  norm_num [saturation, fits]

theorem weight_exact (exp : K → K) (most x : K) :
    @weight K (.exact exp) most x = exp ((x - most) / (12 / 100)) := by
  show exp ((x - most) / @Scale.ratio K (.exact exp) 12 100) = _
  rw [ratio_exact, Nat.cast_ofNat, Nat.cast_ofNat]

theorem isGreatest_greatest (exp : K → K) (x : K) (rest : List K) :
    IsGreatest {y | y ∈ x :: rest} (@greatest K (.exact exp) x rest) := by
  induction rest generalizing x with
  | nil => simp [greatest, IsGreatest, upperBounds]
  | cons y rest ih =>
    -- the fold keeps the greater of the first two and goes on
    obtain ⟨hmem, hle⟩ := ih (max x y)
    show IsGreatest _ (@greatest K (.exact exp) (max x y) rest)
    constructor
    · rcases List.mem_cons.1 hmem with hmax | hrest
      · rcases max_choice x y with hx | hy
        · exact List.mem_cons.2 (.inl (hmax.trans hx))
        · exact List.mem_cons_of_mem _ (List.mem_cons.2 (.inl (hmax.trans hy)))
      · exact List.mem_cons_of_mem _ (List.mem_cons_of_mem _ hrest)
    · have hmax := hle (List.mem_cons_self ..)
      intro z hz
      rcases List.mem_cons.1 hz with rfl | hz
      · exact (le_max_left _ y).trans hmax
      · rcases List.mem_cons.1 hz with rfl | hz
        · exact (le_max_right x _).trans hmax
        · exact hle (List.mem_cons_of_mem _ hz)

/-- Confidences are portions of weights that are measured from the greatest score. -/
theorem exists_weights (exp : K → K) (score : Language → K) :
    ∃ most, IsGreatest (Set.range score) most ∧
      ∀ l, @share K (.exact exp) (Language.all.map score) (score l) =
        portion (exactWeight exp score most) l := by
  have htotal (weights : List K) : @total K (.exact exp) weights = weights.sum := by
    rw [List.sum_eq_foldl]
    exact congrArg (List.foldl _ · weights) Nat.cast_zero
  -- the fold begins at the first language, so it has to be named
  obtain ⟨rest, hall⟩ : ∃ rest, Language.all = .typescript :: rest := ⟨_, rfl⟩
  obtain ⟨most, hmost⟩ : ∃ most, @greatest K (.exact exp) (score .typescript) (rest.map score) = most :=
    ⟨_, rfl⟩
  refine ⟨most, ?_, fun l => ?_⟩
  · have hgreatest := isGreatest_greatest exp (score .typescript) (rest.map score)
    rw [← List.map_cons, ← hall, hmost] at hgreatest
    convert hgreatest using 1
    ext x
    simp [Language.mem_all]
  · have hweights : (Language.all.map score).map (@weight K (.exact exp) most) =
        Language.all.map (exactWeight exp score most) := by
      rw [List.map_map]
      exact List.map_congr_left fun k _ => weight_exact exp most (score k)
    rw [portion, ← hweights, ← htotal, exactWeight, ← weight_exact exp, hall, ← hmost]
    rfl

section Lists

variable {list : List (Language × K)} {languages : List Language} {x : Language → K}

omit [Field K] [LinearOrder K] in
theorem languages_of_ranking (h : list = languages.map fun l => (l, x l)) :
    list.map Prod.fst = languages := by
  rw [h, List.map_map]
  exact List.map_id languages

omit [Field K] [LinearOrder K] in
theorem eq_of_mem_ranking (h : list = languages.map fun l => (l, x l)) {l : Language} {y : K}
    (hy : (l, y) ∈ list) : y = x l := by
  rw [h] at hy
  obtain ⟨k, -, heq⟩ := List.mem_map.1 hy
  cases heq
  rfl

omit [Field K] [LinearOrder K] in
theorem mem_ranking (h : list = languages.map fun l => (l, x l)) (hperm : languages.Perm Language.all)
    (l : Language) : (l, x l) ∈ list := by
  rw [h]
  exact List.mem_map_of_mem (hperm.mem_iff.2 (Language.mem_all l))

end Lists

section Distribution

variable [IsStrictOrderedRing K] {exp : K → K} (hexp : StrictMono exp) (hpos : ∀ x, 0 < exp x)

include hpos in
omit [IsStrictOrderedRing K] in
theorem exactWeight_pos (score : Language → K) (most : K) (l : Language) :
    0 < exactWeight exp score most l :=
  hpos _

include hexp in
theorem exactWeight_le_iff {score score' : Language → K} {most most' : K} {k l : Language} :
    exactWeight exp score most k ≤ exactWeight exp score' most' l ↔
      score k - most ≤ score' l - most' := by
  rw [exactWeight, exactWeight, hexp.le_iff_le, div_le_div_iff_of_pos_right (by norm_num)]

include hexp in
theorem exactWeight_lt_iff {score score' : Language → K} {most most' : K} {k l : Language} :
    exactWeight exp score most k < exactWeight exp score' most' l ↔
      score k - most < score' l - most' := by
  rw [exactWeight, exactWeight, hexp.lt_iff_lt, div_lt_div_iff_of_pos_right (by norm_num)]

/-- Whether a language is listed before another one: it has the greater score, or the same and
stands earlier in the table. -/
def Outscores (score : Language → K) (k l : Language) : Prop :=
  score l < score k ∨ score k = score l ∧ Language.all.idxOf k < Language.all.idxOf l

include hexp hpos in
/-- Sorting by the portions is sorting by the scores. -/
theorem pairwise_outscores (score : Language → K) (most : K) :
    let confidence := portion (exactWeight exp score most)
    (Language.all.mergeSort fun k l => decide (confidence l ≤ confidence k)).Pairwise
      (Outscores score) := by
  intro confidence
  -- confidences are in the order of the scores
  have hiff (k l : Language) : decide (confidence k ≤ confidence l) = true ↔ score k ≤ score l := by
    rw [decide_eq_true_iff, portion_le_portion_iff (exactWeight_pos hpos score most),
      exactWeight_le_iff hexp, sub_le_sub_iff_right]
  refine (pairwise_mergeSort_idxOf Language.nodup_all ?_ ?_).imp ?_
  · intro j k l hjk hkl
    rw [hiff] at hjk hkl ⊢
    exact hkl.trans hjk
  · intro k l
    rw [Bool.or_eq_true, hiff, hiff]
    exact le_total _ _
  · rintro k l ⟨hle, hindex⟩
    rw [hiff] at hle hindex
    rcases hle.lt_or_eq with hlt | heq
    · exact .inl hlt
    · exact .inr ⟨heq.symm, hindex heq.symm.le⟩

include hexp hpos in
/-- A ranking lists all languages, in the order of their scores, with the portions of their
weights. -/
theorem exists_exactRanking_eq (sample : List Char) (trees : Language → SyntaxTree) :
    ∃ most, IsGreatest (Set.range (exactScore exp sample trees)) most ∧
      ∃ languages : List Language, languages.Perm Language.all ∧
        languages.Pairwise (Outscores (exactScore exp sample trees)) ∧
        exactRanking exp sample trees = languages.map fun l =>
          (l, portion (exactWeight exp (exactScore exp sample trees) most) l) := by
  obtain ⟨most, hmost, hshare⟩ := exists_weights exp (exactScore exp sample trees)
  refine ⟨most, hmost, _, List.mergeSort_perm _ _, pairwise_outscores hexp hpos _ most, ?_⟩
  rw [← funext hshare]
  let _ := Scale.exact exp
  have horder := @order_map K _ (Text.Utf8.size sample) (fun l => Fit.ofTree sample (trees l) l)
    (fun _ => rfl) Language.all
  rw [List.map_map] at horder
  exact horder

include hexp hpos in
/-- The confidences of a ranking are positive and add up to one, the greater score comes first and
equal ones are in the order of the table, and the first confidence is an equal part at least. -/
theorem exactRanking_distribution (sample : List Char) (trees : Language → SyntaxTree) :
    let list := exactRanking exp sample trees
    (list.map Prod.fst).Perm Language.all ∧ (∀ p ∈ list, 0 < p.2 ∧ p.2 < 1) ∧
      (list.map Prod.snd).sum = 1 ∧
      (list.map Prod.fst).Pairwise (Outscores (exactScore exp sample trees)) ∧
      ∃ first rest, list = first :: rest ∧ 1 / 17 ≤ first.2 := by
  obtain ⟨most, -, languages, hperm, hpairwise, heq⟩ :=
    exists_exactRanking_eq hexp hpos sample trees
  have hw := exactWeight_pos hpos (exactScore exp sample trees) most
  intro list
  have hlist : list = _ := heq
  have hlanguages : list.map Prod.fst = languages := languages_of_ranking heq
  refine ⟨hlanguages ▸ hperm, ?_, ?_, hlanguages ▸ hpairwise, ?_⟩
  · rw [hlist]
    intro p hp
    obtain ⟨l, -, rfl⟩ := List.mem_map.1 hp
    exact ⟨portion_pos hw l, portion_lt_one hw l⟩
  · rw [hlist, List.map_map, ← sum_portion hw]
    exact (hperm.map _).sum_eq
  · -- the first one is at least the average
    cases languages with
    | nil => exact absurd hperm.length_eq (by decide)
    | cons first rest =>
      refine ⟨_, _, hlist, le_portion hw fun k => ?_⟩
      rw [exactWeight_le_iff hexp, sub_le_sub_iff_right]
      rcases List.mem_cons.1 (hperm.mem_iff.2 (Language.mem_all k)) with rfl | hk
      · exact le_rfl
      · exact (List.rel_of_pairwise_cons hpairwise hk).elim le_of_lt fun h => h.1.symm.le

end Distribution

end Ranking

end Polyglot
