/-
A language gains on the others if less of a sample is rejected for it or more of its hints occur,
and all else stays the same. In exact arithmetic its confidence does not fall and it is not listed
later. The confidences of the others do not rise either, if weights are exponential: but that rests
on more than the order of the weights, since all of them are measured from the greatest score, which
is another one if the language becomes the best.
-/
import Polyglot.Proofs.Ranking.Exact
import Polyglot.Proofs.SyntaxTree.Walk
import Mathlib.Analysis.Complex.Exponential
import Mathlib.Tactic.Ring

namespace Polyglot

/-! ## Places in lists -/

/-- If nothing comes before a member of a list that does not come before it in another list as well,
its place in the first one is not later. -/
theorem idxOf_le_idxOf {α : Type} [DecidableEq α] {list list' : List α} {R R' : α → α → Prop}
    {a : α} (hlist : list.Pairwise R) (hlist' : list'.Pairwise R') (hnodup : list'.Nodup)
    (hmem : ∀ b, b ∈ list) (hmem' : a ∈ list') (hasymm : ∀ b, R b a → ¬ R a b)
    (h : ∀ b, R' b a → R b a) : list'.idxOf a ≤ list.idxOf a := by
  obtain ⟨before, after, rfl, hbefore⟩ := List.eq_append_cons_of_mem (hmem a)
  obtain ⟨before', after', rfl, hbefore'⟩ := List.eq_append_cons_of_mem hmem'
  rw [List.idxOf_append_of_notMem hbefore, List.idxOf_append_of_notMem hbefore',
    List.idxOf_cons_self, List.idxOf_cons_self]
  refine (List.subperm_of_subset (hnodup.sublist (List.sublist_append_left ..)) ?_).length_le
  intro b hb
  have hba : R b a := h b ((List.pairwise_append.1 hlist').2.2 b hb a List.mem_cons_self)
  rcases List.mem_append.1 (hmem b) with hb | hb
  · exact hb
  · rcases List.mem_cons.1 hb with rfl | hb
    · exact absurd hba (hasymm b hba)
    · exact absurd (List.rel_of_pairwise_cons (List.pairwise_append.1 hlist).2.1 hb) (hasymm b hba)

namespace Ranking

variable {K : Type} [Field K] [LinearOrder K] [IsStrictOrderedRing K]

/-! ## Gains -/

/-- From one count to another, a language gains on all others: no more bytes are rejected and no
fewer hints occur, as far as they matter, and for the others there are as many as before. -/
structure Gains (size : ℕ) (fit fit' : Language → Fit) (L : Language) : Prop where
  rejected : min (fit' L).rejected size ≤ min (fit L).rejected size
  hints : min (fit L).hints saturation ≤ min (fit' L).hints saturation
  others : ∀ l ≠ L, min (fit' l).rejected size = min (fit l).rejected size ∧
    min (fit' l).hints saturation = min (fit l).hints saturation

/-- Something of the gain matters. -/
def GainsMore (size : ℕ) (fit fit' : Fit) : Prop :=
  min fit'.rejected size < min fit.rejected size ∨
    min fit.hints saturation < min fit'.hints saturation

section Scores

variable {size m n : ℕ}

theorem accepted_le (h : min n size ≤ min m size) :
    (accepted size m : K) ≤ accepted size n := by
  unfold accepted
  split_ifs
  · exact le_rfl
  · have : ((min n size : ℕ) : K) ≤ (min m size : ℕ) := Nat.cast_le.2 h
    gcongr

theorem accepted_lt (h : min n size < min m size) : (accepted size m : K) < accepted size n := by
  have hsize : 0 < size := by omega
  have hpos : (0 : K) < size := Nat.cast_pos.2 hsize
  have : ((min n size : ℕ) : K) < (min m size : ℕ) := Nat.cast_lt.2 h
  unfold accepted
  rw [if_neg hsize.ne', if_neg hsize.ne']
  gcongr

variable {sample sample' : List Char} {trees trees' : Language → SyntaxTree} {L : Language}
  (hsize : Text.Utf8.size sample' = Text.Utf8.size sample)
  (h : Gains (Text.Utf8.size sample) (fits sample trees) (fits sample' trees') L)

include hsize h

omit [IsStrictOrderedRing K] in
theorem Gains.score_eq (exp : K → K) {l : Language} (hl : l ≠ L) :
    exactScore exp sample' trees' l = exactScore exp sample trees l := by
  obtain ⟨hrejected, hhints⟩ := h.others l hl
  rw [exactScore_eq, exactScore_eq, hsize, accepted, accepted, hrejected, hhints]

theorem Gains.score_le (exp : K → K) :
    exactScore exp sample trees L ≤ exactScore exp sample' trees' L := by
  have haccepted := accepted_le (K := K) h.rejected
  have hhints := Nat.cast_le (α := K).2 h.hints
  rw [exactScore_eq, exactScore_eq, hsize]
  linarith

theorem Gains.score_lt (exp : K → K)
    (hmore : GainsMore (Text.Utf8.size sample) (fits sample trees L) (fits sample' trees' L)) :
    exactScore exp sample trees L < exactScore exp sample' trees' L := by
  have haccepted := accepted_le (K := K) h.rejected
  have hhints := Nat.cast_le (α := K).2 h.hints
  rw [exactScore_eq, exactScore_eq, hsize]
  rcases hmore with hmore | hmore
  · have := accepted_lt (K := K) hmore
    linarith
  · have := Nat.cast_lt (α := K).2 hmore
    linarith

end Scores

/-! ## Portions -/

section Portions

variable {w w' : Language → K} {L : Language}

/-- Portions compare as weights do with what the others have in the other case. -/
theorem portion_le_iff (hw : ∀ l, 0 < w l) (hw' : ∀ l, 0 < w' l) :
    portion w L ≤ portion w' L ↔ w L * others w' L ≤ w' L * others w L := by
  rw [portion, portion, div_le_div_iff₀ (sum_pos hw) (sum_pos hw'), sum_eq_add w L,
    sum_eq_add w' L, mul_add, mul_add, mul_comm (w' L) (w L), add_le_add_iff_left]

theorem portion_lt_iff (hw : ∀ l, 0 < w l) (hw' : ∀ l, 0 < w' l) :
    portion w L < portion w' L ↔ w L * others w' L < w' L * others w L := by
  rw [portion, portion, div_lt_div_iff₀ (sum_pos hw) (sum_pos hw'), sum_eq_add w L,
    sum_eq_add w' L, mul_add, mul_add, mul_comm (w' L) (w L), add_lt_add_iff_left]

theorem others_le (h : ∀ l ≠ L, w' l ≤ w l) : others w' L ≤ others w L :=
  List.sum_le_sum fun l hl => h l (mem_erase_all.1 hl)

theorem others_lt (h : ∀ l ≠ L, w' l < w l) : others w' L < others w L :=
  List.sum_lt_sum_of_ne_nil (erase_all_ne_nil L) _ _ fun l hl => h l (mem_erase_all.1 hl)

/-- The portion of a weight that does not fall, while no other rises, does not fall. -/
theorem portion_le_of_gain (hw : ∀ l, 0 < w l) (hw' : ∀ l, 0 < w' l) (hL : w L ≤ w' L)
    (h : ∀ l ≠ L, w' l ≤ w l) : portion w L ≤ portion w' L :=
  (portion_le_iff hw hw').2
    (mul_le_mul hL (others_le h) (others_pos hw' L).le (hw' L).le)

/-- It rises if the weight rises or all others fall. -/
theorem portion_lt_of_gain (hw : ∀ l, 0 < w l) (hw' : ∀ l, 0 < w' l) (hL : w L ≤ w' L)
    (h : ∀ l ≠ L, w' l ≤ w l) (hmore : w L < w' L ∨ ∀ l ≠ L, w' l < w l) :
    portion w L < portion w' L := by
  rw [portion_lt_iff hw hw']
  rcases hmore with hmore | hmore
  · exact mul_lt_mul hmore (others_le h) (others_pos hw' L) (hw' L).le
  · exact mul_lt_mul' hL (others_lt hmore) (others_pos hw' L).le (hw' L)

/-- If all other weights change by one factor and this one by no less, the portions of the others do
not rise. -/
theorem portion_le_of_factor (hw : ∀ l, 0 < w l) (hw' : ∀ l, 0 < w' l) {c : K} (hL : c * w L ≤ w' L)
    (h : ∀ l ≠ L, w' l = c * w l) {l : Language} (hl : l ≠ L) : portion w' l ≤ portion w l := by
  have hsum : c * (Language.all.map w).sum ≤ (Language.all.map w').sum := by
    rw [← List.sum_map_mul_left]
    refine List.sum_le_sum fun k _ => ?_
    by_cases hk : k = L
    · rwa [hk]
    · exact (h k hk).ge
  rw [portion, portion, div_le_div_iff₀ (sum_pos hw') (sum_pos hw), h l hl, mul_comm c,
    mul_assoc]
  exact mul_le_mul_of_nonneg_left hsum (hw l).le

end Portions

/-! ## Weights -/

section Weights

variable {exp : K → K} {score score' : Language → K} {most most' : K} {L : Language}
  (hmost : IsGreatest (Set.range score) most) (hmost' : IsGreatest (Set.range score') most')
  (hothers : ∀ l ≠ L, score' l = score l) (hL : score L ≤ score' L)

include hmost hmost' hothers hL

omit [Field K] [IsStrictOrderedRing K] in
/-- The greatest score stays, or it rises and is that of the language. -/
theorem greatest_cases : most' = most ∨ most < most' ∧ score' L = most' := by
  obtain ⟨k, hk⟩ := hmost.1
  obtain ⟨k', hk'⟩ := hmost'.1
  -- no score has become less
  have hle : most ≤ most' := by
    rw [← hk]
    refine le_trans ?_ (hmost'.2 ⟨k, rfl⟩)
    by_cases h : k = L
    · rwa [h]
    · exact (hothers k h).ge
  rcases hle.eq_or_lt with heq | hlt
  · exact .inl heq.symm
  · refine .inr ⟨hlt, ?_⟩
    by_cases h : k' = L
    · rw [← h, hk']
    · have := hmost.2 ⟨k', rfl⟩
      rw [← hothers k' h, hk'] at this
      exact absurd this hlt.not_ge

theorem below_le : score L - most ≤ score' L - most' := by
  rcases greatest_cases hmost hmost' hothers hL with rfl | ⟨-, htop⟩
  · linarith
  · have := hmost.2 ⟨L, rfl⟩
    linarith

theorem below_others_le {l : Language} (hl : l ≠ L) : score' l - most' ≤ score l - most := by
  rw [hothers l hl]
  rcases greatest_cases hmost hmost' hothers hL with rfl | ⟨hlt, -⟩ <;> linarith

theorem below_lt (hlt : score L < score' L) :
    score L - most < score' L - most' ∨ ∀ l ≠ L, score' l - most' < score l - most := by
  rcases greatest_cases hmost hmost' hothers hL with rfl | ⟨hrise, -⟩
  · exact .inl (by linarith)
  · refine .inr fun l hl => ?_
    rw [hothers l hl]
    linarith

/-- The weights of the others change by one factor if weights turn sums into products, or if the
greatest score stays. -/
theorem exists_factor (hexp : StrictMono exp)
    (h : (∀ x y, exp (x + y) = exp x * exp y) ∨ ∃ l, score' L ≤ score l) :
    ∃ c, c * exactWeight exp score most L ≤ exactWeight exp score' most' L ∧
      ∀ l ≠ L, exactWeight exp score' most' l = c * exactWeight exp score most l := by
  rcases h with hmul | ⟨k, hk⟩
  · have hfactor (x : K) : exp ((x - most') / (12 / 100)) =
        exp ((most - most') / (12 / 100)) * exp ((x - most) / (12 / 100)) := by
      rw [← hmul]
      ring_nf
    refine ⟨exp ((most - most') / (12 / 100)), ?_, fun l hl => ?_⟩
    · rw [exactWeight, ← hfactor, exactWeight, hexp.le_iff_le]
      gcongr
    · rw [exactWeight, hfactor, hothers l hl, exactWeight]
  · -- otherwise the greatest score stays as it is, and the others with it
    rcases greatest_cases hmost hmost' hothers hL with rfl | ⟨hlt, htop⟩
    · refine ⟨1, ?_, fun l hl => ?_⟩
      · rw [one_mul, exactWeight_le_iff hexp]
        gcongr
      · rw [one_mul, exactWeight, exactWeight, hothers l hl]
    · exact absurd (htop ▸ hk.trans (hmost.2 ⟨k, rfl⟩)) hlt.not_ge

end Weights

/-! ## Rankings before and after a gain -/

omit [Field K] [IsStrictOrderedRing K] in
theorem Outscores.asymm {score : Language → K} {k l : Language} (h : Outscores score k l) :
    ¬ Outscores score l k := by
  rintro (hlt | ⟨heq, hindex⟩)
  · exact h.elim hlt.not_gt fun h => hlt.ne h.1
  · exact h.elim (fun hlt => hlt.ne heq) fun h => h.2.not_gt hindex

omit [Field K] [IsStrictOrderedRing K] in
/-- What is listed before a language after a gain was listed before it already. -/
theorem outscores_of_gain {score score' : Language → K} {k L : Language}
    (hothers : ∀ l ≠ L, score' l = score l) (hL : score L ≤ score' L)
    (h : Outscores score' k L) : Outscores score k L := by
  have hne : k ≠ L := by
    rintro rfl
    exact h.asymm h
  rcases h with hlt | ⟨heq, hindex⟩
  · exact .inl (hL.trans_lt (hothers k hne ▸ hlt))
  · rw [hothers k hne] at heq
    rcases hL.lt_or_eq with hlt | heq'
    · exact .inl (heq ▸ hlt)
    · exact .inr ⟨heq.trans heq'.symm, hindex⟩

omit [Field K] [LinearOrder K] [IsStrictOrderedRing K] in
theorem exists_confidence {list : List (Language × K)}
    (h : (list.map Prod.fst).Perm Language.all) (l : Language) : ∃ x, (l, x) ∈ list := by
  obtain ⟨⟨k, x⟩, hmem, rfl⟩ := List.mem_map.1 (h.mem_iff.2 (Language.mem_all l))
  exact ⟨x, hmem⟩

/-! ## Two trees to compare -/

/-- Trees of an error each, of as many bytes as are given for the language. -/
def flawed (rejected : Language → ℕ) (l : Language) : SyntaxTree :=
  .node .error 0 (rejected l) []

theorem rejected_fits_flawed (sample : List Char) (rejected : Language → ℕ) (l : Language) :
    (fits sample (flawed rejected) l).rejected = rejected l := by
  show (flawed rejected l).rejectedBytes = rejected l
  rw [SyntaxTree.rejectedBytes_eq, flawed, SyntaxTree.rejected, Nat.sub_zero]

theorem gains_flawed {sample : List Char} {rejected rejected' : Language → ℕ} {L : Language}
    (hL : rejected' L ≤ rejected L) (hothers : ∀ l ≠ L, rejected' l = rejected l) :
    Gains (Text.Utf8.size sample) (fits sample (flawed rejected)) (fits sample (flawed rejected'))
      L := by
  refine ⟨?_, le_rfl, fun l hl => ⟨?_, rfl⟩⟩
  · rw [rejected_fits_flawed, rejected_fits_flawed]
    exact min_le_min_right _ hL
  · rw [rejected_fits_flawed, rejected_fits_flawed, hothers l hl]

/-- Two languages are the best, and the others are rejected altogether. -/
def tied : Language → ℕ
  | .typescript | .javascript => 1
  | _ => 2

/-- One of the two is accepted altogether. -/
def parted : Language → ℕ
  | .typescript => 0
  | .javascript => 1
  | _ => 2

theorem gains_parted (sample : List Char) :
    Gains (Text.Utf8.size sample) (fits sample (flawed tied)) (fits sample (flawed parted))
      .typescript := by
  refine gains_flawed (by decide) fun l hl => ?_
  cases l <;> first | rfl | exact absurd rfl hl

theorem gainsMore_parted :
    GainsMore (Text.Utf8.size ['a', 'b']) (fits ['a', 'b'] (flawed tied) .typescript)
      (fits ['a', 'b'] (flawed parted) .typescript) := by
  refine .inl ?_
  rw [rejected_fits_flawed, rejected_fits_flawed]
  decide

/-- A text without any hint. -/
theorem exactScore_flawed (exp : K → K) (rejected : Language → ℕ) (l : Language) :
    exactScore exp ['a', 'b'] (flawed rejected) l =
      55 / 100 * (1 - ((min (rejected l) 2 : ℕ) : K) / 2) := by
  have hhints : countHints l ['a', 'b'] = 0 := by cases l <;> decide
  have hsize : Text.Utf8.size ['a', 'b'] = 2 := by decide
  rw [exactScore_eq, rejected_fits_flawed, fits, Fit.ofTree, hhints, hsize]
  simp [accepted]

/-- The greatest score is that of the language of which least is rejected. -/
theorem greatest_flawed {exp : K → K} {rejected : Language → ℕ} {most : K}
    (hmost : IsGreatest (Set.range (exactScore exp ['a', 'b'] (flawed rejected))) most)
    (k : Language) (hk : ∀ l, min (rejected k) 2 ≤ min (rejected l) 2) :
    most = 55 / 100 * (1 - ((min (rejected k) 2 : ℕ) : K) / 2) := by
  rw [← exactScore_flawed exp]
  refine hmost.unique ⟨⟨k, rfl⟩, ?_⟩
  rintro x ⟨l, rfl⟩
  rw [exactScore_flawed, exactScore_flawed]
  have : ((min (rejected k) 2 : ℕ) : K) ≤ (min (rejected l) 2 : ℕ) := Nat.cast_le.2 (hk l)
  linarith

/-- A strictly increasing function with positive values that leaps at zero. -/
def leap {K : Type} [Field K] [LinearOrder K] (x : K) : K := if x < 0 then 1 / (1 - x) else 200 + x

theorem leap_pos (x : K) : 0 < leap x := by
  unfold leap
  split_ifs with h
  · exact div_pos one_pos (by linarith)
  · linarith

theorem leap_strictMono : StrictMono (leap : K → K) := by
  intro x y hxy
  have hone {z : K} (hz : z < 0) : 1 / (1 - z) < 1 := by
    rw [div_lt_one (by linarith)]
    linarith
  unfold leap
  split_ifs with hx hy hy
  · exact one_div_lt_one_div_of_lt (by linarith) (by linarith)
  · have := hone hx
    linarith
  · linarith
  · linarith

/-! ## Confidences and scores -/

/-- A run answers with the ranking in machine numbers, as far as predictions are wanted. The same
ranking in exact arithmetic, with any strictly increasing function with positive values in the place
of the exponential one, lists all languages if the grammars give trees; the confidences are between
zero and one and add up to one; greater scores come first, equal ones in the order of the table, and
the first confidence is a seventeenth at least.

If one language gains on all others in a sample of the same length, its confidence does not fall, it
rises if the gain matters, and the language is not listed later. No other confidence rises, provided
that the function turns sums into products, as the exponential function does, or that the new score
is not above all of the old ones. -/
theorem confidences_follow_scores (exp : K → K) (hexp : StrictMono exp) (hpos : ∀ x, 0 < exp x) :
    (∀ (g : Grammars) (limits : Limits) (content : List Char),
      let sample := Sample.take limits.maxContentBytes content
      Sample.isBlank sample = false → limits.maxPredictions ≠ 0 →
        (run g limits content).result = (ranked g sample).map fun list =>
          (list.map fun (l, x) => ⟨l.id, Double.ofFloat x⟩).take limits.maxPredictions) ∧
    (∀ (sample : List Char) (trees : Language → SyntaxTree),
      let list := exactRanking exp sample trees
      (∀ g : Grammars, (∀ l, g.refusal l = none) → (∀ l, g.parse l sample = .tree (trees l)) →
        @ranked K (.exact exp) g sample = .ok list) ∧
      (list.map Prod.fst).Perm Language.all ∧ (∀ p ∈ list, 0 < p.2 ∧ p.2 < 1) ∧
      (list.map Prod.snd).sum = 1 ∧
      (list.map Prod.fst).Pairwise (Outscores (exactScore exp sample trees)) ∧
      ∃ first rest, list = first :: rest ∧ 1 / 17 ≤ first.2) ∧
    ∀ (sample sample' : List Char) (trees trees' : Language → SyntaxTree) (L : Language),
      Text.Utf8.size sample' = Text.Utf8.size sample →
      Gains (Text.Utf8.size sample) (fits sample trees) (fits sample' trees') L →
      let list := exactRanking exp sample trees
      let list' := exactRanking exp sample' trees'
      (∀ x x', (L, x) ∈ list → (L, x') ∈ list' → x ≤ x' ∧
        (GainsMore (Text.Utf8.size sample) (fits sample trees L) (fits sample' trees' L) →
          x < x')) ∧
      (list'.map Prod.fst).idxOf L ≤ (list.map Prod.fst).idxOf L ∧
      ((∀ x y, exp (x + y) = exp x * exp y) ∨
          (∃ l, exactScore exp sample' trees' L ≤ exactScore exp sample trees l) →
        ∀ l ≠ L, ∀ x x', (l, x) ∈ list → (l, x') ∈ list' → x' ≤ x) := by
  refine ⟨fun g limits content => result_run_eq_ranked, fun sample trees =>
    ⟨fun g => ranked_of_trees exp, exactRanking_distribution hexp hpos sample trees⟩, ?_⟩
  intro sample sample' trees trees' L hsize hgains list list'
  obtain ⟨most, hmost, languages, hperm, hpairwise, heq⟩ :=
    exists_exactRanking_eq hexp hpos sample trees
  obtain ⟨most', hmost', languages', hperm', hpairwise', heq'⟩ :=
    exists_exactRanking_eq hexp hpos sample' trees'
  have hothers (l : Language) (hl : l ≠ L) := hgains.score_eq hsize exp hl
  have hL := hgains.score_le hsize exp
  have hw := exactWeight_pos hpos (exactScore exp sample trees) most
  have hw' := exactWeight_pos hpos (exactScore exp sample' trees') most'
  -- measured from the greatest score, the one that gains goes up and the others do not
  have hup := (exactWeight_le_iff hexp).2 (below_le hmost hmost' hothers hL)
  have hdown (l : Language) (hl : l ≠ L) :=
    (exactWeight_le_iff hexp).2 (below_others_le hmost hmost' hothers hL hl)
  refine ⟨?_, ?_, ?_⟩
  · intro x x' hx hx'
    rw [eq_of_mem_ranking heq hx, eq_of_mem_ranking heq' hx']
    refine ⟨portion_le_of_gain hw hw' hup hdown, fun hmore => ?_⟩
    refine portion_lt_of_gain hw hw' hup hdown ?_
    rcases below_lt hmost hmost' hothers hL (hgains.score_lt hsize exp hmore) with hlt | hlt
    · exact .inl ((exactWeight_lt_iff hexp).2 hlt)
    · exact .inr fun l hl => (exactWeight_lt_iff hexp).2 (hlt l hl)
  · rw [languages_of_ranking heq, languages_of_ranking heq']
    refine idxOf_le_idxOf hpairwise hpairwise' (hperm'.nodup_iff.2 Language.nodup_all)
      (fun l => hperm.mem_iff.2 (Language.mem_all l)) (hperm'.mem_iff.2 (Language.mem_all L))
      (fun _ h => h.asymm) fun k hk => ?_
    exact outscores_of_gain hothers hL hk
  · intro hfactor l hl x x' hx hx'
    obtain ⟨c, hcL, hc⟩ := exists_factor hmost hmost' hothers hL hexp hfactor
    rw [eq_of_mem_ranking heq hx, eq_of_mem_ranking heq' hx']
    exact portion_le_of_factor hw hw' hcL hc hl

/-- With the exponential function of the real numbers, for two letters. -/
theorem confidences_follow_scores_parted :
    @ranked ℝ (.exact Real.exp) ⟨fun _ => none, fun l _ => .tree (flawed tied l)⟩ ['a', 'b'] =
        .ok (exactRanking Real.exp ['a', 'b'] (flawed tied)) ∧
      (∃ x x', (.typescript, x) ∈ exactRanking Real.exp ['a', 'b'] (flawed tied) ∧
        (.typescript, x') ∈ exactRanking Real.exp ['a', 'b'] (flawed parted) ∧ x < x') ∧
      ∃ x x', (.css, x) ∈ exactRanking Real.exp ['a', 'b'] (flawed tied) ∧
        (.css, x') ∈ exactRanking Real.exp ['a', 'b'] (flawed parted) ∧ x' ≤ x := by
  obtain ⟨-, hone, htwo⟩ :=
    confidences_follow_scores Real.exp Real.exp_strictMono Real.exp_pos
  obtain ⟨hranked, hperm, -⟩ := hone ['a', 'b'] (flawed tied)
  obtain ⟨-, hperm', -⟩ := hone ['a', 'b'] (flawed parted)
  obtain ⟨hgain, -, hothers⟩ :=
    htwo ['a', 'b'] ['a', 'b'] (flawed tied) (flawed parted) .typescript rfl (gains_parted _)
  obtain ⟨x, hx⟩ := exists_confidence hperm .typescript
  obtain ⟨x', hx'⟩ := exists_confidence hperm' .typescript
  obtain ⟨y, hy⟩ := exists_confidence hperm .css
  obtain ⟨y', hy'⟩ := exists_confidence hperm' .css
  exact ⟨hranked _ (fun _ => rfl) (fun _ => rfl),
    ⟨x, x', hx, hx', (hgain x x' hx hx').2 gainsMore_parted⟩,
    y, y', hy, hy', hothers (.inl Real.exp_add) .css (by decide) y y' hy hy'⟩

/-- For a function that only has to be increasing, another confidence may rise: if one of two best
languages gains and the other one falls behind with all the rest, the rest gain as well. -/
theorem others_rise_by_leap :
    StrictMono (leap : ℝ → ℝ) ∧ (∀ x : ℝ, 0 < leap x) ∧
      Gains (Text.Utf8.size ['a', 'b']) (fits ['a', 'b'] (flawed tied))
        (fits ['a', 'b'] (flawed parted)) .typescript ∧
      GainsMore (Text.Utf8.size ['a', 'b']) (fits ['a', 'b'] (flawed tied) .typescript)
        (fits ['a', 'b'] (flawed parted) .typescript) ∧
      ∃ x x' : ℝ, (.css, x) ∈ exactRanking leap ['a', 'b'] (flawed tied) ∧
        (.css, x') ∈ exactRanking leap ['a', 'b'] (flawed parted) ∧ x < x' := by
  obtain ⟨most, hmost, languages, hperm, -, heq⟩ :=
    exists_exactRanking_eq (K := ℝ) leap_strictMono leap_pos ['a', 'b'] (flawed tied)
  obtain ⟨most', hmost', languages', hperm', -, heq'⟩ :=
    exists_exactRanking_eq (K := ℝ) leap_strictMono leap_pos ['a', 'b'] (flawed parted)
  refine ⟨leap_strictMono, leap_pos, gains_parted _, gainsMore_parted, _, _,
    mem_ranking heq hperm .css, mem_ranking heq' hperm' .css, ?_⟩
  rw [greatest_flawed hmost .typescript fun l => by cases l <;> decide,
    greatest_flawed hmost' .typescript fun l => by cases l <;> decide]
  simp only [portion, exactWeight, exactScore_flawed, Language.all, List.map_cons, List.map_nil,
    List.sum_cons, List.sum_nil, tied, parted, leap]
  norm_num

end Ranking

end Polyglot
