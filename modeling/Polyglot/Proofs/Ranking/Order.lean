/-
The order of the answer. If every grammar gives a tree, each language has one fit and one
confidence, and the languages are sorted by it: from the greatest confidence down, and equal ones in
the order of the table, since sorting is stable. How many predictions are wanted plays no part in
that: the answer is a beginning of the full ranking.
-/
import Polyglot.Proofs.Double.Order
import Polyglot.Proofs.Ranking.Sampling
import Mathlib.Data.List.Nodup

namespace Polyglot

/-! ## Sorting -/

open List.MergeSort.Internal in
/-- Sorting is stable: of two different members the one that was before the other stays so if they
are equally great. -/
theorem pairwise_mergeSort_idxOf {α : Type} [DecidableEq α] {l : List α} (hl : l.Nodup)
    {le : α → α → Bool} (trans : ∀ a b c, le a b = true → le b c = true → le a c = true)
    (total : ∀ a b, (le a b || le b a) = true) :
    (l.mergeSort le).Pairwise fun a b =>
      le a b = true ∧ (le b a = true → l.idxOf a < l.idxOf b) := by
  have hsorted := List.pairwise_mergeSort (List.zipIdxLE_trans trans) (List.zipIdxLE_total total)
    l.zipIdx
  have hperm := List.mergeSort_perm l.zipIdx (List.zipIdxLE le)
  have hnodup : ((l.zipIdx.mergeSort (List.zipIdxLE le)).map Prod.snd).Nodup := by
    rw [(hperm.map Prod.snd).nodup_iff, List.zipIdx_map_snd]
    exact List.nodup_range'
  have hindex (a : α × Nat) (ha : a ∈ l.zipIdx) : l.idxOf a.1 = a.2 := by
    obtain ⟨hi, hget⟩ := List.getElem?_eq_some_iff.1 (List.mem_zipIdx_iff_getElem?.1 ha)
    rw [← hget]
    exact hl.idxOf_getElem _ hi
  -- stability is an order of the pairs of elements and places
  rw [← List.mergeSort_zipIdx, List.pairwise_map]
  refine (hsorted.and (List.pairwise_map.1 hnodup)).imp_of_mem ?_
  rintro a b ha hb ⟨hle, hne⟩
  rw [hindex a (hperm.mem_iff.1 ha), hindex b (hperm.mem_iff.1 hb)]
  unfold List.zipIdxLE at hle
  split at hle
  · rename_i hab
    refine ⟨hab, fun hba => ?_⟩
    rw [if_pos hba, decide_eq_true_iff] at hle
    omega
  · cases hle

namespace Ranking

/-! ## Confidences -/

section Scale

variable {α : Type} [Scale α]

/-- The confidence in one of the scores. -/
def share (scores : List α) (score : α) : α :=
  match scores with
  | [] => score
  | first :: rest =>
    let most := greatest first rest
    weight most score / total (scores.map (weight most))

theorem confidences_eq_map (scores : List α) :
    confidences scores = scores.map (share scores) := by
  cases scores with
  | nil => rfl
  | cons first rest => exact List.map_map

/-- The languages of the fits in order, each with its confidence. -/
theorem order_map (size : Nat) (fit : Language → Fit) (hfit : ∀ l, (fit l).language = l)
    (languages : List Language) :
    let confidence : Language → α := fun l =>
      share ((languages.map fit).map (Fit.score size)) ((fit l).score size)
    order size (languages.map fit) =
      (languages.mergeSort fun l l' => Scale.atLeast (confidence l) (confidence l')).map
        fun l => (l, confidence l) := by
  intro confidence
  have hlanguages : (languages.map fit).map (·.language) = languages := by
    rw [List.map_map]
    exact (List.map_congr_left fun l _ => hfit l).trans (List.map_id _)
  have hshares : confidences ((languages.map fit).map (Fit.score size)) =
      languages.map confidence := by
    rw [confidences_eq_map, List.map_map, List.map_map]
    rfl
  unfold order
  dsimp only
  rw [hlanguages, hshares, ← List.map_prod_left_eq_zip]
  exact (List.map_mergeSort (f := fun l => (l, confidence l)) fun _ _ _ _ => rfl).symm

end Scale

/-- What is counted for a language if its tree is the given one. -/
def Fit.ofTree (sample : List Char) (tree : SyntaxTree) (l : Language) : Fit :=
  ⟨l, tree.rejectedBytes, countHints l sample⟩

variable {g : Grammars} {sample : List Char} {trees : Language → SyntaxTree}

/-- Grammars that give trees are all asked, and all trees are counted. -/
theorem survey_of_trees (hrefusal : ∀ l, g.refusal l = none)
    (hparse : ∀ l, g.parse l sample = .tree (trees l)) (languages : List Language) :
    survey g sample languages =
      (.ok (languages.map fun l => Fit.ofTree sample (trees l) l), languages.length) := by
  induction languages with
  | nil => rfl
  | cons l rest ih => rw [survey, hrefusal, hparse, ih]; rfl

/-- If there is something to rank, a run is the count with all that follows from it. -/
theorem run_eq_survey {limits : Limits} {content : List Char}
    (hblank : Sample.isBlank (Sample.take limits.maxContentBytes content) = false)
    (hwanted : limits.maxPredictions ≠ 0) :
    let sample := Sample.take limits.maxContentBytes content
    let counted := survey g sample Language.all
    run g limits content =
      ⟨counted.1.map fun fits => ((order (Text.Utf8.size sample) fits).map fun (l, x) =>
        Prediction.mk l.id (Double.ofFloat x)).take limits.maxPredictions, counted.2, sample⟩ := by
  unfold run
  dsimp only
  rw [hblank, Bool.false_or, if_neg (by simpa using hwanted)]
  rcases survey g (Sample.take limits.maxContentBytes content) Language.all with ⟨_ | fits, calls⟩ <;>
    rfl

/-! ## The full ranking -/

/-- The confidence in a language if the trees are the given ones. -/
def confidence (sample : List Char) (trees : Language → SyntaxTree) (l : Language) : Float :=
  let score : Language → Float := fun l =>
    (Fit.ofTree sample (trees l) l).score (Text.Utf8.size sample)
  share (Language.all.map score) (score l)

/-- All languages in the order of the answer. -/
def ranking (sample : List Char) (trees : Language → SyntaxTree) : List Language :=
  Language.all.mergeSort fun l l' =>
    Scale.atLeast (confidence sample trees l) (confidence sample trees l')

/-- The prediction of a language. -/
def predict (sample : List Char) (trees : Language → SyntaxTree) (l : Language) : Prediction :=
  ⟨l.id, Double.ofFloat (confidence sample trees l)⟩

/-- The answer is a beginning of the full ranking. -/
theorem result_run {limits : Limits} {content : List Char}
    (hsample : Sample.take limits.maxContentBytes content = sample)
    (hblank : Sample.isBlank sample = false) (hrefusal : ∀ l, g.refusal l = none)
    (hparse : ∀ l, g.parse l sample = .tree (trees l)) :
    (run g limits content).result =
      .ok (((ranking sample trees).map (predict sample trees)).take limits.maxPredictions) := by
  unfold run
  dsimp only
  rw [hsample, hblank, Bool.false_or, survey_of_trees hrefusal hparse]
  split
  · rename_i hnone
    rw [beq_iff_eq.1 hnone, List.take_zero]
  · dsimp only
    rw [order_map _ _ fun _ => rfl, List.map_map, List.map_map]
    rfl

/-- Whether a prediction is listed before another one: it is more confident, or as confident and
earlier in the table. -/
def Precedes (p q : Prediction) : Prop :=
  q.confidence.place < p.confidence.place ∨ p.confidence = q.confidence ∧
    (Language.all.map Language.id).idxOf p.languageId <
      (Language.all.map Language.id).idxOf q.languageId

theorem idxOf_id (l : Language) :
    (Language.all.map Language.id).idxOf l.id = Language.all.idxOf l := by
  cases l <;> rfl

theorem pairwise_precedes (sample : List Char) (trees : Language → SyntaxTree) :
    ((ranking sample trees).map (predict sample trees)).Pairwise Precedes := by
  rw [List.pairwise_map]
  refine (pairwise_mergeSort_idxOf Language.nodup_all ?_ ?_).imp ?_
  · intro k l m hkl hlm
    exact decide_eq_true (Int.le_trans (of_decide_eq_true hlm) (of_decide_eq_true hkl))
  · intro k l
    rw [Bool.or_eq_true]
    exact (Int.le_total _ _).imp decide_eq_true decide_eq_true
  · rintro k l ⟨hle, hindex⟩
    have hkeys := of_decide_eq_true hle
    rcases Int.lt_or_eq_of_le hkeys with hlt | heq
    · exact .inl (Double.place_lt_iff.2 hlt)
    · refine .inr ⟨congrArg Double.ofFloat (Double.eq_of_orderKey_eq heq).symm, ?_⟩
      show (Language.all.map Language.id).idxOf k.id < (Language.all.map Language.id).idxOf l.id
      rw [idxOf_id, idxOf_id]
      exact hindex (decide_eq_true (Int.le_of_eq heq.symm))

theorem perm_ids (sample : List Char) (trees : Language → SyntaxTree) :
    (((ranking sample trees).map (predict sample trees)).map (·.languageId)).Perm
      (Language.all.map Language.id) := by
  rw [List.map_map]
  exact (List.mergeSort_perm _ _).map Language.id

theorem nodup_ids : (Language.all.map Language.id).Nodup := by decide

/-- If the sample is not blank and every grammar gives a tree, there is a ranking of all seventeen
languages, from the greatest confidence down and equal ones in the order of the table, and however
many predictions are wanted, the answer is the beginning of it: that many predictions if there are
as many, of different languages, with the same confidences, and none is left out before one that is
given. -/
theorem run_takes_ranking (g : Grammars) (limit : Nat) (content : List Char)
    (trees : Language → SyntaxTree)
    (hblank : Sample.isBlank (Sample.take limit content) = false)
    (hrefusal : ∀ l, g.refusal l = none)
    (hparse : ∀ l, g.parse l (Sample.take limit content) = .tree (trees l)) :
    ∃ full : List Prediction, full.Pairwise Precedes ∧
      (full.map (·.languageId)).Perm (Language.all.map Language.id) ∧
      ∀ wanted, (run g ⟨wanted, limit⟩ content).result = .ok (full.take wanted) ∧
        (full.take wanted).length = min wanted 17 ∧
        ((full.take wanted).map (·.languageId)).Nodup ∧
        (∀ p ∈ full.take wanted, ∀ q ∈ full.drop wanted, Precedes p q) ∧
        (17 ≤ wanted → full.take wanted = full) ∧
        ∀ more, wanted ≤ more → full.take wanted = (full.take more).take wanted := by
  obtain ⟨sample, hsample⟩ : ∃ sample, Sample.take limit content = sample := ⟨_, rfl⟩
  rw [hsample] at hblank hparse
  -- the list is the same for every limit
  obtain ⟨full, hfull⟩ : ∃ full, (ranking sample trees).map (predict sample trees) = full :=
    ⟨_, rfl⟩
  have hpairwise : full.Pairwise Precedes := hfull ▸ pairwise_precedes sample trees
  have hperm : (full.map (·.languageId)).Perm (Language.all.map Language.id) :=
    hfull ▸ perm_ids sample trees
  have hlength : full.length = 17 := by
    have := hperm.length_eq
    rwa [List.length_map] at this
  refine ⟨full, hpairwise, hperm, fun wanted => ⟨?_, ?_, ?_, ?_, ?_, ?_⟩⟩
  · rw [result_run hsample hblank hrefusal hparse, hfull]
  · rw [List.length_take, hlength]
  · exact (hperm.nodup_iff.2 nodup_ids).sublist ((List.take_sublist wanted full).map _)
  · rw [← List.take_append_drop wanted full, List.pairwise_append] at hpairwise
    exact hpairwise.2.2
  · exact fun hall => List.take_of_length_le (by omega)
  · intro more hle
    rw [List.take_take, Nat.min_eq_left hle]

/-- Three of the predictions for one letter, and more than there are. -/
theorem run_takes_ranking_lenient :
    ∃ full : List Prediction, full.Pairwise Precedes ∧ full.length = 17 ∧
      (run .lenient ⟨3, 8⟩ ['x']).result = .ok (full.take 3) ∧
      (run .lenient ⟨20, 8⟩ ['x']).result = .ok full := by
  obtain ⟨full, hpairwise, hperm, hanswers⟩ := run_takes_ranking .lenient 8 ['x']
    (fun _ => .node .clean 0 1 []) (by decide +kernel) (fun _ => rfl) (fun _ => rfl)
  obtain ⟨hthree, -⟩ := hanswers 3
  obtain ⟨htwenty, -, -, -, hall, -⟩ := hanswers 20
  refine ⟨full, hpairwise, ?_, hthree, ?_⟩
  · have := hperm.length_eq
    rwa [List.length_map] at this
  · rw [htwenty, hall (by decide)]

end Ranking

end Polyglot
