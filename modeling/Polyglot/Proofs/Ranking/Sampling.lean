/-
The sample decides. It is the longest beginning of a text, in whole characters, that takes at most
the given bytes: what counting down from the limit to the next boundary among the bytes cuts off.
Grammars are given the sample and nothing else, and all that is worked out later is worked out from
it, so that ranking a text is ranking its sample.
-/
import Polyglot.Proofs.Text.Boundaries
import Polyglot.Ranking.Basic
import Mathlib.Tactic.Common

namespace Polyglot

open Text.Utf8 (size encode isBoundary)

namespace Sample

variable {limit : Nat} {text : List Char}

/-! ## The longest beginning -/

/-- Every beginning that takes at most the given bytes is one of the sample. -/
theorem isPrefix_take {p : List Char} (h : p <+: text) (hsize : size p ≤ limit) :
    p <+: take limit text := by
  induction text generalizing limit p with
  | nil => rwa [take]
  | cons c text ih =>
    rcases List.prefix_cons_iff.1 h with rfl | ⟨q, rfl, hq⟩
    · exact List.nil_prefix
    · rw [size] at hsize
      rw [take, if_pos (by omega)]
      exact List.cons_prefix_cons.2 ⟨rfl, ih hq (by omega)⟩

theorem take_of_size_le (h : size text ≤ limit) : take limit text = text :=
  (take_isPrefix limit text).eq_of_length_le (isPrefix_take (List.prefix_refl text) h).length_le

/-- What does not fit is a single character at the most. -/
theorem lt_size_take (h : limit < size text) : limit < size (take limit text) + 4 := by
  induction text generalizing limit with
  | nil => exact absurd h (Nat.not_lt_zero _)
  | cons c text ih =>
    have hfour := c.utf8Size_le_four
    rw [size] at h
    rw [take]
    split_ifs with hfits
    · have := @ih (limit - c.utf8Size) (by omega)
      rw [size]
      omega
    · rw [size]
      omega

/-! ## Cutting bytes -/

/-- Counts down from a place to the next boundary. Below zero there is nothing to count. -/
def backOff (bytes : List UInt8) : Nat → Option Nat
  | 0 => if isBoundary bytes 0 then some 0 else none
  | i + 1 => if isBoundary bytes (i + 1) then some (i + 1) else backOff bytes i

/-- The bytes up to a place. They are a text only if that is a boundary. -/
def slice? (bytes : List UInt8) (stop : Nat) : Option (List UInt8) :=
  if isBoundary bytes stop then some (bytes.take stop) else none

/-- The bytes of a text as far as they stay within a limit and characters stay whole. -/
def cut? (limit : Nat) (bytes : List UInt8) : Option (List UInt8) :=
  if bytes.length ≤ limit then some bytes else (backOff bytes limit).bind (slice? bytes)

/-- Counting down ends at the greatest boundary. -/
theorem backOff_eq_some {bytes : List UInt8} {i n : Nat} (h : isBoundary bytes i = true)
    (hle : i ≤ n) (hlast : ∀ k, isBoundary bytes k = true → k ≤ n → k ≤ i) :
    backOff bytes n = some i := by
  induction n with
  | zero =>
    obtain rfl : i = 0 := by omega
    rw [backOff, if_pos h]
  | succ n ih =>
    rw [backOff]
    split_ifs with hnext
    · have := hlast (n + 1) hnext (Nat.le_refl _)
      rw [show n + 1 = i by omega]
    · have hne : i ≠ n + 1 := by
        rintro rfl
        exact hnext h
      exact ih (by omega) fun k hk hkn => hlast k hk (by omega)

/-- Cutting bytes never fails, and what is left spells the sample. -/
theorem cut?_encode (limit : Nat) (text : List Char) :
    cut? limit (encode text) = some (encode (take limit text)) := by
  unfold cut?
  rw [Text.Utf8.length_encode]
  split_ifs with hfits
  · rw [take_of_size_le hfits]
  · have hboundary : isBoundary (encode text) (size (take limit text)) = true :=
      Text.Utf8.isBoundary_encode_iff.2 ⟨_, take_isPrefix limit text, rfl⟩
    -- a boundary at or before the limit ends a prefix, and this is the longest one
    have hback : backOff (encode text) limit = some (size (take limit text)) := by
      apply backOff_eq_some hboundary (size_take_le limit text)
      intro k hk hle
      obtain ⟨p, hp, rfl⟩ := Text.Utf8.isBoundary_encode_iff.1 hk
      obtain ⟨rest, hrest⟩ := isPrefix_take hp hle
      rw [← hrest, Text.Utf8.size_append]
      exact Nat.le_add_right _ _
    obtain ⟨rest, hrest⟩ := take_isPrefix limit text
    have htake : (encode text).take (size (take limit text)) = encode (take limit text) := by
      conv_lhs => rw [← hrest, Text.Utf8.encode_append, hrest, ← Text.Utf8.length_encode]
      exact List.take_left
    rw [hback, Option.bind_some, slice?, if_pos hboundary, htake]

end Sample

namespace Ranking

variable {g g' : Grammars} {sample : List Char}

/-! ## Ranking the sample -/

/-- Grammars are asked about the sample only. -/
theorem survey_congr (hrefusal : ∀ l, g'.refusal l = g.refusal l)
    (hparse : ∀ l, g'.parse l sample = g.parse l sample) (languages : List Language) :
    survey g' sample languages = survey g sample languages := by
  induction languages with
  | nil => rfl
  | cons l rest ih => rw [survey, survey, hrefusal, hparse, ih]

theorem run_congr {limits : Limits} {content : List Char}
    (hrefusal : ∀ l, g'.refusal l = g.refusal l)
    (hparse : ∀ l, g'.parse l (Sample.take limits.maxContentBytes content) =
      g.parse l (Sample.take limits.maxContentBytes content)) :
    run g' limits content = run g limits content := by
  unfold run
  dsimp only
  rw [survey_congr hrefusal hparse]

theorem sample_run (g : Grammars) (limits : Limits) (content : List Char) :
    (run g limits content).sample = Sample.take limits.maxContentBytes content := by
  unfold run
  dsimp only
  split_ifs
  · rfl
  · split <;> rfl

/-- Texts with the same sample are ranked alike. -/
theorem run_of_take_eq {wanted limit limit' : Nat} {content content' : List Char}
    (h : Sample.take limit' content' = Sample.take limit content) :
    run g ⟨wanted, limit'⟩ content' = run g ⟨wanted, limit⟩ content := by
  unfold run
  dsimp only
  rw [h]

theorem run_of_isBlank {limits : Limits} {content : List Char}
    (h : Sample.isBlank (Sample.take limits.maxContentBytes content) = true) :
    run g limits content = ⟨.ok [], 0, Sample.take limits.maxContentBytes content⟩ := by
  unfold run
  dsimp only
  rw [h, Bool.true_or, if_pos rfl]

/-- The sample of a text is its longest beginning in whole characters within the limit: all of it if
it fits, and else less than four bytes short of the limit. Cutting the bytes at the limit finds it,
without ever slicing a character or counting below zero. Grammars are given the sample alone, and
what becomes of the text is what becomes of its sample under any limit that lets all of it through,
and of any other text with the same sample. No tree is asked for, and so none is fitted, unless the
sample holds at least one byte. -/
theorem sample_decides (g : Grammars) (wanted limit : Nat) (content : List Char) :
    let sample := Sample.take limit content
    let ranked := run g ⟨wanted, limit⟩ content
    (sample <+: content ∧ size sample ≤ limit ∧
      ∀ p, p <+: content → size p ≤ limit → p <+: sample) ∧
    (size content ≤ limit → sample = content) ∧
    (limit < size content → limit < size sample + 4) ∧
    Sample.cut? limit (encode content) = some (encode sample) ∧
    ranked.sample = sample ∧
    (∀ g' : Grammars, (∀ l, g'.refusal l = g.refusal l) →
      (∀ l, g'.parse l sample = g.parse l sample) → run g' ⟨wanted, limit⟩ content = ranked) ∧
    (∀ limit', size sample ≤ limit' → run g ⟨wanted, limit'⟩ sample = ranked) ∧
    (∀ limit' content', Sample.take limit' content' = sample →
      run g ⟨wanted, limit'⟩ content' = ranked) ∧
    (ranked.calls ≠ 0 → 0 < size sample) ∧
    (size sample = 0 → ranked = ⟨.ok [], 0, []⟩) := by
  intro sample ranked
  -- without characters the sample is blank
  have hempty (h : size sample = 0) : ranked = ⟨.ok [], 0, []⟩ := by
    have hnil : Sample.take limit content = [] := by
      cases hs : Sample.take limit content with
      | nil => rfl
      | cons c rest =>
        have hpos := c.utf8Size_pos
        simp only [sample, hs, size] at h
        omega
    have hblank : Sample.isBlank (Sample.take limit content) = true := by rw [hnil]; rfl
    show run g ⟨wanted, limit⟩ content = _
    rw [run_of_isBlank hblank, hnil]
  refine ⟨⟨Sample.take_isPrefix limit content, Sample.size_take_le limit content,
    fun p => Sample.isPrefix_take⟩, Sample.take_of_size_le, Sample.lt_size_take,
    Sample.cut?_encode limit content, sample_run g _ content,
    fun g' hrefusal hparse => run_congr hrefusal hparse,
    fun limit' hlimit => run_of_take_eq (Sample.take_of_size_le hlimit),
    fun limit' content' => run_of_take_eq, fun hcalls => ?_, hempty⟩
  by_contra hzero
  exact hcalls (by rw [hempty (by omega)])

/-- The limit lies inside the last one of four characters, which takes four bytes. -/
theorem sample_decides_inside :
    let content := "aé€😀".toList
    let sample := "aé€".toList
    let ranked := run .lenient ⟨3, 8⟩ content
    (Sample.take 8 content = sample ∧ size content = 10 ∧ size sample = 6) ∧
      8 < size (Sample.take 8 content) + 4 ∧
      Sample.cut? 8 (encode content) = some (encode (Sample.take 8 content)) ∧
      run .lenient ⟨3, 6⟩ (Sample.take 8 content) = ranked ∧
      run .lenient ⟨3, 7⟩ "aé€é".toList = ranked ∧
      ranked.calls = 17 ∧ 0 < size (Sample.take 8 content) := by
  intro content sample ranked
  have htake : Sample.take 8 content = sample := by decide +kernel
  have hsize : size content = 10 ∧ size sample = 6 := by decide +kernel
  have hcalls : ranked.calls = 17 := by decide +kernel
  obtain ⟨-, -, hshort, hcut, -, -, hself, hsame, hpos, -⟩ := sample_decides .lenient 3 8 content
  refine ⟨⟨htake, hsize⟩, hshort (by rw [hsize.1]; decide), hcut,
    hself 6 (htake ▸ Nat.le_of_eq hsize.2), hsame 7 _ (by decide +kernel), hcalls, hpos ?_⟩
  show ranked.calls ≠ 0
  rw [hcalls]
  decide

end Ranking

end Polyglot
