/-
What the matcher finds. From a set of gaps it finds all gaps where a span ends that starts in the
set, so that a pattern is found in a text just if it spans some part of it.
-/
import Polyglot.Pattern.Matcher
import Polyglot.Proofs.Pattern.Gaps
import Polyglot.Proofs.Pattern.Spans

namespace Polyglot

variable {text : List Char}

/-! ## The page of a text -/

namespace Page

theorem count_ofText (text : List Char) : (ofText text).count = text.length := rfl

/-- The gaps before characters that satisfy a condition. -/
theorem testBit_between (condition : Char → Bool) (i : Nat) :
    (Gaps.between condition (ofText text).chars 0 (ofText text).count).testBit i =
      (text[i]?).any condition := by
  rw [Gaps.testBit_between, Nat.zero_add, count_ofText, ofText, List.getElem?_toArray]
  by_cases hi : i < text.length
  · rw [decide_eq_true hi, Bool.true_and]
  · rw [decide_eq_false hi, Bool.false_and, List.getElem?_eq_none (by omega), Option.any_none]

theorem beforeChar_ofText (c : Char) : (ofText text).beforeChar c =
    Gaps.between (· == c) (ofText text).chars 0 (ofText text).count := by
  unfold beforeChar
  by_cases hc : c.toNat < 128
  · simp only [ofText, Array.getElem?_map, Array.getElem?_range, hc, if_pos, Option.map_some, count,
      Thunk.get, Char.ofNat_toNat]
  · simp only [ofText, Array.getElem?_map, Array.getElem?_range, hc, if_neg, Option.map_none, count,
      not_false_eq_true]

theorem testBit_beforeChar (c : Char) (i : Nat) :
    ((ofText text).beforeChar c).testBit i = (text[i]?).any (· == c) := by
  rw [beforeChar_ofText, testBit_between]

theorem testBit_word (i : Nat) : (ofText text).word.get.testBit i = isWordAt text i :=
  testBit_between Text.isWord i

/-- A page knows the gaps before characters of any set. -/
theorem testBit_before (s : CharSet) (i : Nat) :
    ((ofText text).before s).testBit i = (text[i]?).any s.contains := by
  have hfull : (ofText text).full.testBit i = (text[i]?).isSome := by
    rw [full, Gaps.testBit_below, count_ofText]
    by_cases hi : i < text.length <;> simp [hi]
  induction s with
  | any =>
    rw [before, hfull]
    cases text[i]? <;> rfl
  | only c => exact testBit_beforeChar c i
  | between first last => exact testBit_between _ i
  | word => exact testBit_between _ i
  | digit => exact testBit_between _ i
  | blank => exact testBit_between _ i
  | union s t ihs iht =>
    rw [before, Nat.testBit_or, ihs, iht]
    cases text[i]? <;> rfl
  | except s ih =>
    rw [before, Nat.testBit_xor, hfull, ih]
    cases text[i]? <;> simp [CharSet.contains]

/-- A page knows the edges. -/
theorem testBit_edges (e : Edge) (i : Nat) :
    ((ofText text).edges e).testBit i = e.holdsAt text i := by
  have hfeed (o : Option Char) : o.any (· == '\n') = (o == some '\n') := by cases o <;> rfl
  cases e with
  | textStart => cases i <;> simp [edges, Edge.holdsAt, Nat.testBit_succ]
  | lineStart =>
    rw [edges, Nat.testBit_or, Nat.testBit_shiftLeft, testBit_beforeChar, hfeed]
    cases i <;> simp [Edge.holdsAt, Nat.testBit_succ]
  | lineEnd =>
    have hend : decide (text.length = i) = (i == text.length) := by
      rw [Bool.eq_iff_iff, decide_eq_true_eq, beq_iff_eq, eq_comm]
    rw [edges, Nat.testBit_or, testBit_beforeChar, hfeed, Nat.one_shiftLeft, Nat.testBit_two_pow,
      count_ofText, hend, Bool.or_comm, Edge.holdsAt]
  | word =>
    rw [edges, Nat.testBit_xor, Nat.testBit_shiftLeft, testBit_word, testBit_word, Edge.holdsAt,
      Bool.xor_comm]
    rfl

end Page

namespace Pattern

open Relation (ReflTransGen)

/-! ## Reaching -/

/-- A run of characters of a set. -/
theorem steps_one_iff {s : CharSet} {i j : Nat} : ReflTransGen (Spans text (one s)) i j ↔
    ∃ n, i + n = j ∧ Gaps.Run ((Page.ofText text).before s) i n := by
  constructor
  · intro h
    induction h with
    | refl => exact ⟨0, rfl, Gaps.run_zero _ _⟩
    | tail _ hone ih =>
      obtain ⟨n, rfl, hrun⟩ := ih
      obtain ⟨rfl, hs⟩ := spans_one_iff.1 hone
      rw [← Page.testBit_before, ← Gaps.run_one] at hs
      exact ⟨n + 1, rfl, Gaps.run_add.2 ⟨hrun, hs⟩⟩
  · rintro ⟨n, rfl, hrun⟩
    induction n with
    | zero => exact .refl
    | succ n ih =>
      obtain ⟨hrun, hs⟩ := Gaps.run_add.1 hrun
      rw [Gaps.run_one, Page.testBit_before] at hs
      exact .tail (ih hrun) (spans_one_iff.2 ⟨rfl, hs⟩)

/-- A run of characters is not longer than the text. -/
theorem le_of_run {s : CharSet} {i n : Nat} (h : Gaps.Run ((Page.ofText text).before s) i n) :
    n ≤ text.length := by
  rcases ((spans_many_iff.2 (steps_one_iff.2 ⟨n, rfl, h⟩)).eq_or_le_length) with heq | hle
  · omega
  · omega

/-- Spreading follows all runs of characters of a set. -/
theorem testBit_spread_before (set : CharSet) (s : Gaps) (j : Nat) :
    (Gaps.spread ((Page.ofText text).count.log2 + 1) 1 ((Page.ofText text).before set) s).testBit j
        = true ↔
      ∃ i, s.testBit i = true ∧ ReflTransGen (Spans text (one set)) i j := by
  rw [Gaps.testBit_spread (fun _ => Gaps.run_one.symm) (fun _ => Gaps.within_one.symm), Nat.one_mul,
    Page.count_ofText]
  simp only [steps_one_iff]
  constructor
  · rintro ⟨i, n, -, hj, hs, hrun⟩
    exact ⟨i, hs, n, hj, hrun⟩
  · rintro ⟨i, hs, n, hj, hrun⟩
    exact ⟨i, n, Nat.lt_of_le_of_lt (le_of_run hrun) Nat.lt_log2_self, hj, hs, hrun⟩

/-- From a set of gaps the matcher reaches the ends of the spans that start in it. -/
theorem testBit_reach (p : Pattern) (s : Gaps) (j : Nat) :
    (reach (Page.ofText text) p s).testBit j = true ↔
      ∃ i, s.testBit i = true ∧ Spans text p i j := by
  induction p generalizing s j with
  | empty => simp [reach, spans_empty_iff]
  | one set =>
    rw [reach]
    split_ifs with hzero
    · simp [hzero]
    · simp only [Gaps.testBit_shiftLeft_iff, Nat.testBit_and, Page.testBit_before,
        Bool.and_eq_true, spans_one_iff]
      constructor
      · rintro ⟨i, hj, hs, hset⟩
        exact ⟨i, hs, hj, hset⟩
      · rintro ⟨i, hs, hj, hset⟩
        exact ⟨i, hj, hs, hset⟩
  | edge e =>
    rw [reach]
    split_ifs with hzero
    · simp [hzero]
    · simp only [Nat.testBit_and, Page.testBit_edges, Bool.and_eq_true, spans_edge_iff]
      constructor
      · rintro ⟨hs, he⟩
        exact ⟨j, hs, rfl, he⟩
      · rintro ⟨i, hs, rfl, he⟩
        exact ⟨hs, he⟩
  | both p q ihp ihq =>
    simp only [reach, ihq, ihp, spans_both_iff]
    constructor
    · rintro ⟨k, ⟨i, hs, hp⟩, hq⟩
      exact ⟨i, hs, k, hp, hq⟩
    · rintro ⟨i, hs, k, hp, hq⟩
      exact ⟨k, ⟨i, hs, hp⟩, hq⟩
  | either p q ihp ihq =>
    simp only [reach, Nat.testBit_or, Bool.or_eq_true, ihp, ihq, spans_either_iff, and_or_left,
      exists_or]
  | many p ih =>
    simp only [spans_many_iff]
    cases p with
    | one set =>
      rw [reach]
      split_ifs with hzero
      · simp [hzero]
      · exact testBit_spread_before set s j
    -- any other pattern goes on until no gap is new
    | _ => exact Gaps.testBit_closure ih (fun i j h => h.eq_or_le_length) s j

/-- A pattern is found just if it occurs. -/
theorem occursIn_iff (p : Pattern) : p.occursIn (Page.ofText text) = true ↔ Occurs p text := by
  -- the pattern may start in any gap, the last one included
  have hstart (i : Nat) :
      (Gaps.below ((Page.ofText text).count + 1)).testBit i = true ↔ i ≤ text.length := by
    rw [Gaps.testBit_below, decide_eq_true_eq, Page.count_ofText, Nat.lt_succ_iff]
  have hreach (j : Nat) : (reach (Page.ofText text) p
      (Gaps.below ((Page.ofText text).count + 1))).testBit j = true ↔
        ∃ i, i ≤ text.length ∧ Spans text p i j := by
    simp only [testBit_reach, hstart]
  rw [occursIn, bne_iff_ne]
  constructor
  · intro h
    obtain ⟨j, hj⟩ := Nat.exists_testBit_of_ne_zero h
    obtain ⟨i, hi, hspan⟩ := (hreach j).1 hj
    exact ⟨i, j, hi, hspan⟩
  · rintro ⟨i, j, hi, hspan⟩ hzero
    have hj := (hreach j).2 ⟨i, hi, hspan⟩
    rw [hzero, Nat.zero_testBit] at hj
    cases hj

end Pattern

end Polyglot
