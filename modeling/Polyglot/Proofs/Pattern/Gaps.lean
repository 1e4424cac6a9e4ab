/-
Sets of gaps, bit by bit. A set of gaps before certain characters has the bits of those characters;
spreading a set along another one adds what is reached over runs of its members; and the closure
under a step has all that any number of steps leads to.

Spreading doubles its step with every round, so that after some rounds it has followed all runs that
are shorter than a power of two. The closure stops as soon as a step adds nothing; the number of
rounds is enough because every other round adds a gap, and there are not more gaps than rounds.
-/
import Polyglot.Pattern.Page
import Mathlib.Algebra.Order.Ring.Nat
import Mathlib.Data.Finset.Card
import Mathlib.Logic.Relation

namespace Polyglot.Gaps

/-! ## Gaps before characters -/

theorem testBit_below (count i : Nat) : (below count).testBit i = decide (i < count) := by
  rw [below, Nat.pow_eq, Nat.testBit_two_pow_sub_one]

theorem testBit_between (condition : Char → Bool) (chars : Array Char) (low high i : Nat) :
    (between condition chars low high).testBit i =
      (decide (low + i < high) && (chars[low + i]?).any condition) := by
  fun_induction between condition chars low high generalizing i with
  | case1 low high hle =>
    rw [Nat.zero_testBit, decide_eq_false (by omega), Bool.false_and]
  | case2 low hnone hle | case4 low c hc hcondition hle =>
    cases i with
    | zero => simp [*]
    | succ i => simp
  | case3 low c hc hcondition hle =>
    cases i with
    | zero => simp [*]
    | succ i => simp [Nat.testBit_succ]
  -- the range is cut in two, and the upper half shifted back to its place
  | case5 low high hle hone middle ihlow ihhigh =>
    rw [Nat.testBit_or, Nat.testBit_shiftLeft, ihlow, ihhigh]
    by_cases hi : low + i < middle
    · rw [decide_eq_true hi, decide_eq_true (p := low + i < high) (by omega),
        decide_eq_false (p := i ≥ middle - low) (by omega), Bool.false_and, Bool.or_false]
    · rw [show middle + (i - (middle - low)) = low + i by omega, decide_eq_false hi,
        decide_eq_true (p := i ≥ middle - low) (by omega), Bool.false_and, Bool.false_or,
        Bool.true_and]

theorem testBit_shiftLeft_iff {s : Gaps} {n j : Nat} :
    (s <<< n).testBit j = true ↔ ∃ i, i + n = j ∧ s.testBit i = true := by
  rw [Nat.testBit_shiftLeft, Bool.and_eq_true, decide_eq_true_eq]
  constructor
  · rintro ⟨hle, hs⟩
    exact ⟨j - n, by omega, hs⟩
  · rintro ⟨i, rfl, hs⟩
    exact ⟨by omega, by rwa [Nat.add_sub_cancel]⟩

/-! ## Spreading -/

/-- The `n` gaps from `i` on are in the set. -/
def Run (along : Gaps) (i n : Nat) : Prop := ∀ t < n, along.testBit (i + t) = true

theorem run_zero (along : Gaps) (i : Nat) : Run along i 0 :=
  fun _ h => absurd h (Nat.not_lt_zero _)

theorem run_one {along : Gaps} {i : Nat} : Run along i 1 ↔ along.testBit i = true := by
  simp [Run]

theorem run_add {along : Gaps} {i m n : Nat} :
    Run along i (m + n) ↔ Run along i m ∧ Run along (i + m) n := by
  constructor
  · intro h
    refine ⟨fun t ht => h t (by omega), fun t ht => ?_⟩
    rw [Nat.add_assoc]
    exact h (m + t) (by omega)
  · rintro ⟨hm, hn⟩ t ht
    by_cases htm : t < m
    · exact hm t htm
    · rw [show i + t = i + m + (t - m) by omega]
      exact hn (t - m) (by omega)

theorem Run.of_le {along : Gaps} {i m n : Nat} (h : Run along i n) (hle : m ≤ n) : Run along i m :=
  fun t ht => h t (Nat.lt_of_lt_of_le ht hle)

/-- A gap is reached from a member of a set over a run of less than `limit` gaps. -/
def Within (along s : Gaps) (limit j : Nat) : Prop :=
  ∃ i n, n < limit ∧ i + n = j ∧ s.testBit i = true ∧ Run along i n

theorem within_one {along s : Gaps} {j : Nat} : Within along s 1 j ↔ s.testBit j = true := by
  constructor
  · rintro ⟨i, n, hn, rfl, hs, -⟩
    rw [show n = 0 by omega]
    exact hs
  · intro hs
    exact ⟨j, 0, Nat.one_pos, rfl, hs, run_zero along j⟩

/-- What is reached within twice the limit is reached within the limit, or by a full run from
there. -/
theorem within_two_mul {along s : Gaps} {limit j : Nat} : Within along s (2 * limit) j ↔
    Within along s limit j ∨ ∃ i, i + limit = j ∧ Within along s limit i ∧ Run along i limit := by
  constructor
  · rintro ⟨i, n, hn, rfl, hs, hrun⟩
    by_cases hlt : n < limit
    · exact .inl ⟨i, n, hlt, rfl, hs, hrun⟩
    · rw [show n = n - limit + limit by omega, run_add] at hrun
      exact .inr ⟨i + (n - limit), by omega, ⟨i, n - limit, by omega, rfl, hs, hrun.1⟩, hrun.2⟩
  · rintro (⟨i, n, hn, rfl, hs, hrun⟩ | ⟨_, rfl, ⟨i, n, hn, rfl, hs, hrun⟩, hfull⟩)
    · exact ⟨i, n, by omega, rfl, hs, hrun⟩
    · exact ⟨i, n + limit, by omega, by omega, hs, run_add.2 ⟨hrun, hfull⟩⟩

/-- With the gaps where full runs begin, and with what is reached within the limit, spreading reaches
all that lies within the limit times a power of two. -/
theorem testBit_spread {along s : Gaps} {rounds limit : Nat} {full reached : Gaps}
    (hfull : ∀ i, full.testBit i = true ↔ Run along i limit)
    (hreached : ∀ i, reached.testBit i = true ↔ Within along s limit i) (j : Nat) :
    (spread rounds limit full reached).testBit j = true ↔
      Within along s (limit * 2 ^ rounds) j := by
  induction rounds generalizing limit full reached with
  | zero => rw [spread, hreached, Nat.pow_zero, Nat.mul_one]
  | succ rounds ih =>
    rw [spread]
    split_ifs with hzero
    · rw [hreached]
      constructor
      · rintro ⟨i, n, hn, hj, hs, hrun⟩
        exact ⟨i, n, Nat.lt_of_lt_of_le hn (Nat.le_mul_of_pos_right _ (Nat.two_pow_pos _)), hj, hs,
          hrun⟩
      · rintro ⟨i, n, -, hj, hs, hrun⟩
        refine ⟨i, n, ?_, hj, hs, hrun⟩
        by_contra hle
        -- there is no run as long as that
        have hbit := (hfull i).2 (hrun.of_le (Nat.le_of_not_lt hle))
        rw [hzero, Nat.zero_testBit] at hbit
        exact Bool.false_ne_true hbit
    · rw [show limit * 2 ^ (rounds + 1) = 2 * limit * 2 ^ rounds by
        rw [Nat.pow_succ, Nat.mul_comm (2 ^ rounds), ← Nat.mul_assoc, Nat.mul_comm limit]]
      apply ih
      · intro i
        rw [Nat.testBit_and, Nat.testBit_shiftRight, Bool.and_eq_true, hfull, hfull, Nat.two_mul,
          run_add, Nat.add_comm limit i]
      · intro i
        simp only [within_two_mul, Nat.testBit_or, Bool.or_eq_true, hreached,
          testBit_shiftLeft_iff, Nat.testBit_and, Bool.and_eq_true, hfull]

/-! ## Closures -/

open Relation (ReflTransGen)

section Closure

variable {step : Gaps → Gaps} {leads : Nat → Nat → Prop} {last : Nat}

/-- A set that every step stays in has all that any number of steps leads to. -/
theorem testBit_iff_of_closed {seen : Gaps}
    (hclosed : ∀ i j, seen.testBit i = true → leads i j → seen.testBit j = true) (j : Nat) :
    seen.testBit j = true ↔ ∃ i, seen.testBit i = true ∧ ReflTransGen leads i j := by
  constructor
  · intro h
    exact ⟨j, h, .refl⟩
  · rintro ⟨i, hi, hsteps⟩
    induction hsteps with
    | refl => exact hi
    | tail _ hstep ih => exact hclosed _ _ ih hstep

/-- The gaps up to the last one that are not in a set. -/
def unseen (last : Nat) (seen : Gaps) : Finset Nat :=
  (Finset.range (last + 1)).filter fun i => seen.testBit i = false

theorem mem_unseen {seen : Gaps} {i : Nat} :
    i ∈ unseen last seen ↔ i ≤ last ∧ seen.testBit i = false := by
  rw [unseen, Finset.mem_filter, Finset.mem_range, Nat.lt_succ_iff]

theorem card_unseen_le (last : Nat) (seen : Gaps) : (unseen last seen).card ≤ last + 1 := by
  calc (unseen last seen).card ≤ (Finset.range (last + 1)).card := Finset.card_filter_le _ _
    _ = last + 1 := Finset.card_range _

/-- A gap that is added is no longer unseen. -/
theorem card_unseen_lt {seen new : Gaps} {i : Nat} (hi : i ≤ last) (hseen : seen.testBit i = false)
    (hnew : new.testBit i = true) :
    (unseen last (seen ||| new)).card < (unseen last seen).card := by
  apply Finset.card_lt_card
  rw [Finset.ssubset_iff_of_subset]
  · exact ⟨i, mem_unseen.2 ⟨hi, hseen⟩, fun h => by simp [mem_unseen, hnew] at h⟩
  · intro j hj
    rw [mem_unseen, Nat.testBit_or, Bool.or_eq_false_iff] at hj
    exact mem_unseen.2 ⟨hj.1, hj.2.1⟩

/-- What a step reaches that has not been seen before. -/
def news (step : Gaps → Gaps) (seen fresh : Gaps) : Gaps :=
  step fresh ^^^ (step fresh &&& seen)

theorem testBit_news {seen fresh : Gaps} {j : Nat} : (news step seen fresh).testBit j = true ↔
    (step fresh).testBit j = true ∧ seen.testBit j = false := by
  rw [news, Nat.testBit_xor, Nat.testBit_and]
  cases (step fresh).testBit j <;> simp

/-- A step goes from the members of a set to all that they lead to. -/
def Realizes (step : Gaps → Gaps) (leads : Nat → Nat → Prop) : Prop :=
  ∀ s j, (step s).testBit j = true ↔ ∃ i, s.testBit i = true ∧ leads i j

/-- All steps from what has been seen have been taken, but for those from its fresh members. -/
structure Followed (leads : Nat → Nat → Prop) (seen fresh : Gaps) : Prop where
  seen_of_fresh : ∀ i, fresh.testBit i = true → seen.testBit i = true
  taken : ∀ i j, seen.testBit i = true → fresh.testBit i = false → leads i j →
    seen.testBit j = true

theorem followed_self (s : Gaps) : Followed leads s s where
  seen_of_fresh _ h := h
  taken i j hi hnot _ := by rw [hi] at hnot; cases hnot

/-- Each step from what has been seen leads to something seen or new. -/
theorem Followed.seen_or_new {seen fresh : Gaps} (h : Followed leads seen fresh)
    (hstep : Realizes step leads) {i j : Nat} (hi : seen.testBit i = true) (hlead : leads i j) :
    seen.testBit j = true ∨ (news step seen fresh).testBit j = true := by
  rw [testBit_news]
  cases hfresh : fresh.testBit i with
  | false => exact .inl (h.taken i j hi hfresh hlead)
  | true =>
    cases hj : seen.testBit j with
    | true => exact .inl rfl
    | false => exact .inr ⟨(hstep fresh j).2 ⟨i, hfresh, hlead⟩, rfl⟩

/-- What a round adds is fresh in the next one. -/
theorem Followed.round {seen fresh : Gaps} (h : Followed leads seen fresh)
    (hstep : Realizes step leads) :
    Followed leads (seen ||| news step seen fresh) (news step seen fresh) where
  seen_of_fresh i hi := by rw [Nat.testBit_or, hi, Bool.or_true]
  taken i j hi hnot hlead := by
    rw [Nat.testBit_or, hnot, Bool.or_false] at hi
    rw [Nat.testBit_or, Bool.or_eq_true]
    exact h.seen_or_new hstep hi hlead

/-- A round adds nothing that steps do not lead to. -/
theorem Followed.exists_steps_round {seen fresh : Gaps} (h : Followed leads seen fresh)
    (hstep : Realizes step leads) (j : Nat) :
    (∃ i, (seen ||| news step seen fresh).testBit i = true ∧ ReflTransGen leads i j) ↔
      ∃ i, seen.testBit i = true ∧ ReflTransGen leads i j := by
  constructor
  · rintro ⟨i, hi, hsteps⟩
    rw [Nat.testBit_or, Bool.or_eq_true, testBit_news] at hi
    rcases hi with hi | ⟨hi, -⟩
    · exact ⟨i, hi, hsteps⟩
    · obtain ⟨k, hk, hlead⟩ := (hstep fresh i).1 hi
      exact ⟨k, h.seen_of_fresh k hk, .head hlead hsteps⟩
  · rintro ⟨i, hi, hsteps⟩
    exact ⟨i, by rw [Nat.testBit_or, hi, Bool.true_or], hsteps⟩

/-- A round that adds something leaves less unseen, as long as steps lead no further than to the last
gap. -/
theorem Followed.card_unseen_round {seen fresh : Gaps} (h : Followed leads seen fresh)
    (hstep : Realizes step leads) (hlast : ∀ i j, leads i j → i = j ∨ j ≤ last)
    (hnews : news step seen fresh ≠ 0) :
    (unseen last (seen ||| news step seen fresh)).card < (unseen last seen).card := by
  obtain ⟨j, hj⟩ := Nat.exists_testBit_of_ne_zero hnews
  obtain ⟨hreached, hunseen⟩ := testBit_news.1 hj
  obtain ⟨i, hi, hlead⟩ := (hstep fresh j).1 hreached
  rcases hlast i j hlead with rfl | hle
  · rw [h.seen_of_fresh i hi] at hunseen
    cases hunseen
  · exact card_unseen_lt hle hunseen hj

theorem testBit_closure_of_followed (hstep : Realizes step leads)
    (hlast : ∀ i j, leads i j → i = j ∨ j ≤ last) {rounds : Nat} {seen fresh : Gaps}
    (hrounds : (unseen last seen).card ≤ rounds) (h : Followed leads seen fresh) (j : Nat) :
    (closure step rounds seen fresh).testBit j = true ↔
      ∃ i, seen.testBit i = true ∧ ReflTransGen leads i j := by
  induction rounds generalizing seen fresh with
  | zero =>
    -- every gap has been seen
    refine testBit_iff_of_closed (fun i j hi hlead => ?_) j
    rcases hlast i j hlead with rfl | hj
    · exact hi
    · by_contra hnot
      have hmem : j ∈ unseen last seen := mem_unseen.2 ⟨hj, Bool.eq_false_iff.2 hnot⟩
      rw [Finset.card_eq_zero.1 (Nat.le_zero.1 hrounds)] at hmem
      exact Finset.notMem_empty _ hmem
  | succ rounds ih =>
    rw [closure]
    change (if news step seen fresh = 0 then seen
      else closure step rounds (seen ||| news step seen fresh) (news step seen fresh)).testBit j
        = true ↔ _
    split_ifs with hnone
    · refine testBit_iff_of_closed (fun i j hi hlead => ?_) j
      rcases h.seen_or_new hstep hi hlead with hj | hj
      · exact hj
      · rw [hnone, Nat.zero_testBit] at hj
        cases hj
    · have hcard := h.card_unseen_round hstep hlast hnone
      rw [ih (by omega) (h.round hstep), h.exists_steps_round hstep]

/-- The closure has all that any number of steps leads to, if there are as many rounds as gaps that
steps may lead to. -/
theorem testBit_closure (hstep : Realizes step leads) (hlast : ∀ i j, leads i j → i = j ∨ j ≤ last)
    (s : Gaps) (j : Nat) : (closure step (last + 1) s s).testBit j = true ↔
      ∃ i, s.testBit i = true ∧ ReflTransGen leads i j :=
  testBit_closure_of_followed hstep hlast (card_unseen_le last s) (followed_self s) j

end Closure

end Polyglot.Gaps
