/-
Sums of doubles. The sum of two finite doubles is the double nearest to their exact sum, and infinite
if that lies beyond the largest double. Scores are held as exact numbers of steps and know no
infinity, so they are sums of doubles as long as nothing overflows.

Rounding leaves doubles as they are and yields doubles only; and since the largest doubles lie 2^2045
steps apart, nothing that is added to one of them and is less than half of that makes it overflow.
-/
import Polyglot.Proofs.Double.Shortest
import Polyglot.Rule.Score
import Mathlib.Tactic.Ring

namespace Polyglot

namespace Double

/-! ## Arithmetic -/

/-- The exact value of a finite double, in steps. -/
def signed (negative : Bool) (steps : Nat) : Int := if negative then -steps else steps

/-- The double nearest to an exact number of steps. A zero has the given sign. -/
def rounded (negative : Bool) (steps : Int) : Double :=
  let negative := if steps = 0 then negative else decide (steps < 0)
  let magnitude := nearest steps.natAbs 1
  if bound ≤ magnitude then .infinite negative else .finite negative magnitude

/-- A sum that is zero is negative only if both summands are. -/
instance : Add Double where
  add
    | .finite a m, .finite b n => rounded (a && b) (signed a m + signed b n)
    | .finite .., .infinite b => .infinite b
    | .infinite a, .finite .. => .infinite a
    | .infinite a, .infinite b => if a = b then .infinite a else .nan
    | _, _ => .nan

/-- Not-a-number is neither less nor greater than anything. -/
instance : LT Double where
  lt
    | .finite a m, .finite b n => signed a m < signed b n
    | .finite .., .infinite b => b = false
    | .infinite a, .finite .. => a = true
    | .infinite a, .infinite b => a = true ∧ b = false
    | _, _ => False

instance (a b : Double) : Decidable (a < b) :=
  match a, b with
  | .finite a m, .finite b n => inferInstanceAs (Decidable (signed a m < signed b n))
  | .finite .., .infinite b => inferInstanceAs (Decidable (b = false))
  | .infinite a, .finite .. => inferInstanceAs (Decidable (a = true))
  | .infinite a, .infinite b => inferInstanceAs (Decidable (a = true ∧ b = false))
  | .finite .., .nan | .infinite .., .nan | .nan, _ => inferInstanceAs (Decidable False)

/-- Positive zero. -/
def zero : Double := .finite false 0

/-- An integer as a double, if it is not too large. -/
def ofInt (n : Int) : Double := .finite (n < 0) (n.natAbs * one)

/-! ## Spacing and rounding -/

theorem spacing_of_lt {steps : Nat} (h : steps < 2 ^ 53) : spacing steps = 1 := by
  rw [spacing, if_pos (by rwa [Nat.pow_eq])]

theorem spacing_of_le_of_lt {steps e : Nat} (he : 1 ≤ e) (hlow : 2 ^ (52 + e) ≤ steps)
    (hhigh : steps < 2 ^ (53 + e)) : spacing steps = 2 ^ e := by
  have h53 : 2 ^ 53 ≤ 2 ^ (52 + e) := Nat.pow_le_pow_right (by decide) (by omega)
  have hlog : steps.log2 = 52 + e := by
    rw [Nat.log2_eq_iff (by omega)]
    exact ⟨hlow, by rwa [show 52 + e + 1 = 53 + e by omega]⟩
  rw [spacing, if_neg (by rw [Nat.pow_eq]; omega), hlog, Nat.add_sub_cancel_left, Nat.pow_eq]

/-- Either all numbers of steps around are doubles, or the doubles lie a power of two apart. -/
theorem spacing_cases (steps : Nat) :
    steps < 2 ^ 53 ∨ ∃ e, 1 ≤ e ∧ 2 ^ (52 + e) ≤ steps ∧ steps < 2 ^ (53 + e) := by
  by_cases h : steps < 2 ^ 53
  · exact .inl h
  · have hlog : 53 ≤ steps.log2 := (Nat.le_log2 (by omega)).2 (by omega)
    refine .inr ⟨steps.log2 - 52, by omega, ?_, ?_⟩
    · rw [show 52 + (steps.log2 - 52) = steps.log2 by omega]
      exact Nat.log2_self_le (by omega)
    · rw [show 53 + (steps.log2 - 52) = steps.log2 + 1 by omega]
      exact Nat.lt_log2_self

theorem spacing_pos (steps : Nat) : 0 < spacing steps := by
  have h := lt_mul_spacing steps
  by_contra hzero
  rw [show spacing steps = 0 by omega] at h
  omega

theorem div_le_divideToEven (n d : Nat) : n / d ≤ divideToEven n d := by
  unfold divideToEven
  dsimp only
  split_ifs <;> omega

theorem divideToEven_le (n d : Nat) : divideToEven n d ≤ n / d + 1 := by
  unfold divideToEven
  dsimp only
  split_ifs <;> omega

theorem divideToEven_of_lt {n d : Nat} (h : 2 * (n % d) < d) : divideToEven n d = n / d := by
  unfold divideToEven
  exact if_pos h

theorem divideToEven_mono {m n d : Nat} (h : m ≤ n) : divideToEven m d ≤ divideToEven n d := by
  have hquotient : m / d ≤ n / d := Nat.div_le_div_right h
  have hm := Nat.div_add_mod m d
  have hn := Nat.div_add_mod n d
  rcases Nat.lt_or_eq_of_le hquotient with hlt | heq
  · calc divideToEven m d ≤ m / d + 1 := divideToEven_le m d
      _ ≤ n / d := hlt
      _ ≤ divideToEven n d := div_le_divideToEven n d
  · rw [heq] at hm
    unfold divideToEven
    dsimp only
    rw [heq]
    split_ifs <;> omega

/-- A double is the nearest one to itself. -/
theorem nearest_of_dvd {steps : Nat} (h : spacing steps ∣ steps) : nearest steps 1 = steps := by
  have hpos := spacing_pos steps
  unfold nearest
  dsimp only
  rw [Nat.div_one, Nat.one_mul, divideToEven_of_lt (by rw [Nat.mod_eq_zero_of_dvd h]; omega),
    Nat.div_mul_cancel h]

/-- Rounding goes to one of the two multiples of the spacing around the value. -/
theorem nearest_eq (n d : Nat) : ∃ r, nearest n d = r * spacing (n / d) ∧
    n / d / spacing (n / d) ≤ r ∧ r ≤ n / d / spacing (n / d) + 1 ∧ r ≤ 2 ^ 53 := by
  have hlow := div_le_divideToEven n (d * spacing (n / d))
  have hhigh := divideToEven_le n (d * spacing (n / d))
  rw [← Nat.div_div_eq_div_mul] at hlow hhigh
  have hlt : n / d / spacing (n / d) < 2 ^ 53 :=
    (Nat.div_lt_iff_lt_mul (spacing_pos _)).2 (lt_mul_spacing _)
  exact ⟨_, rfl, hlow, hhigh, by omega⟩

/-- Rounding yields doubles. -/
theorem spacing_dvd_nearest (n d : Nat) : spacing (nearest n d) ∣ nearest n d := by
  obtain ⟨r, hnearest, hlow, -, hr⟩ := nearest_eq n d
  rw [hnearest]
  rcases spacing_cases (n / d) with hsmall | ⟨e, he, hge, hlt⟩
  · rw [spacing_of_lt hsmall, Nat.mul_one]
    -- the last one is rounded up to where the doubles begin to lie apart
    by_cases hr' : r < 2 ^ 53
    · rw [spacing_of_lt hr']
      exact Nat.one_dvd r
    · rw [show r = 2 ^ 53 by omega, spacing_of_le_of_lt (Nat.le_refl 1) (by decide) (by decide)]
      decide
  · rw [spacing_of_le_of_lt he hge hlt] at hlow ⊢
    have hr'' : 2 ^ 52 ≤ r := by
      refine Nat.le_trans ((Nat.le_div_iff_mul_le (Nat.two_pow_pos e)).2 ?_) hlow
      rwa [← Nat.pow_add]
    by_cases hr' : r < 2 ^ 53
    · rw [spacing_of_le_of_lt he]
      · exact Nat.dvd_mul_left _ _
      · rw [Nat.pow_add]
        exact Nat.mul_le_mul_right _ hr''
      · rw [Nat.pow_add]
        exact Nat.mul_lt_mul_of_pos_right hr' (Nat.two_pow_pos e)
    · -- rounded up to a power of two, where the doubles begin to lie twice as far apart
      have hpower : r * 2 ^ e = 2 ^ (53 + e) := by
        rw [show r = 2 ^ 53 by omega, ← Nat.pow_add]
      rw [hpower, spacing_of_le_of_lt (e := e + 1) (by omega)]
      · exact Nat.pow_dvd_pow 2 (by omega)
      · rw [show 52 + (e + 1) = 53 + e by omega]
      · exact Nat.pow_lt_pow_right (by decide) (by omega)

/-- Something positive is not rounded to zero. -/
theorem nearest_pos {steps : Nat} (h : 0 < steps) : 0 < nearest steps 1 := by
  obtain ⟨r, hnearest, hlow, -⟩ := nearest_eq steps 1
  rw [Nat.div_one] at hnearest hlow
  rw [hnearest]
  exact Nat.mul_pos (Nat.lt_of_lt_of_le (Nat.div_pos (spacing_le h) (spacing_pos steps)) hlow)
    (spacing_pos steps)

/-! ## Overflow -/

/-- Below a power of two the last double lies one spacing before it. -/
theorem add_pow_le {steps e : Nat} (he : 1 ≤ e) (hlt : steps < 2 ^ (53 + e))
    (hdvd : spacing steps ∣ steps) : steps + 2 ^ e ≤ 2 ^ (53 + e) := by
  have hsplit : 2 ^ (53 + e) = 2 ^ 53 * 2 ^ e := Nat.pow_add ..
  by_cases hlow : 2 ^ (52 + e) ≤ steps
  · rw [spacing_of_le_of_lt he hlow hlt] at hdvd
    obtain ⟨k, rfl⟩ := hdvd
    rw [hsplit, Nat.mul_comm] at hlt
    have hk : k < 2 ^ 53 := Nat.lt_of_mul_lt_mul_right hlt
    calc 2 ^ e * k + 2 ^ e = (k + 1) * 2 ^ e := by ring
      _ ≤ 2 ^ 53 * 2 ^ e := Nat.mul_le_mul_right _ hk
      _ = 2 ^ (53 + e) := hsplit.symm
  · have hhalf : 2 ^ (53 + e) = 2 * 2 ^ (52 + e) := by
      rw [← Nat.pow_succ', show (52 + e).succ = 53 + e by omega]
    have hle : 2 ^ e ≤ 2 ^ (52 + e) := Nat.pow_le_pow_right (by decide) (by omega)
    omega

/-- Below a power of two rounding goes up to that power at the most. -/
theorem nearest_le_pow {n d e : Nat} (he : 1 ≤ e) (hlt : n / d < 2 ^ (52 + e)) :
    nearest n d ≤ 2 ^ (52 + e) := by
  obtain ⟨r, hnearest, -, -, hr⟩ := nearest_eq n d
  rw [hnearest]
  rcases spacing_cases (n / d) with hsmall | ⟨e', he', hge', hlt'⟩
  · rw [spacing_of_lt hsmall, Nat.mul_one]
    exact Nat.le_trans hr (Nat.pow_le_pow_right (by decide) (by omega))
  · have hexponent : 52 + e' < 52 + e :=
      (Nat.pow_lt_pow_iff_right (by decide)).1 (Nat.lt_of_le_of_lt hge' hlt)
    rw [spacing_of_le_of_lt he' hge' hlt']
    calc r * 2 ^ e' ≤ 2 ^ 53 * 2 ^ e' := Nat.mul_le_mul_right _ hr
      _ = 2 ^ (53 + e') := (Nat.pow_add ..).symm
      _ ≤ 2 ^ (52 + e) := Nat.pow_le_pow_right (by decide) (by omega)

/-- From a power of two on rounding goes down to that power at the most. -/
theorem pow_le_nearest {n d e : Nat} (he : 1 ≤ e) (hge : 2 ^ (52 + e) ≤ n / d)
    (hlt : n / d < 2 ^ (53 + e)) : 2 ^ (52 + e) ≤ nearest n d := by
  obtain ⟨r, hnearest, hlow, -⟩ := nearest_eq n d
  rw [spacing_of_le_of_lt he hge hlt] at hnearest hlow
  rw [hnearest, Nat.pow_add]
  refine Nat.mul_le_mul_right _ (Nat.le_trans ?_ hlow)
  rwa [Nat.le_div_iff_mul_le (Nat.two_pow_pos e), ← Nat.pow_add]

theorem nearest_mono_of_spacing_eq {m n d : Nat} (h : m ≤ n)
    (hspacing : spacing (m / d) = spacing (n / d)) : nearest m d ≤ nearest n d := by
  unfold nearest
  dsimp only
  rw [hspacing]
  exact Nat.mul_le_mul_right _ (divideToEven_mono h)

/-- Rounding keeps the order. -/
theorem nearest_mono {m n d : Nat} (h : m ≤ n) : nearest m d ≤ nearest n d := by
  have hquotient : m / d ≤ n / d := Nat.div_le_div_right h
  rcases spacing_cases (n / d) with hsmall | ⟨e, he, hge, hlt⟩
  · apply nearest_mono_of_spacing_eq h
    rw [spacing_of_lt hsmall, spacing_of_lt (Nat.lt_of_le_of_lt hquotient hsmall)]
  · by_cases hm : 2 ^ (52 + e) ≤ m / d
    · apply nearest_mono_of_spacing_eq h
      rw [spacing_of_le_of_lt he hge hlt,
        spacing_of_le_of_lt he hm (Nat.lt_of_le_of_lt hquotient hlt)]
    · -- a power of two lies between the two
      exact Nat.le_trans (nearest_le_pow he (Nat.lt_of_not_le hm)) (pow_le_nearest he hge hlt)

/-- What lies less than half a spacing beyond that last double is rounded down to it. -/
theorem nearest_lt_pow {steps e : Nat} (he : 1 ≤ e)
    (hlt : 2 * (steps + 2 ^ e) < 2 * 2 ^ (53 + e) + 2 ^ e) : nearest steps 1 < 2 ^ (53 + e) := by
  have hpos : 0 < 2 ^ e := Nat.two_pow_pos e
  by_cases hge : 2 ^ (52 + e) ≤ steps
  · have hspacing := spacing_of_le_of_lt he hge (by omega)
    have hnearest : nearest steps 1 = divideToEven steps (2 ^ e) * 2 ^ e := by
      unfold nearest
      dsimp only
      rw [Nat.div_one, hspacing, Nat.one_mul]
    have hdiv := Nat.div_add_mod steps (2 ^ e)
    have hle := divideToEven_le steps (2 ^ e)
    rw [hnearest, Nat.pow_add]
    rw [Nat.pow_add 2 53 e] at hlt
    generalize 2 ^ e = unit at *
    refine Nat.mul_lt_mul_of_pos_right ?_ hpos
    have hq : steps / unit < 2 ^ 53 := by
      rw [Nat.div_lt_iff_lt_mul hpos]
      omega
    by_cases hlast : steps / unit + 1 < 2 ^ 53
    · omega
    · -- in the last interval the remainder is less than half of it
      rw [show steps / unit = 2 ^ 53 - 1 by omega] at hdiv
      rw [divideToEven_of_lt (by omega)]
      exact hq
  · have hle := nearest_le_pow he ((Nat.div_one steps).symm ▸ Nat.lt_of_not_le hge)
    exact Nat.lt_of_le_of_lt hle (Nat.pow_lt_pow_right (by decide) (by omega))

/-! ## Which numbers are doubles -/

-- exponents of this size are kept behind names, as the powers are not to be worked out

theorem one_eq {e : Nat} (h : e = 1074) : one = 2 ^ e := by
  delta one
  rw [← h, Nat.pow_eq]

theorem bound_eq {e : Nat} (h : 53 + e = 2098) : bound = 2 ^ (53 + e) := by
  delta bound
  rw [← h, Nat.pow_eq]

theorem mul_one_lt_pow {n e : Nat} (h : n < 2 ^ 53) (he : 53 + 1074 ≤ e) : n * one < 2 ^ e := by
  obtain ⟨o, ho⟩ : ∃ o, o = 1074 := ⟨_, rfl⟩
  calc n * one < 2 ^ 53 * one := Nat.mul_lt_mul_of_pos_right h one_pos
    _ = 2 ^ (53 + o) := by rw [one_eq ho, Nat.pow_add]
    _ ≤ 2 ^ e := Nat.pow_le_pow_right (by decide) (by omega)

theorem spacing_dvd_mul_one {n : Nat} (h : n < 2 ^ 53) : spacing (n * one) ∣ n * one := by
  obtain ⟨o, ho⟩ : ∃ o, o = 1074 := ⟨_, rfl⟩
  rcases spacing_cases (n * one) with hsmall | ⟨e, he, hge, hlt⟩
  · rw [spacing_of_lt hsmall]
    exact Nat.one_dvd _
  · rw [spacing_of_le_of_lt he hge hlt]
    have hle : 2 ^ (52 + e) < 2 ^ (53 + o) :=
      Nat.lt_of_le_of_lt hge (mul_one_lt_pow h (by omega))
    have hexponent := (Nat.pow_lt_pow_iff_right (by decide)).1 hle
    rw [one_eq ho]
    exact Nat.dvd_mul_left_of_dvd (Nat.pow_dvd_pow 2 (by omega)) n

/-- Whole numbers of less than 2^53 are doubles. -/
theorem representable_mul_one {n : Nat} (h : n < 2 ^ 53) : Representable (n * one) := by
  obtain ⟨e, he⟩ : ∃ e, 53 + e = 2098 := ⟨2045, rfl⟩
  refine ⟨?_, spacing_dvd_mul_one h⟩
  rw [bound_eq he]
  exact mul_one_lt_pow h (by omega)

theorem representable_zero : Representable 0 := by
  have h := representable_mul_one (n := 0) (by decide)
  rwa [Nat.zero_mul] at h

/-- What a numeral is read as is a double, unless it is too large. -/
theorem representable_ofNumeral {n : Numeral} {negative : Bool} {steps : Nat}
    (h : ofNumeral n = .finite negative steps) : Representable steps := by
  unfold ofNumeral at h
  dsimp only at h
  split at h
  · cases h
  · rename_i hbound
    cases h
    refine ⟨Nat.lt_of_not_le hbound, ?_⟩
    unfold ofDecimal at hbound ⊢
    dsimp only at hbound ⊢
    split_ifs at hbound ⊢
    · rw [spacing_of_lt (Nat.two_pow_pos 53)]
      exact Nat.one_dvd 0
    · exact absurd (Nat.le_refl bound) hbound
    · exact spacing_dvd_nearest _ _
    · exact spacing_dvd_nearest _ _

end Double

/-! ## Scores as doubles -/

namespace Score

open Double

theorem round_mono {a b : Int} (h : a ≤ b) : round a ≤ round b := by
  unfold round
  split_ifs with ha hb hb
  · exact Int.ofNat_le.2 (nearest_mono (by omega))
  · omega
  · omega
  · exact Int.neg_le_neg (Int.ofNat_le.2 (nearest_mono (by omega)))

/-- Adding to the same score keeps the order. -/
theorem add_not_lt_add {a b : Score} (s : Score) (h : ¬ b < a) : ¬ s + b < s + a :=
  Int.not_lt.2 (round_mono (Int.add_le_add_left (Int.not_lt.1 h) s.steps))

theorem lt_of_not_lt_of_lt {a b c : Score} (hab : ¬ b < a) (hbc : b < c) : a < c :=
  Int.lt_of_le_of_lt (Int.not_lt.1 hab) hbc

theorem lt_trans {a b c : Score} (hab : a < b) (hbc : b < c) : a < c :=
  Int.lt_trans hab hbc

theorem lt_irrefl (a : Score) : ¬ a < a := Int.lt_irrefl a.steps

theorem signed_toDouble (steps : Int) : signed (steps < 0) steps.natAbs = steps := by
  unfold signed
  split_ifs with h
  · rw [decide_eq_true_eq] at h
    omega
  · rw [decide_eq_true_eq] at h
    omega

/-- Rounding keeps the sign. -/
theorem round_lt_zero {steps : Int} : round steps < 0 ↔ steps < 0 := by
  unfold round
  split_ifs with h
  · omega
  · have hpos : 0 < nearest steps.natAbs 1 := nearest_pos (by omega)
    omega

theorem natAbs_round (steps : Int) : (round steps).natAbs = nearest steps.natAbs 1 := by
  unfold round
  split_ifs <;> omega

/-- A sum that does not overflow is the same for scores and for doubles. -/
theorem rounded_eq_toDouble {negative : Bool} {steps : Int}
    (hzero : steps = 0 → negative = false) (h : nearest steps.natAbs 1 < bound) :
    rounded negative steps = (Score.mk (round steps)).toDouble := by
  have hsign : (if steps = 0 then negative else decide (steps < 0)) = decide (round steps < 0) := by
    rw [decide_eq_decide.2 round_lt_zero]
    split_ifs with h0
    · rw [hzero h0, decide_eq_false (by omega)]
    · rfl
  rw [rounded, if_neg (Nat.not_le_of_lt h), toDouble, natAbs_round, hsign]

/-- Adding a double to a score is adding doubles. The score zero is a positive zero, so that the sum
is never a negative one. -/
theorem toDouble_add {s : Score} {negative : Bool} {steps : Nat}
    (h : nearest (s.steps + signed negative steps).natAbs 1 < bound) :
    s.toDouble + .finite negative steps = (s + ⟨signed negative steps⟩).toDouble := by
  have hadd : s.toDouble + .finite negative steps
      = rounded (decide (s.steps < 0) && negative) (s.steps + signed negative steps) := by
    change rounded _ (signed (s.steps < 0) s.steps.natAbs + signed negative steps) = _
    rw [signed_toDouble]
  rw [hadd]
  refine rounded_eq_toDouble (fun hzero => ?_) h
  cases negative with
  | false => exact Bool.and_false _
  | true =>
    rw [signed, if_pos rfl] at hzero
    rw [Bool.and_true]
    exact decide_eq_false (by omega)

/-- Scores are ordered as doubles are. -/
theorem toDouble_lt {s t : Score} : s.toDouble < t.toDouble ↔ s < t := by
  change signed _ _ < signed _ _ ↔ s.steps < t.steps
  rw [signed_toDouble, signed_toDouble]

theorem natAbs_ofInt (n : Int) : (Score.ofInt n).steps.natAbs = n.natAbs * one := by
  rw [ofInt, Int.natAbs_mul, Int.natAbs_natCast]

theorem toDouble_ofInt (n : Int) : (Score.ofInt n).toDouble = Double.ofInt n := by
  have hsign : n * (one : Int) < 0 ↔ n < 0 := by
    have hone : (0 : Int) < one := by exact_mod_cast Double.one_pos
    constructor
    · intro h
      by_contra hn
      exact absurd h (Int.not_lt.2 (Int.mul_nonneg (by omega) (by omega)))
    · intro h
      exact Int.mul_neg_of_neg_of_pos h hone
  rw [toDouble, natAbs_ofInt, Double.ofInt, Score.ofInt, decide_eq_decide.2 hsign]

/-- Sums of whole numbers of less than 2^53 are exact. -/
theorem ofInt_add {j k : Int} (h : (j + k).natAbs < 2 ^ 53) :
    ofInt j + ofInt k = ofInt (j + k) := by
  have hnearest : nearest (ofInt (j + k)).steps.natAbs 1 = (ofInt (j + k)).steps.natAbs := by
    rw [natAbs_ofInt]
    exact nearest_of_dvd (representable_mul_one h).2
  change Score.mk (round (j * one + k * one)) = ofInt (j + k)
  rw [← Int.add_mul]
  change Score.mk (round (ofInt (j + k)).steps) = ⟨(ofInt (j + k)).steps⟩
  rw [Score.mk.injEq, round, hnearest]
  split_ifs <;> omega

/-- A whole number and a double overflow only if the number is huge. -/
theorem ofInt_add_lt_bound {k : Int} {negative : Bool} {steps : Nat} (hk : k.natAbs < 2 ^ 53)
    (h : Representable steps) :
    nearest ((ofInt k).steps + signed negative steps).natAbs 1 < bound := by
  obtain ⟨e, he⟩ : ∃ e, 53 + (e + 1) = 2098 := ⟨2044, rfl⟩
  -- far less than half of what the largest doubles lie apart
  have hsmall : (ofInt k).steps.natAbs < 2 ^ e := by
    rw [natAbs_ofInt]
    exact mul_one_lt_pow hk (by omega)
  have hsigned : (signed negative steps).natAbs = steps := by
    unfold signed
    split_ifs <;> omega
  have hlast := add_pow_le (by omega) (bound_eq he ▸ h.1) h.2
  have hsum := Int.natAbs_add_le (ofInt k).steps (signed negative steps)
  rw [bound_eq he]
  refine nearest_lt_pow (by omega) ?_
  rw [Nat.pow_succ' (m := 2) (n := e)] at hlast ⊢
  omega

end Score

/-! ## Whole numbers as doubles -/

namespace Double

theorem minusOne_eq : minusOne = ofInt (-1) := by
  rw [minusOne, ofInt, Int.natAbs_neg, Int.natAbs_one, Nat.one_mul]
  rfl

/-- Whole numbers are added exactly as long as they stay below 2^53. -/
theorem ofInt_add_ofInt {j k : Int} (h : j.natAbs + k.natAbs < 2 ^ 53) :
    ofInt j + ofInt k = ofInt (j + k) := by
  have hsigned : signed (k < 0) (k.natAbs * one) = (Score.ofInt k).steps := by
    have hk := Score.toDouble_ofInt k
    rw [Score.toDouble, ofInt, Double.finite.injEq] at hk
    rw [← hk.1, ← hk.2, Score.signed_toDouble]
  have hlt : (j + k).natAbs < 2 ^ 53 := Nat.lt_of_le_of_lt (Int.natAbs_add_le j k) h
  rw [← Score.toDouble_ofInt j, ← Score.toDouble_ofInt (j + k), ← Score.ofInt_add hlt, ofInt,
    Score.toDouble_add
      (Score.ofInt_add_lt_bound (by omega) (representable_mul_one (by omega))), hsigned]

end Double

end Polyglot
