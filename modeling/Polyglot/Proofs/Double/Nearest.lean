/-
Rounding to the nearest double, seen from the rational numbers. A rational number of steps is rounded
to a given double just where it lies inside of that one's interval, which ends at the midpoints to the
neighbouring doubles. How far rounding goes is half of the spacing: small beside the number itself, if
that is not close to zero.
-/
import Polyglot.Proofs.Double.Rounding
import Mathlib.Data.Nat.Cast.Order.Field
import Mathlib.Data.Rat.Cast.Order
import Mathlib.Tactic.Linarith
import Mathlib.Tactic.FieldSimp
import Mathlib.Tactic.Positivity

namespace Polyglot.Double

variable {steps m n d : Nat}

/-! ## Spacing -/

theorem spacing_dvd_spacing (h : m ≤ n) : spacing m ∣ spacing n := by
  rcases spacing_cases m with hm | ⟨e, he, hme, hme'⟩
  · rw [spacing_of_lt hm]
    exact Nat.one_dvd _
  · rcases spacing_cases n with hn | ⟨e', he', hne, hne'⟩
    · have := Nat.pow_le_pow_right (n := 2) (by decide) (show 53 ≤ 52 + e by omega)
      omega
    · rw [spacing_of_le_of_lt he hme hme', spacing_of_le_of_lt he' hne hne']
      have hlt : 2 ^ (52 + e) < 2 ^ (53 + e') := by omega
      have := (Nat.pow_lt_pow_iff_right (by decide)).1 hlt
      exact Nat.pow_dvd_pow 2 (by omega)

theorem spacing_mono (h : m ≤ n) : spacing m ≤ spacing n :=
  Nat.le_of_dvd (spacing_pos n) (spacing_dvd_spacing h)

/-- Where doubles do not lie one step apart, there are 2^52 distances between them below. -/
theorem spacing_eq_one_or (steps : Nat) : spacing steps = 1 ∨ 2 ^ 52 * spacing steps ≤ steps := by
  rcases spacing_cases steps with hlt | ⟨e, he, hle, hlt⟩
  · exact .inl (spacing_of_lt hlt)
  · refine .inr ?_
    rwa [spacing_of_le_of_lt he hle hlt, ← Nat.pow_add]

/-! ## How far rounding goes -/

theorem divideToEven_bounds (n : Nat) (hd : 0 < d) :
    2 * (divideToEven n d * d) ≤ 2 * n + d ∧ 2 * n ≤ 2 * (divideToEven n d * d) + d := by
  have hdiv := Nat.div_add_mod n d
  have hmod := Nat.mod_lt n hd
  have hlower : n / d * d = d * (n / d) := Nat.mul_comm _ _
  have hupper : (n / d + 1) * d = d * (n / d) + d := by rw [Nat.add_mul, Nat.one_mul, hlower]
  unfold divideToEven
  dsimp only
  split
  · omega
  · split
    · omega
    · rcases Nat.mod_two_eq_zero_or_one (n / d) with heven | hodd
      · rw [heven, Nat.add_zero]
        omega
      · rw [hodd]
        omega

theorem floor_le_div (n d : Nat) : ((n / d : Nat) : ℚ) ≤ n / d := Nat.cast_div_le

theorem cast_eq_div_mul (n : Nat) (hd : 0 < d) : (n : ℚ) = n / d * d :=
  (div_mul_cancel₀ _ (ne_of_gt (by exact_mod_cast hd))).symm

/-- Rounding goes no further than half of the spacing. -/
theorem abs_nearest_sub_le (n : Nat) (hd : 0 < d) :
    |(nearest n d : ℚ) - n / d| ≤ (spacing (n / d) : ℚ) / 2 := by
  have hd' : (0 : ℚ) < d := by exact_mod_cast hd
  have hpos := Nat.mul_pos hd (spacing_pos (n / d))
  obtain ⟨hhigh, hlow⟩ := divideToEven_bounds n hpos
  unfold nearest
  dsimp only
  generalize spacing (n / d) = unit at *
  generalize divideToEven n (d * unit) = r at *
  have hhigh' : 2 * ((r : ℚ) * (d * unit)) ≤ 2 * n + d * unit := by exact_mod_cast hhigh
  have hlow' : 2 * (n : ℚ) ≤ 2 * (r * (d * unit)) + d * unit := by exact_mod_cast hlow
  have hn := cast_eq_div_mul n hd
  generalize (n : ℚ) / d = q at *
  rw [hn] at hhigh' hlow'
  push_cast
  rw [abs_le]
  constructor
  · by_contra h
    nlinarith
  · by_contra h
    nlinarith

/-- Half of the spacing is a small part of the number itself, or half of a step. -/
theorem abs_nearest_sub_le_add (n : Nat) (hd : 0 < d) :
    |(nearest n d : ℚ) - n / d| ≤ 1 / 2 + n / d / 2 ^ 53 := by
  have herror := abs_nearest_sub_le n hd
  have hfloor := floor_le_div n d
  have hnonneg : (0 : ℚ) ≤ n / d := by positivity
  rcases spacing_eq_one_or (n / d) with hone | hle
  · rw [hone] at herror
    have : (0 : ℚ) ≤ n / d / 2 ^ 53 := by positivity
    push_cast at herror
    linarith
  · have hle' : 2 ^ 52 * (spacing (n / d) : ℚ) ≤ ((n / d : Nat) : ℚ) := by exact_mod_cast hle
    linarith

/-- Rounding is a small change of a number that is not close to zero. -/
theorem abs_nearest_sub_le_mul (hd : 0 < d) (h : (2 : ℚ) ^ 52 ≤ n / d) :
    |(nearest n d : ℚ) - n / d| ≤ n / d / 2 ^ 53 := by
  have herror := abs_nearest_sub_le n hd
  have hfloor := floor_le_div n d
  rcases spacing_eq_one_or (n / d) with hone | hle
  · rw [hone] at herror
    push_cast at herror
    linarith
  · have hle' : 2 ^ 52 * (spacing (n / d) : ℚ) ≤ ((n / d : Nat) : ℚ) := by exact_mod_cast hle
    linarith

/-! ## The interval of a double -/

/-- What is rounded to the double: what lies between the midpoints to its neighbours, or on one if the
double is even. -/
structure Inside (steps : Nat) (q : ℚ) : Prop where
  low : 4 * (steps : ℚ) - below steps ≤ 4 * q
  high : 4 * q ≤ 4 * steps + 2 * spacing steps
  even : 4 * q = 4 * steps - below steps ∨ 4 * q = 4 * steps + 2 * spacing steps →
    steps / spacing steps % 2 = 0

theorem Inside.abs_sub_le {q : ℚ} (h : Inside steps q) : |q - steps| ≤ (spacing steps : ℚ) / 2 := by
  have hbelow : (below steps : ℚ) ≤ 2 * spacing steps := by exact_mod_cast below_le steps
  have hlow := h.low
  have hhigh := h.high
  rw [abs_le]
  constructor <;> linarith

theorem divideToEven_eq (hd : 0 < d) (hlow : 2 * (m * d) ≤ 2 * n + d) (hhigh : 2 * n ≤ 2 * (m * d) + d)
    (heven : 2 * (m * d) = 2 * n + d ∨ 2 * n = 2 * (m * d) + d → m % 2 = 0) :
    divideToEven n d = m := by
  have hdiv := Nat.div_add_mod n d
  have hmod := Nat.mod_lt n hd
  -- it has been rounded down, or up
  by_cases hle : m * d ≤ n
  · have hquotient : n / d = m := by
      rw [Nat.div_eq_iff hd]
      omega
    rw [hquotient, Nat.mul_comm] at hdiv
    unfold divideToEven
    dsimp only
    rw [hquotient]
    split_ifs <;> omega
  · obtain ⟨k, rfl⟩ := Nat.exists_eq_add_one_of_ne_zero (show m ≠ 0 by rintro rfl; omega)
    rw [Nat.add_mul, Nat.one_mul] at *
    have hquotient : n / d = k := by
      rw [Nat.div_eq_iff hd]
      omega
    rw [hquotient, Nat.mul_comm] at hdiv
    unfold divideToEven
    dsimp only
    rw [hquotient]
    split_ifs <;> omega

/-- With the given spacing, what is no further off than half of it is rounded to the multiple. -/
theorem nearest_eq_of_spacing {unit : Nat} (hd : 0 < d) (hunit : spacing (n / d) = unit)
    (hsteps : steps = m * unit) (hlow : 2 * (steps * d) ≤ 2 * n + d * unit)
    (hhigh : 2 * n ≤ 2 * (steps * d) + d * unit)
    (heven : 2 * (steps * d) = 2 * n + d * unit ∨ 2 * n = 2 * (steps * d) + d * unit → m % 2 = 0) :
    nearest n d = steps := by
  have hpos : 0 < unit := hunit ▸ spacing_pos _
  have hproduct : steps * d = m * (d * unit) := by rw [hsteps]; ring
  rw [hproduct] at hlow hhigh heven
  unfold nearest
  dsimp only
  rw [hunit, divideToEven_eq (Nat.mul_pos hd hpos) hlow hhigh heven, hsteps]

/-- Beyond a double the spacing stays the same up to the next one. -/
theorem spacing_div_of_le (hd : 0 < d) (hdvd : spacing steps ∣ steps) (hle : steps * d ≤ n)
    (hlt : n < (steps + spacing steps) * d) : spacing (n / d) = spacing steps := by
  have hfloor : steps ≤ n / d := (Nat.le_div_iff_mul_le hd).2 hle
  have hceil : n / d < steps + spacing steps := (Nat.div_lt_iff_lt_mul hd).2 hlt
  rcases spacing_cases steps with hsmall | ⟨e, he, hge, hless⟩
  · rw [spacing_of_lt hsmall] at hceil
    rw [show n / d = steps by omega]
  · have hspacing := spacing_of_le_of_lt he hge hless
    have hlast := add_pow_le he hless hdvd
    rw [hspacing] at hceil ⊢
    exact spacing_of_le_of_lt he (Nat.le_trans hge hfloor) (Nat.lt_of_lt_of_le hceil hlast)

/-- The double is a power of two from which on the doubles lie twice as far apart. -/
def Widens (steps : Nat) : Prop := steps = 2 ^ 53 * (spacing steps / 2) ∧ 1 < spacing steps

theorem below_of_widens (h : Widens steps) : below steps = spacing steps := by
  rw [below, if_pos (by simpa [Widens, Nat.pow_eq] using h)]

theorem below_of_not_widens (h : ¬ Widens steps) : below steps = 2 * spacing steps := by
  rw [below, if_neg (by simpa [Widens, Nat.pow_eq] using h)]

theorem Widens.exists_eq (h : Widens steps) :
    ∃ e, spacing steps = 2 * 2 ^ e ∧ steps = 2 ^ (53 + e) := by
  obtain ⟨hsteps, hlt⟩ := h
  rcases spacing_cases steps with hsmall | ⟨e, he, hge, hless⟩
  · rw [spacing_of_lt hsmall] at hlt
    omega
  · have hspacing : spacing steps = 2 * 2 ^ (e - 1) := by
      rw [spacing_of_le_of_lt he hge hless, ← Nat.pow_succ', show (e - 1).succ = e by omega]
    rw [hspacing, Nat.mul_div_cancel_left _ (by decide), ← Nat.pow_add] at hsteps
    exact ⟨e - 1, hspacing, hsteps⟩

/-- Right below a power of two the doubles lie twice as close. -/
theorem spacing_div_of_widens (hd : 0 < d) (hwidens : Widens steps) (hlt : n < steps * d)
    (hle : steps * d ≤ n + spacing steps * d) : spacing (n / d) = spacing steps / 2 := by
  obtain ⟨e, hspacing, hsteps⟩ := hwidens.exists_eq
  have hfloor : n / d < 2 ^ (53 + e) := by rwa [Nat.div_lt_iff_lt_mul hd, ← hsteps]
  rw [hspacing, Nat.mul_div_cancel_left _ (by decide)]
  -- the smallest spacing is not halved
  rcases Nat.eq_zero_or_pos e with rfl | he
  · exact spacing_of_lt hfloor
  · refine spacing_of_le_of_lt he ?_ hfloor
    rw [Nat.le_div_iff_mul_le hd]
    have hhalf : 2 * 2 ^ e * d ≤ 2 ^ (52 + e) * d := by
      rw [Nat.pow_add]
      exact Nat.mul_le_mul_right d (Nat.mul_le_mul_right _ (by decide))
    have hdouble : steps * d = 2 * (2 ^ (52 + e) * d) := by
      rw [hsteps, show 53 + e = (52 + e).succ by omega, Nat.pow_succ']
      ring
    rw [hspacing] at hle
    omega

/-- Below any other double the spacing is the same down to the one before it. -/
theorem spacing_div_of_not_widens (hd : 0 < d) (hdvd : spacing steps ∣ steps)
    (hwidens : ¬ Widens steps) (hlt : n < steps * d) (hle : steps * d ≤ n + spacing steps * d) :
    spacing (n / d) = spacing steps := by
  have hfloor : n / d < steps := (Nat.div_lt_iff_lt_mul hd).2 hlt
  rcases spacing_cases steps with hsmall | ⟨e, he, hge, hless⟩
  · rw [spacing_of_lt hsmall, spacing_of_lt (by omega)]
  · have hspacing := spacing_of_le_of_lt he hge hless
    -- a power of two would be where the spacing widens
    have hne : steps ≠ 2 ^ (52 + e) := by
      intro heq
      obtain ⟨k, rfl⟩ : ∃ k, e = k + 1 := ⟨e - 1, by omega⟩
      have hpos := Nat.two_pow_pos k
      rw [Nat.pow_succ] at hspacing
      refine hwidens ⟨?_, by omega⟩
      rw [hspacing, heq, Nat.mul_div_cancel _ (by decide), ← Nat.pow_add]
      congr 1
      omega
    rw [hspacing] at hdvd hle ⊢
    obtain ⟨k, hk⟩ := hdvd
    -- so there is a double below in the same binade, and the quotient is above that one
    have hnext : 2 ^ (52 + e) + 2 ^ e ≤ steps := by
      rw [hk, Nat.pow_add, Nat.mul_comm (2 ^ e)] at hge hne ⊢
      have hlt : 2 ^ 52 < k := by
        refine Nat.lt_of_le_of_ne (Nat.le_of_mul_le_mul_right hge (Nat.two_pow_pos e)) ?_
        rintro rfl
        exact hne rfl
      have := Nat.mul_le_mul_right (2 ^ e) (show 2 ^ 52 + 1 ≤ k from hlt)
      rwa [Nat.add_mul, Nat.one_mul] at this
    refine spacing_of_le_of_lt he ?_ (by omega)
    rw [Nat.le_div_iff_mul_le hd]
    have := Nat.mul_le_mul_right d hnext
    rw [Nat.add_mul] at this
    omega

/-! ## Quotients inside -/

theorem Inside.le_of_div (h : Inside steps ((n : ℚ) / d)) (hd : 0 < d) :
    4 * (steps * d) ≤ 4 * n + below steps * d := by
  have hle := mul_le_mul_of_nonneg_right h.low (Nat.cast_nonneg d)
  rw [mul_assoc 4, ← cast_eq_div_mul n hd, sub_mul] at hle
  have hle' : 4 * ((steps : ℚ) * d) ≤ 4 * n + below steps * d := by linarith
  exact_mod_cast hle'

theorem Inside.ge_of_div (h : Inside steps ((n : ℚ) / d)) (hd : 0 < d) :
    4 * n ≤ 4 * (steps * d) + 2 * (d * spacing steps) := by
  have hle := mul_le_mul_of_nonneg_right h.high (Nat.cast_nonneg d)
  rw [mul_assoc 4, ← cast_eq_div_mul n hd, add_mul] at hle
  have hle' : 4 * (n : ℚ) ≤ 4 * (steps * d) + 2 * (d * spacing steps) := by linarith
  exact_mod_cast hle'

/-- A quotient on a midpoint is rounded to an even double. -/
theorem Inside.even_of_div (h : Inside steps ((n : ℚ) / d)) (hd : 0 < d)
    (hmid : 4 * (steps * d) = 4 * n + 2 * (d * spacing steps) ∧ below steps = 2 * spacing steps ∨
      4 * n = 4 * (steps * d) + 2 * (d * spacing steps)) : steps / spacing steps % 2 = 0 := by
  have hd' : (0 : ℚ) < d := by exact_mod_cast hd
  refine h.even (hmid.imp ?_ ?_)
  · rintro ⟨hmid, hbelow⟩
    have hmid' : 4 * ((steps : ℚ) * d) = 4 * n + 2 * (d * spacing steps) := by exact_mod_cast hmid
    rw [hbelow]
    push_cast
    field_simp
    linarith
  · intro hmid
    have hmid' : 4 * (n : ℚ) = 4 * (steps * d) + 2 * (d * spacing steps) := by exact_mod_cast hmid
    field_simp
    linarith

/-- A quotient inside of the interval of a double is rounded to it. -/
theorem nearest_of_inside (hd : 0 < d) (hdvd : spacing steps ∣ steps)
    (h : Inside steps ((n : ℚ) / d)) : nearest n d = steps := by
  have hlow := h.le_of_div hd
  have hhigh := h.ge_of_div hd
  have heven := h.even_of_div hd
  have hmultiple : steps = steps / spacing steps * spacing steps := (Nat.div_mul_cancel hdvd).symm
  have hunit := spacing_pos steps
  -- below the double the spacing may be the half of it, above it is the same
  by_cases hle : steps * d ≤ n
  · have hpos : 0 < d * spacing steps := Nat.mul_pos hd hunit
    have hclose : n < (steps + spacing steps) * d := by
      rw [Nat.add_mul, Nat.mul_comm (spacing steps)]
      omega
    have hspacing := spacing_div_of_le hd hdvd hle hclose
    refine nearest_eq_of_spacing hd hspacing hmultiple (by omega) (by omega) fun hmid => ?_
    rcases hmid with hmid | hmid
    · omega
    · exact heven (.inr (by omega))
  · rw [Nat.not_le] at hle
    have hclose : steps * d ≤ n + spacing steps * d := by
      have := Nat.mul_le_mul_right d (below_le steps)
      rw [Nat.mul_assoc] at this
      omega
    by_cases hwidens : Widens steps
    · have hspacing := spacing_div_of_widens hd hwidens hle hclose
      rw [below_of_widens hwidens] at hlow
      refine nearest_eq_of_spacing hd hspacing hwidens.1 ?_ (by omega) fun _ => by decide
      obtain ⟨e, hpower, -⟩ := hwidens.exists_eq
      rw [hpower, Nat.mul_div_cancel_left _ (by decide)]
      rw [hpower] at hlow
      have hassoc : 2 * 2 ^ e * d = 2 * (d * 2 ^ e) := by ring
      omega
    · have hspacing := spacing_div_of_not_widens hd hdvd hwidens hle hclose
      have hbelow := below_of_not_widens hwidens
      rw [hbelow, Nat.mul_assoc, Nat.mul_comm (spacing steps)] at hlow
      refine nearest_eq_of_spacing hd hspacing hmultiple (by omega) (by omega) fun hmid => ?_
      rcases hmid with hmid | hmid
      · exact heven (.inl ⟨by omega, hbelow⟩)
      · omega

/-! ## Staying near -/

theorem nearest_mul_self (hd : 0 < d) (hdvd : spacing steps ∣ steps) :
    nearest (steps * d) d = steps := by
  rw [nearest_congr hd Nat.one_pos (show steps * d * 1 = steps * d by ring), nearest_of_dvd hdvd]

/-- A few doubles further on the spacing has at most doubled. -/
theorem spacing_le_of_lt (h : n < steps + 3 * spacing steps) : spacing n ≤ 2 * spacing steps := by
  have hlt := lt_mul_spacing steps
  obtain ⟨e, hspacing⟩ : ∃ e, spacing steps = 2 ^ e := by
    rcases spacing_cases steps with hsmall | ⟨e, he, hge, hless⟩
    · exact ⟨0, spacing_of_lt hsmall⟩
    · exact ⟨e, spacing_of_le_of_lt he hge hless⟩
  rw [hspacing] at h hlt ⊢
  have hpower : n < 2 ^ (54 + e) := by
    rw [Nat.pow_add]
    omega
  rcases spacing_cases n with hsmall | ⟨e', he', hge', hless'⟩
  · rw [spacing_of_lt hsmall]
    have := Nat.two_pow_pos e
    omega
  · have hexponent := (Nat.pow_lt_pow_iff_right (by decide)).1 (Nat.lt_of_le_of_lt hge' hpower)
    rw [spacing_of_le_of_lt he' hge' hless', ← Nat.pow_succ']
    exact Nat.pow_le_pow_right (by decide) (by omega)

/-- A quotient less than three spacings away from a double is rounded to a double that is at most
three spacings away. -/
theorem nearest_within (hd : 0 < d) (hdvd : spacing steps ∣ steps)
    (h : |(n : ℚ) / d - steps| < 3 * spacing steps) :
    nearest n d ≤ steps + 3 * spacing steps ∧ steps ≤ nearest n d + 3 * spacing steps := by
  have hd' : (0 : ℚ) < d := by exact_mod_cast hd
  rw [abs_lt] at h
  obtain ⟨hlow, hhigh⟩ := h
  constructor
  · -- a larger double is a multiple of the spacing
    by_cases hlt : steps < nearest n d
    · have hfloor : n / d < steps + 3 * spacing steps := by
        have hle := floor_le_div n d
        have hlt' : ((n / d : Nat) : ℚ) < steps + 3 * spacing steps := by linarith
        exact_mod_cast hlt'
      have hspacing : (spacing (n / d) : ℚ) ≤ 2 * spacing steps := by
        exact_mod_cast spacing_le_of_lt hfloor
      have hnear := (abs_le.1 (abs_nearest_sub_le n hd)).2
      have hless : nearest n d < steps + 4 * spacing steps := by
        have hless' : (nearest n d : ℚ) < steps + 4 * spacing steps := by linarith
        exact_mod_cast hless'
      obtain ⟨a, ha⟩ := hdvd
      obtain ⟨b, hb⟩ := (spacing_dvd_spacing hlt.le).trans (spacing_dvd_nearest n d)
      generalize spacing steps = unit at *
      have hb' : b < a + 4 := by
        rw [hb, ha] at hless
        refine Nat.lt_of_mul_lt_mul_left (a := unit) ?_
        calc unit * b < unit * a + 4 * unit := hless
          _ = unit * (a + 4) := by ring
      calc nearest n d = unit * b := hb
        _ ≤ unit * (a + 3) := Nat.mul_le_mul_left unit (by omega)
        _ = steps + 3 * unit := by rw [ha]; ring
    · omega
  · -- a smaller one is no further off than the double three spacings below, which stays itself
    by_cases hle : 3 * spacing steps ≤ steps
    · obtain ⟨t, ht⟩ : ∃ t, steps = t + 3 * spacing steps := ⟨steps - 3 * spacing steps, by omega⟩
      have htd : t * d ≤ n := by
        have ht' : (steps : ℚ) = t + 3 * spacing steps := by exact_mod_cast ht
        have hle' : (t : ℚ) * d ≤ n := by
          rw [← le_div_iff₀ hd']
          linarith
        exact_mod_cast hle'
      have hdvd' : spacing t ∣ t := by
        refine (spacing_dvd_spacing (show t ≤ steps by omega)).trans ?_
        rw [show t = steps - 3 * spacing steps by omega]
        exact Nat.dvd_sub hdvd (Nat.dvd_mul_left _ 3)
      have hmono := nearest_mono (d := d) htd
      rw [nearest_mul_self hd hdvd'] at hmono
      omega
    · omega

end Polyglot.Double
