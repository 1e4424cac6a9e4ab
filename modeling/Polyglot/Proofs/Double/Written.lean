/-
What is written for a double, as a number. The shortest decimal that reads back lies inside of the
double's interval. Its digits, with those that a layout adds, are a number that fits into 64 bits, and
the exponent is that of a power of ten of no more than 343 digits.
-/
import Polyglot.Double.Accumulated
import Polyglot.Proofs.Double.Nearest
import Polyglot.Proofs.Json.Numbers

namespace Polyglot

/-! ## Digits -/

namespace Digit

theorem valueBehind_append (n : Nat) (ds ds' : List Digit) :
    valueBehind n (ds ++ ds') = valueBehind (valueBehind n ds) ds' := List.foldl_append ..

theorem valueBehind_zeros (n count : Nat) :
    valueBehind n (List.replicate count zero) = n * 10 ^ count := by
  induction count generalizing n with
  | zero => exact (Nat.mul_one n).symm
  | succ count ih =>
    rw [List.replicate_succ, valueBehind_cons, ih, Nat.pow_succ']
    show (10 * n + 0) * 10 ^ count = n * (10 * 10 ^ count)
    ring

theorem value_zeros_append (count : Nat) (ds : List Digit) :
    value (List.replicate count zero ++ ds) = value ds := by
  show valueBehind 0 _ = _
  rw [valueBehind_append, valueBehind_zeros, Nat.zero_mul]
  rfl

end Digit

namespace Double

theorem value_digitsOf (n : Nat) : Digit.value (digitsOf n) = n := by
  induction n using Nat.strongRecOn with
  | ind n ih =>
    by_cases h : n < 10
    · rw [digitsOf_of_lt h]
      exact Nat.zero_add n
    · rw [digitsOf_of_le (by omega)]
      show Digit.valueBehind 0 _ = n
      rw [Digit.valueBehind_append]
      have hfront : Digit.valueBehind 0 (digitsOf (n / 10)) = n / 10 := ih (n / 10) (by omega)
      rw [hfront]
      exact Nat.div_add_mod n 10

/-- Without its last digit a number is at least the power of ten of its other digits. -/
theorem pow_length_digitsOf {n : Nat} (h : n ≠ 0) :
    10 ^ ((digitsOf n).length - 1) ≤ n ∧ n < 10 ^ (digitsOf n).length := by
  induction n using Nat.strongRecOn with
  | ind n ih =>
    by_cases hn : n < 10
    · rw [digitsOf_of_lt hn]
      show 10 ^ 0 ≤ n ∧ n < 10 ^ 1
      omega
    · obtain ⟨hlow, hhigh⟩ := ih (n / 10) (by omega) (by omega)
      have hpos : 0 < (digitsOf (n / 10)).length := List.length_pos_iff.2 (digitsOf_ne_nil _)
      rw [digitsOf_of_le (by omega), List.length_append, List.length_singleton,
        Nat.add_sub_cancel, Nat.pow_succ]
      obtain ⟨k, hk⟩ : ∃ k, (digitsOf (n / 10)).length = k + 1 := ⟨_, (Nat.sub_add_cancel hpos).symm⟩
      rw [hk, Nat.add_sub_cancel] at hlow
      rw [hk, Nat.pow_succ] at hhigh ⊢
      omega

/-! ## Decimals -/

/-- The number that a decimal writes. -/
def Decimal.number (d : Decimal) : ℚ := d.digits * (10 : ℚ) ^ d.exponent

theorem Decimal.number_stripped (limit : Nat) (d : Decimal) :
    (d.stripped limit).number = d.number := by
  induction limit generalizing d with
  | zero => rfl
  | succ limit ih =>
    rw [stripped]
    split
    · rename_i h
      have hdigits : (d.digits : ℚ) = (d.digits / 10 : Nat) * 10 := by
        exact_mod_cast show d.digits = d.digits / 10 * 10 by omega
      rw [ih, number, number, zpow_add_one₀ (by norm_num), hdigits]
      ring
    · rfl

theorem Decimal.exponent_stripped_le (limit : Nat) (d : Decimal) :
    d.exponent ≤ (d.stripped limit).exponent ∧ (d.stripped limit).digits ≤ d.digits := by
  induction limit generalizing d with
  | zero => exact ⟨le_rfl, le_rfl⟩
  | succ limit ih =>
    rw [stripped]
    split
    · obtain ⟨hexponent, hdigits⟩ := ih ⟨d.digits / 10, d.exponent + 1⟩
      dsimp only at hexponent hdigits
      omega
    · exact ⟨le_rfl, le_rfl⟩

/-- The places of a decimal, as a quotient of whole numbers. -/
theorem zpow_eq_div (place : Int) :
    (10 : ℚ) ^ place = (10 ^ place.toNat : Nat) / (10 ^ (-place).toNat : Nat) := by
  push_cast
  rw [eq_div_iff (by positivity), ← zpow_natCast, ← zpow_natCast, ← zpow_add₀ (by norm_num)]
  congr 1
  omega

theorem cast_one_pos : (0 : ℚ) < one := by exact_mod_cast one_pos

theorem number_mul_one (digits : Nat) (place : Int) :
    (⟨digits, place⟩ : Decimal).number * one = digits * unitOf place / scaleOf place := by
  rw [Decimal.number, zpow_eq_div, unitOf, scaleOf, Nat.cast_mul]
  ring

/-- What reads back lies inside. -/
theorem inside_of_readsBack {steps : Nat} {d : Decimal} (h : 0 < steps)
    (hread : readsBack steps d = true) : Inside steps (d.number * one) := by
  obtain ⟨digits, place⟩ := d
  have hscale : (0 : ℚ) < scaleOf place := by exact_mod_cast scaleOf_pos place
  have hbelow : below steps ≤ 4 * steps := by
    have := below_le steps
    have := spacing_le h
    omega
  have hnumber : (⟨digits, place⟩ : Decimal).number * one * scaleOf place =
      digits * unitOf place := by
    rw [number_mul_one, div_mul_cancel₀ _ (ne_of_gt hscale)]
  generalize (⟨digits, place⟩ : Decimal).number * one = q at *
  have hfour : 4 * q * scaleOf place = (4 * digits * unitOf place : Nat) := by
    rw [mul_assoc, hnumber]
    push_cast
    ring
  -- multiplied by the scale, the comparisons are those of natural numbers
  have hlow (a : Nat) : a * scaleOf place ≤ 4 * digits * unitOf place ↔ (a : ℚ) ≤ 4 * q := by
    rw [← mul_le_mul_iff_of_pos_right hscale, hfour]
    exact_mod_cast Iff.rfl
  have hhigh (a : Nat) : 4 * digits * unitOf place ≤ a * scaleOf place ↔ 4 * q ≤ (a : ℚ) := by
    rw [← mul_le_mul_iff_of_pos_right hscale, hfour]
    exact_mod_cast Iff.rfl
  have hlower : ((4 * steps - below steps : Nat) : ℚ) = 4 * steps - below steps := by
    push_cast [Nat.cast_sub hbelow]
    rfl
  have hupper : ((4 * steps + 2 * spacing steps : Nat) : ℚ) = 4 * steps + 2 * spacing steps := by
    push_cast
    rfl
  rw [readsBack_eq] at hread
  split at hread
  · rename_i heven
    rw [Bool.and_eq_true, decide_eq_true_eq, decide_eq_true_eq, hlow, hhigh, hlower, hupper] at hread
    exact ⟨hread.1, hread.2, fun _ => by simpa using heven⟩
  · rw [Bool.and_eq_true, decide_eq_true_eq, decide_eq_true_eq, ← not_le, ← not_le, hlow, hhigh,
      hlower, hupper, not_le, not_le] at hread
    obtain ⟨hl, hh⟩ := hread
    -- strictly inside, so no midpoint is met
    exact ⟨hl.le, hh.le, fun hmid => by rcases hmid with hmid | hmid <;> linarith⟩

/-- A one in the place beyond the leading one is worth more than the number of steps. -/
theorem lt_unitOf_leadingPlace {steps : Nat} (h : 0 < steps) :
    steps * scaleOf (leadingPlace steps + 1) < unitOf (leadingPlace steps + 1) := by
  unfold leadingPlace scaleOf unitOf
  split
  · have hlt := (Nat.div_lt_iff_lt_mul one_pos).1 (lt_pow_width (steps / one))
    generalize width (steps / one) = digits at *
    rw [show ((digits : Int) - 1 + 1).toNat = digits by omega,
      show (-((digits : Int) - 1 + 1)).toNat = 0 by omega, Nat.pow_zero, Nat.mul_one, Nat.mul_comm]
    exact hlt
  · rename_i hone
    have hquotient : one / steps ≠ 0 := by
      have := Nat.div_pos (Nat.le_of_not_le hone) h
      omega
    have hpos : 0 < width (one / steps) := by
      rw [width, if_neg hquotient]
      exact Nat.length_toDigits_pos
    have hle := (Nat.le_div_iff_mul_le h).1 (pow_width_le hquotient)
    generalize width (one / steps) = scale at *
    have hplace (place : Nat) (hlt : 10 ^ place * steps < one) :
        steps * 10 ^ (-(-(place : Int))).toNat < one * 10 ^ (-(place : Int)).toNat := by
      rw [show (-(place : Int)).toNat = 0 by omega, show (- -(place : Int)).toNat = place by omega,
        Nat.pow_zero, Nat.mul_one, Nat.mul_comm]
      exact hlt
    dsimp only
    split
    · rename_i hlt
      rw [show -(scale : Int) - 1 + 1 = -(scale : Int) by omega]
      exact hplace scale hlt
    · split
      · rename_i hlt
        rw [show -(scale : Int) + 1 = -((scale - 1 : Nat) : Int) by omega]
        exact hplace (scale - 1) hlt
      · -- the quotient has no more digits than the power of ten
        rcases Nat.eq_or_lt_of_le hpos with hone' | htwo
        · rw [← hone', show (-((Nat.succ 0 : Nat) : Int) + 1 + 1).toNat = 1 by decide,
            show (-(-((Nat.succ 0 : Nat) : Int) + 1 + 1)).toNat = 0 by decide]
          omega
        · rw [show -(scale : Int) + 1 + 1 = -((scale - 2 : Nat) : Int) by omega]
          refine hplace (scale - 2) (Nat.lt_of_lt_of_le ?_ hle)
          exact Nat.mul_lt_mul_of_pos_right (Nat.pow_lt_pow_right (by decide) (by omega)) h

theorem lt_zpow_leadingPlace {steps : Nat} (h : 0 < steps) :
    (steps : ℚ) < 10 ^ (leadingPlace steps + 1) * one := by
  have hlt := lt_unitOf_leadingPlace h
  unfold unitOf scaleOf at hlt
  rw [zpow_eq_div, div_mul_eq_mul_div, lt_div_iff₀ (by positivity), mul_comm _ (one : ℚ)]
  exact_mod_cast hlt

theorem exponent_atPlace {tie : Tie} {steps : Nat} {place : Int} {d : Decimal}
    (h : atPlace tie steps place = some d) : d.exponent = place := by
  obtain ⟨first, second, -, -, e⟩ := atPlace_eq tie steps place
  rw [e] at h
  split at h
  · cases h
    rfl
  · split at h
    · cases h
      rfl
    · cases h

/-- The search goes down by as many places as it may at the most. -/
theorem lt_exponent_shortestFrom {tie : Tie} {steps : Nat} {more : Nat} {place : Int}
    (h : ∃ k < more, ∃ d, atPlace tie steps (place - k) = some d) :
    place < (shortestFrom tie steps more place).exponent + more := by
  obtain ⟨k, hk, hfound⟩ := atPlace_shortestFrom h
  rw [exponent_atPlace hfound]
  omega

variable {steps : Nat}

/-- The shortest decimal lies inside. -/
theorem inside_shortest (tie : Tie) (h : 0 < steps) :
    Inside steps ((shortest tie steps).number * one) := by
  rw [shortest, Decimal.number_stripped]
  exact inside_of_readsBack h
    (readsBack_shortestFrom ⟨16, by decide, exists_atPlace h (unitOf_mul_le h)⟩)

theorem Inside.le {q : ℚ} (h : Inside steps q) (hpos : 0 < steps) : 2 * q ≤ 3 * steps := by
  have hspacing : (spacing steps : ℚ) ≤ steps := by exact_mod_cast spacing_le hpos
  have := h.high
  linarith

/-- The shortest decimal has eighteen digits at the most. -/
theorem digits_shortest_lt (tie : Tie) (h : 0 < steps) :
    (shortest tie steps).digits < 2 * 10 ^ 17 := by
  have hfound : ∃ k : Nat, k < 17 ∧ ∃ d, atPlace tie steps (leadingPlace steps - k) = some d :=
    ⟨16, by decide, exists_atPlace h (unitOf_mul_le h)⟩
  have hexponent := lt_exponent_shortestFrom hfound
  have hinside := (inside_of_readsBack h (readsBack_shortestFrom hfound)).le h
  have hlead := lt_zpow_leadingPlace h
  refine Nat.lt_of_le_of_lt (Decimal.exponent_stripped_le 17 _).2 ?_
  generalize shortestFrom tie steps 17 (leadingPlace steps) = d at *
  -- seventeen places are tried, so the last one is this far behind the first
  have hpower : (10 : ℚ) ^ (leadingPlace steps + 1) ≤ 10 ^ 17 * 10 ^ d.exponent := by
    rw [← zpow_natCast, ← zpow_add₀ (by norm_num)]
    refine zpow_le_zpow_right₀ (by norm_num) ?_
    push_cast
    omega
  have hscaled : 2 * (d.digits * (10 : ℚ) ^ d.exponent * one) <
      3 * (10 ^ 17 * 10 ^ d.exponent * one) := by
    have := mul_le_mul_of_nonneg_right hpower cast_one_pos.le
    rw [Decimal.number] at hinside
    linarith
  have hpos : (0 : ℚ) < 10 ^ d.exponent * one := mul_pos (zpow_pos (by norm_num) _) cast_one_pos
  have hdigits : 2 * (d.digits : ℚ) < 3 * 10 ^ 17 := by
    refine lt_of_mul_lt_mul_right (a := 10 ^ d.exponent * (one : ℚ)) ?_ hpos.le
    linarith
  have hdigits' : 2 * d.digits < 3 * 10 ^ 17 := by exact_mod_cast hdigits
  omega

/-! ## Numerals -/

/-- The place of the leading digit. -/
def Decimal.place (d : Decimal) : Int := (digitsOf d.digits).length - 1 + d.exponent

/-- A layout keeps the digits and the exponent of a decimal, or it adds zeros to the digits of a plain
integer. -/
theorem Layout.scaled_arrange (layout : Layout) (negative : Bool) (d : Decimal) :
    (layout.arrange negative d).scaled = (d.digits, d.exponent) ∨
    0 ≤ d.exponent ∧ layout.isPlain d.place = true ∧
      ∃ k ≤ 1, (layout.arrange negative d).scaled =
        (d.digits * 10 ^ (d.exponent.toNat + k), -(k : Int)) := by
  have hvalue := value_digitsOf d.digits
  have hlength : 0 < (digitsOf d.digits).length := List.length_pos_iff.2 (digitsOf_ne_nil _)
  unfold Layout.arrange Decimal.place
  dsimp only
  generalize digitsOf d.digits = digits at *
  split
  · rename_i hplain
    split
    · rename_i hnonneg
      -- a whole number: zeros are filled in, and one more behind the point
      refine .inr ⟨hnonneg, hplain, ?_⟩
      have hzeros : Digit.valueBehind 0 (digits ++ List.replicate d.exponent.toNat Digit.zero) =
          d.digits * 10 ^ d.exponent.toNat := by
        rw [Digit.valueBehind_append, Digit.valueBehind_zeros, ← hvalue]
        rfl
      split
      · refine ⟨1, Nat.le_refl 1, ?_⟩
        have hpoint : Digit.valueBehind 0 (digits ++ List.replicate d.exponent.toNat Digit.zero ++
            [Digit.zero]) = d.digits * 10 ^ (d.exponent.toNat + 1) := by
          rw [Digit.valueBehind_append, hzeros, Nat.pow_succ, ← Nat.mul_assoc, Nat.mul_comm _ 10]
          rfl
        exact Prod.ext hpoint rfl
      · refine ⟨0, Nat.zero_le 1, ?_⟩
        rw [Numeral.scaled, List.append_nil]
        exact Prod.ext hzeros rfl
    · left
      split
      · rw [Numeral.scaled, List.take_append_drop, hvalue, List.length_drop]
        exact Prod.ext rfl (by dsimp only; omega)
      · -- zeros in front of the digits do not count
        rw [Numeral.scaled, List.length_append, List.length_replicate, ← List.append_assoc]
        have hzero : [Digit.zero] = List.replicate 1 Digit.zero := rfl
        rw [hzero, List.replicate_append_replicate, Digit.value_zeros_append, hvalue]
        exact Prod.ext rfl (by dsimp only; omega)
  · left
    rw [Numeral.scaled, List.take_append_drop, hvalue, List.length_drop]
    refine Prod.ext rfl ?_
    dsimp only
    rw [value_digitsOf]
    split
    · rename_i hneg
      rw [decide_eq_true_eq] at hneg
      omega
    · rename_i hneg
      rw [decide_eq_true_eq] at hneg
      omega

variable {layout : Layout} {negative : Bool} {d : Decimal}

/-- What is written is the number of the decimal. -/
theorem Layout.number_arrange (layout : Layout) (negative : Bool) (d : Decimal) :
    ((layout.arrange negative d).scaled.1 : ℚ) * 10 ^ (layout.arrange negative d).scaled.2 =
      d.number := by
  rcases layout.scaled_arrange negative d with h | ⟨hnonneg, -, k, -, h⟩
  · rw [h]
    rfl
  · rw [h, Decimal.number]
    dsimp only
    obtain ⟨e, he⟩ := Int.eq_ofNat_of_zero_le hnonneg
    rw [he, Int.toNat_natCast, zpow_neg, zpow_natCast, zpow_natCast, Nat.cast_mul, Nat.cast_pow,
      pow_add]
    field_simp
    push_cast
    ring

/-- A decimal of few digits is written with digits that fit into 64 bits. -/
theorem Layout.scaled_response_lt (h : d.digits ≠ 0) (hlt : d.digits < 2 * 10 ^ 17) :
    (response.arrange negative d).scaled.1 < gatherBound := by
  have hbound : gatherBound = 18446744073709551616 := rfl
  rcases response.scaled_arrange negative d with hs | ⟨hnonneg, hplain, k, hk, hs⟩
  · rw [hs]
    dsimp only
    omega
  · rw [hs]
    dsimp only
    have hplace : d.place ≤ 15 := by
      simp only [response, Bool.and_eq_true, decide_eq_true_eq] at hplain
      exact hplain.2
    unfold Decimal.place at hplace
    have hdigits := (pow_length_digitsOf h).2
    calc d.digits * 10 ^ (d.exponent.toNat + k)
        ≤ 10 ^ (digitsOf d.digits).length * 10 ^ (d.exponent.toNat + k) :=
          Nat.mul_le_mul_right _ hdigits.le
      _ = 10 ^ ((digitsOf d.digits).length + (d.exponent.toNat + k)) := (Nat.pow_add ..).symm
      _ ≤ 10 ^ 17 := Nat.pow_le_pow_right (by decide) (by omega)
      _ < gatherBound := by decide

/-! ## Bounds -/

/-- Half of the number of steps is still below the interval. -/
theorem Inside.ge {q : ℚ} (h : Inside steps q) (hpos : 0 < steps) : (steps : ℚ) ≤ 2 * q := by
  have hbelow : below steps ≤ 2 * steps := by
    have := below_le steps
    have := spacing_le hpos
    omega
  have hbelow' : (below steps : ℚ) ≤ 2 * steps := by exact_mod_cast hbelow
  have := h.low
  linarith

theorem bound_eq_mul_one {e : Nat} (h : e = 1024) : bound = 2 ^ e * one := by
  obtain ⟨k, hk⟩ : ∃ k, 53 + k = 2098 := ⟨2045, rfl⟩
  obtain ⟨o, ho⟩ : ∃ o, o = 1074 := ⟨_, rfl⟩
  rw [bound_eq hk, one_eq ho, ← Nat.pow_add]
  congr 1
  omega

theorem one_le_pow {k : Nat} (h : k = 324) : one ≤ 10 ^ k := by
  subst h
  decide +kernel

theorem pow_le_pow_ten {e k : Nat} (he : e = 1024) (hk : k = 309) : 3 * 2 ^ e < 2 * 10 ^ k := by
  subst he hk
  decide +kernel

/-- A decimal that lies inside of the interval of a double does not begin far behind the point. -/
theorem Inside.lt_exponent {digits : Nat} {exponent : Int}
    (h : Inside steps (digits * 10 ^ exponent * one)) (hlt : digits < gatherBound)
    (hpos : 0 < steps) : -345 < exponent := by
  have hpower : (0 : ℚ) < 10 ^ exponent := zpow_pos (by norm_num) _
  -- not as a literal: the power would be worked out
  obtain ⟨k, hk⟩ : ∃ k : Nat, k = 324 := ⟨_, rfl⟩
  have hsteps : (1 : ℚ) ≤ steps := by exact_mod_cast hpos
  have hone : (one : ℚ) ≤ 10 ^ (k : Int) := by
    rw [zpow_natCast]
    exact_mod_cast one_le_pow hk
  have hdigits : (digits : ℚ) ≤ 10 ^ (20 : Int) / 2 := by
    have : 2 * digits ≤ 10 ^ 20 := by
      have : gatherBound = 18446744073709551616 := rfl
      omega
    rw [le_div_iff₀ (by norm_num), mul_comm]
    exact_mod_cast this
  have hle : (1 : ℚ) ≤ 10 ^ (20 + exponent + k) := by
    rw [zpow_add₀ (by norm_num), zpow_add₀ (by norm_num)]
    calc (1 : ℚ) ≤ steps := hsteps
      _ ≤ 2 * (digits * 10 ^ exponent * one) := h.ge hpos
      _ = 2 * digits * 10 ^ exponent * one := by ring
      _ ≤ 10 ^ (20 : Int) * 10 ^ exponent * 10 ^ (k : Int) := by
        refine mul_le_mul (mul_le_mul_of_nonneg_right ?_ hpower.le) hone cast_one_pos.le ?_
        · linarith
        · exact (mul_pos (zpow_pos (by norm_num) _) hpower).le
  have hexponent := (one_le_zpow_iff_right₀ (by norm_num)).1 hle
  omega

/-- Nor does it have very many places before the point. -/
theorem Inside.exponent_lt {digits : Nat} {exponent : Int}
    (h : Inside steps (digits * 10 ^ exponent * one)) (hdigits : 0 < digits) (hpos : 0 < steps)
    (hbound : steps < bound) : exponent < 309 := by
  obtain ⟨e, he⟩ : ∃ e : Nat, e = 1024 := ⟨_, rfl⟩
  obtain ⟨k, hk⟩ : ∃ k : Nat, k = 309 := ⟨_, rfl⟩
  have hvalue : (0 : ℚ) < 10 ^ exponent * one := mul_pos (zpow_pos (by norm_num) _) cast_one_pos
  have hdigits' : (1 : ℚ) ≤ digits := by exact_mod_cast hdigits
  have hbound' : (steps : ℚ) ≤ 2 ^ e * one := by
    rw [bound_eq_mul_one he] at hbound
    exact_mod_cast hbound.le
  have hscaled : 2 * (10 : ℚ) ^ exponent ≤ 3 * 2 ^ e := by
    refine le_of_mul_le_mul_right (a := (one : ℚ)) ?_ cast_one_pos
    calc 2 * (10 : ℚ) ^ exponent * one = 2 * (1 * (10 ^ exponent * one)) := by ring
      _ ≤ 2 * (digits * (10 ^ exponent * one)) := by
        have := mul_le_mul_of_nonneg_right hdigits' hvalue.le
        linarith
      _ = 2 * (digits * 10 ^ exponent * one) := by ring
      _ ≤ 3 * steps := h.le hpos
      _ ≤ 3 * (2 ^ e * one) := by linarith
      _ = 3 * 2 ^ e * one := by ring
  have hless : 3 * (2 : ℚ) ^ e < 2 * 10 ^ (k : Int) := by
    rw [zpow_natCast]
    exact_mod_cast pow_le_pow_ten he hk
  have hexponent := (zpow_lt_zpow_iff_right₀ (show (1 : ℚ) < 10 by norm_num)).1
    (show (10 : ℚ) ^ exponent < 10 ^ (k : Int) by linarith)
  omega

/-- The numeral denotes the positive double: it lies inside of the double's interval, and its digits and
its exponent can be gathered. -/
structure Denotes (steps : Nat) (n : Numeral) : Prop where
  digits_pos : 0 < n.scaled.1
  digits_lt : n.scaled.1 < gatherBound
  inside : Inside steps (n.scaled.1 * 10 ^ n.scaled.2 * one)
  exponent_lt : ∀ e, n.exponent = some e → Digit.value e.digits < exponentBound

theorem Layout.exponent_arrange {e : Exponent} (h : (layout.arrange negative d).exponent = some e) :
    Digit.value e.digits = d.place.natAbs := by
  unfold Layout.arrange at h
  dsimp only at h
  split at h
  · split at h
    · cases h
    · split at h <;> cases h
  · cases h
    exact value_digitsOf _

/-- A response denotes the double that it writes. -/
theorem denotes_numeral (negative : Bool) (hpos : 0 < steps) (hbound : steps < bound) :
    Denotes steps (Layout.response.numeral negative steps) := by
  have hdigits := digits_shortest_ne_zero .toEven hpos
  have hlt := digits_shortest_lt .toEven hpos
  have hinside := inside_shortest .toEven hpos
  rw [Layout.numeral, if_neg (Nat.ne_of_gt hpos)]
  show Denotes steps (Layout.response.arrange negative (shortest .toEven steps))
  generalize shortest .toEven steps = d at *
  have hnumber := Layout.response.number_arrange negative d
  refine ⟨Nat.pos_of_ne_zero ?_, Layout.scaled_response_lt hdigits hlt, by rwa [hnumber], ?_⟩
  · intro hzero
    rw [hzero, Nat.cast_zero, zero_mul] at hnumber
    have hpower : (0 : ℚ) < d.digits * 10 ^ d.exponent :=
      mul_pos (by exact_mod_cast Nat.pos_of_ne_zero hdigits) (zpow_pos (by norm_num) _)
    exact absurd hnumber (ne_of_lt hpower)
  · intro e he
    have hbound' : gatherBound = 18446744073709551616 := rfl
    have hlow := hinside.lt_exponent (by omega) hpos
    have hhigh := hinside.exponent_lt (Nat.pos_of_ne_zero hdigits) hpos hbound
    have hlength : (digitsOf d.digits).length - 1 < 18 := by
      refine (Nat.pow_lt_pow_iff_right (show 1 < 10 by decide)).1 ?_
      exact Nat.lt_of_le_of_lt (pow_length_digitsOf hdigits).1 (Nat.lt_trans hlt (by decide))
    have hexponents : exponentBound = 2147483648 := rfl
    rw [Layout.exponent_arrange he, Decimal.place]
    omega

end Double

end Polyglot
