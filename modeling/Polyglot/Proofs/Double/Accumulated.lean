/-
Reading a double digit by digit. The digits of what a response writes fit into 64 bits, so all of them
are gathered. From them to the double it takes up to five roundings: of the digits, of one power of ten
or two, and after every multiplication or division. Each changes the value by less than a spacing of
the doubles around, and together with what the shortest decimal leaves out they come to less than three.
Where the digits and the power of ten are doubles themselves, the only rounding is the last one, and it
goes to the double that was written.
-/
import Polyglot.Proofs.Double.Written

namespace Polyglot.Double

/-! ## Gathering -/

theorem gatherWhole_eq (ds : List Digit) {g : Gathered}
    (h : Digit.valueBehind g.digits ds < gatherBound) :
    gatherWhole false g ds = ⟨Digit.valueBehind g.digits ds, g.exponent⟩ := by
  induction ds generalizing g with
  | nil => rfl
  | cons d ds ih =>
    rw [Digit.valueBehind_cons] at h ⊢
    have hlt := Nat.lt_of_le_of_lt (Digit.le_valueBehind (10 * g.digits + d.val) ds) h
    rw [gatherWhole, if_neg (by simpa using hlt)]
    exact ih h

theorem gatherFraction_eq (ds : List Digit) {g : Gathered}
    (h : Digit.valueBehind g.digits ds < gatherBound) :
    gatherFraction g ds = ⟨Digit.valueBehind g.digits ds, g.exponent - ds.length⟩ := by
  induction ds generalizing g with
  | nil => simp [gatherFraction, Digit.valueBehind]
  | cons d ds ih =>
    rw [Digit.valueBehind_cons] at h ⊢
    have hlt := Nat.lt_of_le_of_lt (Digit.le_valueBehind (10 * g.digits + d.val) ds) h
    rw [gatherFraction, if_neg (by omega), ih h, List.length_cons]
    congr 1
    push_cast
    omega

/-- All digits are gathered if they fit. -/
theorem accumulate_eq {n : Numeral} (hdigits : n.scaled.1 < gatherBound)
    (hexponent : ∀ e, n.exponent = some e → Digit.value e.digits < exponentBound) :
    accumulate n = (scale ⟨n.scaled.1, n.scaled.2⟩).map (.finite n.negative) := by
  obtain ⟨negative, whole, fraction, exponent⟩ := n
  have hall : Digit.value (whole ++ fraction) =
      Digit.valueBehind (Digit.valueBehind 0 whole) fraction := Digit.valueBehind_append 0 _ _
  have hlt : Digit.valueBehind (Digit.valueBehind 0 whole) fraction < gatherBound :=
    hall ▸ hdigits
  -- what has been gathered only grows, so the last bound holds all along
  have hwhole := Nat.lt_of_le_of_lt (Digit.le_valueBehind _ fraction) hlt
  unfold accumulate
  rw [gatherWhole_eq whole hwhole, gatherFraction_eq fraction hlt, Numeral.scaled, hall]
  cases exponent with
  | none =>
    dsimp only
  | some e =>
    have hless := hexponent e rfl
    dsimp only
    rw [if_neg (Nat.not_le.2 hless)]
    congr 3
    cases e.negative with
    | true =>
      rw [if_pos rfl, if_pos rfl]
      omega
    | false =>
      rw [if_neg Bool.false_ne_true, if_neg Bool.false_ne_true]
      omega

/-! ## Small errors -/

section Errors

variable {a a' b b' r s : ℚ}

theorem abs_mul_sub_le (ha : 0 ≤ a) (hb : 0 ≤ b) (h : |a' - a| ≤ r * a) (h' : |b' - b| ≤ s * b) :
    |a' * b' - a * b| ≤ (r + s + r * s) * (a * b) := by
  have hsplit : a' * b' - a * b = (a' - a) * b + a * (b' - b) + (a' - a) * (b' - b) := by ring
  have hboth := mul_le_mul h h' (abs_nonneg _) (le_trans (abs_nonneg _) h)
  calc |a' * b' - a * b|
      ≤ |(a' - a) * b| + |a * (b' - b)| + |(a' - a) * (b' - b)| := by
        rw [hsplit]
        exact (abs_add_le _ _).trans (add_le_add_left (abs_add_le _ _) _)
    _ = |a' - a| * b + a * |b' - b| + |a' - a| * |b' - b| := by
        rw [abs_mul, abs_mul, abs_mul, abs_of_nonneg hb, abs_of_nonneg ha]
    _ ≤ r * a * b + a * (s * b) + r * a * (s * b) := by
        have h1 := mul_le_mul_of_nonneg_right h hb
        have h2 := mul_le_mul_of_nonneg_left h' ha
        linarith
    _ = (r + s + r * s) * (a * b) := by ring

/-- For a small error of the divisor the error of the quotient is not much more than the sum of both
errors. -/
theorem abs_div_sub_le (ha : 0 ≤ a) (hb : 0 < b) (hs : s ≤ 1 / 2) (h : |a' - a| ≤ r * a)
    (h' : |b' - b| ≤ s * b) : |a' / b' - a / b| ≤ (r + s) * (1 + 2 * s) * (a / b) := by
  have hs0 : 0 ≤ s := by
    by_contra hneg
    have := abs_nonneg (b' - b)
    nlinarith
  have hb' : (1 - s) * b ≤ b' := by
    have := (abs_le.1 h').1
    linarith
  have hpos : 0 < b' := lt_of_lt_of_le (mul_pos (by linarith) hb) hb'
  -- over one denominator, both errors stand in the numerator
  have hsplit : a' / b' - a / b = ((a' - a) * b - a * (b' - b)) / (b' * b) := by
    field_simp
    ring
  have hnumerator : |(a' - a) * b - a * (b' - b)| ≤ (r + s) * (a * b) := by
    calc |(a' - a) * b - a * (b' - b)| ≤ |(a' - a) * b| + |a * (b' - b)| := abs_sub _ _
      _ = |a' - a| * b + a * |b' - b| := by
        rw [abs_mul, abs_mul, abs_of_pos hb, abs_of_nonneg ha]
      _ ≤ r * a * b + a * (s * b) := by
        have h1 := mul_le_mul_of_nonneg_right h hb.le
        have h2 := mul_le_mul_of_nonneg_left h' ha
        linarith
      _ = (r + s) * (a * b) := by ring
  rw [hsplit, abs_div, abs_of_pos (mul_pos hpos hb), div_le_iff₀ (mul_pos hpos hb)]
  have hnonneg : 0 ≤ (r + s) * a := by
    refine nonneg_of_mul_nonneg_left ?_ hb
    calc 0 ≤ |(a' - a) * b - a * (b' - b)| := abs_nonneg _
      _ ≤ (r + s) * (a * b) := hnumerator
      _ = (r + s) * a * b := by ring
  -- dividing by the smaller of the two costs a factor near one
  have hbound : b ≤ (1 + 2 * s) * b' := by
    calc b ≤ (1 + 2 * s) * ((1 - s) * b) := by nlinarith [mul_nonneg hs0 (sub_nonneg.2 hs)]
      _ ≤ (1 + 2 * s) * b' := mul_le_mul_of_nonneg_left hb' (by linarith)
  calc |(a' - a) * b - a * (b' - b)| ≤ (r + s) * (a * b) := hnumerator
    _ = (r + s) * a * b := by ring
    _ ≤ (r + s) * a * ((1 + 2 * s) * b') := mul_le_mul_of_nonneg_left hbound hnonneg
    _ = (r + s) * (1 + 2 * s) * (a / b) * (b' * b) := by
      field_simp

end Errors

/-! ## The rounded parts -/

theorem cast_mul_one_nonneg (digits : Nat) : (0 : ℚ) ≤ digits * one :=
  mul_nonneg (Nat.cast_nonneg _) cast_one_pos.le

theorem two_pow_le_one : 2 ^ 52 ≤ one := by
  obtain ⟨o, ho⟩ : ∃ o, o = 1074 := ⟨_, rfl⟩
  rw [one_eq ho]
  exact Nat.pow_le_pow_right (by decide) (by omega)

/-- A whole number is changed by a small part of itself. -/
theorem abs_whole_sub_le {digits : Nat} (h : 0 < digits) :
    |(nearest (digits * one) 1 : ℚ) - digits * one| ≤ 1 / 2 ^ 53 * (digits * one) := by
  have hle : 2 ^ 52 ≤ digits * one := Nat.le_trans two_pow_le_one (Nat.le_mul_of_pos_left one h)
  have hle' : (2 : ℚ) ^ 52 ≤ (digits * one : Nat) / (1 : Nat) := by
    rw [Nat.cast_one, div_one]
    exact_mod_cast hle
  have herror := abs_nearest_sub_le_mul Nat.one_pos hle'
  rw [Nat.cast_one, div_one, Nat.cast_mul] at herror
  rwa [one_div_mul_eq_div]

theorem powerOfTen_pos (k : Nat) : 0 < powerOfTen k :=
  nearest_pos (Nat.mul_pos (Nat.pow_pos (by decide)) one_pos)

theorem abs_power_div_sub_le {k : Nat} {r : ℚ}
    (h : |(powerOfTen k : ℚ) - 10 ^ k * one| ≤ r * (10 ^ k * one)) :
    |(powerOfTen k : ℚ) / one - 10 ^ k| ≤ r * 10 ^ k := by
  have hone := cast_one_pos
  have hsplit : (powerOfTen k : ℚ) / one - 10 ^ k = (powerOfTen k - 10 ^ k * one) / one := by
    rw [sub_div, mul_div_cancel_right₀ _ (ne_of_gt hone)]
  rw [hsplit, abs_div, abs_of_pos hone, div_le_iff₀ hone, mul_assoc]
  exact h

/-- A power of ten is changed by a small part of itself. -/
theorem abs_power_sub_le (k : Nat) : |(powerOfTen k : ℚ) / one - 10 ^ k| ≤ 1 / 2 ^ 53 * 10 ^ k := by
  have herror := abs_whole_sub_le (show 0 < 10 ^ k from Nat.pow_pos (by decide))
  rw [Nat.cast_pow, Nat.cast_ofNat] at herror
  exact abs_power_div_sub_le herror

/-- The largest power of ten happens to lie close to a double. -/
theorem abs_greatest_sub_le {k : Nat} (h : k = greatestPower) :
    |(powerOfTen k : ℚ) / one - 10 ^ k| ≤ 1 / 2 ^ 56 * 10 ^ k := by
  have hnear : 2 ^ 56 * powerOfTen k ≤ (2 ^ 56 + 1) * (10 ^ k * one) ∧
      2 ^ 56 * (10 ^ k * one) ≤ 2 ^ 56 * powerOfTen k + 10 ^ k * one := by
    subst h
    decide +kernel
  have hhigh : 2 ^ 56 * (powerOfTen k : ℚ) ≤ (2 ^ 56 + 1) * (10 ^ k * one) := by
    exact_mod_cast hnear.1
  have hlow : 2 ^ 56 * ((10 : ℚ) ^ k * one) ≤ 2 ^ 56 * powerOfTen k + 10 ^ k * one := by
    exact_mod_cast hnear.2
  refine abs_power_div_sub_le ?_
  generalize (10 : ℚ) ^ k * one = power at *
  rw [abs_le]
  constructor <;> linarith

/-- Powers of ten of few digits are doubles. -/
theorem powerOfTen_eq {k : Nat} (h : k ≤ 22) : powerOfTen k = 10 ^ k * one := by
  have hall : ∀ k < 23, powerOfTen k = Nat.pow 10 k * one := by decide +kernel
  exact hall k (by omega)

/-! ## Scaling -/

variable {digits k : Nat}

/-- So close to the value are the quotients that are rounded at last. -/
def Close (q value : ℚ) : Prop := |q - value| ≤ 9 / 4 / 2 ^ 53 * value + 1 / 5

theorem close_product (h : 0 < digits) (k : Nat) :
    Close ((nearest (digits * one) 1 * powerOfTen k : Nat) / (one : Nat))
      (digits * one * 10 ^ k) := by
  have hwhole := abs_whole_sub_le h
  have hpower := abs_power_sub_le k
  have hvalue := cast_mul_one_nonneg digits
  have hten : (0 : ℚ) ≤ 10 ^ k := by positivity
  rw [Close, Nat.cast_mul, mul_div_assoc]
  have herror := abs_mul_sub_le hvalue hten hwhole hpower
  have hproduct := mul_nonneg hvalue hten
  generalize (digits : ℚ) * one * 10 ^ k = value at *
  generalize (nearest (digits * one) 1 : ℚ) * (powerOfTen k / one) = q at *
  norm_num at herror ⊢
  linarith

theorem close_quotient (h : 0 < digits) (k : Nat) :
    Close ((nearest (digits * one) 1 * one : Nat) / (powerOfTen k : Nat))
      (digits * one / 10 ^ k) := by
  have hwhole := abs_whole_sub_le h
  have hpower := abs_power_sub_le k
  have hvalue := cast_mul_one_nonneg digits
  have hten : (0 : ℚ) < 10 ^ k := by positivity
  rw [Close, Nat.cast_mul, ← div_div_eq_mul_div]
  have herror := abs_div_sub_le hvalue hten (by norm_num) hwhole hpower
  have hquotient := div_nonneg hvalue hten.le
  generalize (digits : ℚ) * one / 10 ^ k = value at *
  generalize (nearest (digits * one) 1 : ℚ) / (powerOfTen k / one) = q at *
  norm_num at herror ⊢
  linarith

/-- The first of two divisions, by the largest power of ten. -/
theorem abs_first_quotient_sub_le (h : 0 < digits) {first : Nat} (hfirst : first = greatestPower) :
    |(nearest (nearest (digits * one) 1 * one) (powerOfTen first) : ℚ) - digits * one / 10 ^ first| ≤
      1 / 2 + 35 / 16 / 2 ^ 53 * (digits * one / 10 ^ first) := by
  have hwhole := abs_whole_sub_le h
  have hpower := abs_greatest_sub_le hfirst
  have hvalue := cast_mul_one_nonneg digits
  have hten : (0 : ℚ) < 10 ^ first := by positivity
  have hrounded := abs_nearest_sub_le_add (nearest (digits * one) 1 * one) (powerOfTen_pos first)
  have herror := abs_div_sub_le hvalue hten (by norm_num) hwhole hpower
  have hquotient := div_nonneg hvalue hten.le
  rw [div_div_eq_mul_div, ← Nat.cast_mul] at herror
  -- the powers are not to be worked out
  generalize (digits : ℚ) * one / 10 ^ first = value at *
  generalize ((nearest (digits * one) 1 * one : Nat) : ℚ) / powerOfTen first = q at *
  generalize (nearest (nearest (digits * one) 1 * one) (powerOfTen first) : ℚ) = r at *
  rw [abs_le] at *
  norm_num at herror hrounded ⊢
  obtain ⟨hl, hh⟩ := herror
  obtain ⟨hl', hh'⟩ := hrounded
  constructor <;> linarith

/-- The second division, by a power of ten that is a double or where the value is small. -/
theorem close_quotients (h : 0 < digits) {first : Nat} (hfirst : first = greatestPower) (hk : 0 < k)
    (hsmall : k ≤ 22 ∨ (digits : ℚ) * one / 10 ^ first / 10 ^ k ≤ 10 ^ 13) :
    Close ((nearest (nearest (digits * one) 1 * one) (powerOfTen first) * one : Nat) /
      (powerOfTen k : Nat)) (digits * one / 10 ^ first / 10 ^ k) := by
  have hfirst' := abs_first_quotient_sub_le h hfirst
  have hvalue : (0 : ℚ) ≤ digits * one / 10 ^ first :=
    div_nonneg (cast_mul_one_nonneg digits) (by positivity)
  have hten : (10 : ℚ) ≤ 10 ^ k := by
    calc (10 : ℚ) = 10 ^ 1 := (pow_one _).symm
      _ ≤ 10 ^ k := pow_le_pow_right₀ (by norm_num) hk
  have hr : (0 : ℚ) ≤ nearest (nearest (digits * one) 1 * one) (powerOfTen first) := Nat.cast_nonneg _
  rw [Close, Nat.cast_mul, ← div_div_eq_mul_div]
  generalize (digits : ℚ) * one / 10 ^ first = value at *
  generalize (nearest (nearest (digits * one) 1 * one) (powerOfTen first) : ℚ) = r at *
  have hpos : (0 : ℚ) < 10 ^ k := by positivity
  -- the second division shrinks the error of the first one too
  have hdivided : |r / 10 ^ k - value / 10 ^ k| ≤ 1 / 20 + 35 / 16 / 2 ^ 53 * (value / 10 ^ k) := by
    rw [← sub_div, abs_div, abs_of_pos hpos, div_le_iff₀ hpos, add_mul, mul_assoc,
      div_mul_cancel₀ _ (ne_of_gt hpos)]
    linarith
  have hnonneg := div_nonneg hvalue hpos.le
  rcases hsmall with hexact | hsmall
  · -- this power of ten is a double
    rw [powerOfTen_eq hexact, Nat.cast_mul, Nat.cast_pow, Nat.cast_ofNat,
      mul_div_cancel_right₀ _ (ne_of_gt cast_one_pos)]
    generalize value / 10 ^ k = v at *
    norm_num at hdivided ⊢
    linarith
  · -- rounding of the power of ten is a small part of a value that is not large
    have hpower : |r / (powerOfTen k / one) - r / 10 ^ k| ≤ _ :=
      abs_div_sub_le (r := 0) hr hpos (by norm_num) (by simp) (abs_power_sub_le k)
    generalize r / (powerOfTen k / (one : ℚ)) = q at *
    generalize value / 10 ^ k = v at *
    generalize r / 10 ^ k = r' at *
    rw [abs_le] at *
    norm_num at hdivided hpower hsmall ⊢
    obtain ⟨hl, hh⟩ := hdivided
    obtain ⟨hl', hh'⟩ := hpower
    constructor <;> linarith

theorem scale_product (hk : k ≤ greatestPower)
    (h : nearest (nearest (digits * one) 1 * powerOfTen k) one < bound) :
    scale ⟨digits, k⟩ = some (nearest (nearest (digits * one) 1 * powerOfTen k) one) := by
  unfold scale
  dsimp only
  rw [if_pos (Int.natCast_nonneg k), Int.toNat_natCast, if_pos hk, if_pos h]

theorem scale_quotient (hpos : 0 < k) (hk : k ≤ greatestPower) :
    scale ⟨digits, -(k : Int)⟩ = some (nearest (nearest (digits * one) 1 * one) (powerOfTen k)) := by
  unfold scale
  dsimp only
  rw [if_neg (by omega), Int.neg_neg, Int.toNat_natCast, divideByPowers, if_pos hk]

theorem scale_quotients (h : 0 < digits) (hpos : 0 < k) (hk : k ≤ greatestPower) :
    scale ⟨digits, -((greatestPower + k : Nat) : Int)⟩ =
      some (nearest (nearest (nearest (digits * one) 1 * one) (powerOfTen greatestPower) * one)
        (powerOfTen k)) := by
  have hne : nearest (digits * one) 1 ≠ 0 :=
    Nat.ne_of_gt (nearest_pos (Nat.mul_pos h one_pos))
  unfold scale
  dsimp only
  rw [if_neg (by omega), Int.neg_neg, Int.toNat_natCast, divideByPowers, if_neg (by omega), if_neg hne,
    Nat.add_sub_cancel_left]
  dsimp only
  rw [divideByPowers, if_pos hk]

/-- Behind so many places only a small number of steps is left. -/
theorem div_div_pow_le {first : Nat} (hlt : digits < gatherBound) (h : 331 ≤ first + k) :
    (digits : ℚ) * one / 10 ^ first / 10 ^ k ≤ 10 ^ 13 := by
  obtain ⟨a, ha⟩ : ∃ a : Nat, a = 324 := ⟨_, rfl⟩
  have hdigits : digits ≤ 10 ^ 20 := by
    have : gatherBound = 18446744073709551616 := rfl
    omega
  have hle : digits * one ≤ 10 ^ 13 * 10 ^ (first + k) := by
    calc digits * one ≤ 10 ^ 20 * 10 ^ a := Nat.mul_le_mul hdigits (one_le_pow ha)
      _ = 10 ^ (20 + a) := (Nat.pow_add ..).symm
      _ ≤ 10 ^ (13 + (first + k)) := Nat.pow_le_pow_right (by decide) (by omega)
      _ = 10 ^ 13 * 10 ^ (first + k) := Nat.pow_add ..
  rw [div_div, ← pow_add, div_le_iff₀ (by positivity)]
  exact_mod_cast hle

/-- What is gathered is scaled to a double whose value was close before it was rounded at last. -/
theorem exists_scale {exponent : Int} (hpos : 0 < digits) (hlt : digits < gatherBound)
    (hlow : -345 < exponent) (hhigh : exponent < 309) :
    ∃ n d : Nat, 0 < d ∧ Close (n / d) (digits * 10 ^ exponent * one) ∧
      (nearest n d < bound → scale ⟨digits, exponent⟩ = some (nearest n d)) := by
  have hgreatest : greatestPower = 308 := rfl
  rcases Int.lt_or_le exponent 0 with hneg | hnonneg
  · obtain ⟨k, rfl⟩ : ∃ k : Nat, exponent = -(k : Int) := ⟨exponent.natAbs, by omega⟩
    by_cases hk : k ≤ greatestPower
    · refine ⟨_, _, powerOfTen_pos k, ?_, fun _ => scale_quotient (by omega) hk⟩
      have hclose := close_quotient hpos k
      rwa [zpow_neg, zpow_natCast, mul_right_comm, ← div_eq_mul_inv]
    · obtain ⟨k, rfl⟩ := Nat.exists_eq_add_of_le (Nat.le_of_not_le hk)
      refine ⟨_, _, powerOfTen_pos k, ?_, fun _ => scale_quotients hpos (by omega) (by omega)⟩
      obtain ⟨first, hfirst⟩ : ∃ first, first = greatestPower := ⟨_, rfl⟩
      -- so many digits at most, and the second division leaves a small value
      have hsmall : k ≤ 22 ∨ (digits : ℚ) * one / 10 ^ first / 10 ^ k ≤ 10 ^ 13 := by
        by_cases hk' : k ≤ 22
        · exact .inl hk'
        · exact .inr (div_div_pow_le hlt (by omega))
      have hclose := close_quotients hpos hfirst (by omega) hsmall
      rwa [← hfirst, zpow_neg, zpow_natCast, mul_right_comm, ← div_eq_mul_inv, pow_add, ← div_div]
  · obtain ⟨k, rfl⟩ := Int.eq_ofNat_of_zero_le hnonneg
    refine ⟨_, _, one_pos, ?_, scale_product (by omega)⟩
    have hclose := close_product hpos k
    rwa [zpow_natCast, mul_right_comm]

/-! ## Reading what is written -/

variable {steps : Nat}

theorem add_spacing_le (hdvd : spacing steps ∣ steps) :
    steps + spacing steps ≤ 2 ^ 53 * spacing steps := by
  have hlt := lt_mul_spacing steps
  obtain ⟨m, hm⟩ := hdvd
  generalize spacing steps = unit at *
  have hless : m < 2 ^ 53 := by
    refine Nat.lt_of_mul_lt_mul_left (a := unit) ?_
    rwa [← hm, Nat.mul_comm unit]
  calc steps + unit = (m + 1) * unit := by rw [hm]; ring
    _ ≤ 2 ^ 53 * unit := Nat.mul_le_mul_right unit hless

/-- What is close to a value inside of the interval of a double is less than three spacings away. -/
theorem Inside.lt_of_close {q value : ℚ} (h : Inside steps value) (hdvd : spacing steps ∣ steps)
    (hclose : Close q value) : |q - steps| < 3 * spacing steps := by
  have hnear := h.abs_sub_le
  have hunit : (1 : ℚ) ≤ spacing steps := by exact_mod_cast spacing_pos steps
  have hsum : (steps : ℚ) + spacing steps ≤ 2 ^ 53 * spacing steps := by
    exact_mod_cast add_spacing_le hdvd
  rw [Close] at hclose
  rw [abs_le] at hnear hclose
  obtain ⟨hl, hh⟩ := hnear
  obtain ⟨hl', hh'⟩ := hclose
  rw [abs_lt]
  norm_num at hl' hh' hsum
  constructor <;> linarith

/-- The three largest doubles are read as one of them. -/
theorem accumulate_largest (negative : Bool) {k : Nat} (hk : k = 2045) : ∀ j < 3, ∃ i < 3,
    accumulate (Layout.response.numeral negative (bound - (j + 1) * 2 ^ k)) =
        some (.finite negative (bound - (i + 1) * 2 ^ k)) ∧
      Representable (bound - (i + 1) * 2 ^ k) := by
  subst hk
  revert negative
  decide +kernel

theorem negative_numeral (layout : Layout) (negative : Bool) (steps : Nat) :
    (layout.numeral negative steps).negative = negative := by
  unfold Layout.numeral
  split
  · rfl
  · unfold Layout.arrange
    dsimp only
    split_ifs <;> rfl

theorem accumulate_zero (negative : Bool) :
    accumulate (Layout.response.numeral negative 0) = some (.finite negative 0) := by
  cases negative <;> decide +kernel

/-- Only the three largest doubles are so close to the bound. -/
theorem eq_of_bound_lt (h : Representable steps) {k : Nat} (hk : 53 + k = 2098)
    (hlt : bound < steps + 4 * spacing steps) :
    ∃ j < 3, steps = bound - (j + 1) * 2 ^ k ∧ spacing steps = 2 ^ k := by
  obtain ⟨hbound, hdvd⟩ := h
  rw [bound_eq hk] at hbound hlt ⊢
  -- smaller doubles are more than four spacings away from the bound
  have hge : 2 ^ (52 + k) ≤ steps := by
    by_contra hless
    rw [Nat.not_le] at hless
    have hspacing : spacing steps ≤ 2 ^ k := by
      have hmono := spacing_mono hless.le
      rwa [spacing_of_le_of_lt (e := k) (by omega) (Nat.le_refl _)
        (Nat.pow_lt_pow_right (by decide) (by omega))] at hmono
    rw [Nat.pow_add] at hless hlt
    omega
  have hspacing : spacing steps = 2 ^ k := spacing_of_le_of_lt (by omega) hge hbound
  rw [hspacing] at hdvd hlt
  obtain ⟨m, hm⟩ := hdvd
  rw [hm, Nat.pow_add, Nat.mul_comm (2 ^ k)] at hbound hlt
  have hm1 : m < 2 ^ 53 := Nat.lt_of_mul_lt_mul_right hbound
  have hm2 : 2 ^ 53 < m + 4 := by
    rw [← Nat.add_mul] at hlt
    exact Nat.lt_of_mul_lt_mul_right hlt
  refine ⟨2 ^ 53 - m - 1, by omega, ?_, hspacing⟩
  rw [hm, Nat.pow_add, ← Nat.sub_mul, Nat.mul_comm]
  congr 1
  omega

/-- A finite double that is written in a response is read as a finite one of the same sign, at most
three spacings away. -/
theorem accumulate_numeral (negative : Bool) (h : Representable steps) :
    ∃ steps', accumulate (Layout.response.numeral negative steps) = some (.finite negative steps') ∧
      Representable steps' ∧
      steps' ≤ steps + 3 * spacing steps ∧ steps ≤ steps' + 3 * spacing steps := by
  obtain ⟨k, hk⟩ : ∃ k, 53 + k = 2098 := ⟨2045, rfl⟩
  rcases Nat.eq_zero_or_pos steps with rfl | hpos
  · exact ⟨0, accumulate_zero negative, h, by omega, by omega⟩
  by_cases hlast : steps + 4 * spacing steps ≤ bound
  · have hdenotes := denotes_numeral negative hpos h.1
    obtain ⟨n, d, hd, hclose, hscale⟩ := exists_scale hdenotes.digits_pos hdenotes.digits_lt
      (hdenotes.inside.lt_exponent hdenotes.digits_lt hpos)
      (hdenotes.inside.exponent_lt hdenotes.digits_pos hpos h.1)
    obtain ⟨hhigh, hlow⟩ := nearest_within hd h.2 (hdenotes.inside.lt_of_close h.2 hclose)
    have hunit := spacing_pos steps
    refine ⟨nearest n d, ?_, ⟨by omega, spacing_dvd_nearest n d⟩, hhigh, hlow⟩
    rw [accumulate_eq hdenotes.digits_lt hdenotes.exponent_lt, hscale (by omega), negative_numeral]
    rfl
  · -- next to the bound the result could be infinite, so these three doubles are read one by one
    obtain ⟨j, hj, hsteps, hspacing⟩ := eq_of_bound_lt h hk (Nat.lt_of_not_le hlast)
    obtain ⟨i, hi, hread, hrepresentable⟩ := accumulate_largest negative (k := k) (by omega) j hj
    rw [← hsteps] at hread
    refine ⟨_, hread, hrepresentable, ?_, ?_⟩
    · have := Nat.mul_le_mul_right (2 ^ k) (show j + 1 ≤ i + 1 + 3 by omega)
      rw [Nat.add_mul _ 3] at this
      omega
    · have := Nat.mul_le_mul_right (2 ^ k) (show i + 1 ≤ j + 1 + 3 by omega)
      rw [Nat.add_mul _ 3] at this
      omega

/-- Digits and a power of ten that are doubles are scaled with one rounding only. -/
theorem scale_exact {exponent : Int} (h : Representable steps)
    (hinside : Inside steps (digits * 10 ^ exponent * one))
    (hdigits : spacing (digits * one) ∣ digits * one) (hexponent : exponent.natAbs ≤ 22) :
    scale ⟨digits, exponent⟩ = some steps := by
  have hgreatest : greatestPower = 308 := rfl
  have hone := ne_of_gt cast_one_pos
  have hwhole := nearest_of_dvd hdigits
  rcases Int.lt_or_le exponent 0 with hneg | hnonneg
  · obtain ⟨k, rfl⟩ : ∃ k : Nat, exponent = -(k : Int) := ⟨exponent.natAbs, by omega⟩
    have hpower := powerOfTen_eq (k := k) (by omega)
    have hnearest : nearest (digits * one * one) (powerOfTen k) = steps := by
      refine nearest_of_inside (powerOfTen_pos k) h.2 ?_
      rw [hpower]
      push_cast
      rwa [mul_div_mul_right _ _ hone, div_eq_mul_inv, mul_right_comm, ← zpow_natCast, ← zpow_neg]
    rw [scale_quotient (by omega) (by omega), hwhole, hnearest]
  · obtain ⟨k, rfl⟩ := Int.eq_ofNat_of_zero_le hnonneg
    have hpower := powerOfTen_eq (k := k) (by omega)
    have hnearest : nearest (nearest (digits * one) 1 * powerOfTen k) one = steps := by
      refine nearest_of_inside one_pos h.2 ?_
      rw [hwhole, hpower]
      push_cast
      rwa [← mul_assoc, mul_div_cancel_right₀ _ hone, mul_right_comm, ← zpow_natCast]
    rw [scale_product (by omega) (hnearest ▸ h.1), hnearest]

/-- A double is read back if the digits that are written for it are a double as a whole number, and so
is the power of ten. -/
theorem accumulate_numeral_exact (negative : Bool) (h : Representable steps)
    (hdigits : Representable ((Layout.response.numeral negative steps).scaled.1 * one))
    (hexponent : (Layout.response.numeral negative steps).scaled.2.natAbs ≤ 22) :
    accumulate (Layout.response.numeral negative steps) = some (.finite negative steps) := by
  rcases Nat.eq_zero_or_pos steps with rfl | hpos
  · exact accumulate_zero negative
  have hdenotes := denotes_numeral negative hpos h.1
  rw [accumulate_eq hdenotes.digits_lt hdenotes.exponent_lt,
    scale_exact h hdenotes.inside hdigits.2 hexponent, negative_numeral]
  rfl

end Polyglot.Double
