/-
Rounding machine numbers. A mantissa is shifted to the right until it has fifty-three digits, or as
many as the least exponent allows, while two further bits keep track of what is shifted out: enough
to tell on which side of a half the rest lies. So rounding the mantissa afterwards is rounding the
exact quotient, and the number that is packed is the double nearest to it.
-/
import Polyglot.Proofs.Double.Bits

namespace Polyglot.Double

open Float.Model (UnpackedFloat totalExponent)
open Float.Model.Format (binary64)
open Float.Model.UnpackedFloat

/-! ## Rounding -/

theorem divideToEven_mul_right {n d k : Nat} (hk : 0 < k) :
    divideToEven (n * k) (d * k) = divideToEven n d := by
  have hlt (a b : Nat) : a * k < b * k ↔ a < b := Nat.mul_lt_mul_right hk
  unfold divideToEven
  dsimp only
  simp only [Nat.mul_div_mul_right _ _ hk, Nat.mul_mod_mul_right, ← Nat.mul_assoc, hlt]

/-- Rounding looks at the value of a quotient only. -/
theorem divideToEven_congr {n d n' d' : Nat} (hd : 0 < d) (hd' : 0 < d') (h : n * d' = n' * d) :
    divideToEven n d = divideToEven n' d' := by
  rw [← divideToEven_mul_right hd', h, Nat.mul_comm d d', divideToEven_mul_right hd]

theorem nearest_congr {n d n' d' : Nat} (hd : 0 < d) (hd' : 0 < d') (h : n * d' = n' * d) :
    nearest n d = nearest n' d' := by
  have hquotient : n / d = n' / d' := by
    rw [← Nat.mul_div_mul_right n d hd', h, Nat.mul_comm d d', Nat.mul_div_mul_right n' d' hd]
  have hpos := spacing_pos (n' / d')
  unfold nearest
  dsimp only
  rw [hquotient, divideToEven_congr (Nat.mul_pos hd hpos) (Nat.mul_pos hd' hpos)]
  rw [← Nat.mul_assoc, h, Nat.mul_assoc]

/-- A quotient as a mantissa with two further bits: whether the rest is at least a half, and whether
there is something beside that. -/
def extended (n d : Nat) : ExtendedMantissa where
  mantissa := n / d
  roundBit := decide (d ≤ 2 * (n % d))
  stickyBit := decide (n % d ≠ 0 ∧ 2 * (n % d) ≠ d)

theorem extended_eq_exact (m : Nat) :
    ExtendedMantissa.ofMantissaAndAccuracy m .exact = extended m 1 := by
  rw [extended, Nat.div_one, Nat.mod_one]
  rfl

theorem extended_eq_fraction {n d : Nat} (hd : 0 < d) :
    ExtendedMantissa.ofMantissaAndAccuracy (n / d) (accuracyOfFraction (n % d) d) =
      extended n d := by
  have hbits (r s : Bool) (hr : d ≤ 2 * (n % d) ↔ r = true)
      (hs : n % d ≠ 0 ∧ 2 * (n % d) ≠ d ↔ s = true) : extended n d = ⟨n / d, r, s⟩ := by
    rw [extended, Bool.eq_iff_iff.2 (decide_eq_true_iff.trans hr),
      Bool.eq_iff_iff.2 (decide_eq_true_iff.trans hs)]
  unfold accuracyOfFraction
  by_cases hzero : n % d = 0
  · rw [if_pos hzero, hbits false false (by simp; omega) (by simp [hzero])]
    rfl
  · rw [if_neg hzero]
    rcases Nat.lt_trichotomy (2 * (n % d)) d with hlt | heq | hgt
    · rw [Nat.compare_eq_lt.2 hlt, hbits false true (by simp; omega) (by simp; omega)]
      rfl
    · rw [Nat.compare_eq_eq.2 heq, hbits true false (by simp; omega) (by simp; omega)]
      rfl
    · rw [Nat.compare_eq_gt.2 hgt, hbits true true (by simp; omega) (by simp; omega)]
      rfl

/-- The two bits tell which way to round. -/
theorem roundedMantissa_extended {n d : Nat} (hd : 0 < d) :
    (extended n d).roundedMantissa = divideToEven n d := by
  unfold extended ExtendedMantissa.roundedMantissa divideToEven
  dsimp only
  by_cases hround : d ≤ 2 * (n % d)
  · by_cases hsticky : n % d ≠ 0 ∧ 2 * (n % d) ≠ d
    · rw [decide_eq_true hround, decide_eq_true hsticky, if_neg (by omega), if_pos (by omega)]
      rfl
    · rw [decide_eq_true hround, decide_eq_false hsticky, if_neg (by omega), if_neg (by omega)]
      rfl
  · rw [decide_eq_false hround, if_pos (by omega)]
    by_cases hsticky : n % d ≠ 0 ∧ 2 * (n % d) ≠ d
    · rw [decide_eq_true hsticky]
      rfl
    · rw [decide_eq_false hsticky]
      rfl

theorem shiftRightOne_extended {n d : Nat} (hd : 0 < d) :
    (extended n d).shiftRightOne = extended n (d * 2) := by
  have hrest := Nat.mod_lt n hd
  have hmod : n % (d * 2) = n % d + d * (n / d % 2) := Nat.mod_mul
  unfold extended ExtendedMantissa.shiftRightOne
  dsimp only
  rw [Nat.div_div_eq_div_mul, hmod]
  rcases Nat.mod_two_eq_zero_or_one (n / d) with hbit | hbit
  · rw [hbit, Nat.mul_zero, Nat.add_zero, ← Bool.decide_or]
    congr 1
    · rw [decide_eq_false (by omega)]; rfl
    · rw [decide_eq_decide]; omega
  · rw [hbit, Nat.mul_one, ← Bool.decide_or]
    congr 1
    · rw [decide_eq_true (by omega)]; rfl
    · rw [decide_eq_decide]; omega

theorem shiftRight_extended {n d : Nat} (hd : 0 < d) (k : Nat) :
    extended n d >>> k = extended n (d * 2 ^ k) := by
  show k.repeat ExtendedMantissa.shiftRightOne (extended n d) = extended n (d * 2 ^ k)
  induction k with
  | zero => rw [Nat.pow_zero, Nat.mul_one]; rfl
  | succ k ih =>
    rw [Nat.repeat, ih, shiftRightOne_extended (Nat.mul_pos hd (Nat.two_pow_pos k)), Nat.pow_succ,
      Nat.mul_assoc]

/-! ## Rounding to the format -/

/-- The double nearest to a quotient of steps, infinite if that is too large. -/
def quotient (negative : Bool) (n d : Nat) : Double :=
  if bound ≤ nearest n d then .infinite negative else .finite negative (nearest n d)

theorem targetExponent_eq (m : Nat) (e : Int) :
    binary64.targetExponent (totalExponent m e) = max (m.log2 + 1 + e - 53) (-1074) := rfl

/-- The exponent that leaves a quotient fifty-three digits is that of the spacing. -/
theorem spacing_eq_pow {n d u v t : Nat} (hd : 0 < d) (hle : u ≤ t + v)
    (ht : t = (n / d).log2 + 1 + u - (53 + v)) : spacing (n * 2 ^ u / (d * 2 ^ v)) = 2 ^ t := by
  have hden : 0 < d * 2 ^ v := Nat.mul_pos hd (Nat.two_pow_pos v)
  have hn : n < 2 ^ ((n / d).log2 + 1) * d := (Nat.div_lt_iff_lt_mul hd).1 Nat.lt_log2_self
  have hhigh : n * 2 ^ u / (d * 2 ^ v) < 2 ^ (53 + t) := by
    rw [Nat.div_lt_iff_lt_mul hden]
    calc n * 2 ^ u < 2 ^ ((n / d).log2 + 1) * d * 2 ^ u :=
          Nat.mul_lt_mul_of_pos_right hn (Nat.two_pow_pos u)
      _ = 2 ^ ((n / d).log2 + 1 + u) * d := by rw [Nat.pow_add _ _ u]; ring
      _ ≤ 2 ^ (53 + t + v) * d :=
          Nat.mul_le_mul_right _ (Nat.pow_le_pow_right (by decide) (by omega))
      _ = 2 ^ (53 + t) * (d * 2 ^ v) := by rw [Nat.pow_add _ _ v]; ring
  cases t with
  | zero => rw [spacing_of_lt hhigh, Nat.pow_zero]
  | succ t =>
    have hq : n / d ≠ 0 := by
      intro hzero
      rw [hzero, Nat.log2_zero] at ht
      omega
    refine spacing_of_le_of_lt (by omega) ?_ hhigh
    rw [Nat.le_div_iff_mul_le hden]
    calc 2 ^ (52 + (t + 1)) * (d * 2 ^ v) = 2 ^ (52 + (t + 1) + v) * d := by
          rw [Nat.pow_add _ _ v]; ring
      _ = 2 ^ (n / d).log2 * d * 2 ^ u := by
          rw [show 52 + (t + 1) + v = (n / d).log2 + u by omega, Nat.pow_add]; ring
      _ ≤ n / d * d * 2 ^ u :=
          Nat.mul_le_mul_right _ (Nat.mul_le_mul_right _ (Nat.log2_self_le hq))
      _ ≤ n * 2 ^ u := Nat.mul_le_mul_right _ (Nat.div_mul_le_self n d)

/-- Rounding a mantissa at that exponent is rounding to the nearest double. -/
theorem nearest_eq_mul_pow {n d u v k t : Nat} (hd : 0 < d) (hshift : u + k = t + v)
    (ht : t = (n / d).log2 + 1 + u - (53 + v)) :
    nearest (n * 2 ^ u) (d * 2 ^ v) = divideToEven n (d * 2 ^ k) * 2 ^ t := by
  have hpow (e : Nat) : 0 < d * 2 ^ e := Nat.mul_pos hd (Nat.two_pow_pos e)
  unfold nearest
  dsimp only
  rw [spacing_eq_pow hd (by omega) ht]
  congr 1
  refine divideToEven_congr (Nat.mul_pos (hpow v) (Nat.two_pow_pos t)) (hpow k) ?_
  calc n * 2 ^ u * (d * 2 ^ k) = n * d * 2 ^ (u + k) := by rw [Nat.pow_add]; ring
    _ = n * (d * 2 ^ v * 2 ^ t) := by rw [hshift, Nat.pow_add]; ring

theorem divideToEven_le_pow {n d k : Nat} (h : (n / d).log2 + 1 ≤ 53 + k) :
    divideToEven n (d * 2 ^ k) ≤ 2 ^ 53 := by
  have hlt : n / d / 2 ^ k < 2 ^ 53 := by
    rw [Nat.div_lt_iff_lt_mul (Nat.two_pow_pos k), ← Nat.pow_add]
    exact Nat.lt_of_lt_of_le Nat.lt_log2_self (Nat.pow_le_pow_right (by decide) h)
  have hle := divideToEven_le n (d * 2 ^ k)
  rw [← Nat.div_div_eq_div_mul] at hle
  omega

theorem pow_le_divideToEven {n d k : Nat} (hq : n / d ≠ 0) (h : 52 + k ≤ (n / d).log2) :
    2 ^ 52 ≤ divideToEven n (d * 2 ^ k) := by
  refine Nat.le_trans ?_ (div_le_divideToEven n (d * 2 ^ k))
  rw [← Nat.div_div_eq_div_mul, Nat.le_div_iff_mul_le (Nat.two_pow_pos k), ← Nat.pow_add]
  exact Nat.le_trans (Nat.pow_le_pow_right (by decide) h) (Nat.log2_self_le hq)

/-- Shifting to the target exponent keeps the quotient. -/
theorem shiftToTargetExponent_eq {n d k : Nat} {e : Int} {accuracy : Accuracy} (hd : 0 < d)
    (haccuracy : ExtendedMantissa.ofMantissaAndAccuracy (n / d) accuracy = extended n d)
    (hk : (max ((n / d).log2 + 1 + e - 53) (-1074) - e).toNat = k) :
    shiftToTargetExponent binary64 (n / d) e accuracy = (extended n (d * 2 ^ k), e + k) := by
  unfold shiftToTargetExponent shiftToExponent
  dsimp only
  rw [targetExponent_eq, hk, haccuracy, shiftRight_extended hd]

/-- A rounded mantissa takes fifty-three digits, or is the next power of two and loses its last one,
a zero. -/
theorem canonical_shiftToTargetExponent {r t : Nat} (hr : r ≤ 2 ^ 53)
    (hfull : 2 ^ 52 ≤ r ∨ t = 0) :
    let shifted := shiftToTargetExponent binary64 r (t - 1074) .exact
    Canonical shifted.1.mantissa shifted.2 ∧ stepsOf shifted.1.mantissa shifted.2 = r * 2 ^ t := by
  have hexact : ExtendedMantissa.ofMantissaAndAccuracy (r / 1) .exact = extended r 1 := by
    rw [Nat.div_one, extended_eq_exact]
  have hshift (k : Nat)
      (hk : (max (r.log2 + 1 + (t - 1074 : Int) - 53) (-1074) - (t - 1074)).toNat = k) :
      shiftToTargetExponent binary64 r (t - 1074) .exact =
        (extended r (2 ^ k), (t : Int) - 1074 + k) := by
    have hone := @shiftToTargetExponent_eq r 1 k (t - 1074) .exact Nat.one_pos hexact
      (by rwa [Nat.div_one])
    rwa [Nat.div_one, Nat.one_mul] at hone
  intro shifted
  rcases Nat.lt_or_eq_of_le hr with hlt | rfl
  · have hlog : r.log2 < 53 := by
      by_cases hzero : r = 0
      · rw [hzero, Nat.log2_zero]
        decide
      · exact (Nat.log2_lt hzero).2 hlt
    have hshifted : shifted = _ := hshift 0 (by omega)
    have hm : shifted.1.mantissa = r := by rw [hshifted, extended, Nat.pow_zero, Nat.div_one]
    have he : shifted.2 = t - 1074 := by rw [hshifted]; omega
    rw [hm, he]
    refine ⟨⟨hlt, by omega, hfull.imp_right fun h => by omega⟩, ?_⟩
    rw [stepsOf, show ((t : Int) - 1074 + 1074).toNat = t by omega]
  · -- rounded up to one digit more, which one more shift takes away without loss
    have hshifted : shifted = _ := hshift 1 (by rw [Nat.log2_two_pow]; omega)
    have hm : shifted.1.mantissa = 2 ^ 52 := by rw [hshifted]; rfl
    have he : shifted.2 = t + 1 - 1074 := by rw [hshifted]; omega
    rw [hm, he]
    refine ⟨⟨by decide, by omega, .inl (Nat.le_refl _)⟩, ?_⟩
    rw [stepsOf, show ((t : Int) + 1 - 1074 + 1074).toNat = 1 + t by omega, Nat.pow_add,
      ← Nat.mul_assoc, ← Nat.pow_succ]

theorem packed_zero_or_finite {s : Sign} {m : Nat} {e : Int} (h : Canonical m e) :
    packed (if hm : m = 0 then .zero s else .finite s m e (Nat.pos_of_ne_zero hm)) =
      if bound ≤ stepsOf m e then .infinite (isNegative s)
      else .finite (isNegative s) (stepsOf m e) := by
  by_cases hm : m = 0
  · rw [dif_pos hm, hm, stepsOf, Nat.zero_mul, if_neg (Nat.not_le_of_lt representable_zero.1)]
    exact packed_zero s
  · rw [dif_neg hm]
    exact packed_finite _ h

/-- What machine numbers are rounded to is the nearest double. -/
theorem packed_roundWithAccuracy {s : Sign} {n d : Nat} {e : Int} {accuracy : Accuracy}
    (hd : 0 < d)
    (haccuracy : ExtendedMantissa.ofMantissaAndAccuracy (n / d) accuracy = extended n d)
    (he : e ≤ max ((n / d).log2 + 1 + e - 53) (-1074)) :
    packed (roundWithAccuracy binary64 s (n / d) e accuracy) =
      quotient (isNegative s) (n * 2 ^ (e + 1074).toNat) (d * 2 ^ (-1074 - e).toNat) := by
  -- named, as the powers are not to be worked out
  obtain ⟨u, hu⟩ : ∃ u, (e + 1074).toNat = u := ⟨_, rfl⟩
  obtain ⟨v, hv⟩ : ∃ v, (-1074 - e).toNat = v := ⟨_, rfl⟩
  obtain ⟨t, ht⟩ : ∃ t, t = (n / d).log2 + 1 + u - (53 + v) := ⟨_, rfl⟩
  obtain ⟨k, hk⟩ : ∃ k, (max ((n / d).log2 + 1 + e - 53) (-1074) - e).toNat = k := ⟨_, rfl⟩
  have hshift : e + k = t - 1074 := by omega
  have hfull : 2 ^ 52 ≤ divideToEven n (d * 2 ^ k) ∨ t = 0 := by
    rcases Nat.eq_zero_or_pos t with hzero | hpos
    · exact .inr hzero
    · refine .inl (pow_le_divideToEven (fun hq => ?_) (by omega))
      rw [hq, Nat.log2_zero] at ht
      omega
  obtain ⟨hcanonical, hsteps⟩ :=
    canonical_shiftToTargetExponent (divideToEven_le_pow (by omega)) hfull
  unfold roundWithAccuracy
  rw [shiftToTargetExponent_eq hd haccuracy hk, hshift]
  dsimp only
  rw [roundedMantissa_extended (Nat.mul_pos hd (Nat.two_pow_pos k)), quotient, hu, hv,
    nearest_eq_mul_pow hd (show u + k = t + v by omega) ht, ← hsteps]
  exact packed_zero_or_finite hcanonical

/-- The same for a mantissa that is exact. -/
theorem packed_roundWithAccuracy_exact {s : Sign} {m : Nat} {e : Int}
    (he : e ≤ max (m.log2 + 1 + e - 53) (-1074)) :
    packed (roundWithAccuracy binary64 s m e .exact) =
      quotient (isNegative s) (m * 2 ^ (e + 1074).toNat) (2 ^ (-1074 - e).toNat) := by
  have hrounded := @packed_roundWithAccuracy s m 1 e .exact Nat.one_pos
    (by rw [Nat.div_one, extended_eq_exact]) (by rwa [Nat.div_one])
  rwa [Nat.div_one, Nat.one_mul] at hrounded

end Polyglot.Double
