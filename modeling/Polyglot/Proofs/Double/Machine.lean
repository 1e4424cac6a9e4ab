/-
Machine arithmetic. Products, quotients and differences of machine numbers are worked out exactly,
or to more digits than are kept, and rounded once; so each is the double nearest to the exact
result. Natural numbers become the doubles nearest to them, on a shorter way if they are small.
-/
import Polyglot.Proofs.Double.Rounding

namespace Polyglot.Double

open Float.Model (UnpackedFloat totalExponent)
open Float.Model.Format (binary64)
open Float.Model.UnpackedFloat

/-! ## Quotients and differences -/

theorem quotient_congr {negative : Bool} {n d n' d' : Nat} (hd : 0 < d) (hd' : 0 < d')
    (h : n * d' = n' * d) : quotient negative n d = quotient negative n' d' := by
  rw [quotient, nearest_congr hd hd' h]
  rfl

theorem quotient_of_lt {negative : Bool} {n d : Nat} (h : nearest n d < bound) :
    quotient negative n d = .finite negative (nearest n d) :=
  if_neg (Nat.not_le_of_lt h)

theorem quotient_of_representable {negative : Bool} {steps : Nat} (h : Representable steps) :
    quotient negative steps 1 = .finite negative steps := by
  have hnearest := nearest_of_dvd h.2
  rw [quotient_of_lt (hnearest.symm ▸ h.1), hnearest]

theorem quotient_zero (negative : Bool) {d : Nat} (hd : 0 < d) :
    quotient negative 0 d = .finite negative 0 := by
  rw [← quotient_of_representable representable_zero]
  exact quotient_congr hd Nat.one_pos (by rw [Nat.zero_mul, Nat.zero_mul])

theorem rounded_eq_quotient {negative : Bool} {z : Int} (h : z ≠ 0) :
    rounded negative z = quotient (decide (z < 0)) z.natAbs 1 := by
  rw [rounded, if_neg h]
  rfl

theorem rounded_zero (negative : Bool) : rounded negative 0 = .finite negative 0 := by
  rw [rounded, if_pos rfl]
  exact quotient_of_representable representable_zero

theorem rounded_congr {negative negative' : Bool} {z : Int} (h : z = 0 → negative = negative') :
    rounded negative z = rounded negative' z := by
  by_cases hz : z = 0
  · rw [h hz]
  · rw [rounded_eq_quotient hz, rounded_eq_quotient hz]

theorem rounded_signed {negative t : Bool} {b : Nat} (hb : 0 < b) :
    rounded negative (signed t b) = quotient t b 1 := by
  cases t with
  | false =>
    show rounded negative (b : Int) = _
    rw [rounded_eq_quotient (by omega), decide_eq_false (by omega), Int.natAbs_natCast]
  | true =>
    show rounded negative (-(b : Int)) = _
    rw [rounded_eq_quotient (by omega), decide_eq_true (by omega), Int.natAbs_neg,
      Int.natAbs_natCast]

theorem rounded_natCast (steps : Nat) : rounded false steps = quotient false steps 1 := by
  rcases Nat.eq_zero_or_pos steps with rfl | hpos
  · rw [quotient_zero false Nat.one_pos, Int.natCast_zero, rounded_zero]
  · have hsigned : signed false steps = steps := rfl
    rw [← hsigned, rounded_signed hpos]

theorem signed_zero (negative : Bool) : signed negative 0 = 0 := by
  cases negative <;> rfl

theorem neg_signed (negative : Bool) (steps : Nat) :
    -signed negative steps = signed (!negative) steps := by
  cases negative
  · rfl
  · exact Int.neg_neg _

theorem signed_mul (s : Sign) (m d : Nat) : signed (isNegative s) (m * d) = s.apply m * d := by
  cases s with
  | negative =>
    show -((m * d : Nat) : Int) = -(m : Int) * d
    rw [Int.natCast_mul, Int.neg_mul]
  | positive => exact Int.natCast_mul m d

theorem isNegative_mul (s t : Sign) : isNegative (s * t) = (isNegative s != isNegative t) := by
  cases s <;> cases t <;> rfl

theorem isNegative_div (s t : Sign) : isNegative (s / t) = (isNegative s != isNegative t) := by
  cases s <;> cases t <;> rfl

theorem isNegative_neg (s : Sign) : isNegative (-s) = !isNegative s := by
  cases s <;> rfl

/-! ## Unpacked numbers -/

theorem log2_mul_pow {m k : Nat} (h : m ≠ 0) : (m * 2 ^ k).log2 = m.log2 + k := by
  have hpos : 0 < 2 ^ k := Nat.two_pow_pos k
  rw [Nat.log2_eq_iff (Nat.mul_ne_zero h (by omega)), Nat.pow_add, Nat.add_right_comm, Nat.pow_add]
  exact ⟨Nat.mul_le_mul_right _ (Nat.log2_self_le h),
    Nat.mul_lt_mul_of_pos_right Nat.lt_log2_self hpos⟩

theorem stepsOf_pos {m : Nat} (hm : 0 < m) (e : Int) : 0 < stepsOf m e :=
  Nat.mul_pos hm (Nat.two_pow_pos _)

theorem packed_round {s : Sign} {m : Nat} (hm : 0 < m) {e : Int} (he : -1074 ≤ e) :
    packed (UnpackedFloat.round binary64 s m e) =
      quotient (isNegative s) (m * 2 ^ (e + 1074).toNat) 1 := by
  obtain ⟨k, hk⟩ : ∃ k, (e - max (m.log2 + 1 + e - 53) (-1074)).toNat = k := ⟨_, rfl⟩
  have hlog : (m * 2 ^ k).log2 = m.log2 + k := log2_mul_pow (by omega)
  unfold UnpackedFloat.round decreaseExponent
  dsimp only
  rw [targetExponent_eq, hk, Nat.shiftLeft_eq, packed_roundWithAccuracy_exact (by rw [hlog]; omega)]
  refine quotient_congr (Nat.two_pow_pos _) Nat.one_pos ?_
  rw [Nat.mul_one, Nat.mul_assoc, Nat.mul_assoc, ← Nat.pow_add, ← Nat.pow_add]
  congr 2
  omega

theorem packed_normalize {s : Sign} {z e : Int} (he : -1074 ≤ e) :
    packed (UnpackedFloat.normalize binary64 z e s) =
      rounded (isNegative s) (z * 2 ^ (e + 1074).toNat) := by
  have hpow : (0 : Int) < 2 ^ (e + 1074).toNat := Int.pow_pos (by decide)
  have habs : (z * 2 ^ (e + 1074).toNat).natAbs = z.natAbs * 2 ^ (e + 1074).toNat := by
    rw [Int.natAbs_mul, Int.natAbs_pow]
    rfl
  unfold UnpackedFloat.normalize
  rcases Int.lt_trichotomy z 0 with hlt | rfl | hgt
  · have hneg := Int.mul_neg_of_neg_of_pos hlt hpow
    rw [Int.compare_eq_lt.2 hlt, rounded_eq_quotient (by omega), decide_eq_true hneg, habs]
    dsimp only
    rw [packed_round (by omega) he, show (-z).toNat = z.natAbs by omega]
    rfl
  · rw [Int.zero_mul, rounded_zero]
    exact packed_zero s
  · have hpos := Int.mul_pos hgt hpow
    rw [Int.compare_eq_gt.2 hgt, rounded_eq_quotient (by omega), decide_eq_false (by omega), habs]
    dsimp only
    rw [packed_round (by omega) he, show z.toNat = z.natAbs by omega]
    rfl

/-- Canonical mantissas hold enough digits for their product to be rounded. -/
theorem Canonical.mul_le {m n : Nat} {e f : Int} (hm : Canonical m e) (hn : Canonical n f)
    (hmpos : 0 < m) (hnpos : 0 < n) : e + f ≤ max ((m * n).log2 + 1 + (e + f) - 53) (-1074) := by
  have hfull (h : 2 ^ 52 ≤ m * n) : 52 ≤ (m * n).log2 := (Nat.le_log2 (by omega)).2 h
  have he := hm.least
  have hf := hn.least
  rcases hm.full with hm | hm
  · have := hfull (Nat.le_trans hm (Nat.le_mul_of_pos_right m hnpos))
    omega
  · rcases hn.full with hn | hn
    · have := hfull (Nat.le_trans hn (Nat.le_mul_of_pos_left n hmpos))
      omega
    · omega

theorem packed_mul_finite {s t : Sign} {m n : Nat} {e f : Int} (hm : 0 < m) (hn : 0 < n)
    (h : Canonical m e) (h' : Canonical n f) :
    packed (mul binary64 (.finite s m e hm) (.finite t n f hn)) =
      quotient (isNegative s != isNegative t) (stepsOf m e * stepsOf n f) one := by
  have he := h.least
  have hf := h'.least
  show packed (roundWithAccuracy binary64 (s * t) (m * n) (e + f) .exact) = _
  rw [packed_roundWithAccuracy_exact (h.mul_le h' hm hn), isNegative_mul]
  refine quotient_congr (Nat.two_pow_pos _) one_pos ?_
  obtain ⟨o, ho⟩ : ∃ o, o = 1074 := ⟨_, rfl⟩
  have hexponents : (e + f + 1074).toNat + o =
      (e + 1074).toNat + (f + 1074).toNat + (-1074 - (e + f)).toNat := by omega
  rw [one_eq ho, stepsOf, stepsOf]
  calc m * n * 2 ^ (e + f + 1074).toNat * 2 ^ o
      = m * n * 2 ^ ((e + f + 1074).toNat + o) := by rw [Nat.pow_add]; ring
    _ = _ := by rw [hexponents, Nat.pow_add, Nat.pow_add]; ring

theorem packed_mul {s t : Bool} {a b : Nat} {u w : UnpackedFloat} (hu : Unpacks s a u)
    (hw : Unpacks t b w) : packed (mul binary64 u w) = quotient (s != t) (a * b) one := by
  cases hu with
  | @zero s' hs ha =>
    subst hs ha
    rw [Nat.zero_mul, quotient_zero _ one_pos]
    cases hw with
    | @zero t' ht hb => rw [← ht, ← isNegative_mul]; exact packed_zero _
    | @finite t' n f hn ht hb hcanonical => rw [← ht, ← isNegative_mul]; exact packed_zero _
  | @finite s' m e hm hs ha hcanonical =>
    subst hs ha
    cases hw with
    | @zero t' ht hb =>
      rw [hb, Nat.mul_zero, quotient_zero _ one_pos, ← ht, ← isNegative_mul]
      exact packed_zero _
    | @finite t' n f hn ht hb hcanonical' =>
      subst ht hb
      exact packed_mul_finite hm hn hcanonical hcanonical'

/-- Dividing goes on until there are enough digits to be rounded. -/
theorem exists_divCore {m n : Nat} (e f : Int) (hm : 0 < m) (hn : 0 < n) : ∃ (k : Nat) (g : Int),
    divCore binary64 m e n f = (m * 2 ^ k / n, g, accuracyOfFraction (m * 2 ^ k % n) n) ∧
      k = e - f - g ∧ g ≤ max ((m * 2 ^ k / n).log2 + 1 + g - 53) (-1074) := by
  obtain ⟨g, hg⟩ : ∃ g, min (e - f)
    (binary64.targetExponent (totalExponent m e - totalExponent n f)) = g := ⟨_, rfl⟩
  have htarget : min (e - f) (max ((m.log2 + 1 + e) - (n.log2 + 1 + f) - 53) (-1074)) = g := hg
  obtain ⟨k, hk⟩ : ∃ k, (e - f - g).toNat = k := ⟨_, rfl⟩
  refine ⟨k, g, ?_, by omega, ?_⟩
  · unfold divCore
    dsimp only
    rw [hg, hk, Nat.shiftLeft_eq]
  · by_cases hleast : g ≤ -1074
    · omega
    · -- above the least exponent the quotient has all its digits
      have hdigits : 2 ^ 52 ≤ m * 2 ^ k / n := by
        rw [Nat.le_div_iff_mul_le hn]
        calc 2 ^ 52 * n ≤ 2 ^ 52 * 2 ^ (n.log2 + 1) :=
              Nat.mul_le_mul_left _ (Nat.le_of_lt Nat.lt_log2_self)
          _ = 2 ^ (52 + (n.log2 + 1)) := (Nat.pow_add ..).symm
          _ ≤ 2 ^ (m.log2 + k) := Nat.pow_le_pow_right (by decide) (by omega)
          _ = 2 ^ m.log2 * 2 ^ k := Nat.pow_add ..
          _ ≤ m * 2 ^ k := Nat.mul_le_mul_right _ (Nat.log2_self_le (by omega))
      have := (Nat.le_log2 (by omega)).2 hdigits
      omega

theorem packed_div_finite {s t : Sign} {m n : Nat} {e f : Int} (hm : 0 < m) (hn : 0 < n)
    (h : Canonical m e) (h' : Canonical n f) :
    packed (div binary64 (.finite s m e hm) (.finite t n f hn)) =
      quotient (isNegative s != isNegative t) (stepsOf m e * one) (stepsOf n f) := by
  have he := h.least
  have hf := h'.least
  obtain ⟨k, g, hcore, hk, hdigits⟩ := exists_divCore e f hm hn
  have hrounded := @packed_roundWithAccuracy (s / t) (m * 2 ^ k) n g
    (accuracyOfFraction (m * 2 ^ k % n) n) hn (extended_eq_fraction hn) hdigits
  show packed (roundWithAccuracy binary64 (s / t) (divCore binary64 m e n f).1
    (divCore binary64 m e n f).2.1 (divCore binary64 m e n f).2.2) = _
  rw [hcore, hrounded, isNegative_div]
  refine quotient_congr (Nat.mul_pos hn (Nat.two_pow_pos _)) (stepsOf_pos hn f) ?_
  obtain ⟨o, ho⟩ : ∃ o, o = 1074 := ⟨_, rfl⟩
  have hexponents : k + (g + 1074).toNat + (f + 1074).toNat =
      (e + 1074).toNat + o + (-1074 - g).toNat := by omega
  rw [one_eq ho, stepsOf, stepsOf]
  calc m * 2 ^ k * 2 ^ (g + 1074).toNat * (n * 2 ^ (f + 1074).toNat)
      = m * n * 2 ^ (k + (g + 1074).toNat + (f + 1074).toNat) := by
        rw [Nat.pow_add, Nat.pow_add]; ring
    _ = _ := by rw [hexponents, Nat.pow_add, Nat.pow_add]; ring

theorem packed_div {s t : Bool} {a b : Nat} {u w : UnpackedFloat} (hu : Unpacks s a u)
    (hw : Unpacks t b w) (hb : b ≠ 0) :
    packed (div binary64 u w) = quotient (s != t) (a * one) b := by
  cases hw with
  | zero ht hb' => exact absurd hb' hb
  | @finite t' n f hn ht hb' hcanonical' =>
    subst ht hb'
    cases hu with
    | @zero s' hs ha =>
      rw [ha, Nat.zero_mul, quotient_zero _ (Nat.pos_of_ne_zero hb), ← hs, ← isNegative_div]
      exact packed_zero _
    | @finite s' m e hm hs ha hcanonical =>
      subst hs ha
      exact packed_div_finite hm hn hcanonical hcanonical'

/-- A canonical number is a double already. -/
theorem Canonical.spacing_dvd {m : Nat} {e : Int} (h : Canonical m e) :
    spacing (stepsOf m e) ∣ stepsOf m e := by
  obtain ⟨k, hk⟩ : ∃ k, (e + 1074).toNat = k := ⟨_, rfl⟩
  have hlt := h.lt
  rw [stepsOf, hk]
  rcases Nat.eq_zero_or_pos k with rfl | hpos
  · rw [spacing_of_lt (by omega)]
    exact Nat.one_dvd _
  · have hfull : 2 ^ 52 ≤ m := h.full.resolve_right (by omega)
    rw [spacing_of_le_of_lt hpos (by rw [Nat.pow_add]; exact Nat.mul_le_mul_right _ hfull)
      (by rw [Nat.pow_add]; exact Nat.mul_lt_mul_of_pos_right hlt (Nat.two_pow_pos k))]
    exact Nat.dvd_mul_left _ _

theorem packed_canonical {s : Sign} {m : Nat} {e : Int} (hm : 0 < m) (h : Canonical m e) :
    packed (.finite s m e hm) = quotient (isNegative s) (stepsOf m e) 1 := by
  rw [packed_finite hm h, quotient, nearest_of_dvd h.spacing_dvd]

theorem packed_sub_finite {s t : Sign} {m n : Nat} {e f : Int} (hm : 0 < m) (hn : 0 < n)
    (h : Canonical m e) (h' : Canonical n f) :
    packed (sub binary64 (.finite s m e hm) (.finite t n f hn)) =
      rounded (isNegative s && !isNegative t)
        (signed (isNegative s) (stepsOf m e) - signed (isNegative t) (stepsOf n f)) := by
  have he := h.least
  have hf := h'.least
  obtain ⟨k, hk⟩ : ∃ k, (e - min e f).toNat = k := ⟨_, rfl⟩
  obtain ⟨l, hl⟩ : ∃ l, (f - min e f).toNat = l := ⟨_, rfl⟩
  obtain ⟨g, hg⟩ : ∃ g, (min e f + 1074).toNat = g := ⟨_, rfl⟩
  have hsteps : stepsOf m e = m * 2 ^ k * 2 ^ g := by
    rw [stepsOf, Nat.mul_assoc, ← Nat.pow_add, show (e + 1074).toNat = k + g by omega]
  have hsteps' : stepsOf n f = n * 2 ^ l * 2 ^ g := by
    rw [stepsOf, Nat.mul_assoc, ← Nat.pow_add, show (f + 1074).toNat = l + g by omega]
  have hexact : signed (isNegative s) (stepsOf m e) - signed (isNegative t) (stepsOf n f) =
      (s.apply ((m * 2 ^ k : Nat) : Int) - t.apply ((n * 2 ^ l : Nat) : Int)) * 2 ^ g := by
    rw [hsteps, hsteps', signed_mul, signed_mul, Int.sub_mul, Int.natCast_pow]
    rfl
  show packed (UnpackedFloat.normalize binary64 (s.apply ((m <<< (e - min e f).toNat : Nat) : Int)
    - t.apply ((n <<< (f - min e f).toNat : Nat) : Int)) (min e f) .positive) = _
  rw [packed_normalize (by omega), hk, hl, hg, Nat.shiftLeft_eq, Nat.shiftLeft_eq, ← hexact]
  -- numbers of different signs do not cancel out
  refine rounded_congr fun hzero => ?_
  have hpos := stepsOf_pos hm e
  have hpos' := stepsOf_pos hn f
  cases s with
  | positive => rfl
  | negative =>
    cases t with
    | negative => rfl
    | positive =>
      have hsum : -(stepsOf m e : Int) - stepsOf n f = 0 := hzero
      omega

theorem packed_sub {s t : Bool} {a b : Nat} {u w : UnpackedFloat} (hu : Unpacks s a u)
    (hw : Unpacks t b w) :
    packed (sub binary64 u w) = rounded (s && !t) (signed s a - signed t b) := by
  cases hu with
  | @zero s' hs ha =>
    subst hs ha
    cases hw with
    | @zero t' ht hb =>
      subst ht hb
      cases s' <;> cases t' <;> exact (packed_zero _).trans (rounded_zero _).symm
    | @finite t' n f hn ht hb hcanonical =>
      subst ht hb
      rw [signed_zero, Int.zero_sub, neg_signed, rounded_signed (stepsOf_pos hn f),
        ← isNegative_neg]
      exact packed_canonical hn hcanonical
  | @finite s' m e hm hs ha hcanonical =>
    subst hs ha
    cases hw with
    | @zero t' ht hb =>
      subst ht hb
      rw [signed_zero, Int.sub_zero, rounded_signed (stepsOf_pos hm e)]
      exact packed_canonical hm hcanonical
    | @finite t' n f hn ht hb hcanonical' =>
      subst ht hb
      exact packed_sub_finite hm hn hcanonical hcanonical'

/-! ## Machine numbers -/

section Float

variable {x y : Float} {s t : Bool} {a b : Nat}

theorem ofFloat_mul (hx : ofFloat x = .finite s a) (hy : ofFloat y = .finite t b) :
    ofFloat (x * y) = quotient (s != t) (a * b) one :=
  packed_mul (unpacks_of_ofBits hx) (unpacks_of_ofBits hy)

/-- Machine division by something else than zero gives the double nearest to the quotient. -/
theorem ofFloat_div (hx : ofFloat x = .finite s a) (hy : ofFloat y = .finite t b) (hb : b ≠ 0) :
    ofFloat (x / y) = quotient (s != t) (a * one) b :=
  packed_div (unpacks_of_ofBits hx) (unpacks_of_ofBits hy) hb

/-- Machine subtraction gives the double nearest to the difference. -/
theorem ofFloat_sub (hx : ofFloat x = .finite s a) (hy : ofFloat y = .finite t b) :
    ofFloat (x - y) = rounded (s && !t) (signed s a - signed t b) :=
  packed_sub (unpacks_of_ofBits hx) (unpacks_of_ofBits hy)

theorem ofFloat_toFloat (n : UInt64) : ofFloat n.toFloat = quotient false (n.toNat * one) 1 := by
  show packed (UnpackedFloat.normalize binary64 (n.toNat : Int) 0 .positive) = _
  obtain ⟨o, ho⟩ : ∃ o, o = 1074 := ⟨_, rfl⟩
  rw [packed_normalize (by decide), show ((0 : Int) + 1074).toNat = o by omega, one_eq ho,
    ← rounded_natCast, Int.natCast_mul, Int.natCast_pow, isNegative, Nat.cast_ofNat]

theorem ofFloat_one : ofFloat (.ofBits 0x3FF0000000000000) = .finite false one := by
  decide +kernel

/-- A natural number becomes the double nearest to it. -/
theorem ofFloat_ofNat (n : Nat) : ofFloat (.ofNat n) = quotient false (n * one) 1 := by
  -- numbers that are doubles take a shorter way
  by_cases hn : n < 2 ^ 53
  · have hfast : Float.ofNat n = n.toUInt64.toFloat * .ofBits 0x3FF0000000000000 := by
      show Float.ofScientific n false 0 = _
      rw [Float.ofScientific, dif_pos ⟨hn, by decide⟩]
      rfl
    have htoNat : n.toUInt64.toNat = n := UInt64.toNat_ofNat_of_lt' (by
      show n < 2 ^ 64
      omega)
    have hexact := ofFloat_toFloat n.toUInt64
    rw [htoNat, quotient_of_representable (representable_mul_one hn)] at hexact
    rw [hfast, ofFloat_mul hexact ofFloat_one]
    exact quotient_congr one_pos Nat.one_pos (Nat.mul_one _)
  · have hpos : 0 < n * 2 ^ 53 := by omega
    have hslow : ofFloat (.ofNat n) =
        packed (roundWithAccuracy binary64 .positive (n * 2 ^ 53) (-53) .exact) := by
      have hexponent : ¬ (0 : Int) < -((2 ^ 11 : Int) + n.log2) := by omega
      have hscientific : UnpackedFloat.ofScientific binary64 n 0 =
          roundWithAccuracy binary64 .positive ((n <<< 53) * 1) (-53 + 0) .exact := by
        unfold UnpackedFloat.ofScientific
        rw [dif_neg (by omega), if_neg (by decide), if_neg hexponent, if_pos (by decide)]
        rfl
      have hmodel : Float.ofNat n = .ofModel (.ofScientific n 0) := by
        show Float.ofScientific n false 0 = _
        rw [Float.ofScientific, dif_neg fun h => hn h.1]
        rfl
      rw [Nat.mul_one, Nat.shiftLeft_eq] at hscientific
      rw [hmodel]
      show packed (UnpackedFloat.ofScientific binary64 n 0) = _
      rw [hscientific]
      rfl
    rw [hslow, packed_roundWithAccuracy_exact (by rw [log2_mul_pow (by omega)]; omega)]
    refine quotient_congr (Nat.two_pow_pos _) Nat.one_pos ?_
    obtain ⟨o, ho⟩ : ∃ o, o = 1074 := ⟨_, rfl⟩
    rw [one_eq ho, show ((-53 : Int) + 1074).toNat = o - 53 by omega,
      show (-1074 - (-53 : Int)).toNat = 0 by omega]
    calc n * 2 ^ 53 * 2 ^ (o - 53) * 1 = n * 2 ^ (53 + (o - 53)) := by rw [Nat.pow_add]; ring
      _ = n * 2 ^ o * 2 ^ 0 := by rw [show 53 + (o - 53) = o by omega]; ring

end Float

end Polyglot.Double
