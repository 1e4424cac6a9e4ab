/-
The order in which confidences are listed. Machine numbers are ordered by a key made of their bits;
it is the order of the doubles that they stand for, with negative zero before positive zero and
not-a-number last. Within a sign, greater bits are more steps: the exponent comes first, and a
greater one outweighs any fraction.
-/
import Polyglot.Proofs.Double.Bits
import Polyglot.Ranking.Scale

namespace Polyglot.Double

open Float.Model.Format (binary64)
open Float.Model.UnpackedFloat
open Scale (orderKey)

/-- The place of a magnitude with a sign: negative ones in reverse, from minus one on. -/
def signedPlace (negative : Bool) (n : Nat) : Int := if negative then -(n + 1) else n

theorem signedPlace_false (n : Nat) : signedPlace false n = n := rfl

theorem signedPlace_true (n : Nat) : signedPlace true n = -(n + 1) := rfl

/-- The place of a double among all doubles. -/
def place : Double → Int
  | .finite negative steps => signedPlace negative steps
  | .infinite negative => signedPlace negative bound
  | .nan => bound + 1

/-! ## Bits without a sign -/

/-- The steps that are written with the given bits, none of them a sign. -/
def stepsOfBits (n : Nat) : Nat :=
  if n / 2 ^ 52 = 0 then n % 2 ^ 52 else (2 ^ 52 + n % 2 ^ 52) * 2 ^ (n / 2 ^ 52 - 1)

theorem stepsOfBits_lt_pow (n : Nat) : stepsOfBits n < 2 ^ (52 + n / 2 ^ 52) := by
  have hfraction := Nat.mod_lt n (Nat.two_pow_pos 52)
  unfold stepsOfBits
  split
  · rename_i hzero
    rw [hzero]
    exact hfraction
  · rename_i hpos
    calc (2 ^ 52 + n % 2 ^ 52) * 2 ^ (n / 2 ^ 52 - 1) < 2 ^ 53 * 2 ^ (n / 2 ^ 52 - 1) :=
          Nat.mul_lt_mul_of_pos_right (by omega) (Nat.two_pow_pos _)
      _ = 2 ^ (52 + n / 2 ^ 52) := by rw [← Nat.pow_add]; congr 1; omega

theorem pow_le_stepsOfBits {n : Nat} (h : n / 2 ^ 52 ≠ 0) :
    2 ^ (51 + n / 2 ^ 52) ≤ stepsOfBits n := by
  rw [stepsOfBits, if_neg h]
  calc 2 ^ (51 + n / 2 ^ 52) = 2 ^ 52 * 2 ^ (n / 2 ^ 52 - 1) := by
        rw [← Nat.pow_add]; congr 1; omega
    _ ≤ _ := Nat.mul_le_mul_right _ (Nat.le_add_right _ _)

/-- Greater bits are more steps. -/
theorem stepsOfBits_lt {m n : Nat} (h : m < n) : stepsOfBits m < stepsOfBits n := by
  have hm := Nat.div_add_mod m (2 ^ 52)
  have hn := Nat.div_add_mod n (2 ^ 52)
  have hle : m / 2 ^ 52 ≤ n / 2 ^ 52 := Nat.div_le_div_right (Nat.le_of_lt h)
  rcases Nat.lt_or_eq_of_le hle with hlt | heq
  · calc stepsOfBits m < 2 ^ (52 + m / 2 ^ 52) := stepsOfBits_lt_pow m
      _ ≤ 2 ^ (51 + n / 2 ^ 52) := Nat.pow_le_pow_right (by decide) (by omega)
      _ ≤ stepsOfBits n := pow_le_stepsOfBits (by omega)
  · have hfraction : m % 2 ^ 52 < n % 2 ^ 52 := by rw [heq] at hm; omega
    unfold stepsOfBits
    rw [heq]
    split
    · exact hfraction
    · exact Nat.mul_lt_mul_of_pos_right (by omega) (Nat.two_pow_pos _)

/-- The bits of infinity. -/
def infiniteBits : Nat := 2047 * 2 ^ 52

theorem stepsOfBits_infiniteBits : stepsOfBits infiniteBits = bound := by
  obtain ⟨b, hb⟩ : ∃ b, 53 + b = 2098 := ⟨2045, rfl⟩
  have hexponent : infiniteBits / 2 ^ 52 = 2047 := by decide
  rw [stepsOfBits, if_neg (by decide), bound_eq hb,
    show infiniteBits / 2 ^ 52 - 1 = 1 + b by omega,
    show 2 ^ 52 + infiniteBits % 2 ^ 52 = 2 ^ 52 by decide, ← Nat.pow_add]
  congr 1
  omega

theorem stepsOfBits_le_bound {n : Nat} (h : n ≤ infiniteBits) : stepsOfBits n ≤ bound := by
  rw [← stepsOfBits_infiniteBits]
  rcases Nat.lt_or_eq_of_le h with hlt | rfl
  · exact Nat.le_of_lt (stepsOfBits_lt hlt)
  · exact Nat.le_refl _

/-! ## Machine numbers -/

/-- The bits of the one machine number that is none. -/
def nanBits : Nat := 0x7FF8000000000000

theorem toBits_of_nan {x : Float} (h : ofFloat x = .nan) : x.toBits.toNat = nanBits := by
  have hfields : (@unpackExponent binary64 x.toBits.toBitVec).toNat = 2047 ∧
      (@unpackMantissa binary64 x.toBits.toBitVec).toNat ≠ 0 := by
    rw [ofFloat, ofBits_eq, ofFields] at h
    split at h
    · rename_i hexponent
      split at h
      · cases h
      · rename_i hfraction
        exact ⟨hexponent, hfraction⟩
    · split at h <;> cases h
  -- a float holds only one of the patterns that are no number
  have hpacked : x.toBits.toBitVec = packedNaN binary64 :=
    x.toModel.valid.eq_packedNaN (BitVec.eq_of_toNat_eq hfields.1)
      fun hzero => hfields.2 (congrArg BitVec.toNat hzero)
  exact congrArg BitVec.toNat hpacked

/-- What is a number has its place by its bits. -/
theorem place_ofBits {b : UInt64} (h : ofBits b ≠ .nan) : b.toNat % 2 ^ 63 ≤ infiniteBits ∧
    place (ofBits b) = signedPlace (b.toNat / 2 ^ 63 == 1) (stepsOfBits (b.toNat % 2 ^ 63)) := by
  have hexponent : b.toNat % 2 ^ 63 / 2 ^ 52 = b.toNat / 2 ^ 52 % 2048 := by omega
  have hfraction : b.toNat % 2 ^ 63 % 2 ^ 52 = b.toNat % 2 ^ 52 := by omega
  unfold ofBits at *
  dsimp only [Nat.pow_eq] at *
  by_cases hmost : b.toNat / 2 ^ 52 % 2048 = 2047
  · rw [if_pos (beq_iff_eq.2 hmost)] at *
    by_cases hzero : b.toNat % 2 ^ 52 = 0
    · have hbits : b.toNat % 2 ^ 63 = infiniteBits := by
        unfold infiniteBits
        omega
      rw [if_pos (beq_iff_eq.2 hzero), hbits, stepsOfBits_infiniteBits]
      exact ⟨Nat.le_refl _, rfl⟩
    · rw [if_neg (mt beq_iff_eq.1 hzero)] at h
      exact absurd rfl h
  · rw [if_neg (mt beq_iff_eq.1 hmost), stepsOfBits, hexponent, hfraction]
    refine ⟨by unfold infiniteBits; omega, ?_⟩
    by_cases hleast : b.toNat / 2 ^ 52 % 2048 = 0
    · rw [if_pos (beq_iff_eq.2 hleast), if_pos hleast]
      rfl
    · rw [if_neg (mt beq_iff_eq.1 hleast), if_neg hleast]
      rfl

theorem orderKey_eq (x : Float) :
    orderKey x = signedPlace (x.toBits.toNat / 2 ^ 63 == 1) (x.toBits.toNat % 2 ^ 63) := by
  have hlt : x.toBits.toNat < 2 ^ 64 := x.toBits.toNat_lt
  unfold orderKey signedPlace
  dsimp only
  by_cases hsign : x.toBits.toNat / 2 ^ 63 = 1
  · rw [if_neg (by omega), if_pos (beq_iff_eq.2 hsign)]
    omega
  · rw [if_pos (by omega), if_neg (mt beq_iff_eq.1 hsign)]
    omega

/-- A machine number has a sign and a magnitude, and both its key and its place tell them, unless it
is not a number. -/
theorem orderKey_cases (x : Float) :
    (∃ negative n, n ≤ infiniteBits ∧ orderKey x = signedPlace negative n ∧
      place (ofFloat x) = signedPlace negative (stepsOfBits n)) ∨
      orderKey x = nanBits ∧ place (ofFloat x) = bound + 1 := by
  by_cases hnan : ofFloat x = .nan
  · refine .inr ⟨?_, by rw [hnan]; rfl⟩
    rw [orderKey_eq, toBits_of_nan hnan]
    decide
  · obtain ⟨hle, hplace⟩ := place_ofBits hnan
    exact .inl ⟨_, _, hle, orderKey_eq x, hplace⟩

theorem signedPlace_stepsOfBits_lt {negative negative' : Bool} {m n : Nat}
    (h : signedPlace negative m < signedPlace negative' n) :
    signedPlace negative (stepsOfBits m) < signedPlace negative' (stepsOfBits n) := by
  cases negative with
  | false =>
    cases negative' with
    | false => exact Int.ofNat_lt.2 (stepsOfBits_lt (Int.ofNat_lt.1 h))
    | true =>
      rw [signedPlace_false, signedPlace_true] at h
      omega
  | true =>
    cases negative' with
    | false =>
      rw [signedPlace_false, signedPlace_true]
      omega
    | true =>
      -- among negative numbers the one with more steps comes first
      rw [signedPlace_true, signedPlace_true] at *
      have := stepsOfBits_lt (show n < m by omega)
      omega

theorem place_lt_of_orderKey_lt {x y : Float} (h : orderKey x < orderKey y) :
    place (ofFloat x) < place (ofFloat y) := by
  rcases orderKey_cases x with ⟨s, m, hm, hkey, hplace⟩ | ⟨hkey, hplace⟩
  · rcases orderKey_cases y with ⟨t, n, hn, hkey', hplace'⟩ | ⟨hkey', hplace'⟩
    · rw [hplace, hplace']
      rw [hkey, hkey'] at h
      exact signedPlace_stepsOfBits_lt h
    · -- what is no number comes behind all others
      have := stepsOfBits_le_bound hm
      rw [hplace, hplace', signedPlace]
      split <;> omega
  · rcases orderKey_cases y with ⟨t, n, hn, hkey', -⟩ | ⟨hkey', -⟩
    · rw [hkey, hkey', signedPlace] at h
      unfold nanBits infiniteBits at *
      split at h <;> omega
    · omega

/-- Keys tell machine numbers apart. -/
theorem eq_of_orderKey_eq {x y : Float} (h : orderKey x = orderKey y) : x = y := by
  have hbits : x.toBits.toNat = y.toBits.toNat := by
    have hx : x.toBits.toNat < 2 ^ 64 := x.toBits.toNat_lt
    have hy : y.toBits.toNat < 2 ^ 64 := y.toBits.toNat_lt
    unfold orderKey at h
    dsimp only at h
    split at h <;> split at h <;> omega
  obtain ⟨⟨b, hb⟩⟩ := x
  obtain ⟨⟨c, hc⟩⟩ := y
  obtain rfl : b = c := UInt64.toNat_inj.1 hbits
  rfl

/-- Machine numbers are ordered as doubles are. -/
theorem place_lt_iff {x y : Float} :
    place (ofFloat x) < place (ofFloat y) ↔ orderKey x < orderKey y := by
  refine ⟨fun h => ?_, place_lt_of_orderKey_lt⟩
  rcases Int.lt_trichotomy (orderKey x) (orderKey y) with hlt | heq | hgt
  · exact hlt
  · rw [eq_of_orderKey_eq heq] at h
    exact absurd h (Int.lt_irrefl _)
  · exact absurd h (Int.not_lt.2 (Int.le_of_lt (place_lt_of_orderKey_lt hgt)))

end Polyglot.Double
