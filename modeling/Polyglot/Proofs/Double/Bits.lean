/-
The bits of machine numbers. They are packed from a sign, an exponent and a mantissa, and unpacked
again for every operation. A double is read off the bits; here it is read off what they are unpacked
to, and found again in what they are packed from.
-/
import Polyglot.Double.Basic
import Polyglot.Proofs.Double.Sum

namespace Polyglot.Double

open Float.Model (UnpackedFloat)
open Float.Model.Format (binary64)
open Float.Model.UnpackedFloat

/-! ## Bits -/

/-- The double with the given sign, exponent and fraction, as they stand in the bits. -/
def ofFields (negative : Bool) (exponent fraction : Nat) : Double :=
  if exponent = 2047 then if fraction = 0 then .infinite negative else .nan
  else if exponent = 0 then .finite negative fraction
  else .finite negative ((2 ^ 52 + fraction) * 2 ^ (exponent - 1))

/-- Whether a sign is the negative one. -/
def isNegative : Sign → Bool
  | .negative => true
  | .positive => false

theorem isNegative_ofBitVec : ∀ b : BitVec 1, isNegative (.ofBitVec b) = decide (b.toNat = 1) := by
  decide

theorem toNat_unpackMantissa (b : BitVec 64) :
    (@unpackMantissa binary64 b).toNat = b.toNat % 2 ^ 52 := by
  simp [unpackMantissa]

theorem toNat_unpackExponent (b : BitVec 64) :
    (@unpackExponent binary64 b).toNat = b.toNat / 2 ^ 52 % 2048 := by
  simp [unpackExponent, Nat.shiftRight_eq_div_pow]

theorem toNat_unpackSign (b : BitVec 64) : (@unpackSign binary64 b).toNat = b.toNat / 2 ^ 63 := by
  show (b.extractLsb 63 63).toNat = b.toNat / 2 ^ 63
  rw [BitVec.extractLsb_toNat, Nat.shiftRight_eq_div_pow]
  exact Nat.mod_eq_of_lt (by omega)

/-- A double is read off the three fields that machine numbers are unpacked from. -/
theorem ofBits_eq (b : UInt64) : ofBits b =
    ofFields (isNegative (.ofBitVec (@unpackSign binary64 b.toBitVec)))
      (@unpackExponent binary64 b.toBitVec).toNat (@unpackMantissa binary64 b.toBitVec).toNat := by
  rw [toNat_unpackMantissa, toNat_unpackExponent, isNegative_ofBitVec, toNat_unpackSign]
  unfold ofBits ofFields
  simp only [beq_iff_eq, Nat.pow_eq, UInt64.toNat_toBitVec]
  rfl

theorem toNat_append_eq {k l : Nat} (x : BitVec k) (y : BitVec l) :
    (x ++ y).toNat = x.toNat * 2 ^ l + y.toNat := by
  rw [BitVec.toNat_append, ← Nat.shiftLeft_add_eq_or_of_lt y.isLt, Nat.shiftLeft_eq]

theorem isNegative_packComponents (s : Sign) (x : BitVec 11) (y : BitVec 52) :
    isNegative (.ofBitVec (unpackSign (packComponents binary64 s x y))) = isNegative s := by
  have hbits : (packComponents binary64 s x y).toNat
      = (s.toBitVec.toNat * 2 ^ 11 + x.toNat) * 2 ^ 52 + y.toNat := by
    rw [packComponents, toNat_append_eq, toNat_append_eq]
  have htop : (packComponents binary64 s x y).toNat / 2 ^ 63 = s.toBitVec.toNat := by
    have hx := x.isLt
    have hy := y.isLt
    rw [hbits]
    omega
  rw [isNegative_ofBitVec, toNat_unpackSign, htop]
  cases s <;> rfl

/-- A double is made of the three fields that machine numbers are packed from. -/
theorem ofBits_packComponents (s : Sign) (x : BitVec 11) (y : BitVec 52) :
    ofBits (UInt64.ofBitVec (packComponents binary64 s x y)) =
      ofFields (isNegative s) x.toNat y.toNat := by
  rw [ofBits_eq]
  show ofFields (isNegative (.ofBitVec (unpackSign (packComponents binary64 s x y))))
    (unpackExponent (packComponents binary64 s x y)).toNat
    (unpackMantissa (packComponents binary64 s x y)).toNat = _
  rw [unpackExponent_packComponents, unpackMantissa_packComponents, isNegative_packComponents]

/-! ## Unpacking -/

/-- A mantissa and an exponent as they are unpacked: as many digits as possible, unless the exponent
is the least one. -/
structure Canonical (mantissa : Nat) (exponent : Int) : Prop where
  lt : mantissa < 2 ^ 53
  least : -1074 ≤ exponent
  full : 2 ^ 52 ≤ mantissa ∨ exponent = -1074

/-- The steps of a mantissa with an exponent that is not below the least one. -/
def stepsOf (mantissa : Nat) (exponent : Int) : Nat := mantissa * 2 ^ (exponent + 1074).toNat

/-- A finite double as it is unpacked. -/
inductive Unpacks (negative : Bool) (steps : Nat) : UnpackedFloat → Prop where
  | zero {s : Sign} : isNegative s = negative → steps = 0 → Unpacks negative steps (.zero s)
  | finite {s : Sign} {m : Nat} {e : Int} {h : 0 < m} : isNegative s = negative →
      steps = stepsOf m e → Canonical m e → Unpacks negative steps (.finite s m e h)

theorem toNat_one_append (y : BitVec 52) : (1#1 ++ y).toNat = 2 ^ 52 + y.toNat := by
  rw [toNat_append_eq, show (1#1).toNat = 1 from rfl, Nat.one_mul]

/-- The bits of a finite double are unpacked to it. -/
theorem unpacks_of_ofBits {b : UInt64} {negative : Bool} {steps : Nat}
    (h : ofBits b = .finite negative steps) :
    Unpacks negative steps (unpack binary64 b.toBitVec) := by
  rw [ofBits_eq, ofFields] at h
  have hx : (@unpackExponent binary64 b.toBitVec).toNat < 2048 := BitVec.isLt _
  have hy : (@unpackMantissa binary64 b.toBitVec).toNat < 2 ^ 52 := BitVec.isLt _
  unfold unpack
  dsimp only
  -- one case for each kind of exponent: all ones, zero, and any other
  by_cases hones : @unpackExponent binary64 b.toBitVec = -1#_
  · rw [hones, if_pos (by rfl)] at h
    split at h <;> cases h
  have hnot : (@unpackExponent binary64 b.toBitVec).toNat ≠ 2047 :=
    fun heq => hones (BitVec.toNat_inj.1 heq)
  rw [if_neg hones]
  rw [if_neg hnot] at h
  by_cases hzero : @unpackExponent binary64 b.toBitVec = 0#_
  · rw [if_pos hzero]
    rw [hzero, if_pos (by rfl)] at h
    cases h
    by_cases hfraction : @unpackMantissa binary64 b.toBitVec = 0#_
    · rw [dif_pos hfraction]
      exact .zero rfl (by rw [hfraction]; rfl)
    · rw [dif_neg hfraction, hzero]
      refine .finite rfl ?_ ⟨by omega, by decide, .inr (by decide)⟩
      exact (Nat.mul_one _).symm
  · have hpos : (@unpackExponent binary64 b.toBitVec).toNat ≠ 0 :=
      fun heq => hzero (BitVec.toNat_inj.1 heq)
    rw [if_neg hzero]
    rw [if_neg hpos] at h
    cases h
    have hbias : (binary64.exponentBias : Int) + binary64.mantissaBitsWithoutImplicit = 1075 :=
      rfl
    rw [hbias]
    refine .finite rfl ?_ ⟨?_, by omega, .inl ?_⟩
    · rw [toNat_one_append, stepsOf]
      congr 2
      omega
    · rw [toNat_one_append]
      omega
    · rw [toNat_one_append]
      omega

/-! ## Packing -/

/-- The double that an unpacked number is packed into. -/
def packed (u : UnpackedFloat) : Double := ofBits (UInt64.ofBitVec (pack binary64 u))

theorem packed_zero (s : Sign) : packed (.zero s) = .finite (isNegative s) 0 :=
  ofBits_packComponents s 0 0

theorem log2_add_one_eq_iff {m : Nat} (hm : 0 < m) (hlt : m < 2 ^ 53) :
    m.log2 + 1 = 53 ↔ 2 ^ 52 ≤ m := by
  have := (Nat.log2_lt (by omega)).2 hlt
  rw [← Nat.le_log2 (by omega)]
  omega

/-- A mantissa of all digits reaches the bound by way of its exponent only. -/
theorem bound_le_iff {m k b : Nat} (hb : 53 + b = 2098) (hlt : m < 2 ^ 53)
    (hfull : 2 ^ 52 ≤ m ∨ k = 0) : bound ≤ m * 2 ^ k ↔ b + 1 ≤ k := by
  constructor
  · intro hbound
    by_contra hk
    have hle : 2 ^ k ≤ 2 ^ b := Nat.pow_le_pow_right (by decide) (by omega)
    have hprod := Nat.mul_lt_mul_of_lt_of_le hlt hle (Nat.two_pow_pos b)
    rw [← Nat.pow_add, ← bound_eq hb] at hprod
    omega
  · intro hk
    rw [bound_eq hb, show 53 + b = 52 + (b + 1) by omega, Nat.pow_add]
    exact Nat.mul_le_mul (by omega) (Nat.pow_le_pow_right (by decide) hk)

/-- Packing a canonical number gives its steps, or an infinity if they are too many. -/
theorem packed_finite {s : Sign} {m : Nat} {e : Int} (hm : 0 < m) (h : Canonical m e) :
    packed (.finite s m e hm) =
      if bound ≤ stepsOf m e then .infinite (isNegative s)
      else .finite (isNegative s) (stepsOf m e) := by
  have hlt := h.lt
  have hleast := h.least
  obtain ⟨k, hk⟩ : ∃ k, (e + 1074).toNat = k := ⟨_, rfl⟩
  obtain ⟨b, hb⟩ : ∃ b, 53 + b = 2098 := ⟨2045, rfl⟩
  have hfull : 2 ^ 52 ≤ m ∨ k = 0 := h.full.imp_right fun heq => by omega
  have hbias :
      (e + binary64.exponentBias + binary64.mantissaBitsWithoutImplicit).toNat = k + 1 := by
    show (e + 1023 + 52).toNat = k + 1
    omega
  have hpack : pack binary64 (.finite s m e hm) =
      if 2048 ≤ k + 1 + 1 then packedInfinity binary64 s
      else if m.log2 + 1 = 53 then packComponents binary64 s (.ofNat _ (k + 1)) (.ofNat _ m)
      else packComponents binary64 s 0#_ (.ofNat _ m) := by
    rw [← hbias]
    rfl
  rw [packed, hpack, stepsOf, hk]
  -- too large, with the leading digit, or below the least exponent that has it
  by_cases hlarge : b + 1 ≤ k
  · rw [if_pos (by omega), if_pos ((bound_le_iff hb hlt hfull).2 hlarge)]
    exact ofBits_packComponents s _ _
  · rw [if_neg (by omega), if_neg (mt (bound_le_iff hb hlt hfull).1 hlarge)]
    split
    · rename_i hdigits
      rw [log2_add_one_eq_iff hm hlt] at hdigits
      have hexponent : (BitVec.ofNat 11 (k + 1)).toNat = k + 1 := Nat.mod_eq_of_lt (by omega)
      have hfraction : 2 ^ 52 + (BitVec.ofNat 52 m).toNat = m := by
        rw [BitVec.toNat_ofNat]
        omega
      rw [ofBits_packComponents, ofFields, hexponent, if_neg (by omega), if_neg (by omega),
        hfraction, Nat.add_sub_cancel]
    · rename_i hdigits
      rw [log2_add_one_eq_iff hm hlt] at hdigits
      obtain rfl : k = 0 := hfull.resolve_left hdigits
      have hfraction : (BitVec.ofNat 52 m).toNat = m := Nat.mod_eq_of_lt (by omega)
      rw [ofBits_packComponents, ofFields, hfraction, if_neg (by decide), if_pos (by rfl),
        Nat.pow_zero, Nat.mul_one]

end Polyglot.Double
