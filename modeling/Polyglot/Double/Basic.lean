/-
Doubles: finite ones with a sign and an exact magnitude, the infinities, and not-a-number.
-/
import Polyglot.Double.Steps

namespace Polyglot

/-- A double precision number. Zero has a sign. -/
inductive Double where
  /-- A finite value: `steps` times 2^-1074. -/
  | finite (negative : Bool) (steps : Nat)
  | infinite (negative : Bool)
  | nan
  deriving DecidableEq, Repr, Inhabited

namespace Double

/-- The double with the given bits: sign, eleven bits of exponent, fifty-two of fraction. -/
def ofBits (bits : UInt64) : Double :=
  let n := bits.toNat
  let negative := n / Nat.pow 2 63 == 1
  let exponent := n / Nat.pow 2 52 % 2048
  let fraction := n % Nat.pow 2 52
  if exponent == 2047 then if fraction == 0 then .infinite negative else .nan
  else if exponent == 0 then .finite negative fraction
  else .finite negative ((Nat.pow 2 52 + fraction) * Nat.pow 2 (exponent - 1))

/-- The value of a machine number. -/
def ofFloat (x : Float) : Double := ofBits x.toBits

/-- Minus one, the confidence of a guess that was not estimated. -/
def minusOne : Double := .finite true one

/-- Whether the value is finite. -/
def isFinite : Double → Bool
  | .finite .. => true
  | _ => false

end Double

end Polyglot
