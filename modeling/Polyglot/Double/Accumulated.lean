/-
Reading a double from its digits as they come: up to nineteen or twenty leading digits are gathered
in an unsigned 64-bit integer, later ones only count towards the exponent, and the integer is then
divided or multiplied by a power of ten, rounding at every step. The result is near to the number
as written, but not always nearest.
-/
import Polyglot.Double.Layout

namespace Polyglot.Double

/-- One more than the largest gathered integer. -/
def gatherBound : Nat := Nat.pow 2 64

/-- The digits gathered so far and the power of ten that they are scaled by. -/
structure Gathered where
  digits : Nat
  exponent : Int
  deriving DecidableEq, Repr

/-- Gathers digits before the point: once one does not fit, this and all behind it only scale. -/
def gatherWhole : (full : Bool) → Gathered → List Digit → Gathered
  | _, g, [] => g
  | full, g, d :: ds =>
    if full || gatherBound ≤ 10 * g.digits + d.val then
      gatherWhole true ⟨g.digits, g.exponent + 1⟩ ds
    else gatherWhole false ⟨10 * g.digits + d.val, g.exponent⟩ ds

/-- Gathers digits behind the point: once one does not fit, it and all behind it are dropped. -/
def gatherFraction : Gathered → List Digit → Gathered
  | g, [] => g
  | g, d :: ds =>
    if gatherBound ≤ 10 * g.digits + d.val then g
    else gatherFraction ⟨10 * g.digits + d.val, g.exponent - 1⟩ ds

/-- The largest power of ten that is a double. -/
def greatestPower : Nat := 308

/-- The steps of the double nearest to a power of ten. -/
def powerOfTen (exponent : Nat) : Nat := nearest (Nat.pow 10 exponent * one) 1

/-- Divides by powers of ten that are doubles until the exponent is used up: as often as it takes by
the largest, at last by what is left. `limit` bounds the divisions; a magnitude reaches zero in
three. -/
def divideByPowers : (limit : Nat) → (steps exponent : Nat) → Nat
  | 0, _, _ => 0
  | limit + 1, steps, exponent =>
    if exponent ≤ greatestPower then nearest (steps * one) (powerOfTen exponent)
    else if steps = 0 then 0
    else
      -- every division rounds, so one by the whole power could differ
      let steps := nearest (steps * one) (powerOfTen greatestPower)
      divideByPowers limit steps (exponent - greatestPower)

/-- The steps of a gathered number, or nothing if it is too large to be a double. -/
def scale (g : Gathered) : Option Nat :=
  let steps := nearest (g.digits * one) 1
  if 0 ≤ g.exponent then
    let exponent := g.exponent.toNat
    if exponent ≤ greatestPower then
      let product := nearest (steps * powerOfTen exponent) one
      if product < bound then some product else none
    else if steps = 0 then some 0 else none
  else some (divideByPowers 4 steps (-g.exponent).toNat)

/-- Exponents beyond this one are not worked out. -/
def exponentBound : Nat := Nat.pow 2 31

/-- The number as written, read digit by digit; nothing if it is too large. -/
def accumulate (n : Numeral) : Option Double :=
  let g := gatherFraction (gatherWhole false ⟨0, 0⟩ n.whole) n.fraction
  match n.exponent with
  | none => (scale g).map (.finite n.negative)
  | some e =>
    let shift := Digit.value e.digits
    if exponentBound ≤ shift then
      if g.digits ≠ 0 ∧ e.negative = false then none else some (.finite n.negative 0)
    else
      let exponent := if e.negative then g.exponent - shift else g.exponent + shift
      (scale ⟨g.digits, exponent⟩).map (.finite n.negative)

end Polyglot.Double
