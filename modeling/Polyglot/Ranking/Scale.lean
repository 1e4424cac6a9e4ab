/-
The numbers that scores and confidences are computed in. The ranking only uses what is here, so that
it can be computed in machine numbers and reasoned about in exact ones.
-/
namespace Polyglot

/-- Arithmetic with an exponential function and the order in which confidences are listed. -/
class Scale (α : Type) extends Add α, Sub α, Mul α, Div α where
  ofNat : Nat → α
  exp : α → α
  /-- The larger of two numbers. -/
  larger : α → α → α
  /-- Whether the first number may be listed before the second one. -/
  atLeast : α → α → Bool

namespace Scale

/-- A key that is ordered like machine numbers: by their bits, from the negative ones up. -/
def orderKey (x : Float) : Int :=
  let n := x.toBits.toNat
  -- from here on the sign bit is set, and greater bits are smaller numbers
  if n < 0x8000000000000000 then n else 0x7FFFFFFFFFFFFFFF - (n : Int)

instance : Scale Float where
  ofNat := Float.ofNat
  exp := Float.exp
  larger x y := if x < y then y else x
  atLeast x y := decide (orderKey y ≤ orderKey x)

/-- A quotient of two natural numbers. -/
def ratio {α : Type} [Scale α] (numerator denominator : Nat) : α :=
  ofNat numerator / ofNat denominator

end Scale

end Polyglot
