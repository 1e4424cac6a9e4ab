/-
Double precision in exact arithmetic. The finite doubles are integer multiples of one step, the
smallest positive double 2^-1074, so a magnitude is a natural number of steps. Not every number of
steps is a double: from 2^53 steps on, doubles lie 2, 4, 8, … steps apart. Rounding to the nearest
double, with ties to the even neighbour, is a function on exact quotients of steps.
-/
namespace Polyglot.Double

/-- The number of steps in one. -/
def one : Nat := Nat.pow 2 1074

/-- The first number of steps beyond the largest double: 2^1024. -/
def bound : Nat := Nat.pow 2 2098

/-- The distance between neighbouring doubles, in steps, around the given number of steps. -/
def spacing (steps : Nat) : Nat :=
  if steps < Nat.pow 2 53 then 1 else Nat.pow 2 (steps.log2 - 52)

/-- The quotient as the nearest integer, a half to the even neighbour. -/
def divideToEven (numerator denominator : Nat) : Nat :=
  let quotient := numerator / denominator
  let remainder := numerator % denominator
  if 2 * remainder < denominator then quotient
  else if denominator < 2 * remainder then quotient + 1
  else quotient + quotient % 2

/-- The double nearest to a quotient of steps, as a number of steps. -/
def nearest (numerator denominator : Nat) : Nat :=
  let unit := spacing (numerator / denominator)
  divideToEven numerator (denominator * unit) * unit

/-- A number of steps that is a double. -/
def Representable (steps : Nat) : Prop := steps < bound ∧ spacing steps ∣ steps

instance (steps : Nat) : Decidable (Representable steps) := by
  unfold Representable; infer_instance

end Polyglot.Double
