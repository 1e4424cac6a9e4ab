/-
Decimals and doubles. Reading: the double nearest to a decimal number. Writing: the shortest decimal
that reads back, and of those with that many digits the nearest to the value.
-/
import Polyglot.Double.Basic
import Polyglot.Json.Basic

namespace Polyglot.Double

/-! ## From decimals -/

/-- The number of decimal digits of a number, none for zero. -/
def width (n : Nat) : Nat := if n = 0 then 0 else (Nat.toDigits 10 n).length

/-- The steps of the double nearest to `digits · 10^exponent`. Far beyond the range of doubles the
power of ten is not worked out: the result is then zero, or too large to be a double. -/
def ofDecimal (digits : Nat) (exponent : Int) : Nat :=
  let size : Int := width digits + exponent
  if digits = 0 ∨ size < -400 then 0
  else if 400 < size then bound
  else if 0 ≤ exponent then nearest (digits * Nat.pow 10 exponent.toNat * one) 1
  else nearest (digits * one) (Nat.pow 10 (-exponent).toNat)

/-! ## To decimals -/

/-- What is done with a value half-way between the two nearest shortest decimals. -/
inductive Tie where
  | toEven
  | away
  deriving DecidableEq, Repr

/-- A decimal number `digits · 10^exponent`. -/
structure Decimal where
  digits : Nat
  exponent : Int
  deriving DecidableEq, Repr

/-- The place of the leading digit of a positive number of steps: the greatest `e` with
`10^e ≤ steps · 2^-1074`. -/
def leadingPlace (steps : Nat) : Int :=
  if one ≤ steps then (width (steps / one) : Int) - 1
  else
    let scale := width (one / steps)
    if Nat.pow 10 scale * steps < one then - (scale : Int) - 1
    else if Nat.pow 10 (scale - 1) * steps < one then - (scale : Int)
    else - (scale : Int) + 1

/-- Whether `digits · 10^exponent` reads back as the positive number of steps: it lies between the
midpoints to the neighbouring doubles, or on one if the value is even. All is compared in quarters
of a step. -/
def readsBack (steps : Nat) (d : Decimal) : Bool :=
  let unit := spacing steps
  -- below a power of two the doubles lie twice as close
  let below := if steps == Nat.pow 2 53 * (unit / 2) ∧ 1 < unit then unit else 2 * unit
  let low := 4 * steps - below
  let high := 4 * steps + 2 * unit
  let even := steps / unit % 2 == 0
  let (value, scale) :=
    if 0 ≤ d.exponent then (d.digits * Nat.pow 10 d.exponent.toNat * 4 * one, 1)
    else (d.digits * 4 * one, Nat.pow 10 (-d.exponent).toNat)
  if even then low * scale ≤ value && value ≤ high * scale
  else low * scale < value && value < high * scale

/-- The decimal with its last digit in the given place that is to be written for the positive number
of steps, if one of the two around the value reads back. -/
def atPlace (tie : Tie) (steps : Nat) (place : Int) : Option Decimal :=
  let (numerator, denominator) :=
    if 0 ≤ place then (steps, one * Nat.pow 10 place.toNat)
    else (steps * Nat.pow 10 (-place).toNat, one)
  let lower := numerator / denominator
  let remainder := numerator % denominator
  let pick (first second : Nat) : Option Decimal :=
    if readsBack steps ⟨first, place⟩ then some ⟨first, place⟩
    else if readsBack steps ⟨second, place⟩ then some ⟨second, place⟩
    else none
  -- the nearer one first: where both read back, it is the one to be written
  if 2 * remainder < denominator then pick lower (lower + 1)
  else if denominator < 2 * remainder then pick (lower + 1) lower
  else match tie with
    | .toEven => if lower % 2 = 0 then pick lower (lower + 1) else pick (lower + 1) lower
    | .away => pick (lower + 1) lower

/-- Looks for the shortest decimal from the given place of the last digit on downwards. -/
def shortestFrom (tie : Tie) (steps : Nat) : (more : Nat) → (place : Int) → Decimal
  | 0, place => ⟨0, place⟩
  | more + 1, place =>
    match atPlace tie steps place with
    | some d => d
    | none => shortestFrom tie steps more (place - 1)

/-- The same number without zeros at the end of its digits. -/
def Decimal.stripped : (limit : Nat) → Decimal → Decimal
  | 0, d => d
  | limit + 1, d =>
    if d.digits ≠ 0 ∧ d.digits % 10 = 0 then stripped limit ⟨d.digits / 10, d.exponent + 1⟩ else d

/-- The shortest decimal that reads back as the positive number of steps. Seventeen digits are
always enough. -/
def shortest (tie : Tie) (steps : Nat) : Decimal :=
  (shortestFrom tie steps 17 (leadingPlace steps)).stripped 17

end Polyglot.Double
