/-
How a double is written: the shortest decimal that reads back, laid out plainly or with an exponent.
A layout holds the decisions; the two in use are those of responses and of log lines.
-/
import Polyglot.Double.Decimal
import Polyglot.Json.Number

namespace Polyglot.Double

/-- The decisions of a format. -/
structure Layout where
  /-- Which way a value goes that lies half-way between two decimals. -/
  tie : Tie
  /-- Whether a decimal with its leading digit in the given place is written without exponent. -/
  isPlain : Int → Bool
  /-- Whether a plain integer gets a point and a zero. -/
  hasPoint : Bool

/-- Responses: plain from 0.00001 to below 10^16, always with a fraction. -/
def Layout.response : Layout := ⟨.toEven, fun place => -5 ≤ place && place ≤ 15, true⟩

/-- Log lines: never an exponent, and integers without a point. -/
def Layout.log : Layout := ⟨.away, fun _ => true, false⟩

/-- The digits of a number, the leading one first. -/
def digitsOf (n : Nat) : List Digit := (Nat.toDigits 10 n).filterMap Digit.ofChar?

/-- A decimal laid out. -/
def Layout.arrange (layout : Layout) (negative : Bool) (d : Decimal) : Numeral :=
  let digits := digitsOf d.digits
  let count := digits.length
  let place : Int := count - 1 + d.exponent
  if layout.isPlain place then
    if 0 ≤ d.exponent then
      let zeros := List.replicate d.exponent.toNat Digit.zero
      ⟨negative, digits ++ zeros, if layout.hasPoint then [Digit.zero] else [], none⟩
    else
      let behind := (-d.exponent).toNat
      if behind < count then
        ⟨negative, digits.take (count - behind), digits.drop (count - behind), none⟩
      else ⟨negative, [Digit.zero], List.replicate (behind - count) Digit.zero ++ digits, none⟩
  else
    -- one digit before the point, and no fraction if that is all
    ⟨negative, digits.take 1, digits.drop 1, some ⟨decide (place < 0), digitsOf place.natAbs⟩⟩

/-- A finite double in the given layout. -/
def Layout.numeral (layout : Layout) (negative : Bool) (steps : Nat) : Numeral :=
  if steps = 0 then ⟨negative, [Digit.zero], if layout.hasPoint then [Digit.zero] else [], none⟩
  else layout.arrange negative (shortest layout.tie steps)

/-- A double as a JSON value: null if it is not finite. -/
def toJson : Double → Json
  | .finite negative steps => .number (Layout.response.numeral negative steps)
  | _ => .null

/-- The double nearest to a number as written. -/
def ofNumeral (n : Numeral) : Double :=
  let (digits, exponent) := n.scaled
  let steps := ofDecimal digits exponent
  if bound ≤ steps then .infinite n.negative else .finite n.negative steps

end Polyglot.Double
