/-
Numbers as JSON writes them: an optional sign, digits without a leading zero, a fraction, an
exponent. Reading keeps the digits; writing gives them back, with `e` and a sign for the exponent.
-/
import Polyglot.Json.Basic
import Polyglot.Json.Fault

namespace Polyglot

namespace Json

/-- Reads a piece of text: what it says and the text behind it, or a fault. -/
abbrev Reader (α : Type) := List Char → Except Fault (α × List Char)

end Json

namespace Numeral

open Json

/-- Splits off the digits at the front. -/
def digits : List Char → List Digit × List Char
  | [] => ([], [])
  | c :: rest =>
    match Digit.ofChar? c with
    | some d => let (ds, behind) := digits rest; (d :: ds, behind)
    | none => ([], c :: rest)

/-- Splitting off digits loses nothing. -/
theorem digits_append (text : List Char) :
    (digits text).1.map Digit.toChar ++ (digits text).2 = text := by
  induction text with
  | nil => rfl
  | cons c rest ih =>
    rw [digits]
    split
    · rename_i d h
      simp [Digit.toChar_of_ofChar? h, ih]
    · rfl

/-- Reads the digits before the point: one zero, or digits that start with another one. -/
def readWhole : Reader (List Digit)
  | [] => .error (.here .eofInValue [])
  | c :: rest =>
    match Digit.ofChar? c with
    | none => .error (.next .expectedDigit (c :: rest))
    | some d =>
      if d = Digit.zero then
        match rest with
        | [] => .ok ([d], [])
        | c' :: _ => if c'.isDigit then .error (.next .invalidNumber rest) else .ok ([d], rest)
      else let (ds, behind) := digits rest; .ok (d :: ds, behind)

/-- Reads a point and the digits behind it, if there is a point. -/
def readFraction : Reader (List Digit)
  | '.' :: rest =>
    match digits rest with
    | ([], []) => .error (.next .eofInValue [])
    | ([], behind) => .error (.next .invalidNumber behind)
    | (ds, behind) => .ok (ds, behind)
  | rest => .ok ([], rest)

/-- Reads the digits of an exponent, one at least. -/
def readExponentDigits (negative : Bool) : Reader (Option Exponent)
  | [] => .error (.here .eofInValue [])
  | rest =>
    match digits rest with
    | ([], _) => .error (.next .expectedDigit rest)
    | (ds, behind) => .ok (some ⟨negative, ds⟩, behind)

/-- Reads an exponent, if there is one. -/
def readExponent : Reader (Option Exponent)
  | [] => .ok (none, [])
  | c :: rest =>
    if c == 'e' || c == 'E' then
      match rest with
      | '+' :: behind => readExponentDigits false behind
      | '-' :: behind => readExponentDigits true behind
      | _ => readExponentDigits false rest
    else .ok (none, c :: rest)

/-- Reads a number behind its sign. -/
def readUnsigned (negative : Bool) : Reader Numeral := fun text =>
  match readWhole text with
  | .error f => .error f
  | .ok (whole, text) =>
    match readFraction text with
    | .error f => .error f
    | .ok (fraction, text) =>
      match readExponent text with
      | .error f => .error f
      | .ok (exponent, text) => .ok (⟨negative, whole, fraction, exponent⟩, text)

/-- Reads a number. -/
def read : Reader Numeral
  | '-' :: rest => readUnsigned true rest
  | rest => readUnsigned false rest

/-- The number as a text holds it: an exponent is written with `e` and always with its sign. -/
def render (n : Numeral) : List Char :=
  (if n.negative then ['-'] else []) ++ n.whole.map Digit.toChar ++
    (if n.fraction.isEmpty then [] else '.' :: n.fraction.map Digit.toChar) ++
    match n.exponent with
    | none => []
    | some e => ['e', if e.negative then '-' else '+'] ++ e.digits.map Digit.toChar

/-- The number without sign: an integer and the power of ten that it is scaled by. -/
def scaled (n : Numeral) : Nat × Int :=
  let shift : Int := match n.exponent with
    | none => 0
    | some e => if e.negative then - (Digit.value e.digits : Int) else Digit.value e.digits
  (Digit.value (n.whole ++ n.fraction), shift - n.fraction.length)

/-- Whether the number is written as an integer: without fraction and exponent. -/
def isIntegral (n : Numeral) : Bool := n.fraction.isEmpty && n.exponent.isNone

end Numeral

end Polyglot
