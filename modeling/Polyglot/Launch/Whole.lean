/-
Whole numbers on the command line: an optional sign and decimal digits. Digits are taken from left
to right, and the first thing that is wrong is the fault.
-/
import Polyglot.Json.Basic

namespace Polyglot.Launch

/-- Why a text is no whole number of the range. -/
inductive WholeFault where
  | empty
  | invalidDigit
  | tooLarge
  | tooSmall
  deriving DecidableEq, Repr

/-- The fault in words. -/
def WholeFault.message : WholeFault → String
  | .empty => "cannot parse integer from empty string"
  | .invalidDigit => "invalid digit found in string"
  | .tooLarge => "number too large to fit in target type"
  | .tooSmall => "number too small to fit in target type"

/-- Reads digits on from a number; `overflow` is the fault if the number passes the bound. -/
def readDigits (bound : Nat) (overflow : WholeFault) : Nat → List Char → Except WholeFault Nat
  | n, [] => .ok n
  | n, c :: rest =>
    match Digit.ofChar? c with
    | none => .error .invalidDigit
    | some d =>
      if bound < 10 * n + d.val then .error overflow
      else readDigits bound overflow (10 * n + d.val) rest

/-- Reads a number without minus sign of at most `bound`. -/
def readNatural (bound : Nat) : List Char → Except WholeFault Nat
  | [] => .error .empty
  | ['+'] => .error .invalidDigit
  | '+' :: rest => readDigits bound .tooLarge 0 rest
  | text => readDigits bound .tooLarge 0 text

/-- Reads a number of 64 bits that may have a minus sign. -/
def readInteger : List Char → Except WholeFault Int
  | ['-'] => .error .invalidDigit
  | '-' :: rest => (readDigits 0x8000000000000000 .tooSmall 0 rest).map fun n => -(n : Int)
  | text => (readNatural 0x7FFFFFFFFFFFFFFF text).map fun n => (n : Int)

end Polyglot.Launch
