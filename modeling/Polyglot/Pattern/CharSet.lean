/-
Sets of characters, as patterns name them. A set is data, so that its members can be reasoned about
without running anything.
-/
import Polyglot.Text.Blank
import Polyglot.Text.Numbers
import Polyglot.Text.Word

namespace Polyglot

/-- A set of characters. -/
inductive CharSet where
  /-- Every character. -/
  | any
  /-- One character. -/
  | only (c : Char)
  /-- The characters from the first one to the last one. -/
  | between (first last : Char)
  /-- Word characters of every script. -/
  | word
  /-- Decimal digits of every script. -/
  | digit
  /-- Blank characters. -/
  | blank
  /-- The members of either set. -/
  | union (s t : CharSet)
  /-- All characters that are not in the set. -/
  | except (s : CharSet)
  deriving DecidableEq, Repr

namespace CharSet

/-- Whether a character is in the set. -/
def contains : CharSet → Char → Bool
  | any, _ => true
  | only d, c => c == d
  | between first last, c => first.val ≤ c.val && c.val ≤ last.val
  | word, c => Text.isWord c
  | digit, c => Text.isDecimal c
  | blank, c => Text.isBlank c
  | union s t, c => contains s c || contains t c
  | except s, c => !contains s c

instance : Append CharSet := ⟨union⟩

/-- No character. -/
def nothing : CharSet := except any

/-- The characters of a text. -/
def of (text : String) : CharSet :=
  match text.toList with
  | [] => nothing
  | c :: rest => rest.foldl (fun s d => s ++ only d) (only c)

/-- All characters but the line feed. -/
def inLine : CharSet := except (only '\n')

/-- A letter in either case. Beside the two of ASCII these are the characters that fold to it: the
long s and the Kelvin sign. -/
def letter (c : Char) : CharSet :=
  if c.isAlpha then
    let cases := only c.toLower ++ only c.toUpper
    if c.toLower == 's' then cases ++ only 'ſ'
    else if c.toLower == 'k' then cases ++ only '\u212a'
    else cases
  else only c

end CharSet

end Polyglot
