/-
Samples: the part of a text that is looked at. It is cut at a number of bytes, but never inside a
character.
-/
import Polyglot.Text.Blank
import Polyglot.Text.Utf8

namespace Polyglot.Sample

/-- The longest start of a text, in whole characters, that takes at most the given bytes. -/
def take : (bytes : Nat) → List Char → List Char
  | _, [] => []
  -- the first character that does not fit ends the sample, even if a later one would
  | bytes, c :: rest => if c.utf8Size ≤ bytes then c :: take (bytes - c.utf8Size) rest else []

/-- Whether a sample holds blanks only. -/
def isBlank (sample : List Char) : Bool := sample.all Text.isBlank

/-- Whether a piece occurs in a text. -/
def contains (piece : List Char) : List Char → Bool
  | [] => piece.isEmpty
  | c :: rest => piece.isPrefixOf (c :: rest) || contains piece rest

theorem take_isPrefix (bytes : Nat) (text : List Char) : take bytes text <+: text := by
  induction text generalizing bytes with
  | nil => simp [take]
  | cons c rest ih =>
    rw [take]
    split
    · exact (List.cons_prefix_cons).2 ⟨rfl, ih _⟩
    · exact List.nil_prefix

theorem size_take_le (bytes : Nat) (text : List Char) :
    Text.Utf8.size (take bytes text) ≤ bytes := by
  induction text generalizing bytes with
  | nil => simp [take, Text.Utf8.size]
  | cons c rest ih =>
    rw [take]
    split
    · rw [Text.Utf8.size]
      have := ih (bytes - c.utf8Size)
      omega
    · simp [Text.Utf8.size]

end Polyglot.Sample
