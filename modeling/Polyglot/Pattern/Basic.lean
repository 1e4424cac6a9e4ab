/-
Patterns over text, and what it means that a pattern spans a part of a text. Positions are the gaps
before, between and behind the characters, counted from zero; a pattern spans from one gap to
another.
-/
import Polyglot.Pattern.CharSet

namespace Polyglot

/-- A condition on a gap. -/
inductive Edge where
  /-- The start of the text. -/
  | textStart
  /-- The start of a line. -/
  | lineStart
  /-- The end of a line. -/
  | lineEnd
  /-- Between a word character and something else. -/
  | word
  deriving DecidableEq, Repr

/-- A pattern. -/
inductive Pattern where
  /-- Nothing at all. -/
  | empty
  /-- One character of a set. -/
  | one (s : CharSet)
  /-- Nothing, at an edge. -/
  | edge (e : Edge)
  /-- One pattern and then another. -/
  | both (p q : Pattern)
  /-- One pattern or another. -/
  | either (p q : Pattern)
  /-- A pattern any number of times in a row, also not at all. -/
  | many (p : Pattern)
  deriving DecidableEq, Repr

/-- Whether the character behind a gap is a word character. -/
def isWordAt (text : List Char) (gap : Nat) : Bool := (text[gap]?).any Text.isWord

namespace Edge

/-- Whether a gap of a text is such an edge. -/
def holdsAt (text : List Char) (gap : Nat) : Edge → Bool
  | textStart => gap == 0
  | lineStart => gap == 0 || text[gap - 1]? == some '\n'
  | lineEnd => gap == text.length || text[gap]? == some '\n'
  | word => (0 < gap && isWordAt text (gap - 1)) != isWordAt text gap

end Edge

namespace Pattern

/-- The pattern spans from the first gap of the text to the second one. -/
inductive Spans (text : List Char) : Pattern → Nat → Nat → Prop where
  | empty (i : Nat) : Spans text .empty i i
  | one {s : CharSet} {i : Nat} {c : Char} :
    text[i]? = some c → s.contains c = true → Spans text (.one s) i (i + 1)
  | edge {e : Edge} {i : Nat} : e.holdsAt text i = true → Spans text (.edge e) i i
  | both {p q : Pattern} {i j k : Nat} :
    Spans text p i j → Spans text q j k → Spans text (.both p q) i k
  | left {p q : Pattern} {i j : Nat} : Spans text p i j → Spans text (.either p q) i j
  | right {p q : Pattern} {i j : Nat} : Spans text q i j → Spans text (.either p q) i j
  | stop {p : Pattern} (i : Nat) : Spans text (.many p) i i
  | more {p : Pattern} {i j k : Nat} :
    Spans text p i j → Spans text (.many p) j k → Spans text (.many p) i k

/-- The pattern spans some part of the text. -/
def Occurs (p : Pattern) (text : List Char) : Prop :=
  ∃ i j, i ≤ text.length ∧ Spans text p i j

/-! ## Building patterns -/

/-- Patterns one after the other. -/
def seq : List Pattern → Pattern
  | [] => empty
  | [p] => p
  | p :: ps => both p (seq ps)

/-- One of several patterns. -/
def oneOf : List Pattern → Pattern
  | [] => one .nothing
  | [p] => p
  | p :: ps => either p (oneOf ps)

/-- A pattern at least once. -/
def oneOrMore (p : Pattern) : Pattern := both p (many p)

/-- A pattern or nothing. -/
def maybe (p : Pattern) : Pattern := either p empty

/-- A pattern up to the given number of times. -/
def upTo (p : Pattern) : Nat → Pattern
  | 0 => empty
  | n + 1 => maybe (both p (upTo p n))

/-- A pattern from `low` to `low + more` times. -/
def times (p : Pattern) (low more : Nat) : Pattern :=
  match low with
  | 0 => upTo p more
  | low + 1 => both p (times p low more)

/-- A text, character by character. -/
def text (s : String) : Pattern := seq (s.toList.map fun c => one (.only c))

/-- A text in any case. -/
def anyCase (s : String) : Pattern := seq (s.toList.map fun c => one (.letter c))

/-- One of several texts. -/
def oneText (ss : List String) : Pattern := oneOf (ss.map text)

/-- One of several texts in any case. -/
def oneAnyCase (ss : List String) : Pattern := oneOf (ss.map anyCase)

def textStart : Pattern := edge .textStart

def lineStart : Pattern := edge .lineStart

def lineEnd : Pattern := edge .lineEnd

def wordEdge : Pattern := edge .word

/-- Blanks, if any. -/
def gap : Pattern := many (one .blank)

/-- At least one blank. -/
def space : Pattern := oneOrMore (one .blank)

/-- At least one word character. -/
def name : Pattern := oneOrMore (one .word)

end Pattern

end Polyglot
