/-
Matching a pattern against a text, for all starting points at once: from a set of gaps to the set of
all gaps where a span that starts in it may end.
-/
import Polyglot.Pattern.Page

namespace Polyglot.Pattern

/-- The gaps where spans of the pattern end that start at one of the given gaps. -/
def reach (page : Page) : Pattern → Gaps → Gaps
  | .empty, s => s
  | .one set, s => if s = 0 then 0 else (s &&& page.before set) <<< 1
  | .edge e, s => if s = 0 then 0 else s &&& page.edges e
  | .both p q, s => reach page q (reach page p s)
  | .either p q, s => reach page p s ||| reach page q s
  -- runs of single characters are frequent, and followed in logarithmically many rounds
  | .many (.one set), s =>
    if s = 0 then 0 else Gaps.spread (page.count.log2 + 1) 1 (page.before set) s
  | .many p, s => Gaps.closure (reach page p) (page.count + 1) s s

/-- Whether the pattern spans some part of the text. -/
def occursIn (page : Page) (p : Pattern) : Bool :=
  reach page p (Gaps.below (page.count + 1)) != 0

end Polyglot.Pattern
