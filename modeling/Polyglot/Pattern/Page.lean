/-
Texts prepared for matching. A set of gaps is a natural number whose bits are the members, so that
sets are united, intersected and moved as a whole. A page knows, for every kind of character that
patterns ask for, the set of gaps before such a character; each is worked out when first used.
-/
import Polyglot.Pattern.Basic

namespace Polyglot

/-- A set of gaps: bit `i` tells whether gap `i` is in it. -/
abbrev Gaps := Nat

namespace Gaps

/-- The gaps `low, …, high - 1` of a text whose next character satisfies a condition, moved to the
front by `low`. -/
def between (condition : Char → Bool) (chars : Array Char) (low high : Nat) : Gaps :=
  if high ≤ low then 0
  else if high = low + 1 then
    match chars[low]? with
    | none => 0
    | some c => if condition c then 1 else 0
  else
    let middle := (low + high) / 2
    between condition chars low middle |||
      between condition chars middle high <<< (middle - low)
termination_by high - low

/-- The gaps `0, …, count - 1`. -/
def below (count : Nat) : Gaps := Nat.pow 2 count - 1

/-- Follows runs: adds all gaps that are reached from a member over characters that stand behind the
gaps of `along`. The step doubles with every round. -/
def spread : (rounds : Nat) → (step : Nat) → (along : Gaps) → Gaps → Gaps
  | 0, _, _, s => s
  | rounds + 1, step, along, s =>
    if along = 0 then s
    else spread rounds (2 * step) (along &&& along >>> step) (s ||| (s &&& along) <<< step)

/-- Adds all that a step leads to, again and again, until nothing new comes. -/
def closure (step : Gaps → Gaps) : (rounds : Nat) → (seen fresh : Gaps) → Gaps
  | 0, seen, _ => seen
  | rounds + 1, seen, fresh =>
    let reached := step fresh
    let new := reached ^^^ (reached &&& seen)
    if new = 0 then seen else closure step rounds (seen ||| new) new

end Gaps

/-- A text prepared for matching. -/
structure Page where
  chars : Array Char
  /-- The gaps before each character of ASCII. -/
  ascii : Array (Thunk Gaps)
  /-- The gaps before word characters. -/
  word : Thunk Gaps
  /-- The gaps before decimal digits. -/
  digit : Thunk Gaps
  /-- The gaps before blanks. -/
  blank : Thunk Gaps

namespace Page

/-- The page of a text. -/
def ofText (text : List Char) : Page :=
  let chars := text.toArray
  let before (condition : Char → Bool) : Thunk Gaps :=
    Thunk.mk fun _ => Gaps.between condition chars 0 chars.size
  { chars
    ascii := (Array.range 128).map fun n => before (· == Char.ofNat n)
    word := before Text.isWord
    digit := before Text.isDecimal
    blank := before Text.isBlank }

/-- The number of characters. -/
def count (page : Page) : Nat := page.chars.size

/-- All gaps that have a character behind them. -/
def full (page : Page) : Gaps := Gaps.below page.count

/-- The gaps before a given character. -/
def beforeChar (page : Page) (c : Char) : Gaps :=
  match page.ascii[c.toNat]? with
  | some gaps => gaps.get
  | none => Gaps.between (· == c) page.chars 0 page.count

/-- The gaps before characters of a set. -/
def before (page : Page) : CharSet → Gaps
  | .any => page.full
  | .only c => page.beforeChar c
  | .between first last =>
    Gaps.between (fun c => first.val ≤ c.val && c.val ≤ last.val) page.chars 0 page.count
  | .word => page.word.get
  | .digit => page.digit.get
  | .blank => page.blank.get
  | .union s t => page.before s ||| page.before t
  | .except s => page.full ^^^ page.before s

/-- The gaps that are an edge. -/
def edges (page : Page) : Edge → Gaps
  | .textStart => 1
  | .lineStart => page.beforeChar '\n' <<< 1 ||| 1
  | .lineEnd => page.beforeChar '\n' ||| 1 <<< page.count
  | .word => page.word.get ^^^ page.word.get <<< 1

end Page

end Polyglot
