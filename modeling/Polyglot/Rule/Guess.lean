/-
Guessing the language of a text by rules. A language is a candidate if one of its rules with a
positive weight occurs. Its score is the sum of the weights of all its rules that occur, and the
caller's bias for it. The guess is the candidate with the highest score above zero.
-/
import Polyglot.Pattern.Matcher
import Polyglot.Rule.Score
import Polyglot.Rule.Table

namespace Polyglot.Rule

/-- The rules that occur in a text. -/
def occurring (page : Page) (rules : List Rule) : List Rule :=
  rules.filter fun rule => rule.pattern.occursIn page

/-- The sum of the weights of the rules that occur, if one of them speaks for the language. -/
def weigh (page : Page) (rules : List Rule) : Option Int :=
  let found := occurring page rules
  if found.any (0 < ·.weight) then some (found.foldr (fun rule sum => rule.weight + sum) 0)
  else none

/-- The caller's bias for a language: the number under its name, and zero if there is none that a
double can hold. -/
def bias (options : Members) (language : String) : Score :=
  match options.find? language with
  | some (.number n) => .ofDouble (.ofNumeral n)
  | _ => .zero

/-- The candidates with their scores, in the order of the table. -/
def candidates (page : Page) (options : Members) : List (String × Score) :=
  table.filterMap fun (language, rules) =>
    (weigh page rules).map fun weight => (language, Score.ofInt weight + bias options language)

/-- The first of the candidates with the highest score, if that is above zero. -/
def best (scores : List (String × Score)) : Option (String × Score) :=
  scores.foldl
    (fun lead candidate =>
      if Score.zero < candidate.2 then
        match lead with
        | none => some candidate
        -- of equal scores the earlier one is kept
        | some held => if held.2 < candidate.2 then some candidate else some held
      else lead)
    none

/-- The language that a text is taken to be in. -/
def guess (page : Page) (options : Members) : Option String :=
  (best (candidates page options)).map (·.1)

end Polyglot.Rule
