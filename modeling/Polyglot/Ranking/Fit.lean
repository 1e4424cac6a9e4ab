/-
How well a sample fits a language: the bytes that the grammar rejects and the hints that occur. Both
are combined into a score between zero and one.
-/
import Polyglot.Grammar
import Polyglot.Ranking.Scale
import Polyglot.Sample
import Polyglot.SyntaxTree.Cursor

namespace Polyglot.Ranking

/-- What was counted for a language in a sample. -/
structure Fit where
  language : Language
  /-- The bytes of the sample that the grammar rejects. -/
  rejected : Nat
  /-- The number of hints that occur in the sample. -/
  hints : Nat
  deriving Repr

/-- The number of hints of a language that occur in a sample. -/
def countHints (language : Language) (sample : List Char) : Nat :=
  (language.hints.filter fun hint => Sample.contains hint.toList sample).length

/-- More hints than these make no difference. -/
def saturation : Nat := 3

/-- The share of a sample of `size` bytes that the grammar accepts, and nothing of an empty one. -/
def syntaxFit {α : Type} [Scale α] (size rejected : Nat) : α :=
  if size = 0 then Scale.ofNat 0
  else Scale.ofNat 1 - Scale.ratio (min rejected size) size

/-- The share of the hints that count. -/
def lexicalFit {α : Type} [Scale α] (hints : Nat) : α :=
  Scale.ratio (min hints saturation) saturation

/-- The score of a fit: 0.55 parts syntax and 0.45 parts hints. -/
def Fit.score {α : Type} [Scale α] (size : Nat) (fit : Fit) : α :=
  Scale.ratio 55 100 * syntaxFit size fit.rejected + Scale.ratio 45 100 * lexicalFit fit.hints

/-! ## Counting -/

/-- Why counting stopped. -/
inductive Stop where
  | failure (failure : Grammars.Failure)
  /-- A parser crashed. -/
  | crash (crash : Crash)
  deriving DecidableEq, Repr

/-- Parses a sample with the grammars of the languages, one after the other, and counts. The second
result is the number of times that a parser was called. -/
def survey (g : Grammars) (sample : List Char) : List Language → Except Stop (List Fit) × Nat
  | [] => (.ok [], 0)
  | l :: rest =>
    match g.refusal l with
    | some version => (.error (.failure (.refused l version)), 0)
    | none =>
      match g.parse l sample with
      | .nothing => (.error (.failure (.noTree l)), 1)
      | .crash crash => (.error (.crash crash), 1)
      | .tree tree =>
        let fit : Fit := ⟨l, tree.rejectedBytes, countHints l sample⟩
        match survey g sample rest with
        | (.ok fits, calls) => (.ok (fit :: fits), calls + 1)
        | (.error stop, calls) => (.error stop, calls + 1)

end Polyglot.Ranking
