/-
Ranking languages by how well a sample fits them. Scores become confidences that add up to one; the
answer lists the languages from the most confident one down, equal ones in the order of the table.
-/
import Polyglot.Prediction
import Polyglot.Ranking.Fit

namespace Polyglot.Ranking

/-- How much is looked at, and how much is answered. -/
structure Limits where
  maxPredictions : Nat
  maxContentBytes : Nat
  deriving DecidableEq, Repr

/-- Ten predictions, from the first hundred thousand bytes. -/
def Limits.standard : Limits := ⟨10, 100000⟩

section Confidence

variable {α : Type} [Scale α]

/-- The largest of the scores. -/
def greatest : α → List α → α
  | x, [] => x
  | x, y :: rest => greatest (Scale.larger x y) rest

/-- The weight of a score: exponential in its distance from the greatest one. Lower values of the
divisor sharpen the differences. -/
def weight (greatest score : α) : α := Scale.exp ((score - greatest) / Scale.ratio 12 100)

/-- The sum of the weights, from the first one on. -/
def total : List α → α := List.foldl (· + ·) (Scale.ofNat 0)

/-- The confidences of scores: each weight's share of the sum. -/
def confidences : List α → List α
  | [] => []
  | score :: scores =>
    let most := greatest score scores
    let weights := (score :: scores).map (weight most)
    let sum := total weights
    weights.map (· / sum)

/-- The languages of the fits with their confidences, in the order of the answer. -/
def order (size : Nat) (fits : List Fit) : List (Language × α) :=
  let shares : List α := confidences (fits.map (Fit.score size))
  ((fits.map (·.language)).zip shares).mergeSort fun a b => Scale.atLeast a.2 b.2

end Confidence

/-- What ranking a text comes to. -/
structure Outcome where
  result : Except Stop (List Prediction)
  /-- The number of times that a parser was called. -/
  calls : Nat
  /-- The part of the text that parsers were given. -/
  sample : List Char

/-- Ranks the languages for a text. Of a blank sample, or if no prediction is wanted, nothing is
parsed and nothing predicted. -/
def run (g : Grammars) (limits : Limits) (content : List Char) : Outcome :=
  let sample := Sample.take limits.maxContentBytes content
  if Sample.isBlank sample || limits.maxPredictions == 0 then ⟨.ok [], 0, sample⟩
  else
    match survey g sample Language.all with
    | (.error stop, calls) => ⟨.error stop, calls, sample⟩
    | (.ok fits, calls) =>
      let ranked : List (Language × Float) := order (Text.Utf8.size sample) fits
      let predictions := ranked.map fun (l, x) => Prediction.mk l.id (Double.ofFloat x)
      ⟨.ok (predictions.take limits.maxPredictions), calls, sample⟩

end Polyglot.Ranking
