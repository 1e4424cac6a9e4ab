/-
Scores of rules: finite doubles, held exactly as integer numbers of steps. A sum is rounded to the
nearest double, with ties to the even neighbour.
-/
import Polyglot.Double.Layout

namespace Polyglot

/-- A finite double as an integer number of steps of 2^-1074. -/
structure Score where
  steps : Int
  deriving DecidableEq, Repr

namespace Score

/-- The score of an integer weight. -/
def ofInt (weight : Int) : Score := ⟨weight * Double.one⟩

/-- The double nearest to an exact number of steps. -/
def round (steps : Int) : Int :=
  if 0 ≤ steps then Double.nearest steps.natAbs 1 else - (Double.nearest steps.natAbs 1 : Int)

instance : Add Score := ⟨fun a b => ⟨round (a.steps + b.steps)⟩⟩

instance : LT Score := ⟨fun a b => a.steps < b.steps⟩

instance (a b : Score) : Decidable (a < b) := inferInstanceAs (Decidable (a.steps < b.steps))

/-- The score zero. -/
def zero : Score := ⟨0⟩

/-- The score of a finite double, and zero for any other. -/
def ofDouble : Double → Score
  | .finite negative steps => if negative then ⟨-(steps : Int)⟩ else ⟨steps⟩
  | _ => zero

/-- The score as a double. -/
def toDouble (s : Score) : Double := .finite (s.steps < 0) s.steps.natAbs

/-- The score as log lines show it. -/
def text (s : Score) : String :=
  String.ofList (Double.Layout.log.numeral (s.steps < 0) s.steps.natAbs).render

end Score

end Polyglot
