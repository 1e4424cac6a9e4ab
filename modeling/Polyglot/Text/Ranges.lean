/-
Sets of characters given by a table of ranges: each entry holds the first and the last code point
of a run, and the runs are in ascending order and do not touch. Membership is by bisection.
-/
namespace Polyglot.Text

/-- Runs of code points, each with its first and its last member, in ascending order. -/
abbrev Ranges := Array (Nat × Nat)

namespace Ranges

/-- Whether `code` lies in one of the runs `low, …, high - 1` of the table. -/
def holdsBetween (table : Ranges) (code low high : Nat) : Bool :=
  if _h : low < high then
    let middle := (low + high) / 2
    match table[middle]? with
    | none => false
    | some (first, last) =>
      if code < first then holdsBetween table code low middle
      else if last < code then holdsBetween table code (middle + 1) high
      else true
  else false
termination_by high - low

/-- Whether the character lies in one of the runs of the table. -/
def holds (table : Ranges) (c : Char) : Bool :=
  table.holdsBetween c.toNat 0 table.size

end Ranges

end Polyglot.Text
