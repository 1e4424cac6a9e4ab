/-
Syntax trees written down as an outline: one line a node, from the top down, each with its depth.
The children of a node begin with the line right behind it, if that is deeper; the next sibling is
the next line of the same depth before any of a lesser one. Lines that neither rule reaches belong
to no tree.
-/
import Polyglot.SyntaxTree.Basic

namespace Polyglot.SyntaxTree

/-- A line of an outline. -/
structure Line where
  depth : Nat
  condition : Condition
  start : Nat
  stop : Nat
  deriving Repr

/-- Reads trees side by side whose roots have the given depth, until a line of a lesser depth. The
number of lines is enough for `limit`. -/
def ofLines : (limit : Nat) → (depth : Nat) → List Line → List SyntaxTree × List Line
  | 0, _, lines => ([], lines)
  | _ + 1, _, [] => ([], [])
  | limit + 1, depth, line :: lines =>
    if line.depth < depth then ([], line :: lines)
    else if depth < line.depth then ofLines limit depth lines
    else
      let (children, lines) := match lines with
        | [] => ([], [])
        | next :: _ => if depth < next.depth then ofLines limit next.depth lines else ([], lines)
      let (siblings, lines) := ofLines limit depth lines
      (node line.condition line.start line.stop children :: siblings, lines)

/-- The tree that an outline describes. Several roots are put below one of their own. -/
def ofOutline (lines : List Line) : SyntaxTree :=
  match lines with
  | [] => node .clean 0 0 []
  | line :: _ =>
    match ofLines lines.length line.depth lines with
    | ([tree], _) => tree
    | (trees, _) => node .flagged 0 0 trees

end Polyglot.SyntaxTree
