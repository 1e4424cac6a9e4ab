/-
Syntax trees as a grammar leaves them: a node tells which bytes it covers and whether something went
wrong at it or below it. The rejected bytes of a tree are those that the grammar could only pass
over.
-/
namespace Polyglot

namespace SyntaxTree

/-- What a node says about its part of the text. -/
inductive Condition where
  /-- Nothing wrong here or below. -/
  | clean
  /-- Something wrong below. -/
  | flagged
  /-- The part itself fits no rule. -/
  | error
  /-- The grammar put the node in; the text lacks it. -/
  | missing
  deriving DecidableEq, Repr

end SyntaxTree

/-- A node, the bytes `start, …, stop - 1` that it covers, and the nodes below it. -/
inductive SyntaxTree where
  | node (condition : SyntaxTree.Condition) (start stop : Nat) (children : List SyntaxTree)
  deriving Repr

namespace SyntaxTree

/-- The condition at the root. -/
def condition : SyntaxTree → Condition
  | node condition .. => condition

/-- The nodes right below the root. -/
def children : SyntaxTree → List SyntaxTree
  | node _ _ _ children => children

/-- What the root itself adds to the rejected bytes: its length if it is an error, one if it is
missing. -/
def rejectedHere : SyntaxTree → Nat
  | node .error start stop _ => stop - start
  | node .missing .. => 1
  | _ => 0

mutual

/-- The rejected bytes of a tree. What lies below an error or a missing node counts with it, and
what lies below a clean node not at all. -/
def rejected : SyntaxTree → Nat
  | node .error start stop _ => stop - start
  | node .missing _ _ _ => 1
  | node .clean _ _ _ => 0
  | node .flagged _ _ children => rejectedAll children

/-- The rejected bytes of several trees. -/
def rejectedAll : List SyntaxTree → Nat
  | [] => 0
  | tree :: trees => rejected tree + rejectedAll trees

end

mutual

/-- The number of nodes. -/
def size : SyntaxTree → Nat
  | node _ _ _ children => 1 + sizeAll children

/-- The number of nodes of several trees. -/
def sizeAll : List SyntaxTree → Nat
  | [] => 0
  | tree :: trees => size tree + sizeAll trees

end

end SyntaxTree

end Polyglot
