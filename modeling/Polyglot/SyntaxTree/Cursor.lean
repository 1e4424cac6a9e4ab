/-
A cursor in a syntax tree, and the walk that adds up the rejected bytes with it: from a flagged node
down to its first child, from any other on to the next sibling, or to that of the nearest node above
that has one. The walk ends because every move leaves nodes behind for good.
-/
import Polyglot.SyntaxTree.Basic

namespace Polyglot.SyntaxTree

/-- A node of a tree and what is still to be seen from there: its later siblings, and those of the
nodes above it, the nearest first. -/
structure Cursor where
  focus : SyntaxTree
  later : List SyntaxTree
  above : List (List SyntaxTree)

namespace Cursor

/-- The cursor at the root. -/
def ofTree (tree : SyntaxTree) : Cursor := ⟨tree, [], []⟩

/-- The first child of the node. -/
def firstChild? (c : Cursor) : Option Cursor :=
  match c.focus.children with
  | [] => none
  | child :: children => some ⟨child, children, c.later :: c.above⟩

/-- The next of the given siblings, or the next one further up. -/
def resume? : List SyntaxTree → List (List SyntaxTree) → Option Cursor
  | tree :: later, above => some ⟨tree, later, above⟩
  | [], later :: above => resume? later above
  | [], [] => none

/-- The next sibling of the node, or of the nearest node above it that has one. -/
def onward? (c : Cursor) : Option Cursor := resume? c.later c.above

/-- The next node that the walk looks at. -/
def next? (c : Cursor) : Option Cursor :=
  match c.focus.condition with
  | .flagged => c.firstChild?.or c.onward?
  | _ => c.onward?

/-- The number of nodes of all the trees in several lists. -/
def sizeLists : List (List SyntaxTree) → Nat
  | [] => 0
  | trees :: lists => sizeAll trees + sizeLists lists

/-- The number of nodes that are to be seen from the cursor on. -/
def ahead (c : Cursor) : Nat := c.focus.size + sizeAll c.later + sizeLists c.above

theorem ahead_resume? : ∀ (later : List SyntaxTree) (above : List (List SyntaxTree)) (c : Cursor),
    resume? later above = some c → c.ahead = sizeAll later + sizeLists above
  | tree :: later, above, c, h => by
    simp only [resume?, Option.some.injEq] at h
    subst h
    simp [ahead, sizeAll]
  | [], later :: above, c, h => by
    rw [resume?] at h
    rw [ahead_resume? later above c h]
    simp [sizeAll, sizeLists]
  | [], [], c, h => by simp [resume?] at h

theorem ahead_onward? {c d : Cursor} (h : c.onward? = some d) : d.ahead < c.ahead := by
  have := ahead_resume? c.later c.above d h
  have : 0 < c.focus.size := by
    cases c.focus
    simp only [size]
    omega
  simp only [ahead] at *
  omega

theorem ahead_firstChild? {c d : Cursor} (h : c.firstChild? = some d) : d.ahead < c.ahead := by
  unfold firstChild? at h
  split at h
  · simp at h
  rename_i child children hc
  simp only [Option.some.injEq] at h
  subst h
  have : c.focus.size = 1 + sizeAll (child :: children) := by
    cases hf : c.focus
    rw [hf] at hc
    simp only [SyntaxTree.children] at hc
    rw [size, hc]
  simp only [ahead, this, sizeAll, sizeLists]
  omega

/-- Every step leaves a node behind. -/
theorem ahead_next? {c d : Cursor} (h : c.next? = some d) : d.ahead < c.ahead := by
  unfold next? at h
  split at h
  · cases hc : c.firstChild? with
    | none =>
      rw [hc, Option.none_or] at h
      exact ahead_onward? h
    | some e =>
      rw [hc, Option.some_or, Option.some.injEq] at h
      exact h ▸ ahead_firstChild? hc
  · exact ahead_onward? h

/-- Walks on and adds what it meets to the total. -/
def walk (c : Cursor) (total : Nat) : Nat :=
  let total := total + c.focus.rejectedHere
  match _h : c.next? with
  | none => total
  | some d => walk d total
termination_by c.ahead
decreasing_by exact ahead_next? _h

end Cursor

/-- The rejected bytes of a tree, added up in one walk. -/
def rejectedBytes (tree : SyntaxTree) : Nat := (Cursor.ofTree tree).walk 0

end Polyglot.SyntaxTree
