/-
The walk counts what the recursion counts. At every moment the trees that are still to be seen are
those at the cursor, its later siblings, and the later siblings of the nodes above it. What they
hold together is the rejected bytes that the walk is yet to add: a step adds those of the node that
it leaves, and leaves those of the others in place. No step goes back, so the walk ends after at
most as many steps as the tree has nodes.
-/
import Polyglot.SyntaxTree.Cursor
import Mathlib.Tactic.Common

namespace Polyglot.SyntaxTree

namespace Cursor

/-- The rejected bytes of all the trees in several lists. -/
def rejectedLists : List (List SyntaxTree) → Nat
  | [] => 0
  | trees :: lists => rejectedAll trees + rejectedLists lists

/-- The rejected bytes that are to be met from the cursor on. -/
def rejectedAhead (c : Cursor) : Nat :=
  c.focus.rejected + rejectedAll c.later + rejectedLists c.above

/-! ## One step -/

theorem rejectedAhead_resume? {later : List SyntaxTree} {above : List (List SyntaxTree)}
    {c : Cursor} (h : resume? later above = some c) :
    c.rejectedAhead = rejectedAll later + rejectedLists above := by
  induction above generalizing later with
  | nil =>
    cases later with
    | nil => cases h
    | cons tree later =>
      cases h
      rfl
  | cons siblings above ih =>
    cases later with
    | nil =>
      rw [ih h, rejectedAll, rejectedLists, Nat.zero_add]
    | cons tree later =>
      cases h
      rfl

theorem rejectedLists_of_resume?_eq_none {later : List SyntaxTree}
    {above : List (List SyntaxTree)} (h : resume? later above = none) :
    rejectedAll later + rejectedLists above = 0 := by
  induction above generalizing later with
  | nil =>
    cases later with
    | nil => rfl
    | cons tree later => cases h
  | cons siblings above ih =>
    cases later with
    | nil =>
      rw [rejectedAll, rejectedLists, Nat.zero_add]
      exact ih h
    | cons tree later => cases h

/-- A node that is not flagged, or has no children, is done with: all of its rejected bytes are its
own. -/
theorem rejected_eq_rejectedHere {tree : SyntaxTree}
    (h : tree.condition = .flagged → tree.children = []) :
    tree.rejected = tree.rejectedHere := by
  obtain ⟨condition, start, stop, children⟩ := tree
  cases condition with
  | flagged =>
    obtain rfl : children = [] := h rfl
    rfl
  | clean => rfl
  | error => rfl
  | missing => rfl

theorem firstChild?_eq_none {c : Cursor} (h : c.firstChild? = none) : c.focus.children = [] := by
  unfold firstChild? at h
  split at h
  · assumption
  · cases h

theorem rejectedAhead_firstChild? {c d : Cursor} (h : c.firstChild? = some d)
    (hflagged : c.focus.condition = .flagged) :
    c.rejectedAhead = c.focus.rejectedHere + d.rejectedAhead := by
  obtain ⟨⟨condition, start, stop, children⟩, later, above⟩ := c
  cases hflagged
  cases children with
  | nil => cases h
  | cons child children =>
    cases h
    simp only [rejectedAhead, rejectedHere, rejected, rejectedAll, rejectedLists]
    omega

/-- What the walk looks at next: the first child of a flagged node that has one, and otherwise what
comes after the node, which is then done with. -/
theorem next?_cases (c : Cursor) :
    (∃ d, c.focus.condition = .flagged ∧ c.firstChild? = some d ∧ c.next? = some d) ∨
      c.focus.rejected = c.focus.rejectedHere ∧ c.next? = c.onward? := by
  unfold next?
  by_cases hflagged : c.focus.condition = .flagged
  · rw [hflagged]
    cases hchild : c.firstChild? with
    | none =>
      exact .inr ⟨rejected_eq_rejectedHere fun _ => firstChild?_eq_none hchild, Option.none_or⟩
    | some d => exact .inl ⟨d, rfl, rfl, Option.some_or⟩
  · refine .inr ⟨rejected_eq_rejectedHere fun h => absurd h hflagged, ?_⟩
    split
    · contradiction
    · rfl

/-- A step leaves the bytes of the node behind and no others. -/
theorem rejectedAhead_next? {c d : Cursor} (h : c.next? = some d) :
    c.rejectedAhead = c.focus.rejectedHere + d.rejectedAhead := by
  rcases next?_cases c with ⟨e, hflagged, hchild, hnext⟩ | ⟨hdone, hnext⟩
  · obtain rfl : e = d := Option.some.inj (hnext.symm.trans h)
    exact rejectedAhead_firstChild? hchild hflagged
  · rw [hnext] at h
    rw [rejectedAhead_resume? h, rejectedAhead, hdone, Nat.add_assoc]

/-- Where the walk stops nothing is left. -/
theorem rejectedAhead_of_next?_eq_none {c : Cursor} (h : c.next? = none) :
    c.rejectedAhead = c.focus.rejectedHere := by
  rcases next?_cases c with ⟨e, -, -, hnext⟩ | ⟨hdone, hnext⟩
  · rw [hnext] at h
    cases h
  · rw [hnext] at h
    rw [rejectedAhead, hdone, Nat.add_assoc, rejectedLists_of_resume?_eq_none h, Nat.add_zero]

/-! ## All steps -/

theorem walk_of_next?_eq_none {c : Cursor} (h : c.next? = none) (total : Nat) :
    c.walk total = total + c.focus.rejectedHere := by
  unfold walk
  split
  · rfl
  · rename_i d hnext
    rw [hnext] at h
    cases h

theorem walk_of_next?_eq_some {c d : Cursor} (h : c.next? = some d) (total : Nat) :
    c.walk total = d.walk (total + c.focus.rejectedHere) := by
  conv_lhs => unfold walk
  split
  · rename_i hnext
    rw [hnext] at h
    cases h
  · rename_i e hnext
    rw [Option.some.inj (hnext.symm.trans h)]

/-- From wherever it is the walk adds what is ahead. -/
theorem walk_eq (c : Cursor) (total : Nat) : c.walk total = total + c.rejectedAhead := by
  induction c, total using walk.induct with
  | case1 c total hnext =>
    rw [walk_of_next?_eq_none hnext, rejectedAhead_of_next?_eq_none hnext]
  | case2 c total total' d hnext ih =>
    rw [walk_of_next?_eq_some hnext, rejectedAhead_next? hnext, ← Nat.add_assoc]
    exact ih

/-- Where the walk is after a number of steps, if it has not ended. -/
def after : Nat → Cursor → Option Cursor
  | 0, c => some c
  | n + 1, c => c.next?.bind (after n)

/-- The walk ends after as many steps as there are nodes ahead at the latest. -/
theorem after_eq_none {n : Nat} {c : Cursor} (h : c.ahead ≤ n) : after n c = none := by
  induction n generalizing c with
  | zero =>
    -- the node in focus is always ahead
    have hpos : 0 < c.focus.size := by
      cases c.focus
      rw [size]
      omega
    unfold ahead at h
    omega
  | succ n ih =>
    rw [after]
    cases hnext : c.next? with
    | none => rfl
    | some d =>
      have := ahead_next? hnext
      exact ih (by omega)

theorem ahead_ofTree (tree : SyntaxTree) : (ofTree tree).ahead = tree.size := by
  rw [ahead, ofTree, sizeAll, sizeLists]
  rfl

end Cursor

/-- The walk adds up what the recursion adds up, whatever the nodes say. -/
theorem rejectedBytes_eq (tree : SyntaxTree) : tree.rejectedBytes = tree.rejected := by
  rw [rejectedBytes, Cursor.walk_eq, Nat.zero_add]
  rfl

end Polyglot.SyntaxTree
