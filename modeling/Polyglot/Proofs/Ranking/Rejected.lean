/-
What a grammar rejects is counted once, and takes away a share of the sample. The walk through a
tree ends, and adds up the outermost errors and missing nodes. Their bytes are cut off at the size
of the sample, so the share that is left lies between zero and one; it does so for machine numbers
too, as rounding keeps the order and leaves one as it is.
-/
import Polyglot.Proofs.Double.Machine
import Polyglot.Proofs.SyntaxTree.Regions
import Polyglot.Proofs.SyntaxTree.Walk
import Polyglot.Ranking.Fit

namespace Polyglot.Ranking

open Double (ofFloat nearest one bound)
open SyntaxTree (Cursor weigh errors missing)

/-! ## The share of a sample -/

/-- The steps of the double nearest to a natural number. -/
def natSteps (n : Nat) : Nat := nearest (n * one) 1

theorem natSteps_one : natSteps 1 = one := by
  rw [natSteps, Double.nearest_of_dvd (Double.representable_mul_one (by decide)).2, Nat.one_mul]

theorem natSteps_lt_bound {n : Nat} (h : n < 2 ^ 64) : natSteps n < bound := by
  obtain ⟨o, ho⟩ : ∃ o, o = 1074 := ⟨_, rfl⟩
  obtain ⟨e, he⟩ : ∃ e, 53 + e = 2098 := ⟨2045, rfl⟩
  have hlt : n * one / 1 < 2 ^ (52 + (o + 12)) := by
    rw [Nat.div_one, Double.one_eq ho, show 52 + (o + 12) = 64 + o by omega, Nat.pow_add]
    exact Nat.mul_lt_mul_of_pos_right h (Nat.two_pow_pos o)
  calc natSteps n ≤ 2 ^ (52 + (o + 12)) := Double.nearest_le_pow (by omega) hlt
    _ < 2 ^ (53 + e) := Nat.pow_lt_pow_right (by decide) (by omega)
    _ = bound := (Double.bound_eq he).symm

theorem ofFloat_ofNat_of_lt {n : Nat} (h : n < 2 ^ 64) :
    ofFloat (.ofNat n) = .finite false (natSteps n) :=
  (Double.ofFloat_ofNat n).trans (Double.quotient_of_lt (natSteps_lt_bound h))

/-- Dividing by something that is not less gives at most one. -/
theorem nearest_div_le_one {a b : Nat} (hb : 0 < b) (h : a ≤ b) : nearest (a * one) b ≤ one := by
  calc nearest (a * one) b ≤ nearest (b * one) b := Double.nearest_mono (Nat.mul_le_mul_right _ h)
    _ = nearest (1 * one) 1 := Double.nearest_congr hb Nat.one_pos (by ring)
    _ = one := natSteps_one

theorem one_lt_bound : one < bound := by
  have h := (Double.representable_mul_one (n := 1) (by decide)).1
  rwa [Nat.one_mul] at h

/-- The quotient of two numbers of which the second is not less lies between zero and one. -/
theorem ofFloat_ratio {n d : Nat} (hd : 0 < d) (hlt : d < 2 ^ 64) (hle : n ≤ d) :
    ∃ steps ≤ one, ofFloat (Scale.ratio n d) = .finite false steps := by
  have hdsteps : 0 < natSteps d := Double.nearest_pos (Nat.mul_pos hd Double.one_pos)
  have hunit : nearest (natSteps n * one) (natSteps d) ≤ one :=
    nearest_div_le_one hdsteps (Double.nearest_mono (Nat.mul_le_mul_right _ hle))
  refine ⟨_, hunit, ?_⟩
  show ofFloat (Float.ofNat n / Float.ofNat d) = _
  rw [Double.ofFloat_div (ofFloat_ofNat_of_lt (by omega)) (ofFloat_ofNat_of_lt hlt) (by omega),
    Double.quotient_of_lt (Nat.lt_of_le_of_lt hunit one_lt_bound)]
  rfl

/-- Whatever is rejected, the share of a sample lies between zero and one. -/
theorem ofFloat_syntaxFit {size : Nat} (hsize : size < 2 ^ 64) (rejected : Nat) :
    ∃ steps ≤ one, ofFloat (syntaxFit size rejected) = .finite false steps := by
  unfold syntaxFit
  split
  · refine ⟨0, Nat.zero_le _, ?_⟩
    show ofFloat (.ofNat 0) = _
    rw [Double.ofFloat_ofNat, Nat.zero_mul, Double.quotient_zero false Nat.one_pos]
  · have hone : ofFloat (.ofNat 1) = .finite false one := by
      rw [ofFloat_ofNat_of_lt (by decide), natSteps_one]
    obtain ⟨steps, hle, hratio⟩ := ofFloat_ratio (by omega) hsize (Nat.min_le_right rejected size)
    -- the ratio is not above one, and rounding keeps it there
    have hunit : nearest (one - steps) 1 ≤ one := by
      calc nearest (one - steps) 1 ≤ nearest (1 * one) 1 := Double.nearest_mono (by omega)
        _ = one := natSteps_one
    refine ⟨_, hunit, ?_⟩
    show ofFloat (Float.ofNat 1 - Scale.ratio (min rejected size) size) = _
    rw [Double.ofFloat_sub hone hratio]
    show Double.rounded false ((one : Int) - steps) = _
    rw [← Int.ofNat_sub hle, Double.rounded_natCast,
      Double.quotient_of_lt (Nat.lt_of_le_of_lt hunit one_lt_bound)]

/-! ## The walk as a whole -/

/-- The walk through any tree ends after no more steps than there are nodes. Whatever the nodes say,
it adds up what the recursion does that only goes on below flagged nodes: the lengths of the errors
that are come to so and one for each missing node. If flags are set just where they should be, these
are the errors and missing nodes with none above them, each of them once, as a recursion finds them
that goes on below all other nodes. If the errors at or below different children of a node are apart,
as they are where children lie in their parents and beside one another, and if they lie in the
sample, they take no more bytes than it has; and the share of the sample that is left always lies
between zero and one, for all sizes that a machine word can hold. -/
theorem rejectedBytes_counts_once (tree : SyntaxTree) :
    Cursor.after tree.size (.ofTree tree) = none ∧
    tree.rejectedBytes = tree.rejected ∧
    tree.rejectedBytes = weigh (errors tree.counted) + (missing tree.counted).length ∧
    (tree.Honest → tree.rejectedBytes = weigh tree.outermost ∧
      (tree.outermost.map Prod.fst).Nodup ∧
      (∀ path region, (path, region) ∈ tree.outermost ↔ tree.IsOutermost path region) ∧
      tree.rejectedBytes = tree.added fun t => ¬ t.IsRejected) ∧
    (tree.Nested → tree.ErrorsApart) ∧
    (∀ size, tree.ErrorsApart → tree.ErrorsWithin size → weigh (errors tree.counted) ≤ size) ∧
    ∀ size < 2 ^ 64, ∃ steps ≤ one,
      ofFloat (syntaxFit size tree.rejectedBytes) = .finite false steps := by
  have hcounted : tree.rejectedBytes = weigh tree.counted := by
    rw [tree.rejectedBytes_eq, tree.rejected_eq_added, SyntaxTree.counted, SyntaxTree.weigh_regions]
  have hparts : weigh tree.counted = weigh (errors tree.counted) + (missing tree.counted).length :=
    SyntaxTree.weigh_eq fun _ => SyntaxTree.isRejected_of_mem
  have hstop (t : SyntaxTree) (h : decide (t.condition = .flagged) = true) : ¬ t.IsRejected := by
    rw [SyntaxTree.IsRejected, of_decide_eq_true h]
    decide
  refine ⟨Cursor.after_eq_none (Nat.le_of_eq (Cursor.ahead_ofTree tree)), tree.rejectedBytes_eq,
    hcounted.trans hparts, fun hhonest => ?_, SyntaxTree.Nested.errorsApart,
    fun size hapart => hapart.weigh_errors_le hstop, fun size hsize => ofFloat_syntaxFit hsize _⟩
  have houtermost : tree.rejectedBytes = weigh tree.outermost :=
    hcounted.trans (SyntaxTree.weigh_perm hhonest.counted_perm)
  exact ⟨houtermost, SyntaxTree.nodup_regions _ tree, fun _ _ => SyntaxTree.mem_outermost_iff,
    houtermost.trans (SyntaxTree.weigh_regions _ tree)⟩

/-- An error holds another one and a missing node, a missing node comes first below its parent, and
an error comes last on two levels. -/
theorem rejectedBytes_counts_once_nested :
    let tree : SyntaxTree := .node .flagged 0 12 [.node .clean 0 3 [],
      .node .flagged 3 8 [.node .missing 3 3 [],
        .node .error 3 7 [.node .error 4 5 [], .node .missing 5 5 []]],
      .node .flagged 8 12 [.node .flagged 8 12 [.node .error 9 12 []]]]
    (tree.Honest ∧ tree.ErrorsApart ∧ tree.ErrorsWithin 12) ∧
      tree.rejectedBytes = weigh tree.outermost ∧ weigh tree.outermost = 8 ∧
      weigh (errors tree.counted) ≤ 12 ∧
      ∃ steps ≤ one, ofFloat (syntaxFit 12 tree.rejectedBytes) = .finite false steps := by
  intro tree
  have hhonest : tree.Honest := by decide +kernel
  have hapart : tree.ErrorsApart := by decide +kernel
  have hwithin : tree.ErrorsWithin 12 := by decide +kernel
  obtain ⟨-, -, -, hhonestly, -, herrors, hshare⟩ := rejectedBytes_counts_once tree
  exact ⟨⟨hhonest, hapart, hwithin⟩, (hhonestly hhonest).1, by decide +kernel,
    herrors 12 hapart hwithin, hshare 12 (by decide)⟩

/-- It does not do that errors are apart from those among their siblings: of two siblings that are no
errors each may hold an error with the same byte, and then that byte is counted twice. -/
theorem not_weigh_errors_le_of_siblings :
    let tree : SyntaxTree := .node .flagged 0 1 [.node .flagged 0 1 [.node .error 0 1 []],
      .node .flagged 0 1 [.node .error 0 1 []]]
    (tree.Honest ∧ tree.SiblingErrorsApart ∧ tree.ErrorsWithin 1 ∧
      weigh (errors tree.counted) = 2) ∧
    ¬ ∀ (tree : SyntaxTree) (size : Nat), tree.Honest → tree.SiblingErrorsApart →
      tree.ErrorsWithin size → weigh (errors tree.counted) ≤ size := by
  intro tree
  have hhonest : tree.Honest := by decide +kernel
  have hsiblings : tree.SiblingErrorsApart := by decide +kernel
  have hwithin : tree.ErrorsWithin 1 := by decide +kernel
  have htwo : weigh (errors tree.counted) = 2 := by decide +kernel
  refine ⟨⟨hhonest, hsiblings, hwithin, htwo⟩, fun h => ?_⟩
  have hle := h tree 1 hhonest hsiblings hwithin
  rw [htwo] at hle
  exact absurd hle (by decide)

end Polyglot.Ranking
