/-
The rejected regions of a tree: the errors and missing nodes that have none above them. Positions
are paths of child numbers from the root. A recursion comes to the nodes that have only nodes above
them that it enters; the one of the model enters flagged nodes. If flags are as they should be, set
just where there is an error or a missing node at or below, no region is lost by that.

Errors that share no bytes and lie in the text cannot take more bytes than the text has. Regions
never lie above one another, so only errors below different children of a node need to be apart.
-/
import Polyglot.SyntaxTree.Basic
import Mathlib.Data.List.Nodup
import Mathlib.Data.List.Perm.Subperm
import Mathlib.Tactic.Common

namespace Polyglot.SyntaxTree

/-! ## Nodes -/

/-- What holds of a node if it holds of its children holds of every tree. -/
@[elab_as_elim]
theorem nodewise {motive : SyntaxTree → Prop}
    (node : ∀ condition start stop children, (∀ child ∈ children, motive child) →
      motive (.node condition start stop children)) (tree : SyntaxTree) : motive tree :=
  @SyntaxTree.rec motive (fun trees => ∀ tree ∈ trees, motive tree) node
    (fun _ h => absurd h List.not_mem_nil)
    (fun _ _ htree htrees => List.forall_mem_cons.2 ⟨htree, htrees⟩) tree

/-- The node at a path. -/
def at? (tree : SyntaxTree) : List Nat → Option SyntaxTree
  | [] => some tree
  | i :: path => tree.children[i]?.bind fun child => child.at? path

/-- The bytes that the root covers. -/
def bytes : SyntaxTree → List Nat
  | node _ start stop _ => List.range' start (stop - start)

/-- Whether the root is an error or missing. -/
def IsRejected (tree : SyntaxTree) : Prop := tree.condition = .error ∨ tree.condition = .missing

instance (tree : SyntaxTree) : Decidable tree.IsRejected := by
  unfold IsRejected; infer_instance

variable {tree found : SyntaxTree} {path : List Nat} {enter : SyntaxTree → Bool}

theorem at?_append (p q : List Nat) :
    tree.at? (p ++ q) = (tree.at? p).bind fun node => node.at? q := by
  induction p generalizing tree with
  | nil => rfl
  | cons i p ih =>
    rw [List.cons_append, at?, at?, Option.bind_assoc]
    congr 1
    funext child
    exact ih

theorem at?_concat {child : SyntaxTree} {i : Nat} (h : tree.at? path = some found)
    (hchild : found.children[i]? = some child) : tree.at? (path ++ [i]) = some child := by
  rw [at?_append, h, Option.bind_some, at?, hchild]
  rfl

theorem rejectedHere_of_not_isRejected (h : ¬ tree.IsRejected) : tree.rejectedHere = 0 := by
  obtain ⟨condition, start, stop, children⟩ := tree
  cases condition with
  | error => exact absurd (.inl rfl) h
  | missing => exact absurd (.inr rfl) h
  | clean => rfl
  | flagged => rfl

/-! ## Where a recursion comes to -/

/-- A node with its path. -/
abbrev Place : Type := List Nat × SyntaxTree

mutual

/-- The nodes that a recursion comes to which goes on below the nodes that it enters. -/
def places (enter : SyntaxTree → Bool) : SyntaxTree → List Place
  | .node condition start stop children =>
    ([], .node condition start stop children) ::
      if enter (.node condition start stop children) then placesAll enter 0 children else []

/-- The same for trees side by side, of which the first is the child with the given number. -/
def placesAll (enter : SyntaxTree → Bool) (i : Nat) : List SyntaxTree → List Place
  | [] => []
  | tree :: trees =>
    (places enter tree).map (fun (path, found) => (i :: path, found)) ++
      placesAll enter (i + 1) trees

end

theorem places_eq (enter : SyntaxTree → Bool) (tree : SyntaxTree) : tree.places enter =
    ([], tree) :: if enter tree then placesAll enter 0 tree.children else [] := by
  cases tree
  rw [places]
  rfl

theorem mem_placesAll {i : Nat} {trees : List SyntaxTree} :
    (path, found) ∈ placesAll enter i trees ↔ ∃ k p child,
      path = (i + k) :: p ∧ trees[k]? = some child ∧ (p, found) ∈ child.places enter := by
  induction trees generalizing i with
  | nil => simp [placesAll]
  | cons tree trees ih =>
    rw [placesAll, List.mem_append, ih]
    constructor
    · rintro (h | ⟨k, p, child, rfl, hk, hp⟩)
      · obtain ⟨⟨p, other⟩, hp, heq⟩ := List.mem_map.1 h
        cases heq
        exact ⟨0, p, tree, rfl, rfl, hp⟩
      · exact ⟨k + 1, p, child, by rw [Nat.add_right_comm, Nat.add_assoc], hk, hp⟩
    · rintro ⟨k, p, child, rfl, hk, hp⟩
      cases k with
      | zero =>
        obtain rfl : tree = child := Option.some.inj hk
        exact .inl (List.mem_map.2 ⟨(p, found), hp, rfl⟩)
      | succ k => exact .inr ⟨k, p, child, by rw [Nat.add_right_comm, Nat.add_assoc], hk, hp⟩

theorem mem_places_nil : ([], found) ∈ tree.places enter ↔ tree = found := by
  rw [places_eq, List.mem_cons, Prod.mk.injEq]
  constructor
  · rintro (⟨-, rfl⟩ | hmem)
    · rfl
    · split at hmem
      · obtain ⟨k, p, child, hpath, -⟩ := mem_placesAll.1 hmem
        cases hpath
      · cases hmem
  · rintro rfl
    exact .inl ⟨rfl, rfl⟩

theorem mem_places_cons {i : Nat} : (i :: path, found) ∈ tree.places enter ↔
    enter tree = true ∧ ∃ child, tree.children[i]? = some child ∧
      (path, found) ∈ child.places enter := by
  rw [places_eq, List.mem_cons, Prod.mk.injEq]
  constructor
  · rintro (⟨hpath, -⟩ | hmem)
    · cases hpath
    · split at hmem
      · rename_i henter
        obtain ⟨k, p, child, hpath, hchild, hp⟩ := mem_placesAll.1 hmem
        rw [Nat.zero_add] at hpath
        cases hpath
        exact ⟨henter, child, hchild, hp⟩
      · cases hmem
  · rintro ⟨henter, child, hchild, hp⟩
    rw [if_pos henter]
    exact .inr (mem_placesAll.2 ⟨i, path, child, by rw [Nat.zero_add], hchild, hp⟩)

/-- A recursion comes to the nodes that have only entered nodes above them. -/
theorem mem_places_iff : (path, found) ∈ tree.places enter ↔ tree.at? path = some found ∧
    ∀ p ancestor, p <+: path → p ≠ path → tree.at? p = some ancestor → enter ancestor = true := by
  induction path generalizing tree with
  | nil =>
    rw [mem_places_nil, at?, Option.some.injEq, iff_self_and]
    exact fun _ p _ hp hne => absurd (List.prefix_nil.1 hp) hne
  | cons i path ih =>
    rw [mem_places_cons, at?, Option.bind_eq_some_iff]
    constructor
    · rintro ⟨henter, child, hchild, hp⟩
      obtain ⟨hat, habove⟩ := ih.1 hp
      refine ⟨⟨child, hchild, hat⟩, ?_⟩
      intro p ancestor hp hne hatp
      -- the node above is the root, or lies below the same child
      rcases List.prefix_cons_iff.1 hp with rfl | ⟨q, rfl, hq⟩
      · obtain rfl : tree = ancestor := Option.some.inj hatp
        exact henter
      · rw [at?, hchild, Option.bind_some] at hatp
        exact habove q ancestor hq (fun heq => hne (by rw [heq])) hatp
    · rintro ⟨⟨child, hchild, hat⟩, habove⟩
      refine ⟨habove [] tree List.nil_prefix (List.cons_ne_nil i path).symm rfl, child, hchild,
        ih.2 ⟨hat, fun p ancestor hp hne hatp => ?_⟩⟩
      refine habove (i :: p) ancestor (List.cons_prefix_cons.2 ⟨rfl, hp⟩) ?_ ?_
      · exact fun heq => hne (List.cons.inj heq).2
      · rw [at?, hchild, Option.bind_some, hatp]

/-- It comes to no node twice. -/
theorem nodup_places (enter : SyntaxTree → Bool) (tree : SyntaxTree) :
    ((tree.places enter).map Prod.fst).Nodup := by
  induction tree using nodewise with
  | node condition start stop children ih =>
    have hall (i : Nat) : ((placesAll enter i children).map Prod.fst).Nodup := by
      clear condition start stop
      induction children generalizing i with
      | nil => exact List.nodup_nil
      | cons child children ihc =>
        rw [List.forall_mem_cons] at ih
        rw [placesAll, List.map_append, List.map_map]
        refine List.nodup_append'.2 ⟨?_, ihc ih.2 (i + 1), ?_⟩
        · have := ih.1.map (List.cons_injective (a := i))
          rwa [List.map_map] at this
        · -- paths begin with the number of the child
          rw [List.disjoint_left]
          intro p hp hp'
          obtain ⟨⟨q, a⟩, -, rfl⟩ := List.mem_map.1 hp
          obtain ⟨⟨q', b⟩, hq', heq⟩ := List.mem_map.1 hp'
          obtain ⟨k, q'', c, rfl, -⟩ := mem_placesAll.1 hq'
          have := (List.cons.inj heq).1
          omega
    rw [places, List.map_cons, List.nodup_cons]
    split
    · refine ⟨fun hmem => ?_, hall 0⟩
      obtain ⟨⟨p, a⟩, ha, heq⟩ := List.mem_map.1 hmem
      obtain ⟨k, q, c, rfl, -⟩ := mem_placesAll.1 ha
      cases heq
    · exact ⟨List.not_mem_nil, List.nodup_nil⟩

/-- All nodes. -/
def everywhere (tree : SyntaxTree) : List Place := tree.places fun _ => true

theorem mem_everywhere_iff : (path, found) ∈ tree.everywhere ↔ tree.at? path = some found := by
  rw [everywhere, mem_places_iff, and_iff_left_iff_imp]
  exact fun _ _ _ _ _ _ => rfl

/-! ## Regions -/

/-- The errors and missing nodes that a recursion comes to. -/
def regions (enter : SyntaxTree → Bool) (tree : SyntaxTree) : List Place :=
  (tree.places enter).filter fun place => place.2.IsRejected

/-- The regions that are come to by way of flagged nodes. -/
def counted (tree : SyntaxTree) : List Place := tree.regions fun t => t.condition = .flagged

/-- The regions that are come to by way of any nodes but errors and missing ones. -/
def outermost (tree : SyntaxTree) : List Place := tree.regions fun t => ¬ t.IsRejected

theorem mem_regions_iff : (path, found) ∈ tree.regions enter ↔
    tree.at? path = some found ∧ found.IsRejected ∧ ∀ p ancestor, p <+: path → p ≠ path →
      tree.at? p = some ancestor → enter ancestor = true := by
  rw [regions, List.mem_filter, decide_eq_true_iff, mem_places_iff, and_right_comm, and_assoc]

theorem isRejected_of_mem {place : Place} (h : place ∈ tree.regions enter) :
    place.2.IsRejected :=
  of_decide_eq_true (List.mem_filter.1 h).2

theorem nodup_regions (enter : SyntaxTree → Bool) (tree : SyntaxTree) :
    ((tree.regions enter).map Prod.fst).Nodup :=
  (nodup_places enter tree).sublist (List.filter_sublist.map Prod.fst)

/-- An error or a missing node that has none above it. -/
def IsOutermost (tree : SyntaxTree) (path : List Nat) (region : SyntaxTree) : Prop :=
  tree.at? path = some region ∧ region.IsRejected ∧
    ∀ p ancestor, p <+: path → p ≠ path → tree.at? p = some ancestor → ¬ ancestor.IsRejected

theorem mem_outermost_iff : (path, found) ∈ tree.outermost ↔ tree.IsOutermost path found := by
  rw [outermost, mem_regions_iff, IsOutermost]
  simp only [decide_eq_true_iff]

/-! ## Sums over the regions -/

mutual

/-- The bytes that a plain recursion adds up which goes on below the nodes that it enters. -/
def added (enter : SyntaxTree → Bool) : SyntaxTree → Nat
  | .node condition start stop children =>
    (node condition start stop children).rejectedHere +
      if enter (.node condition start stop children) then addedAll enter children else 0

/-- The bytes that it adds up for several trees. -/
def addedAll (enter : SyntaxTree → Bool) : List SyntaxTree → Nat
  | [] => 0
  | tree :: trees => added enter tree + addedAll enter trees

end

/-- The rejected bytes of nodes, each taken by itself. -/
def weigh : List Place → Nat
  | [] => 0
  | (_, found) :: places => found.rejectedHere + weigh places

theorem weigh_append (places others : List Place) :
    weigh (places ++ others) = weigh places + weigh others := by
  induction places with
  | nil => exact (Nat.zero_add _).symm
  | cons place places ih => rw [List.cons_append, weigh, weigh, ih, Nat.add_assoc]

theorem weigh_below (i : Nat) (places : List Place) :
    weigh (places.map fun (path, found) => (i :: path, found)) = weigh places := by
  induction places with
  | nil => rfl
  | cons place places ih => rw [List.map_cons, weigh, weigh, ih]

theorem weigh_perm {places others : List Place} (h : places.Perm others) :
    weigh places = weigh others := by
  induction h with
  | nil => rfl
  | cons place _ ih => rw [weigh, weigh, ih]
  | swap place other places => rw [weigh, weigh, weigh, weigh, Nat.add_left_comm]
  | trans _ _ ih ih' => exact ih.trans ih'

/-- A recursion adds up the nodes that it comes to. -/
theorem added_eq_weigh_places (enter : SyntaxTree → Bool) (tree : SyntaxTree) :
    tree.added enter = weigh (tree.places enter) := by
  induction tree using nodewise with
  | node condition start stop children ih =>
    -- the children count the same wherever their numbers start
    have hall (i : Nat) : addedAll enter children = weigh (placesAll enter i children) := by
      clear condition start stop
      induction children generalizing i with
      | nil => rfl
      | cons child children ihc =>
        rw [List.forall_mem_cons] at ih
        rw [addedAll, placesAll, weigh_append, weigh_below, ih.1, ihc ih.2 (i + 1)]
    rw [added, places, weigh]
    split
    · rw [hall 0]
    · rfl

/-- Only the regions among them count. -/
theorem weigh_regions (enter : SyntaxTree → Bool) (tree : SyntaxTree) :
    weigh (tree.regions enter) = tree.added enter := by
  rw [added_eq_weigh_places, regions]
  induction tree.places enter with
  | nil => rfl
  | cons place places ih =>
    obtain ⟨path, found⟩ := place
    rw [weigh, List.filter_cons]
    split
    · rw [weigh, ih]
    · rename_i h
      rw [ih, rejectedHere_of_not_isRejected (mt decide_eq_true h), Nat.zero_add]

/-- The recursion of the model enters flagged nodes. -/
theorem rejected_eq_added (tree : SyntaxTree) :
    tree.rejected = tree.added fun t => t.condition = .flagged := by
  induction tree using nodewise with
  | node condition start stop children ih =>
    have hall : rejectedAll children = addedAll (fun t => t.condition = .flagged) children := by
      clear condition start stop
      induction children with
      | nil => rfl
      | cons child children ihc =>
        rw [List.forall_mem_cons] at ih
        rw [rejectedAll, addedAll, ih.1, ihc ih.2]
    cases condition with
    | flagged =>
      rw [rejected, hall, added, if_pos (by rfl)]
      exact (Nat.zero_add _).symm
    | clean => rfl
    | error => rfl
    | missing => rfl

/-! ## Flags as they should be -/

/-- Just the nodes with an error or a missing node at or below them say that something is wrong. -/
def Honest (tree : SyntaxTree) : Prop :=
  ∀ path node, tree.at? path = some node →
    (node.condition ≠ .clean ↔ ∃ p region, node.at? p = some region ∧ region.IsRejected)

theorem honest_iff : tree.Honest ↔ ∀ place ∈ tree.everywhere,
    (place.2.condition ≠ .clean ↔ ∃ region ∈ place.2.everywhere, region.2.IsRejected) := by
  simp only [Honest, Prod.forall, Prod.exists, mem_everywhere_iff]

instance (tree : SyntaxTree) : Decidable tree.Honest := decidable_of_iff _ honest_iff.symm

/-- Above a region, rightly flagged nodes are those that are no regions themselves. -/
theorem Honest.flagged_iff (h : tree.Honest) {p : List Nat} {ancestor : SyntaxTree}
    (hp : p <+: path) (hancestor : tree.at? p = some ancestor) (hat : tree.at? path = some found)
    (hfound : found.IsRejected) : ancestor.condition = .flagged ↔ ¬ ancestor.IsRejected := by
  obtain ⟨q, rfl⟩ := hp
  rw [at?_append, hancestor, Option.bind_some] at hat
  have hclean : ancestor.condition ≠ .clean := (h p ancestor hancestor).2 ⟨q, found, hat, hfound⟩
  unfold IsRejected
  cases hcondition : ancestor.condition with
  | clean => exact absurd hcondition hclean
  | flagged => decide
  | error => decide
  | missing => decide

/-- The flags lead to all of the regions. -/
theorem Honest.counted_perm (h : tree.Honest) : tree.counted.Perm tree.outermost := by
  refine (List.perm_ext_iff_of_nodup (nodup_regions _ tree).of_map
    (nodup_regions _ tree).of_map).2 ?_
  rintro ⟨path, found⟩
  rw [mem_regions_iff, mem_regions_iff]
  refine and_congr_right fun hat => and_congr_right fun hfound => ?_
  refine forall₄_congr fun p ancestor hp hne => forall_congr' fun hancestor => ?_
  rw [decide_eq_true_iff, decide_eq_true_iff]
  exact h.flagged_iff hp hancestor hat hfound

/-! ## Errors that are apart -/

/-- Errors at or below different children of a node share no bytes. -/
def ErrorsApart (tree : SyntaxTree) : Prop :=
  ∀ path i j p q a b, i ≠ j → tree.at? (path ++ i :: p) = some a →
    tree.at? (path ++ j :: q) = some b → a.condition = .error → b.condition = .error →
    a.bytes.Disjoint b.bytes

/-- Errors cover bytes of a text of the given size only. -/
def ErrorsWithin (size : Nat) (tree : SyntaxTree) : Prop :=
  ∀ path a, tree.at? path = some a → a.condition = .error → ∀ k ∈ a.bytes, k < size

theorem errorsWithin_iff {size : Nat} : tree.ErrorsWithin size ↔ ∀ place ∈ tree.everywhere,
    place.2.condition = .error → ∀ k ∈ place.2.bytes, k < size := by
  simp only [ErrorsWithin, Prod.forall, mem_everywhere_iff]

instance (size : Nat) (tree : SyntaxTree) : Decidable (tree.ErrorsWithin size) :=
  decidable_of_iff _ errorsWithin_iff.symm

/-- Two paths part somewhere unless one goes on from the other. -/
theorem exists_fork {p q : List Nat} (hp : ¬ p <+: q) (hq : ¬ q <+: p) :
    ∃ path i j p' q', i ≠ j ∧ p = path ++ i :: p' ∧ q = path ++ j :: q' := by
  induction p generalizing q with
  | nil => exact absurd List.nil_prefix hp
  | cons i p ih =>
    cases q with
    | nil => exact absurd List.nil_prefix hq
    | cons j q =>
      by_cases hij : i = j
      · -- they part further down
        subst hij
        rw [List.cons_prefix_cons] at hp hq
        obtain ⟨path, k, l, p', q', hkl, rfl, rfl⟩ :=
          ih (fun h => hp ⟨rfl, h⟩) (fun h => hq ⟨rfl, h⟩)
        exact ⟨i :: path, k, l, p', q', hkl, rfl, rfl⟩
      · exact ⟨[], i, j, p, q, hij, rfl, rfl⟩

theorem not_isPrefix_of_fork {path p q : List Nat} {i j : Nat} (hij : i ≠ j) :
    ¬ path ++ i :: p <+: path ++ j :: q := by
  rw [List.prefix_append_right_inj, List.cons_prefix_cons]
  exact fun h => hij h.1

/-- Errors are apart if those are that do not lie above one another. -/
theorem errorsApart_iff : tree.ErrorsApart ↔ ∀ a ∈ tree.everywhere, ∀ b ∈ tree.everywhere,
    a.2.condition = .error → b.2.condition = .error → ¬ a.1 <+: b.1 → ¬ b.1 <+: a.1 →
    ∀ k ∈ a.2.bytes, k ∉ b.2.bytes := by
  constructor
  · rintro h ⟨p, a⟩ ha ⟨q, b⟩ hb hea heb hp hq
    rw [mem_everywhere_iff] at ha hb
    obtain ⟨path, i, j, p', q', hij, rfl, rfl⟩ := exists_fork hp hq
    exact fun k hk hk' => h path i j p' q' a b hij ha hb hea heb hk hk'
  · intro h path i j p q a b hij ha hb hea heb k hk hk'
    exact h ⟨_, a⟩ (mem_everywhere_iff.2 ha) ⟨_, b⟩ (mem_everywhere_iff.2 hb) hea heb
      (not_isPrefix_of_fork hij) (not_isPrefix_of_fork hij.symm) k hk hk'

instance (tree : SyntaxTree) : Decidable tree.ErrorsApart :=
  decidable_of_iff _ errorsApart_iff.symm

/-- Two nodes are no errors that share bytes. -/
def Apart (a b : SyntaxTree) : Prop :=
  a.condition = .error → b.condition = .error → ∀ k ∈ a.bytes, k ∉ b.bytes

instance : DecidableRel Apart := fun a b => by
  unfold Apart; infer_instance

/-- Errors share no bytes with the errors among their siblings. Of those further down nothing is
said. -/
def SiblingErrorsApart (tree : SyntaxTree) : Prop :=
  ∀ path node, tree.at? path = some node → node.children.Pairwise Apart

theorem siblingErrorsApart_iff : tree.SiblingErrorsApart ↔
    ∀ place ∈ tree.everywhere, place.2.children.Pairwise Apart := by
  simp only [SiblingErrorsApart, Prod.forall, mem_everywhere_iff]

instance (tree : SyntaxTree) : Decidable tree.SiblingErrorsApart :=
  decidable_of_iff _ siblingErrorsApart_iff.symm

/-- Children cover bytes of their parents only, and siblings share no bytes. -/
def Nested (tree : SyntaxTree) : Prop :=
  ∀ path node, tree.at? path = some node →
    (∀ child ∈ node.children, child.bytes ⊆ node.bytes) ∧
      node.children.Pairwise fun child sibling => child.bytes.Disjoint sibling.bytes

theorem Nested.bytes_subset (h : tree.Nested) {p : List Nat} {node : SyntaxTree}
    (hnode : tree.at? p = some node) (hfound : node.at? path = some found) :
    found.bytes ⊆ node.bytes := by
  induction path generalizing p node with
  | nil =>
    obtain rfl : node = found := Option.some.inj hfound
    exact List.Subset.refl _
  | cons i path ih =>
    obtain ⟨child, hchild, hfound⟩ := Option.bind_eq_some_iff.1 hfound
    exact List.Subset.trans (ih (at?_concat hnode hchild) hfound)
      ((h p node hnode).1 child (List.mem_of_getElem? hchild))

/-- Where nodes are nested errors are apart. -/
theorem Nested.errorsApart (h : tree.Nested) : tree.ErrorsApart := by
  intro path i j p q a b hij ha hb _ _
  rw [at?_append] at ha hb
  obtain ⟨node, hnode, ha⟩ := Option.bind_eq_some_iff.1 ha
  rw [hnode, Option.bind_some] at hb
  have hbelow {k : Nat} {r : List Nat} {e : SyntaxTree} (he : node.at? (k :: r) = some e) :
      ∃ child, node.children[k]? = some child ∧ e.bytes ⊆ child.bytes := by
    obtain ⟨child, hchild, hat⟩ := Option.bind_eq_some_iff.1 he
    exact ⟨child, hchild, h.bytes_subset (at?_concat hnode hchild) hat⟩
  obtain ⟨child, hchild, hachild⟩ := hbelow ha
  obtain ⟨sibling, hsibling, hbsibling⟩ := hbelow hb
  -- the two children are different ones, in one order or the other
  have hdisjoint : child.bytes.Disjoint sibling.bytes := by
    have hapart := (h path node hnode).2
    obtain ⟨hi, rfl⟩ := List.getElem?_eq_some_iff.1 hchild
    obtain ⟨hj, rfl⟩ := List.getElem?_eq_some_iff.1 hsibling
    rw [List.pairwise_iff_getElem] at hapart
    rcases Nat.lt_or_gt_of_ne hij with hlt | hgt
    · exact hapart i j hi hj hlt
    · exact List.disjoint_symm (hapart j i hj hi hgt)
  exact fun k hk hk' => hdisjoint (hachild hk) (hbsibling hk')

/-- The errors among the regions. -/
def errors (regions : List Place) : List Place :=
  regions.filter fun place => place.2.condition = .error

/-- The missing nodes among the regions. -/
def missing (regions : List Place) : List Place :=
  regions.filter fun place => place.2.condition = .missing

/-- Errors weigh their lengths, and missing nodes one each. -/
theorem weigh_eq {regions : List Place} (h : ∀ place ∈ regions, place.2.IsRejected) :
    weigh regions = weigh (errors regions) + (missing regions).length := by
  induction regions with
  | nil => rfl
  | cons place regions ih =>
    obtain ⟨path, found⟩ := place
    rw [List.forall_mem_cons] at h
    rw [weigh, ih h.2]
    unfold errors missing
    rw [List.filter_cons, List.filter_cons]
    rcases h.1 with herror | hmissing
    · rw [if_pos (decide_eq_true herror), if_neg (by simp [herror]), weigh, Nat.add_assoc]
    · have hone : found.rejectedHere = 1 := by
        cases found
        cases hmissing
        rfl
      rw [if_neg (by simp [hmissing]), if_pos (decide_eq_true hmissing), hone, List.length_cons]
      omega

/-- Regions do not lie above one another. -/
theorem eq_of_isPrefix {p q : List Nat} {a b : SyntaxTree}
    (henter : ∀ t, enter t = true → ¬ t.IsRejected) (ha : (p, a) ∈ tree.regions enter)
    (hb : (q, b) ∈ tree.regions enter) (h : p <+: q) : p = q := by
  rw [mem_regions_iff] at ha hb
  by_contra hne
  exact henter a (hb.2.2 p a h hne ha.1) ha.2.1

theorem nodup_bytes (tree : SyntaxTree) : tree.bytes.Nodup := by
  cases tree
  exact List.nodup_range'

/-- Errors that are apart cover no byte twice. -/
theorem ErrorsApart.nodup_bytes (h : tree.ErrorsApart)
    (henter : ∀ t, enter t = true → ¬ t.IsRejected) :
    ((errors (tree.regions enter)).flatMap fun place => place.2.bytes).Nodup := by
  refine List.nodup_flatMap.2 ⟨fun place _ => place.2.nodup_bytes, ?_⟩
  have hpaths : (tree.regions enter).Pairwise fun place place' => place.1 ≠ place'.1 :=
    List.pairwise_map.1 (nodup_regions enter tree)
  refine (hpaths.filter _).imp_of_mem ?_
  rintro ⟨p, a⟩ ⟨q, b⟩ ha hb hne
  obtain ⟨ha, hea⟩ := List.mem_filter.1 ha
  obtain ⟨hb, heb⟩ := List.mem_filter.1 hb
  obtain ⟨path, i, j, p', q', hij, rfl, rfl⟩ := exists_fork
    (fun hpre => hne (eq_of_isPrefix henter ha hb hpre))
    (fun hpre => hne (eq_of_isPrefix henter hb ha hpre).symm)
  exact h path i j p' q' a b hij (mem_regions_iff.1 ha).1 (mem_regions_iff.1 hb).1
    (of_decide_eq_true hea) (of_decide_eq_true heb)

theorem length_bytes_of_error (h : found.condition = .error) :
    found.bytes.length = found.rejectedHere := by
  cases found
  cases h
  exact List.length_range'

/-- Errors weigh as many bytes as they cover. -/
theorem weigh_of_errors {places : List Place} (h : ∀ place ∈ places, place.2.condition = .error) :
    weigh places = (places.flatMap fun place => place.2.bytes).length := by
  induction places with
  | nil => rfl
  | cons place places ih =>
    rw [List.forall_mem_cons] at h
    rw [weigh, ih h.2, List.flatMap_cons, List.length_append, length_bytes_of_error h.1]

/-- Errors that are apart and within a text take no more bytes than the text has. -/
theorem ErrorsApart.weigh_errors_le (h : tree.ErrorsApart)
    (henter : ∀ t, enter t = true → ¬ t.IsRejected) {size : Nat}
    (hwithin : tree.ErrorsWithin size) : weigh (errors (tree.regions enter)) ≤ size := by
  have hsub : ((errors (tree.regions enter)).flatMap fun place => place.2.bytes) ⊆
      List.range size := by
    intro k hk
    obtain ⟨⟨p, a⟩, ha, hk⟩ := List.mem_flatMap.1 hk
    obtain ⟨ha, hea⟩ := List.mem_filter.1 ha
    exact List.mem_range.2 (hwithin p a (mem_regions_iff.1 ha).1 (of_decide_eq_true hea) k hk)
  have herrors (place : Place) (hplace : place ∈ errors (tree.regions enter)) :
      place.2.condition = .error := of_decide_eq_true (List.mem_filter.1 hplace).2
  rw [weigh_of_errors herrors]
  exact Nat.le_trans (List.subperm_of_subset (h.nodup_bytes henter) hsub).length_le
    (Nat.le_of_eq List.length_range)

end Polyglot.SyntaxTree
