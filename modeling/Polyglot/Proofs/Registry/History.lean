/-
What becomes of a registry. It starts with one backend; others are registered, the default is set,
and both may be tried again with any name. At every moment the registry is told by its history alone:
under a name there is the backend registered last under it, and the default is the one registered
last under the name that was last set with success. So the default, which is held beside the others,
never falls behind them.
-/
import Polyglot.Proofs.Text.Bytes
import Polyglot.Registry

namespace Polyglot.Registry

/-- What may be asked of a registry. -/
inductive Change where
  | register (backend : Backend)
  | setDefault (selector : String)

/-- The registry after a change, be it one that fails. -/
def apply (r : Registry) : Change → Registry
  | .register backend => r.register backend
  | .setDefault selector => (r.setDefault selector).1

/-- The registry of a first backend after changes, the newest of which stands first. -/
def after (first : Backend) : List Change → Registry
  | [] => ofBackend first
  | change :: earlier => (after first earlier).apply change

/-- The backends that have been registered, the newest first. -/
def registered (first : Backend) : List Change → List Backend
  | [] => [first]
  | .register backend :: earlier => backend :: registered first earlier
  | .setDefault _ :: earlier => registered first earlier

/-- The names that have been registered. -/
def names (first : Backend) (changes : List Change) : List String :=
  (registered first changes).map (·.name)

/-- The backend registered last under a name. -/
def newest? (first : Backend) (changes : List Change) (name : String) : Option Backend :=
  (registered first changes).find? (·.name == name)

/-- The name that was last set as the default, of those that were registered when they were set. -/
def standing (first : Backend) : List Change → String
  | [] => first.name
  | .register _ :: earlier => standing first earlier
  | .setDefault selector :: earlier =>
    if selector ∈ names first earlier then selector else standing first earlier

variable {first : Backend} {changes : List Change} {r : Registry}

theorem newest?_eq_none_iff {name : String} :
    newest? first changes name = none ↔ name ∉ names first changes := by
  unfold newest? names
  rw [List.find?_eq_none]
  constructor
  · intro h hmem
    obtain ⟨b, hb, rfl⟩ := List.mem_map.1 hmem
    exact h b hb (beq_self_eq_true _)
  · intro h b hb hname
    rw [beq_iff_eq] at hname
    exact h (hname ▸ List.mem_map_of_mem hb)

theorem name_of_newest? {name : String} {b : Backend}
    (h : newest? first changes name = some b) : b.name = name := by
  simpa using List.find?_some h

theorem newest?_register (backend : Backend) (name : String) :
    newest? first (.register backend :: changes) name =
      if backend.name = name then some backend else newest? first changes name := by
  unfold newest?
  rw [registered, List.find?_cons]
  by_cases h : backend.name = name
  · simp [h]
  · simp [h, beq_false_of_ne h]

/-! ## The invariant -/

/-- A registry as its history tells it. -/
structure Recounts (first : Backend) (changes : List Change) (r : Registry) : Prop where
  nodup : (r.backends.map (·.1)).Nodup
  found : ∀ name, r.find? name = newest? first changes name
  default : newest? first changes (standing first changes) = some r.default

theorem Recounts.default_name (h : Recounts first changes r) :
    r.default.name = standing first changes :=
  name_of_newest? h.default

theorem mem_keys_put (key name : String) (backend : Backend) (backends : List (String × Backend)) :
    key ∈ (put name backend backends).map (·.1) ↔ key = name ∨ key ∈ backends.map (·.1) := by
  induction backends with
  | nil => simp [put]
  | cons entry rest ih =>
    obtain ⟨k, b⟩ := entry
    rw [put]
    by_cases h : k = name
    · simp [h]
    · rw [if_neg (by simpa using h), List.map_cons, List.mem_cons, ih, List.map_cons, List.mem_cons]
      tauto

/-- Each name stays there once. -/
theorem nodup_put (name : String) (backend : Backend) {backends : List (String × Backend)}
    (h : (backends.map (·.1)).Nodup) : ((put name backend backends).map (·.1)).Nodup := by
  induction backends with
  | nil => simp [put]
  | cons entry rest ih =>
    obtain ⟨k, b⟩ := entry
    rw [List.map_cons, List.nodup_cons] at h
    obtain ⟨hk, hrest⟩ := h
    rw [put]
    by_cases hname : k = name
    · rw [if_pos (by simpa using hname), List.map_cons, List.nodup_cons]
      exact ⟨hk, hrest⟩
    · rw [if_neg (by simpa using hname), List.map_cons, List.nodup_cons]
      refine ⟨?_, ih hrest⟩
      rw [mem_keys_put, not_or]
      exact ⟨hname, hk⟩

theorem recounts_ofBackend (first : Backend) : Recounts first [] (ofBackend first) := by
  refine ⟨by simp [ofBackend], fun name => ?_, ?_⟩
  · rw [find?_ofBackend, newest?, registered, List.find?_cons]
    by_cases h : first.name = name <;> simp [h, beq_false_of_ne]
  · simp [newest?, registered, standing, ofBackend]

theorem Recounts.register (h : Recounts first changes r) (backend : Backend) :
    Recounts first (.register backend :: changes) (r.register backend) := by
  refine ⟨nodup_put backend.name backend h.nodup, ?_, ?_⟩
  · intro name
    rw [find?_register, h.found, newest?_register]
  · -- a backend that takes the name of the default takes its place too
    rw [newest?_register, standing]
    have hname := h.default_name
    unfold Registry.register
    by_cases hb : backend.name = standing first changes
    · simp [hb, hname]
    · rw [if_neg hb, h.default]
      simp [hname, Ne.symm hb]

theorem setDefault_eq (h : Recounts first changes r) (selector : String) :
    r.setDefault selector =
      match newest? first changes selector with
      | some backend => (⟨r.backends, backend⟩, .ok ())
      | none => (r, .error (.unknownDefaultBackend selector)) := by
  have hfound := h.found selector
  cases hnew : newest? first changes selector with
  | none => simp [Registry.setDefault, hfound, hnew]
  | some backend => simp [Registry.setDefault, hfound, hnew]

theorem Recounts.setDefault (h : Recounts first changes r) (selector : String) :
    Recounts first (.setDefault selector :: changes) (r.apply (.setDefault selector)) := by
  rw [apply, setDefault_eq h]
  cases hnew : newest? first changes selector with
  | none =>
    refine ⟨h.nodup, h.found, ?_⟩
    rw [standing, if_neg (newest?_eq_none_iff.1 hnew)]
    exact h.default
  | some backend =>
    have hmem : selector ∈ names first changes := by
      by_contra hmem
      rw [newest?_eq_none_iff.2 hmem] at hnew
      cases hnew
    refine ⟨h.nodup, h.found, ?_⟩
    rw [standing, if_pos hmem]
    exact hnew

/-- At every moment the registry is as its history tells it. -/
theorem recounts_after (first : Backend) (changes : List Change) :
    Recounts first changes (after first changes) := by
  induction changes with
  | nil => exact recounts_ofBackend first
  | cons change earlier ih =>
    cases change with
    | register backend => exact ih.register backend
    | setDefault selector => exact ih.setDefault selector

/-! ## What a registry answers -/

theorem lookup_of_mem {backends : List (String × Backend)} (hn : (backends.map (·.1)).Nodup)
    {key : String} {b : Backend} (hb : (key, b) ∈ backends) : backends.lookup key = some b := by
  obtain ⟨before, after, rfl⟩ := List.append_of_mem hb
  refine List.lookup_eq_some_iff.2 ⟨before, after, rfl, fun entry hentry => ?_⟩
  rw [List.map_append, List.map_cons, List.nodup_append] at hn
  -- the entries in front have other names
  have hne : entry.1 ≠ key := hn.2.2 _ (List.mem_map_of_mem hentry) _ List.mem_cons_self
  exact bne_iff_ne.2 hne.symm

/-- Each backend is held under its own name, and is found there. -/
theorem Recounts.name_of_mem (h : Recounts first changes r) {key : String} {b : Backend}
    (hb : (key, b) ∈ r.backends) : b.name = key ∧ r.find? key = some b := by
  have hfound : r.find? key = some b := lookup_of_mem h.nodup hb
  exact ⟨name_of_newest? (h.found key ▸ hfound), hfound⟩

theorem Recounts.resolve (h : Recounts first changes r) (name : String) :
    (r.resolve (some name)).1 = (newest? first changes name).getD r.default := by
  rw [Registry.resolve, h.found]
  cases newest? first changes name <;> rfl

theorem find?_eq_none_iff {name : String} :
    r.find? name = none ↔ name ∉ r.backends.map (·.1) := by
  rw [find?, List.lookup_eq_none_iff]
  constructor
  · rintro h hmem
    obtain ⟨entry, hentry, rfl⟩ := List.mem_map.1 hmem
    exact bne_iff_ne.1 (h entry hentry) rfl
  · rintro h entry hentry
    rw [bne_iff_ne]
    rintro rfl
    exact h (List.mem_map_of_mem hentry)

theorem Recounts.mem_selectors (h : Recounts first changes r) (name : String) :
    name ∈ r.selectors ↔ name ∈ names first changes := by
  have hnone : newest? first changes name = none ↔ name ∉ names first changes :=
    newest?_eq_none_iff
  rw [selectors, (List.mergeSort_perm _ _).mem_iff, ← not_iff_not, ← hnone, ← h.found,
    find?_eq_none_iff]

/-- The selectors come in the order of their bytes, each once. -/
theorem pairwise_selectors (hn : (r.backends.map (·.1)).Nodup) :
    r.selectors.Pairwise fun a b => Text.bytes a < Text.bytes b := by
  have hsorted : r.selectors.Pairwise fun a b => decide (a ≤ b) = true := by
    refine List.pairwise_mergeSort ?_ ?_ _
    · intro a b c hab hbc
      simp only [decide_eq_true_eq] at hab hbc ⊢
      exact String.le_trans hab hbc
    · intro a b
      simpa using String.le_total a b
  have hnodup : r.selectors.Nodup := (List.mergeSort_perm _ _).nodup_iff.2 hn
  refine (hsorted.and hnodup).imp ?_
  rintro a b ⟨hle, hne⟩
  rw [Text.bytes_lt_iff]
  exact Std.lt_of_le_of_ne (of_decide_eq_true hle) hne

/-- At every moment each backend is held under its own name; a registered selector gets the backend
registered last under it; no selector, an unregistered one and the name of the default all get the
backend registered last under the name that was last set with success; the selectors are the names
that have been registered, in the order of their bytes; and setting the default fails just for a
name that is not registered, and then leaves the registry as it is. -/
theorem after_resolve (first : Backend) (changes : List Change) :
    let r := after first changes
    ((∀ key b, (key, b) ∈ r.backends → b.name = key ∧ r.find? key = some b) ∧
      ∀ name b, r.find? name = some b → b.name = name) ∧
    (∀ name b, newest? first changes name = some b → (r.resolve (some name)).1 = b) ∧
    (∃ b, newest? first changes (standing first changes) = some b ∧ (r.resolve none).1 = b ∧
      (∀ name, name ∉ names first changes → (r.resolve (some name)).1 = b) ∧
      (r.resolve (some r.default.name)).1 = b) ∧
    (r.selectors.Pairwise (fun a b => Text.bytes a < Text.bytes b) ∧
      ∀ name, name ∈ r.selectors ↔ name ∈ names first changes) ∧
    ∀ name, ((r.setDefault name).2 = .error (.unknownDefaultBackend name) ↔
        name ∉ names first changes) ∧
      ((r.setDefault name).2 = .ok () ↔ name ∈ names first changes) ∧
      (name ∉ names first changes → after first (.setDefault name :: changes) = r) := by
  intro r
  have h : Recounts first changes r := recounts_after first changes
  refine ⟨⟨fun key b => h.name_of_mem, ?_⟩, ?_, ?_, ⟨pairwise_selectors h.nodup,
    h.mem_selectors⟩, fun name => ?_⟩
  · intro name b hb
    rw [h.found] at hb
    exact name_of_newest? hb
  · intro name b hb
    rw [h.resolve, hb, Option.getD_some]
  · refine ⟨r.default, h.default, rfl, ?_, ?_⟩
    · intro name hname
      rw [h.resolve, newest?_eq_none_iff.2 hname, Option.getD_none]
    · rw [h.resolve, h.default_name, h.default, Option.getD_some]
  · rw [setDefault_eq h, ← newest?_eq_none_iff]
    have hmem : name ∈ names first changes ↔ newest? first changes name ≠ none := by
      rw [ne_eq, newest?_eq_none_iff, not_not]
    rw [hmem]
    refine ⟨?_, ?_, ?_⟩
    · cases newest? first changes name <;> simp
    · cases newest? first changes name <;> simp
    · intro hnone
      change r.apply (.setDefault name) = r
      rw [apply, setDefault_eq h, hnone]

end Polyglot.Registry
