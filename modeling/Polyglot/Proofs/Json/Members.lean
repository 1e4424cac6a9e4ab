/-
Members with repeated keys. `Keyed.last?` is the value that comes last under a key, and
`Keyed.settle` keeps each key once, in the place of its first occurrence and with its last value.
Putting members into an object one after the other settles them.
-/
import Polyglot.Json.Basic

namespace Polyglot

namespace Keyed

variable {α β : Type}

/-- The last value under a key. -/
def last? (key : String) (ms : List (String × α)) : Option α := ms.reverse.lookup key

/-- Each key once, in the order of first occurrence, with its last value. -/
def settle (ms : List (String × α)) : List (String × α) :=
  (ms.map (·.1)).eraseDups.filterMap fun key => (last? key ms).map (key, ·)

/-- The key that comes first. -/
def firstKey (ms : List (String × α)) : Option String := ms.head?.map (·.1)

/-- The values exchanged for others, under the same keys. -/
def mapValues (f : α → β) (ms : List (String × α)) : List (String × β) :=
  ms.map fun m => (m.1, f m.2)

@[simp]
theorem mapValues_nil (f : α → β) : mapValues f [] = [] := rfl

@[simp]
theorem mapValues_cons (f : α → β) (m : String × α) (ms : List (String × α)) :
    mapValues f (m :: ms) = (m.1, f m.2) :: mapValues f ms := rfl

@[simp]
theorem keys_mapValues (f : α → β) (ms : List (String × α)) :
    (mapValues f ms).map (·.1) = ms.map (·.1) := by
  simp [mapValues]

theorem mem_mapValues {f : α → β} {m : String × β} {ms : List (String × α)} :
    m ∈ mapValues f ms ↔ ∃ m' ∈ ms, (m'.1, f m'.2) = m :=
  List.mem_map

theorem mapValues_mapValues {γ : Type} (f : α → β) (g : β → γ) (ms : List (String × α)) :
    mapValues g (mapValues f ms) = mapValues (g ∘ f) ms := by
  simp [mapValues]

theorem mapValues_congr {f g : α → β} {ms : List (String × α)} (h : ∀ m ∈ ms, f m.2 = g m.2) :
    mapValues f ms = mapValues g ms :=
  List.map_congr_left fun m hm => by rw [h m hm]

theorem mapValues_of_fixed {f : α → α} {ms : List (String × α)} (h : ∀ m ∈ ms, f m.2 = m.2) :
    mapValues f ms = ms := by
  conv => rhs; rw [← List.map_id ms]
  exact List.map_congr_left fun m hm => by rw [h m hm]; rfl

/-! ## The last value -/

theorem last?_concat (key k : String) (v : α) (ms : List (String × α)) :
    last? key (ms ++ [(k, v)]) = if k = key then some v else last? key ms := by
  simp only [last?, List.reverse_append, List.reverse_cons, List.reverse_nil, List.nil_append,
    List.cons_append, List.lookup_cons]
  by_cases h : k = key
  · simp [h]
  · simp [h, beq_false_of_ne (Ne.symm h)]

theorem last?_append (key : String) (ms ms' : List (String × α)) :
    last? key (ms ++ ms') = (last? key ms').or (last? key ms) := by
  simp [last?, List.lookup_append]

theorem last?_cons (key k : String) (v : α) (ms : List (String × α)) :
    last? key ((k, v) :: ms) = (last? key ms).or (if k = key then some v else none) := by
  rw [show (k, v) :: ms = [(k, v)] ++ ms from rfl, last?_append]
  by_cases h : k = key
  · simp [last?, h]
  · simp [last?, h, List.lookup_cons, beq_false_of_ne (Ne.symm h)]

theorem last?_eq_none_iff {key : String} {ms : List (String × α)} :
    last? key ms = none ↔ key ∉ ms.map (·.1) := by
  induction ms with
  | nil => simp [last?]
  | cons m ms ih =>
    obtain ⟨k, v⟩ := m
    rw [last?_cons, Option.or_eq_none_iff, ih, List.map_cons, List.mem_cons, not_or]
    by_cases h : k = key
    · simp [h]
    · simp [h, Ne.symm h]

theorem mem_of_last? {key : String} {v : α} {ms : List (String × α)} (h : last? key ms = some v) :
    (key, v) ∈ ms := by
  obtain ⟨l, l', h, -⟩ := List.lookup_eq_some_iff.1 h
  have : (key, v) ∈ ms.reverse := by simp [h]
  exact List.mem_reverse.1 this

theorem last?_mapValues (f : α → β) (key : String) (ms : List (String × α)) :
    last? key (mapValues f ms) = (last? key ms).map f := by
  unfold last? mapValues
  rw [← List.map_reverse]
  induction ms.reverse with
  | nil => rfl
  | cons m ms ih =>
    rw [List.map_cons, List.lookup_cons, List.lookup_cons, ih]
    cases key == m.1 <;> rfl

/-! ## Settled members -/

theorem mem_settle {m : String × α} {ms : List (String × α)} :
    m ∈ settle ms ↔ last? m.1 ms = some m.2 := by
  simp only [settle, List.mem_filterMap, Option.map_eq_some_iff, List.mem_eraseDups]
  constructor
  · rintro ⟨key, -, v, h, rfl⟩
    exact h
  · intro h
    exact ⟨m.1, List.mem_map_of_mem (mem_of_last? h), m.2, h, rfl⟩

theorem mem_of_mem_settle {m : String × α} {ms : List (String × α)} (h : m ∈ settle ms) : m ∈ ms :=
  mem_of_last? (mem_settle.1 h)

theorem settle_mapValues (f : α → β) (ms : List (String × α)) :
    settle (mapValues f ms) = mapValues f (settle ms) := by
  unfold settle
  rw [keys_mapValues]
  simp only [mapValues, List.map_filterMap]
  congr 1
  funext key
  rw [show ms.map (fun m => (m.1, f m.2)) = mapValues f ms from rfl, last?_mapValues]
  cases last? key ms <;> rfl

theorem keys_settle (ms : List (String × α)) :
    (settle ms).map (·.1) = (ms.map (·.1)).eraseDups := by
  have h : ∀ l : List String, (∀ key ∈ l, key ∈ ms.map (·.1)) →
      (l.filterMap fun key => (last? key ms).map (key, ·)).map (·.1) = l := by
    intro l hl
    induction l with
    | nil => rfl
    | cons key l ih =>
      obtain ⟨v, hv⟩ : ∃ v, last? key ms = some v := by
        rw [← Option.isSome_iff_exists, Option.isSome_iff_ne_none, ne_eq, last?_eq_none_iff]
        exact not_not_intro (hl key List.mem_cons_self)
      rw [List.filterMap_cons, hv, Option.map_some, List.map_cons,
        ih fun k hk => hl k (List.mem_cons_of_mem _ hk)]
  exact h _ fun key hk => List.mem_eraseDups.1 hk

theorem firstKey_settle (ms : List (String × α)) : firstKey (settle ms) = firstKey ms := by
  unfold firstKey
  rw [← List.head?_map, keys_settle, ← List.head?_map]
  cases ms with
  | nil => rfl
  | cons m ms => rw [List.map_cons, List.eraseDups_cons]; rfl

@[simp]
theorem firstKey_mapValues (f : α → β) (ms : List (String × α)) :
    firstKey (mapValues f ms) = firstKey ms := by
  cases ms <;> rfl

theorem eraseDups_concat (l : List String) (a : String) :
    (l ++ [a]).eraseDups = if a ∈ l then l.eraseDups else l.eraseDups ++ [a] := by
  rw [List.eraseDups_append]
  by_cases h : a ∈ l <;> simp [List.removeAll, h, List.eraseDups_cons]

theorem nodup_eraseDups (l : List String) : l.eraseDups.Nodup := by
  suffices h : ∀ l : List String, l.reverse.eraseDups.Nodup by simpa using h l.reverse
  intro l
  induction l with
  | nil => simp
  | cons a l ih =>
    rw [List.reverse_cons, eraseDups_concat]
    split
    · exact ih
    · rename_i h
      refine List.nodup_append.2 ⟨ih, by simp, ?_⟩
      rintro k hk _ hm rfl
      rw [List.mem_singleton] at hm
      exact h (hm ▸ List.mem_eraseDups.1 hk)

theorem eraseDups_of_nodup {l : List String} (h : l.Nodup) : l.eraseDups = l := by
  induction l with
  | nil => rfl
  | cons a l ih =>
    rw [List.nodup_cons] at h
    rw [List.eraseDups_cons, List.filter_eq_self.2, ih h.2]
    intro b hb
    simpa using fun e : b = a => h.1 (e ▸ hb)

/-- Where keys are different, what stands under a key is its last value. -/
theorem last?_eq_some_iff {key : String} {v : α} {ms : List (String × α)}
    (h : (ms.map (·.1)).Nodup) : last? key ms = some v ↔ (key, v) ∈ ms := by
  refine ⟨mem_of_last?, fun hmem => ?_⟩
  induction ms with
  | nil => cases hmem
  | cons m ms ih =>
    obtain ⟨k, v'⟩ := m
    rw [List.map_cons, List.nodup_cons] at h
    rw [last?_cons]
    rcases List.mem_cons.1 hmem with e | hmem
    · cases e
      rw [last?_eq_none_iff.2 h.1, Option.none_or, if_pos rfl]
    · rw [ih h.2 hmem, Option.some_or]

/-- Members with different keys are settled. -/
theorem settle_of_nodup {ms : List (String × α)} (h : (ms.map (·.1)).Nodup) : settle ms = ms := by
  have hself : ∀ l : List (String × α), (∀ m ∈ l, last? m.1 ms = some m.2) →
      (l.filterMap fun m => (last? m.1 ms).map (m.1, ·)) = l := by
    intro l hl
    induction l with
    | nil => rfl
    | cons m l ih =>
      rw [List.forall_mem_cons] at hl
      rw [List.filterMap_cons, hl.1, ih hl.2]
      rfl
  rw [settle, eraseDups_of_nodup h, List.filterMap_map]
  exact hself ms fun m hm => (last?_eq_some_iff h).2 hm

theorem last?_perm {key : String} {ms ms' : List (String × α)} (h : ms.Perm ms')
    (hn : (ms.map (·.1)).Nodup) : last? key ms = last? key ms' := by
  refine Option.ext fun v => ?_
  rw [last?_eq_some_iff hn, last?_eq_some_iff ((h.map _).nodup_iff.1 hn), h.mem_iff]

end Keyed

/-! ## Objects -/

namespace Members

open Keyed

theorem find?_eq_none_iff {key : String} {ms : Members} : find? key ms = none ↔ key ∉ keys ms := by
  induction ms with
  | nil => simp [find?, keys]
  | cons m ms ih =>
    obtain ⟨k, v⟩ := m
    rw [find?, keys_cons, List.mem_cons, not_or]
    by_cases h : k = key
    · simp [h]
    · simp [h, ih, Ne.symm h]

/-- Objects with the same keys in the same order and the same value under each are the same. -/
theorem ext {ms ms' : Members} (hn : (keys ms).Nodup) (hk : keys ms = keys ms')
    (hv : ∀ key, find? key ms = find? key ms') : ms = ms' := by
  induction ms generalizing ms' with
  | nil =>
    cases ms' with
    | nil => rfl
    | cons m ms' => simp [keys] at hk
  | cons m ms ih =>
    cases ms' with
    | nil => simp [keys] at hk
    | cons m' ms' =>
      obtain ⟨k, v⟩ := m
      obtain ⟨k', v'⟩ := m'
      rw [keys_cons, keys_cons, List.cons.injEq] at hk
      obtain ⟨rfl, hk⟩ := hk
      rw [keys_cons, List.nodup_cons] at hn
      have hhead := hv k
      simp only [find?, beq_self_eq_true, if_true, Option.some.injEq] at hhead
      subst hhead
      rw [ih hn.2 hk]
      intro key
      by_cases h : k = key
      · -- the key occurs once, so what is left has it neither here nor there
        subst h
        rw [find?_eq_none_iff.2 hn.1, find?_eq_none_iff.2 (hk ▸ hn.1)]
      · simpa [find?, h] using hv key

@[simp]
theorem keys_settle (ms : Members) : keys (settle ms) = (keys ms).eraseDups :=
  Keyed.keys_settle ms

theorem nodup_settle (ms : Members) : (keys (settle ms)).Nodup := by
  rw [keys_settle]
  exact nodup_eraseDups _

theorem mem_of_find? {key : String} {v : Json} {ms : Members} (h : find? key ms = some v) :
    (key, v) ∈ ms := by
  induction ms with
  | nil => simp [find?] at h
  | cons m ms ih =>
    obtain ⟨k, v'⟩ := m
    rw [find?] at h
    split at h
    · rename_i hk
      simp only [Option.some.injEq] at h
      rw [beq_iff_eq] at hk
      simp [hk, h]
    · exact List.mem_cons_of_mem _ (ih h)

/-- Under a key there is the last value. -/
theorem find?_settle (key : String) (ms : Members) : find? key (settle ms) = last? key ms := by
  cases h : find? key (settle ms) with
  | some v => exact (mem_settle.1 (mem_of_find? h)).symm
  | none =>
    rw [find?_eq_none_iff, keys_settle, List.mem_eraseDups] at h
    exact (last?_eq_none_iff.2 h).symm

/-- Where each key stands once, the order makes no difference to what is found. -/
theorem find?_perm {key : String} {ms ms' : Members} (h : ms.Perm ms') (hn : (keys ms).Nodup) :
    find? key ms = find? key ms' := by
  have hn' : (keys ms').Nodup := (h.map _).nodup_iff.1 hn
  have hlast : last? key ms = last? key ms' := last?_perm h hn
  rwa [← find?_settle, ← find?_settle, settle_of_nodup hn, settle_of_nodup hn'] at hlast

theorem settle_concat (ms : Members) (key : String) (v : Json) :
    settle (ms ++ [(key, v)]) = put key v (settle ms) := by
  have hk : keys (settle (ms ++ [(key, v)])) = keys (put key v (settle ms)) := by
    rw [keys_settle, show keys (ms ++ [(key, v)]) = keys ms ++ [key] by simp [keys],
      eraseDups_concat]
    split
    · rename_i h
      rw [keys_put_of_mem v (by rw [keys_settle]; exact List.mem_eraseDups.2 h), keys_settle]
    · rename_i h
      rw [keys_put_of_notMem v (by rw [keys_settle]; exact fun h' => h (List.mem_eraseDups.1 h')),
        keys_settle]
  refine ext (nodup_settle _) hk fun k => ?_
  rw [find?_settle, find?_put, find?_settle, last?_concat]

/-- Members that are put into an object one after the other are settled. -/
theorem foldl_put (ms ms' : Members) :
    ms'.foldl (fun done m => put m.1 m.2 done) (settle ms) = settle (ms ++ ms') := by
  induction ms' generalizing ms with
  | nil => simp
  | cons m ms' ih => rw [List.foldl_cons, ← settle_concat, ih, List.append_assoc]; rfl

end Members

end Polyglot
