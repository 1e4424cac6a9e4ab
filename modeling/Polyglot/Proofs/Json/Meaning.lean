/-
What a written value stands for. Members with a repeated key are settled, and an object whose first
key is the reserved one stands for the number that is quoted under it. The values that come of this
are regular: their numerals are well-formed, no object has a key twice, and none has the reserved
key first. A regular value stands for itself when it is written plainly.
-/
import Polyglot.Proofs.Json.Members
import Polyglot.Proofs.Json.Numbers

namespace Polyglot.Json

open Keyed

/-! ## The value of a written one -/

/-- The number that the members of an object stand for: the reserved key is the only one, and a
literal is quoted under it. -/
def quoted? : List (String × Written) → Option Numeral
  | [(key, .string s)] => if key = numberKey then (readQuoted s.toList).toOption else none
  | _ => none

mutual

/-- The value that a written one stands for. -/
def Written.value : Written → Json
  | .null => .null
  | .bool b => .bool b
  | .number l => .number l.numeral
  | .string s => .string s
  | .array items => .array (itemValues items)
  | .object members =>
    match quoted? members with
    | some n => .number n
    | none => .object (settle (memberValues members))

/-- The values of the elements of an array. -/
def itemValues : List Written → List Json
  | [] => []
  | w :: items => w.value :: itemValues items

/-- The values of the members of an object. -/
def memberValues : List (String × Written) → List (String × Json)
  | [] => []
  | (key, w) :: members => (key, w.value) :: memberValues members

end

mutual

/-- The written value with each key once in every object, in the place of its first occurrence and
with its last value. -/
def Written.tidy : Written → Written
  | .null => .null
  | .bool b => .bool b
  | .number l => .number l
  | .string s => .string s
  | .array items => .array (tidyItems items)
  | .object members => .object (settle (tidyMembers members))

def tidyItems : List Written → List Written
  | [] => []
  | w :: items => w.tidy :: tidyItems items

def tidyMembers : List (String × Written) → List (String × Written)
  | [] => []
  | (key, w) :: members => (key, w.tidy) :: tidyMembers members

end

theorem itemValues_eq (items : List Written) : itemValues items = items.map Written.value := by
  induction items with
  | nil => rfl
  | cons w items ih => rw [itemValues, ih, List.map_cons]

theorem memberValues_eq (members : List (String × Written)) :
    memberValues members = mapValues Written.value members := by
  induction members with
  | nil => rfl
  | cons m members ih => rw [memberValues, ih, mapValues_cons]

theorem tidyItems_eq (items : List Written) : tidyItems items = items.map Written.tidy := by
  induction items with
  | nil => rfl
  | cons w items ih => rw [tidyItems, ih, List.map_cons]

theorem tidyMembers_eq (members : List (String × Written)) :
    tidyMembers members = mapValues Written.tidy members := by
  induction members with
  | nil => rfl
  | cons m members ih => rw [tidyMembers, ih, mapValues_cons]

/-! ## The reserved key -/

/-- The members of an object that stands for a number. -/
def IsQuoted (members : List (String × Written)) : Prop :=
  ∃ l : Literal, l.WellFormed ∧ members = [(numberKey, .string (String.ofList l.text))]

/-- No object has the reserved key first. -/
def Written.Plain (w : Written) : Prop :=
  w.Throughout (fun _ => True) fun members => firstKey members ≠ some numberKey

/-- Every object that has the reserved key first stands for a number. -/
def Written.Readable (w : Written) : Prop :=
  w.Throughout (fun _ => True) fun members => firstKey members = some numberKey → IsQuoted members

theorem Written.Plain.readable {w : Written} (h : w.Plain) : w.Readable :=
  h.imp (fun _ h => h) fun _ h h' => absurd h' h

theorem quoted?_of_ne {members : List (String × Written)}
    (h : firstKey members ≠ some numberKey) : quoted? members = none := by
  unfold quoted?
  split
  · rename_i key s
    exact if_neg fun hk => h (by rw [hk]; rfl)
  · rfl

theorem quoted?_of_isQuoted {l : Literal} (h : l.WellFormed) :
    quoted? [(numberKey, .string (String.ofList l.text))] = some l.numeral := by
  rw [quoted?, if_pos rfl, String.toList_ofList, readQuoted_eq_ok_iff.2 ⟨l, h, rfl, rfl⟩]
  rfl

namespace Written

@[simp]
theorem value_array (items : List Written) : (array items).value = .array (items.map value) := by
  rw [value, itemValues_eq]

/-- An object that does not have the reserved key first stands for its members, settled. -/
theorem value_object {members : List (String × Written)}
    (h : firstKey members ≠ some numberKey) :
    (object members).value = .object (mapValues value (settle members)) := by
  rw [value, quoted?_of_ne h, memberValues_eq, settle_mapValues]

theorem value_quoted {l : Literal} (h : l.WellFormed) :
    (object [(numberKey, .string (String.ofList l.text))]).value = .number l.numeral := by
  rw [value, quoted?_of_isQuoted h]

@[simp]
theorem tidy_array (items : List Written) : (array items).tidy = .array (items.map tidy) := by
  rw [tidy, tidyItems_eq]

@[simp]
theorem tidy_object (members : List (String × Written)) :
    (object members).tidy = .object (mapValues tidy (settle members)) := by
  rw [tidy, tidyMembers_eq, settle_mapValues]

end Written

/-! ## Regular values -/

/-- At most `depth` containers lie inside each other. -/
def Fits : (depth : Nat) → Json → Prop
  | 0, .array _ => False
  | 0, .object _ => False
  | depth + 1, .array items => ∀ v ∈ items, Fits depth v
  | depth + 1, .object members => ∀ m ∈ members, Fits depth m.2
  | _, _ => True

/-- A value as reading makes it: numerals are well-formed, and an object has each key once and not
the reserved one first. -/
inductive Regular : Json → Prop
  | null : Regular .null
  | bool (b : Bool) : Regular (.bool b)
  | number {n : Numeral} (h : n.WellFormed) : Regular (.number n)
  | string (s : String) : Regular (.string s)
  | array {items : List Json} (h : ∀ v ∈ items, Regular v) : Regular (.array items)
  | object {members : Members} (hn : (Members.keys members).Nodup)
      (hk : firstKey members ≠ some numberKey) (h : ∀ m ∈ members, Regular m.2) :
      Regular (.object members)

theorem Listed.exists_of_mem {α : Type} {Spell : α → List Char → Prop} {as : List α}
    {t : List Char} (h : Listed Spell as t) : ∀ a ∈ as, ∃ t, Spell a t := by
  induction h with
  | last h _ => simpa using ⟨_, h⟩
  | more h _ _ _ ih => exact List.forall_mem_cons.2 ⟨⟨_, h⟩, ih⟩

theorem SpellsMember.value {m : String × Written} {t : List Char} (h : SpellsMember m t) :
    ∃ t, Spells m.2 t := by
  obtain ⟨-, -, -, h⟩ := h
  exact ⟨_, h⟩

/-- What a text stands for is regular. -/
theorem Spells.regular {w : Written} {t : List Char} (h : Spells w t) (hr : w.Readable) :
    w.value.Regular := by
  induction w generalizing t with
  | null => exact .null
  | bool b => exact .bool b
  | number l =>
    cases h with
    | number h => exact .number h
  | string s => exact .string s
  | array items ih =>
    rw [Written.value_array]
    cases hr with
    | array hr =>
      refine .array fun v hv => ?_
      obtain ⟨w, hw, rfl⟩ := List.mem_map.1 hv
      cases h with
      | emptyArray => cases hw
      | array _ h =>
        obtain ⟨t, ht⟩ := h.exists_of_mem w hw
        exact ih w hw ht (hr w hw)
  | object members ih =>
    cases hr with
    | object hq hr =>
      by_cases hk : firstKey members = some numberKey
      · obtain ⟨l, hl, rfl⟩ := hq hk
        rw [Written.value_quoted hl]
        exact .number hl
      · rw [Written.value_object hk, ← settle_mapValues]
        refine .object (Members.nodup_settle _) ?_ fun m hm => ?_
        · rwa [firstKey_settle, firstKey_mapValues]
        · -- a member that is left after settling was among those written
          obtain ⟨m', hm', rfl⟩ := mem_mapValues.1 (mem_of_mem_settle hm)
          cases h with
          | emptyObject => cases hm'
          | object _ h =>
            obtain ⟨t, ht⟩ := h.exists_of_mem m' hm'
            obtain ⟨t, ht⟩ := ht.value
            exact ih m' hm' ht (hr m' hm')

theorem Written.Fits.value {w : Written} {depth : Nat} (h : w.Fits depth) :
    w.value.Fits depth := by
  induction w generalizing depth with
  | null => cases depth <;> trivial
  | bool b => cases depth <;> trivial
  | number l => cases depth <;> trivial
  | string s => cases depth <;> trivial
  | array items ih =>
    cases depth with
    | zero => exact h.elim
    | succ depth =>
      rw [Written.value_array]
      intro v hv
      obtain ⟨w, hw, rfl⟩ := List.mem_map.1 hv
      exact ih w hw (h w hw)
  | object members ih =>
    cases depth with
    | zero => exact h.elim
    | succ depth =>
      rw [Written.value]
      -- an object that says a number fits anywhere
      split
      · trivial
      · rw [memberValues_eq]
        intro m hm
        obtain ⟨m', hm', rfl⟩ := mem_mapValues.1 (mem_of_mem_settle hm)
        exact ih m' hm' (h m' hm')

/-! ## Values written plainly -/

/-- The literal that is written for a number: an exponent has a small letter and a sign. -/
def Literal.ofNumeral (n : Numeral) : Literal :=
  ⟨n.negative, n.whole, n.fraction,
    n.exponent.map fun e => ⟨false, if e.negative then .minus else .plus, e.digits⟩⟩

@[simp]
theorem Literal.numeral_ofNumeral (n : Numeral) : (ofNumeral n).numeral = n := by
  obtain ⟨negative, whole, fraction, exponent⟩ := n
  cases exponent with
  | none => rfl
  | some e =>
    obtain ⟨negative, digits⟩ := e
    cases negative <;> rfl

theorem Literal.text_ofNumeral (n : Numeral) : (ofNumeral n).text = n.render := by
  obtain ⟨negative, whole, fraction, exponent⟩ := n
  cases exponent with
  | none =>
    cases negative <;> simp [ofNumeral, Literal.text, Numeral.render, fractionText, exponentText]
  | some e =>
    obtain ⟨minus, digits⟩ := e
    cases negative <;> cases minus <;>
      simp [ofNumeral, Literal.text, Numeral.render, fractionText, exponentText, signText]

/-- A literal is written again as it stands just if its exponent has a small letter and a sign. -/
theorem Literal.ofNumeral_numeral_iff {l : Literal} : ofNumeral l.numeral = l ↔ l.Signed := by
  obtain ⟨negative, whole, fraction, exponent⟩ := l
  cases exponent with
  | none => simp [ofNumeral, Literal.numeral, Signed]
  | some e =>
    obtain ⟨capital, sign, digits⟩ := e
    cases capital <;> cases sign <;> simp [ofNumeral, Literal.numeral, Signed]

mutual

/-- The value written with its own digits and members. -/
def written : Json → Written
  | .null => .null
  | .bool b => .bool b
  | .number n => .number (.ofNumeral n)
  | .string s => .string s
  | .array items => .array (writtenItems items)
  | .object members => .object (writtenMembers members)

def writtenItems : List Json → List Written
  | [] => []
  | v :: items => v.written :: writtenItems items

def writtenMembers : List (String × Json) → List (String × Written)
  | [] => []
  | (key, v) :: members => (key, v.written) :: writtenMembers members

end

@[simp]
theorem written_array (items : List Json) :
    (Json.array items).written = .array (items.map written) := by
  have h : ∀ items, writtenItems items = items.map written := by
    intro items
    induction items with
    | nil => rfl
    | cons v items ih => rw [writtenItems, ih, List.map_cons]
  rw [written, h]

@[simp]
theorem written_object (members : Members) :
    (Json.object members).written = .object (mapValues written members) := by
  have h : ∀ members, writtenMembers members = mapValues written members := by
    intro members
    induction members with
    | nil => rfl
    | cons m members ih => rw [writtenMembers, ih, mapValues_cons]
  rw [written, h]

theorem Fits.written {v : Json} {depth : Nat} (h : v.Fits depth) : v.written.Fits depth := by
  induction v generalizing depth with
  | null => cases depth <;> trivial
  | bool b => cases depth <;> trivial
  | number n => cases depth <;> trivial
  | string s => cases depth <;> trivial
  | array items ih =>
    cases depth with
    | zero => exact h.elim
    | succ depth =>
      rw [written_array]
      intro w hw
      obtain ⟨v, hv, rfl⟩ := List.mem_map.1 hw
      exact ih v hv (h v hv)
  | object members ih =>
    cases depth with
    | zero => exact h.elim
    | succ depth =>
      rw [written_object]
      intro m hm
      obtain ⟨m', hm', rfl⟩ := mem_mapValues.1 hm
      exact ih m' hm' (h m' hm')

/-- All is spelled as it would be written again: exponents have a small letter and a sign, and no
object has the reserved key first. -/
def Written.Verbatim (w : Written) : Prop :=
  w.Throughout Literal.Signed fun members => firstKey members ≠ some numberKey

theorem Written.Verbatim.plain {w : Written} (h : w.Verbatim) : w.Plain :=
  h.imp (fun _ _ => trivial) fun _ h => h

theorem Regular.verbatim {v : Json} (h : v.Regular) : v.written.Verbatim := by
  induction h with
  | null => exact .null
  | bool b => exact .bool b
  | number => exact .number (Literal.ofNumeral_numeral_iff.1 (by rw [Literal.numeral_ofNumeral]))
  | string s => exact .string s
  | array _ ih =>
    rw [written_array]
    exact .array (List.forall_mem_map.2 ih)
  | object _ hk _ ih =>
    rw [written_object]
    refine .object (by rwa [firstKey_mapValues]) fun m hm => ?_
    obtain ⟨m', hm', rfl⟩ := mem_mapValues.1 hm
    exact ih m' hm'

/-- A regular value written plainly stands for itself. -/
theorem Regular.value_written {v : Json} (h : v.Regular) : v.written.value = v := by
  induction h with
  | null => rfl
  | bool b => rfl
  | number h => rw [written, Written.value, Literal.numeral_ofNumeral]
  | string s => rfl
  | @array items _ ih =>
    rw [written_array, Written.value_array, List.map_map]
    congr 1
    conv => rhs; rw [← List.map_id items]
    exact List.map_congr_left fun v hv => ih v hv
  | @object members hn hk _ ih =>
    -- its keys are different already, so settling changes nothing
    rw [written_object, Written.value_object (by rwa [firstKey_mapValues]), ← settle_mapValues,
      mapValues_mapValues, mapValues_of_fixed ih, settle_of_nodup hn]

/-- What stands for a value is written again as it was just if it was spelled that way. -/
theorem Spells.written_value_iff {w : Written} {t : List Char} (h : Spells w t)
    (hr : w.Readable) : w.value.written = w.tidy ↔ w.tidy.Verbatim := by
  constructor
  · intro e
    rw [← e]
    exact (h.regular hr).verbatim
  · -- that the spelling is kept needs no text, so the induction is on the value alone
    clear h hr
    intro hv
    induction w with
    | null => rfl
    | bool b => rfl
    | number l =>
      cases hv with
      | number hv =>
        rw [Written.value, written, Literal.ofNumeral_numeral_iff.2 hv, Written.tidy]
    | string s => rfl
    | array items ih =>
      rw [Written.tidy_array] at hv ⊢
      rw [Written.value_array, written_array, List.map_map]
      cases hv with
      | array hv =>
        congr 1
        exact List.map_congr_left fun w hw => ih w hw (hv _ (List.mem_map_of_mem hw))
    | object members ih =>
      rw [Written.tidy_object] at hv ⊢
      cases hv with
      | object hk hv =>
        rw [firstKey_mapValues, firstKey_settle] at hk
        rw [Written.value_object hk, written_object, mapValues_mapValues]
        congr 1
        refine mapValues_congr fun m hm => ih m (mem_of_mem_settle hm) ?_
        exact hv _ (mem_mapValues.2 ⟨m, hm, rfl⟩)

end Polyglot.Json
