/-
JSON values. A number keeps the digits it was written with, and an object keeps its members in the
order in which their keys first occurred, each key once.
-/
namespace Polyglot

/-- A decimal digit. -/
abbrev Digit := Fin 10

namespace Digit

/-- The digit zero. -/
def zero : Digit := ⟨0, by decide⟩

/-- The digit that a character writes. -/
def ofChar? (c : Char) : Option Digit :=
  if c.isDigit then some (Fin.ofNat 10 (c.toNat - '0'.toNat)) else none

/-- The character that writes a digit. -/
def toChar (d : Digit) : Char := Char.ofNat ('0'.toNat + d.val)

theorem ofChar?_toChar (d : Digit) : ofChar? d.toChar = some d := by
  revert d
  decide

/-- Only the character that writes a digit is read as that digit. -/
theorem toChar_of_ofChar? {c : Char} {d : Digit} (h : ofChar? c = some d) : d.toChar = c := by
  unfold ofChar? at h
  split at h
  · rename_i hc
    simp only [Option.some.injEq] at h
    subst h
    simp only [Char.isDigit, Bool.and_eq_true, decide_eq_true_eq] at hc
    obtain ⟨h1, h2⟩ := hc
    have h1 : 48 ≤ c.toNat := h1
    have h2 : c.toNat ≤ 57 := h2
    have : '0'.toNat + (Fin.ofNat 10 (c.toNat - '0'.toNat)).val = c.toNat := by
      simp only [Fin.val_ofNat, Char.reduceToNat]
      omega
    rw [toChar, this, Char.ofNat_toNat]
  · simp at h

/-- The number that digits write, the first one leading. -/
def value (ds : List Digit) : Nat := ds.foldl (fun n d => 10 * n + d.val) 0

end Digit

/-- The exponent of a number: a sign and digits. -/
structure Exponent where
  negative : Bool
  digits : List Digit
  deriving DecidableEq, Repr

/-- A number as written: sign, digits before the point, digits after it (none without a point), and
the exponent if there is one. -/
structure Numeral where
  negative : Bool
  whole : List Digit
  fraction : List Digit
  exponent : Option Exponent
  deriving DecidableEq, Repr

/-- Digits as they stand before the point: one at least, and no zero leads others. -/
def Digit.IsWhole (ds : List Digit) : Prop :=
  ds ≠ [] ∧ (ds.head? = some Digit.zero → ds = [Digit.zero])

instance (ds : List Digit) : Decidable (Digit.IsWhole ds) :=
  inferInstanceAs (Decidable (_ ∧ (_ → _)))

/-- A numeral as the grammar has it: no leading zero, and digits wherever digits are due. -/
def Numeral.WellFormed (n : Numeral) : Prop :=
  Digit.IsWhole n.whole ∧ ∀ e, n.exponent = some e → e.digits ≠ []

instance (n : Numeral) : Decidable n.WellFormed :=
  match n with
  | ⟨_, whole, _, none⟩ =>
    if h : Digit.IsWhole whole then .isTrue ⟨h, fun _ e => nomatch e⟩
    else .isFalse fun w => h w.1
  | ⟨_, whole, _, some e⟩ =>
    if h : Digit.IsWhole whole ∧ e.digits ≠ [] then
      .isTrue ⟨h.1, fun _ e' => Option.some.inj e' ▸ h.2⟩
    else .isFalse fun w => h ⟨w.1, w.2 e rfl⟩

/-- A JSON value. -/
inductive Json where
  | null
  | bool (value : Bool)
  | number (value : Numeral)
  | string (value : String)
  | array (items : List Json)
  | object (members : List (String × Json))
  deriving Repr, Inhabited

/-- The members of an object, in order. -/
abbrev Members := List (String × Json)

namespace Members

/-- The value under a key. -/
def find? (key : String) : Members → Option Json
  | [] => none
  | (k, v) :: rest => if k == key then some v else find? key rest

/-- Puts a value under a key: in the place of the key if it is there, at the end if not. -/
def put (key : String) (value : Json) : Members → Members
  | [] => [(key, value)]
  | (k, v) :: rest => if k == key then (k, value) :: rest else (k, v) :: put key value rest

/-- The keys, in order. -/
def keys (ms : Members) : List String := ms.map (·.1)

/-- A value that was put is found under its key, and the others are where they were. -/
theorem find?_put (key k : String) (value : Json) (ms : Members) :
    find? k (put key value ms) = if key = k then some value else find? k ms := by
  induction ms with
  | nil => simp [put, find?]
  | cons m ms ih =>
    obtain ⟨k', v⟩ := m
    rw [put]
    by_cases h : k' = key
    · subst h
      by_cases hk : k' = k <;> simp [find?, hk]
    · by_cases hk : k' = k
      · subst hk
        simp [find?, h, Ne.symm h]
      · simp [find?, h, hk, ih]

@[simp]
theorem keys_cons (key : String) (value : Json) (ms : Members) :
    keys ((key, value) :: ms) = key :: keys ms := rfl

/-- A key that is there keeps its place. -/
theorem keys_put_of_mem {key : String} {ms : Members} (value : Json) (h : key ∈ keys ms) :
    keys (put key value ms) = keys ms := by
  induction ms with
  | nil => simp [keys] at h
  | cons m ms ih =>
    obtain ⟨k, v⟩ := m
    rw [put]
    by_cases hk : k = key
    · simp [hk]
    · rw [keys_cons, List.mem_cons] at h
      simp [hk, ih (h.resolve_left (Ne.symm hk))]

/-- A new key comes last. -/
theorem keys_put_of_notMem {key : String} {ms : Members} (value : Json) (h : key ∉ keys ms) :
    keys (put key value ms) = keys ms ++ [key] := by
  induction ms with
  | nil => rfl
  | cons m ms ih =>
    obtain ⟨k, v⟩ := m
    rw [keys_cons, List.mem_cons, not_or] at h
    rw [put]
    simp [Ne.symm h.1, ih h.2]

end Members

/-- The word for the type of a value. -/
def Json.typeName : Json → String
  | .null => "null"
  | .bool _ => "boolean"
  | .number _ => "number"
  | .string _ => "string"
  | .array _ => "array"
  | .object _ => "object"

end Polyglot
