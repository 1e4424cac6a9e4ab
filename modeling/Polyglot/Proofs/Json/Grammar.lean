/-
The grammar of JSON texts, and what a text in it stands for. A written value keeps all that the text
says: how each number is spelled and every member of an object, also those whose key comes again.
`Spells` is the grammar of RFC 8259; a string may be spelled in any way, but escapes of surrogates
only in proper pairs. `Written.value` is the value that a written one is taken for, and
`Written.tidy` the written value with each key once.
-/
import Polyglot.Json.Printer
import Polyglot.Json.Reader

namespace Polyglot.Json

/-! ## Written values -/

/-- The sign of an exponent as it is written. -/
inductive ExponentSign where
  | none
  | plus
  | minus
  deriving DecidableEq, Repr

/-- An exponent as it is written. -/
structure ExponentText where
  /-- Whether its letter is `E`. -/
  capital : Bool
  sign : ExponentSign
  digits : List Digit
  deriving DecidableEq, Repr

/-- A number as it is written. -/
structure Literal where
  negative : Bool
  whole : List Digit
  /-- The digits behind the point, none without a point. -/
  fraction : List Digit
  exponent : Option ExponentText
  deriving DecidableEq, Repr

/-- A JSON value as it is written. -/
inductive Written where
  | null
  | bool (value : Bool)
  | number (literal : Literal)
  | string (value : String)
  | array (items : List Written)
  | object (members : List (String × Written))
  deriving Repr, Inhabited

/-- A property of every written value follows from one of containers and what is in them. -/
@[induction_eliminator]
theorem Written.induction {motive : Written → Prop} (null : motive .null)
    (bool : ∀ b, motive (.bool b)) (number : ∀ l, motive (.number l))
    (string : ∀ s, motive (.string s))
    (array : ∀ items, (∀ w ∈ items, motive w) → motive (.array items))
    (object : ∀ members, (∀ m ∈ members, motive m.2) → motive (.object members))
    (w : Written) : motive w := by
  refine @Written.rec motive (fun items => ∀ w ∈ items, motive w)
    (fun members => ∀ m ∈ members, motive m.2) (fun m => motive m.2)
    null bool number string array object ?_ ?_ ?_ ?_ ?_ w
  · simp
  · intro w items h hs
    exact List.forall_mem_cons.2 ⟨h, hs⟩
  · simp
  · intro m members h hs
    exact List.forall_mem_cons.2 ⟨h, hs⟩
  · exact fun _ _ h => h

/-- The same for JSON values. -/
@[induction_eliminator]
theorem induction {motive : Json → Prop} (null : motive .null) (bool : ∀ b, motive (.bool b))
    (number : ∀ n, motive (.number n)) (string : ∀ s, motive (.string s))
    (array : ∀ items, (∀ v ∈ items, motive v) → motive (.array items))
    (object : ∀ members, (∀ m ∈ members, motive m.2) → motive (.object members))
    (v : Json) : motive v := by
  refine @Json.rec motive (fun items => ∀ v ∈ items, motive v)
    (fun members => ∀ m ∈ members, motive m.2) (fun m => motive m.2)
    null bool number string array object ?_ ?_ ?_ ?_ ?_ v
  · simp
  · intro v items h hs
    exact List.forall_mem_cons.2 ⟨h, hs⟩
  · simp
  · intro m members h hs
    exact List.forall_mem_cons.2 ⟨h, hs⟩
  · exact fun _ _ h => h

/-- At most `depth` containers lie inside each other. -/
def Written.Fits : (depth : Nat) → Written → Prop
  | 0, .array _ => False
  | 0, .object _ => False
  | depth + 1, .array items => ∀ w ∈ items, Fits depth w
  | depth + 1, .object members => ∀ m ∈ members, Fits depth m.2
  | _, _ => True

/-- Every number and the members of every object, at any depth, are as said. -/
inductive Written.Throughout (onNumber : Literal → Prop)
    (onObject : List (String × Written) → Prop) : Written → Prop
  | null : Throughout onNumber onObject .null
  | bool (b : Bool) : Throughout onNumber onObject (.bool b)
  | number {l : Literal} (h : onNumber l) : Throughout onNumber onObject (.number l)
  | string (s : String) : Throughout onNumber onObject (.string s)
  | array {items : List Written} (h : ∀ w ∈ items, Throughout onNumber onObject w) :
      Throughout onNumber onObject (.array items)
  | object {members : List (String × Written)} (h : onObject members)
      (hs : ∀ m ∈ members, Throughout onNumber onObject m.2) :
      Throughout onNumber onObject (.object members)

theorem Written.Throughout.imp {p p' : Literal → Prop} {q q' : List (String × Written) → Prop}
    {w : Written} (hp : ∀ l, p l → p' l) (hq : ∀ ms, q ms → q' ms) (h : w.Throughout p q) :
    w.Throughout p' q' := by
  induction h with
  | null => exact .null
  | bool b => exact .bool b
  | number h => exact .number (hp _ h)
  | string s => exact .string s
  | array _ ih => exact .array ih
  | object h _ ih => exact .object (hq _ h) ih

/-! ## Numbers -/

namespace Literal

/-- What the number says, without how its exponent is spelled. -/
def numeral (l : Literal) : Numeral :=
  ⟨l.negative, l.whole, l.fraction, l.exponent.map fun e => ⟨e.sign == .minus, e.digits⟩⟩

/-- A literal as the grammar has it: no leading zero, and digits wherever digits are due. -/
def WellFormed (l : Literal) : Prop := l.numeral.WellFormed

instance (l : Literal) : Decidable l.WellFormed := inferInstanceAs (Decidable l.numeral.WellFormed)

/-- A fraction with its point. -/
def fractionText (fraction : List Digit) : List Char :=
  if fraction.isEmpty then [] else '.' :: fraction.map Digit.toChar

/-- The sign of an exponent. -/
def signText : ExponentSign → List Char
  | .none => []
  | .plus => ['+']
  | .minus => ['-']

/-- An exponent with its letter and sign. -/
def exponentText : Option ExponentText → List Char
  | none => []
  | some e => (if e.capital then 'E' else 'e') :: (signText e.sign ++ e.digits.map Digit.toChar)

/-- The characters of the literal. -/
def text (l : Literal) : List Char :=
  (if l.negative then ['-'] else []) ++
    (l.whole.map Digit.toChar ++ (fractionText l.fraction ++ exponentText l.exponent))

/-- An exponent has a small letter and a sign. -/
def Signed (l : Literal) : Prop := ∀ e ∈ l.exponent, e.capital = false ∧ e.sign ≠ .none

instance (l : Literal) : Decidable l.Signed := by unfold Signed; infer_instance

end Literal

/-! ## Strings -/

/-- A hexadecimal digit of the given value, in upper or lower case. -/
def IsHex (c : Char) (value : Nat) : Prop :=
  ('0' ≤ c ∧ c ≤ '9' ∧ c.toNat = 48 + value) ∨ ('a' ≤ c ∧ c ≤ 'f' ∧ c.toNat = 87 + value) ∨
    ('A' ≤ c ∧ c ≤ 'F' ∧ c.toNat = 55 + value)

/-- Four hexadecimal digits of the given value. -/
inductive SpellsHex : Nat → List Char → Prop
  | intro {a b c d : Char} {w x y z : Nat} (ha : IsHex a w) (hb : IsHex b x) (hc : IsHex c y)
      (hd : IsHex d z) : SpellsHex (((w * 16 + x) * 16 + y) * 16 + z) [a, b, c, d]

/-- The characters that have a short escape, each with the letter of it. -/
def shortEscapes : List (Char × Char) :=
  [('"', '"'), ('\\', '\\'), ('/', '/'), ('\x08', 'b'), ('\x0c', 'f'), ('\n', 'n'), ('\r', 'r'),
    ('\t', 't')]

/-- The ways to spell one character of a string. -/
inductive SpellsChar : Char → List Char → Prop
  | plain {c : Char} (h : 0x20 ≤ c.toNat) (hq : c ≠ '"') (hb : c ≠ '\\') : SpellsChar c [c]
  | short {c letter : Char} (h : (c, letter) ∈ shortEscapes) : SpellsChar c ['\\', letter]
  | code {c : Char} {t : List Char} (h : SpellsHex c.toNat t) : SpellsChar c ('\\' :: 'u' :: t)
  | pair {c : Char} {high low : Nat} {t t' : List Char} (h : SpellsHex (0xD800 + high) t)
      (h' : SpellsHex (0xDC00 + low) t') (hh : high < 0x400) (hl : low < 0x400)
      (hc : c.toNat = 0x10000 + high * 0x400 + low) :
      SpellsChar c ('\\' :: 'u' :: (t ++ '\\' :: 'u' :: t'))

/-- The ways to spell the characters of a string, one after the other. -/
inductive SpellsChars : List Char → List Char → Prop
  | nil : SpellsChars [] []
  | cons {c : Char} {s t r : List Char} (h : SpellsChar c t) (hs : SpellsChars s r) :
      SpellsChars (c :: s) (t ++ r)

/-- The ways to spell a string, with its quotes. -/
inductive SpellsString : String → List Char → Prop
  | intro {s : String} {t : List Char} (h : SpellsChars s.toList t) :
      SpellsString s ('"' :: (t ++ ['"']))

/-! ## Values -/

/-- Spaces, tabs, line feeds and carriage returns only. -/
def Blank (text : List Char) : Prop := ∀ c ∈ text, c = ' ' ∨ c = '\n' ∨ c = '\t' ∨ c = '\r'

/-- Elements with commas between them, at least one. Blanks may stand behind each element and
behind each comma. -/
inductive Listed {α : Type} (Spell : α → List Char → Prop) : List α → List Char → Prop
  | last {a : α} {t b : List Char} (h : Spell a t) (hb : Blank b) : Listed Spell [a] (t ++ b)
  | more {a : α} {as : List α} {t b b' r : List Char} (h : Spell a t) (hb : Blank b)
      (hb' : Blank b') (hr : Listed Spell as r) :
      Listed Spell (a :: as) (t ++ (b ++ ',' :: (b' ++ r)))

mutual

/-- The texts that spell a value, without blanks around it. -/
inductive Spells : Written → List Char → Prop
  | null : Spells .null ['n', 'u', 'l', 'l']
  | true : Spells (.bool true) ['t', 'r', 'u', 'e']
  | false : Spells (.bool false) ['f', 'a', 'l', 's', 'e']
  | number {l : Literal} (h : l.WellFormed) : Spells (.number l) l.text
  | string {s : String} {t : List Char} (h : SpellsString s t) : Spells (.string s) t
  | emptyArray {b : List Char} (hb : Blank b) : Spells (.array []) ('[' :: (b ++ [']']))
  | array {items : List Written} {b t : List Char} (hb : Blank b) (h : Listed Spells items t) :
      Spells (.array items) ('[' :: (b ++ (t ++ [']'])))
  | emptyObject {b : List Char} (hb : Blank b) : Spells (.object []) ('\x7b' :: (b ++ ['\x7d']))
  | object {members : List (String × Written)} {b t : List Char} (hb : Blank b)
      (h : Listed SpellsMember members t) :
      Spells (.object members) ('\x7b' :: (b ++ (t ++ ['\x7d'])))

/-- The texts that spell a member of an object: its key, a colon and its value. -/
inductive SpellsMember : String × Written → List Char → Prop
  | intro {key : String} {w : Written} {k b b' t : List Char} (hk : SpellsString key k)
      (hb : Blank b) (hb' : Blank b') (h : Spells w t) :
      SpellsMember (key, w) (k ++ (b ++ ':' :: (b' ++ t)))

end

/-- The texts that are one value as a whole. -/
def Document (w : Written) (text : List Char) : Prop :=
  ∃ b t b', Blank b ∧ Spells w t ∧ Blank b' ∧ text = b ++ (t ++ b')

end Polyglot.Json
