/-
Reading bytes as UTF-8 text. The reader runs one byte at a time and stops at the first byte that no
well-formed text has at its place. The fault tells where the character that broke began and how
many of its bytes were still right.
-/
namespace Polyglot.Text.Utf8

/-- Why bytes are no text. -/
inductive Fault where
  /-- The character that starts at `index` breaks after `length` bytes. -/
  | invalid (length index : Nat)
  /-- The bytes end inside the character that starts at `index`. -/
  | incomplete (index : Nat)
  deriving DecidableEq, Repr

/-- The fault in words. -/
def Fault.message : Fault → String
  | .invalid length index =>
    "invalid utf-8 sequence of " ++ toString length ++ " bytes from index " ++ toString index
  | .incomplete index => "incomplete utf-8 byte sequence from index " ++ toString index

/-- Where the reader stands between two bytes. -/
inductive Place where
  /-- Between two characters. -/
  | between
  /-- Inside the character that starts at `start`: `taken` bytes of it are read and hold the bits
  `code`, `owed` bytes are still to come, and the next one has to lie in `low, …, high`. -/
  | inside (start taken owed low high code : Nat)
  deriving DecidableEq, Repr

/-- What the first byte of a character says: the bits of the character that it holds, the number of
bytes to follow, and the range of the next one. The ranges rule out longer spellings than needed,
surrogates and code points beyond U+10FFFF. -/
def lead (byte : Nat) : Option (Nat × Nat × Nat × Nat) :=
  if byte < 0xC2 then none
  else if byte < 0xE0 then some (byte - 0xC0, 1, 0x80, 0xBF)
  else if byte == 0xE0 then some (0, 2, 0xA0, 0xBF)
  else if byte == 0xED then some (0xD, 2, 0x80, 0x9F)
  else if byte < 0xF0 then some (byte - 0xE0, 2, 0x80, 0xBF)
  else if byte == 0xF0 then some (0, 3, 0x90, 0xBF)
  else if byte < 0xF4 then some (byte - 0xF0, 3, 0x80, 0xBF)
  else if byte == 0xF4 then some (4, 3, 0x80, 0x8F)
  else none

/-- Reads on from a place; `index` counts the bytes before and `read` holds the characters before,
the last one first. -/
def decodeFrom (index : Nat) (read : List Char) : Place → List UInt8 → Except Fault (List Char)
  | .between, [] => .ok read.reverse
  | .inside start .., [] => .error (.incomplete start)
  | .between, byte :: rest =>
    let b := byte.toNat
    if b < 0x80 then decodeFrom (index + 1) (Char.ofNat b :: read) .between rest
    else match lead b with
      | none => .error (.invalid 1 index)
      | some (code, owed, low, high) =>
        decodeFrom (index + 1) read (.inside index 1 owed low high code) rest
  | .inside start taken owed low high code, byte :: rest =>
    let b := byte.toNat
    if low ≤ b ∧ b ≤ high then
      let code := code * 64 + (b - 0x80)
      if owed ≤ 1 then decodeFrom (index + 1) (Char.ofNat code :: read) .between rest
      -- only the second byte of a character has a range of its own
      else decodeFrom (index + 1) read (.inside start (taken + 1) (owed - 1) 0x80 0xBF code) rest
    else .error (.invalid taken start)

/-- The characters that the bytes spell. -/
def decode (bytes : List UInt8) : Except Fault (List Char) := decodeFrom 0 [] .between bytes

/-- The bytes that spell characters. -/
def encode (text : List Char) : List UInt8 := text.flatMap String.utf8EncodeChar

/-- The number of bytes that characters take. -/
def size : List Char → Nat
  | [] => 0
  | c :: rest => c.utf8Size + size rest

@[simp]
theorem size_append (s t : List Char) : size (s ++ t) = size s + size t := by
  induction s with
  | nil => simp [size]
  | cons c s ih => simp [size, ih, Nat.add_assoc]

end Polyglot.Text.Utf8
