/-
Reading JSON text by recursive descent. Objects keep each key once, with its last value in the
place of its first occurrence. A container may lie at most 127 deep. An object whose first key is
the reserved one stands for the number that is quoted under it.

Every reader returns the text behind what it has read, or the fault at which it stopped.
-/
import Polyglot.Json.Number

namespace Polyglot.Json

/-! ## Pieces -/

/-- Drops blanks: spaces, tabs, line feeds and carriage returns. -/
def skipBlanks : List Char → List Char
  | [] => []
  | c :: rest =>
    if c == ' ' || c == '\n' || c == '\t' || c == '\r' then skipBlanks rest else c :: rest

/-- Reads the letters of a word, one after the other. -/
def readWord : List Char → Reader Unit
  | [], text => .ok ((), text)
  | _ :: _, [] => .error (.here .eofInValue [])
  | w :: word, c :: rest =>
    if c == w then readWord word rest else .error (.next .expectedIdent (c :: rest))

/-- Reads a word that stands for a value. -/
def readLiteral (word : List Char) (value : Json) : Reader Json := fun text =>
  match readWord word text with
  | .error f => .error f
  | .ok (_, rest) => .ok (value, rest)

/-! ## Strings -/

/-- The value of a hexadecimal digit. -/
def hexDigit? (c : Char) : Option Nat :=
  if c.isDigit then some (c.toNat - 48)
  else if 'a' ≤ c ∧ c ≤ 'f' then some (c.toNat - 87)
  else if 'A' ≤ c ∧ c ≤ 'F' then some (c.toNat - 55)
  else none

/-- The fault of four bytes that are not all hexadecimal digits: they are taken before they are
looked at, if there are as many. -/
def hexFault (text : List Char) : Fault :=
  if Text.Utf8.size text < 4 then .here .eofInString [] else .after 4 .invalidEscape text

/-- Reads four hexadecimal digits. -/
def readHex : Reader Nat := fun text =>
  match text with
  | a :: b :: c :: d :: rest =>
    match hexDigit? a, hexDigit? b, hexDigit? c, hexDigit? d with
    | some a, some b, some c, some d => .ok (((a * 16 + b) * 16 + c) * 16 + d, rest)
    | _, _, _, _ => .error (hexFault text)
  | _ => .error (hexFault text)

/-- Reads one given character inside an escape that is not over yet. -/
def readInEscape (due : Char) : Reader Unit
  | [] => .error (.here .eofInString [])
  | c :: rest => if c == due then .ok ((), rest) else .error (.next .endOfHexEscape (c :: rest))

/-- Reads the second half of a surrogate pair: an escape of its own. -/
def readTrail (lead : Nat) : Reader Char := fun text =>
  match readInEscape '\\' text with
  | .error f => .error f
  | .ok (_, text) =>
    match readInEscape 'u' text with
    | .error f => .error f
    | .ok (_, text) =>
      match readHex text with
      | .error f => .error f
      | .ok (trail, rest) =>
        if 0xDC00 ≤ trail ∧ trail ≤ 0xDFFF then
          .ok (Char.ofNat (0x10000 + (lead - 0xD800) * 0x400 + (trail - 0xDC00)), rest)
        else .error (.here .loneSurrogate rest)

/-- Reads the digits of a `\u` escape, and the other half of a surrogate pair behind them. -/
def readUnicode : Reader Char := fun text =>
  match readHex text with
  | .error f => .error f
  | .ok (n, rest) =>
    if 0xDC00 ≤ n ∧ n ≤ 0xDFFF then .error (.here .loneSurrogate rest)
    else if 0xD800 ≤ n ∧ n ≤ 0xDBFF then readTrail n rest
    else .ok (Char.ofNat n, rest)

/-- The character that a backslash and a letter stand for. -/
def shortEscape? (c : Char) : Option Char :=
  match c with
  | '"' => some '"'
  | '\\' => some '\\'
  | '/' => some '/'
  | 'b' => some '\x08'
  | 'f' => some '\x0c'
  | 'n' => some '\n'
  | 'r' => some '\r'
  | 't' => some '\t'
  | _ => none

/-- Reads what follows a backslash. -/
def readEscape : Reader Char
  | [] => .error (.here .eofInString [])
  | c :: rest =>
    if c == 'u' then readUnicode rest
    else match shortEscape? c with
      | some d => .ok (d, rest)
      | none => .error (.next .invalidEscape (c :: rest))

theorem readHex_length {text rest : List Char} {n : Nat} (h : readHex text = .ok (n, rest)) :
    rest.length < text.length := by
  unfold readHex at h
  repeat' split at h
  all_goals first
    | (simp only [Except.ok.injEq, Prod.mk.injEq] at h; obtain ⟨-, rfl⟩ := h; simp; omega)
    | simp at h

theorem readInEscape_length {due : Char} {text rest : List Char}
    (h : readInEscape due text = .ok ((), rest)) : rest.length < text.length := by
  unfold readInEscape at h
  repeat' split at h
  all_goals first
    | (simp only [Except.ok.injEq, Prod.mk.injEq] at h; obtain ⟨-, rfl⟩ := h; simp)
    | simp at h

theorem readTrail_length {lead : Nat} {text rest : List Char} {c : Char}
    (h : readTrail lead text = .ok (c, rest)) : rest.length < text.length := by
  unfold readTrail at h
  split at h
  · simp at h
  rename_i h1
  split at h
  · simp at h
  rename_i h2
  split at h
  · simp at h
  rename_i h3
  split at h
  · simp only [Except.ok.injEq, Prod.mk.injEq] at h
    obtain ⟨-, rfl⟩ := h
    have := readInEscape_length h1
    have := readInEscape_length h2
    have := readHex_length h3
    omega
  · simp at h

theorem readUnicode_length {text rest : List Char} {c : Char}
    (h : readUnicode text = .ok (c, rest)) : rest.length < text.length := by
  unfold readUnicode at h
  split at h
  · simp at h
  rename_i h1
  have := readHex_length h1
  split at h
  · simp at h
  split at h
  · have := readTrail_length h
    omega
  · simp only [Except.ok.injEq, Prod.mk.injEq] at h
    obtain ⟨-, rfl⟩ := h
    assumption

/-- An escape takes up text. -/
theorem readEscape_length {text rest : List Char} {c : Char}
    (h : readEscape text = .ok (c, rest)) : rest.length < text.length := by
  unfold readEscape at h
  split at h
  · simp at h
  split at h
  · have := readUnicode_length h
    simp only [List.length_cons]
    omega
  · split at h
    · simp only [Except.ok.injEq, Prod.mk.injEq] at h
      obtain ⟨-, rfl⟩ := h
      simp
    · simp at h

/-- Reads a string behind its opening quote; `read` holds the characters before, the last one
first. -/
def readString (read : List Char) (text : List Char) : Except Fault (String × List Char) :=
  match text with
  | [] => .error (.here .eofInString [])
  | c :: rest =>
    if c == '"' then .ok (String.ofList read.reverse, rest)
    else if c == '\\' then
      match _h : readEscape rest with
      | .error f => .error f
      | .ok (d, behind) => readString (d :: read) behind
    else if c.toNat < 0x20 then .error (.next .controlCharacter (c :: rest))
    else readString (c :: read) rest
termination_by text.length
decreasing_by
  · have := readEscape_length _h
    simp only [List.length_cons]
    omega
  · simp

/-! ## Quoted numbers -/

/-- The key that, first in an object, makes the object stand for a number. -/
def numberKey : String := "$serde_json::private::Number"

/-- Reads a text that is a number as a whole. -/
def readQuoted (text : List Char) : Except Fault Numeral :=
  let result : Reader Numeral := fun
    | [] => .error (.next .eofInValue [])
    | c :: rest =>
      if c == '-' || c.isDigit then Numeral.read (c :: rest)
      else .error (.next .invalidNumber (c :: rest))
  match result text with
  | .ok (n, []) => .ok n
  | .ok (_, rest) => .error ⟨.invalidNumber, Text.Utf8.size rest - 1, some text⟩
  | .error f =>
    -- behind a missing digit more text is the nearer fault, so the place moves on by one
    if f.cause = .expectedDigit then .error ⟨f.cause, f.behind - 1, some text⟩
    else .error ⟨f.cause, f.behind, some text⟩

/-- The words for a number that stands where a quoted one is due: integers of 64 bits are named by
value. -/
def describeNumber (n : Numeral) : String :=
  let size := Digit.value n.whole
  let fits := if n.negative then 0 < size ∧ size ≤ 0x8000000000000000
    else size ≤ 0xFFFFFFFFFFFFFFFF
  if n.isIntegral ∧ fits then "integer `" ++ String.ofList n.render ++ "`" else "number"

/-- What stands where a quoted number is due, and the text behind it. -/
def readMismatch : Reader String := fun text =>
  match text with
  | [] => .error (.next .eofInValue [])
  | c :: rest =>
    if c == 'n' then named "null" (readWord ['u', 'l', 'l'] rest)
    else if c == 't' then named "boolean `true`" (readWord ['r', 'u', 'e'] rest)
    else if c == 'f' then named "boolean `false`" (readWord ['a', 'l', 's', 'e'] rest)
    else if c == '-' || c.isDigit then
      match Numeral.read text with
      | .error f => .error f
      | .ok (n, behind) => .ok (describeNumber n, behind)
    else if c == '[' then .ok ("sequence", text)
    else if c == '\x7b' then .ok ("map", text)
    else .error (.next .expectedValue text)
where
  /-- A word that has been read, under its name. -/
  named (name : String) : Except Fault (Unit × List Char) → Except Fault (String × List Char)
    | .error f => .error f
    | .ok (_, rest) => .ok (name, rest)

/-- Reads the quoted number under the reserved key, and the end of its object. -/
def readNumberObject : Reader Json := fun text =>
  match skipBlanks text with
  | '"' :: rest =>
    match readString [] rest with
    | .error f => .error f
    | .ok (quoted, rest) =>
      match readQuoted quoted.toList with
      | .error f => .error f
      | .ok n =>
        match skipBlanks rest with
        | [] => .error (.next .eofInObject [])
        | c :: behind =>
          if c == '\x7d' then .ok (.number n, behind)
          else if c == ',' then .error (.next .trailingComma (c :: behind))
          else .error (.next .trailingCharacters (c :: behind))
  | text =>
    match readMismatch text with
    | .error f => .error f
    | .ok (found, rest) => .error (.here (.expectedQuotedNumber found) rest)

/-! ## Containers

The readers below take the reader of the values inside. `limit` bounds the number of values in one
container; the length of the text is always enough. -/

/-- Reads the values of an array behind its bracket or a comma; `items` holds the values before, the
last one first. -/
def readItems (value : Reader Json) : (limit : Nat) → (items : List Json) → Reader Json
  | 0, _, text => .error (.next .eofInList text)
  | limit + 1, items, text =>
    match value text with
    | .error f => .error f
    | .ok (item, rest) =>
      match skipBlanks rest with
      | [] => .error (.next .eofInList [])
      | c :: behind =>
        if c == ']' then .ok (.array (item :: items).reverse, behind)
        else if c == ',' then
          match skipBlanks behind with
          | [] => .error (.next .eofInValue [])
          | ']' :: rest => .error (.next .trailingComma (']' :: rest))
          | text => readItems value limit (item :: items) text
        else .error (.next .expectedListCommaOrEnd (c :: behind))

/-- Reads an array behind its opening bracket. -/
def readArray (value : Reader Json) (limit : Nat) : Reader Json := fun text =>
  match skipBlanks text with
  | [] => .error (.next .eofInList [])
  | ']' :: rest => .ok (.array [], rest)
  | text => readItems value limit [] text

/-- Reads the colon behind a key. -/
def readColon : Reader Unit := fun text =>
  match skipBlanks text with
  | [] => .error (.next .eofInObject [])
  | c :: rest => if c == ':' then .ok ((), rest) else .error (.next .expectedColon (c :: rest))

/-- Reads a key with its quotes. -/
def readKey : Reader String
  | '"' :: rest => readString [] rest
  | text => .error (.next .keyMustBeString text)

/-- Reads the members of an object from the value of `key` on; `members` holds those before. -/
def readMembers (value : Reader Json) :
    (limit : Nat) → (members : Members) → (key : String) → Reader Json
  | 0, _, _, text => .error (.next .eofInObject text)
  | limit + 1, members, key, text =>
    match readColon text with
    | .error f => .error f
    | .ok (_, text) =>
      match value text with
      | .error f => .error f
      | .ok (item, rest) =>
        let members := members.put key item
        match skipBlanks rest with
        | [] => .error (.next .eofInObject [])
        | c :: behind =>
          if c == '\x7d' then .ok (.object members, behind)
          else if c == ',' then
            match skipBlanks behind with
            | [] => .error (.next .eofInValue [])
            | '\x7d' :: rest => .error (.next .trailingComma ('\x7d' :: rest))
            | text =>
              match readKey text with
              | .error f => .error f
              | .ok (key, text) => readMembers value limit members key text
          else .error (.next .expectedObjectCommaOrEnd (c :: behind))

/-- Reads an object behind its opening brace. -/
def readObject (value : Reader Json) (limit : Nat) : Reader Json := fun text =>
  match skipBlanks text with
  | [] => .error (.next .eofInObject [])
  | '\x7d' :: rest => .ok (.object [], rest)
  | text =>
    match readKey text with
    | .error f => .error f
    | .ok (key, text) =>
      -- the reserved key is special in the first place only
      if key == numberKey then
        match readColon text with
        | .error f => .error f
        | .ok (_, text) => readNumberObject text
      else readMembers value limit [] key text

/-! ## Values -/

/-- Reads a value in which `depth` containers may lie inside each other. -/
def readValue (limit : Nat) (depth : Nat) : Reader Json := fun text =>
  match skipBlanks text with
  | [] => .error (.next .eofInValue [])
  | c :: rest =>
    if c == 'n' then readLiteral ['u', 'l', 'l'] .null rest
    else if c == 't' then readLiteral ['r', 'u', 'e'] (.bool true) rest
    else if c == 'f' then readLiteral ['a', 'l', 's', 'e'] (.bool false) rest
    else if c == '"' then
      match readString [] rest with
      | .error f => .error f
      | .ok (s, behind) => .ok (.string s, behind)
    else if c == '-' || c.isDigit then
      match Numeral.read (c :: rest) with
      | .error f => .error f
      | .ok (n, behind) => .ok (.number n, behind)
    else if c == '[' then
      match depth with
      | 0 => .error (.next .recursionLimit (c :: rest))
      | depth + 1 => readArray (readValue limit depth) limit rest
    else if c == '\x7b' then
      match depth with
      | 0 => .error (.next .recursionLimit (c :: rest))
      | depth + 1 => readObject (readValue limit depth) limit rest
    else .error (.next .expectedValue (c :: rest))

/-- The greatest number of containers inside each other. -/
def maxDepth : Nat := 127

/-- Reads a text that is one value as a whole. -/
def parse (text : List Char) : Except Fault Json :=
  match readValue text.length maxDepth text with
  | .error f => .error f
  | .ok (value, rest) =>
    match skipBlanks rest with
    | [] => .ok value
    | rest => .error (.next .trailingCharacters rest)

end Polyglot.Json
