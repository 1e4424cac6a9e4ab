/-
What can be wrong with JSON text, and where. A fault knows its cause and how many bytes of the text
lie behind its place; line and column follow from these and the text.
-/
import Polyglot.Text.Utf8

namespace Polyglot.Json

/-- Why a text is no JSON value. -/
inductive Cause where
  | eofInValue
  | eofInString
  | eofInList
  | eofInObject
  | expectedIdent
  | expectedValue
  | expectedColon
  | expectedListCommaOrEnd
  | expectedObjectCommaOrEnd
  | keyMustBeString
  | trailingComma
  | trailingCharacters
  | invalidNumber
  /-- A digit was due; the byte that stands there instead is passed over. -/
  | expectedDigit
  | invalidEscape
  | endOfHexEscape
  | loneSurrogate
  | controlCharacter
  | recursionLimit
  /-- A quoted number was due, and `found` stands there instead. -/
  | expectedQuotedNumber (found : String)
  deriving DecidableEq, Repr

/-- The cause in words. -/
def Cause.message : Cause → String
  | eofInValue => "EOF while parsing a value"
  | eofInString => "EOF while parsing a string"
  | eofInList => "EOF while parsing a list"
  | eofInObject => "EOF while parsing an object"
  | expectedIdent => "expected ident"
  | expectedValue => "expected value"
  | expectedColon => "expected `:`"
  | expectedListCommaOrEnd => "expected `,` or `]`"
  | expectedObjectCommaOrEnd => "expected `,` or `\x7d`"
  | keyMustBeString => "key must be a string"
  | trailingComma => "trailing comma"
  | trailingCharacters => "trailing characters"
  | invalidNumber => "invalid number"
  | expectedDigit => "invalid number"
  | invalidEscape => "invalid escape"
  | endOfHexEscape => "unexpected end of hex escape"
  | loneSurrogate => "lone leading surrogate in hex escape"
  | controlCharacter => "control character (\\u0000-\\u001F) found while parsing a string"
  | recursionLimit => "recursion limit exceeded"
  | expectedQuotedNumber found =>
    "invalid type: " ++ found ++ ", expected string containing a number"

/-- A fault: its cause and the number of bytes behind its place. A fault inside a quoted number has
its place in that quoted text, which is then `quoted`. -/
structure Fault where
  cause : Cause
  behind : Nat
  quoted : Option (List Char)
  deriving DecidableEq, Repr

/-- A fault right before the rest of the text. -/
def Fault.here (cause : Cause) (rest : List Char) : Fault :=
  ⟨cause, Text.Utf8.size rest, none⟩

/-- A fault after `bytes` more bytes of the rest of the text, or at its end if there are fewer. -/
def Fault.after (bytes : Nat) (cause : Cause) (rest : List Char) : Fault :=
  ⟨cause, Text.Utf8.size rest - bytes, none⟩

/-- A fault at the next byte of the rest of the text. -/
def Fault.next (cause : Cause) (rest : List Char) : Fault := .after 1 cause rest

/-- A place in a text: lines count from 1, columns are bytes since the last line feed. -/
structure Place where
  line : Nat
  column : Nat
  deriving DecidableEq, Repr

/-- The place after the given number of bytes. -/
def Place.locate : List Char → Nat → Place → Place
  | [], _, p => p
  | c :: rest, bytes, p =>
    if bytes == 0 then p
    else if c == '\n' then locate rest (bytes - 1) ⟨p.line + 1, 0⟩
    else locate rest (bytes - c.utf8Size) ⟨p.line, p.column + min bytes c.utf8Size⟩

/-- The fault in words, for the text it was found in. -/
def Fault.message (f : Fault) (text : List Char) : String :=
  let text := f.quoted.getD text
  let p := Place.locate text (Text.Utf8.size text - f.behind) ⟨1, 0⟩
  f.cause.message ++ " at line " ++ toString p.line ++ " column " ++ toString p.column

end Polyglot.Json
