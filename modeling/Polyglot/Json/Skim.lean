/-
Passing over one JSON value without building it. The shape is the one that reading asks for, but
containers may lie any number deep and an escape of four hexadecimal digits may be half of a
surrogate pair.
-/
import Polyglot.Json.Reader

namespace Polyglot.Json

/-- Whether a character is a hexadecimal digit. -/
def isHex (c : Char) : Bool := (hexDigit? c).isSome

/-- The text behind a string whose opening quote has been read. -/
def skimString : List Char → Option (List Char)
  | [] => none
  | '"' :: rest => some rest
  | '\\' :: 'u' :: a :: b :: c :: d :: rest =>
    if isHex a && isHex b && isHex c && isHex d then skimString rest else none
  | '\\' :: c :: rest => if (shortEscape? c).isSome then skimString rest else none
  | c :: rest => if c == '\\' || c.toNat < 0x20 then none else skimString rest

/-- The text behind a key and its colon. -/
def skimKey (text : List Char) : Option (List Char) :=
  match text with
  | '"' :: rest =>
    match skimString rest with
    | none => none
    | some rest =>
      match skipBlanks rest with
      | ':' :: rest => some rest
      | _ => none
  | _ => none

/-- A container that is open. -/
inductive Frame where
  | list
  | object
  deriving DecidableEq, Repr

/-- The character that closes a container. -/
def Frame.close : Frame → Char
  | .list => ']'
  | .object => '\x7d'

/-- Where skimming stands. -/
inductive Stage where
  /-- A value is due. -/
  | value
  /-- A container has just been opened. -/
  | opened (frame : Frame)
  /-- A value is over. -/
  | done

/-- The text behind a value that is neither list nor object. -/
def skimScalar (text : List Char) : Option (List Char) :=
  match text with
  | [] => none
  | c :: rest =>
    if c == 'n' then (readWord ['u', 'l', 'l'] rest).toOption.map (·.2)
    else if c == 't' then (readWord ['r', 'u', 'e'] rest).toOption.map (·.2)
    else if c == 'f' then (readWord ['a', 'l', 's', 'e'] rest).toOption.map (·.2)
    else if c == '"' then skimString rest
    else if c == '-' || c.isDigit then (Numeral.read text).toOption.map (·.2)
    else none

/-- Passes over values until no container of `frames` is open. Of two steps one
takes up text, so `limit` may be twice the length of the text and two more. -/
def skimFrom : (limit : Nat) → Stage → List Frame → List Char → Option (List Char)
  | 0, _, _, _ => none
  | _ + 1, .done, [], text => some text
  | limit + 1, .done, frame :: frames, text =>
    match skipBlanks text with
    | [] => none
    | c :: rest =>
      if c == frame.close then skimFrom limit .done frames rest
      else if c == ',' then
        match frame with
        | .list => skimFrom limit .value (frame :: frames) rest
        | .object =>
          match skimKey (skipBlanks rest) with
          | none => none
          | some rest => skimFrom limit .value (frame :: frames) rest
      else none
  | limit + 1, .opened frame, frames, text =>
    match skipBlanks text with
    | [] => none
    | c :: rest =>
      if c == frame.close then skimFrom limit .done frames rest
      else match frame with
        | .list => skimFrom limit .value (frame :: frames) (c :: rest)
        | .object =>
          match skimKey (c :: rest) with
          | none => none
          | some rest => skimFrom limit .value (frame :: frames) rest
  | limit + 1, .value, frames, text =>
    match skipBlanks text with
    | [] => none
    | c :: rest =>
      if c == '[' then skimFrom limit (.opened .list) frames rest
      else if c == '\x7b' then skimFrom limit (.opened .object) frames rest
      else match skimScalar (c :: rest) with
        | none => none
        | some rest => skimFrom limit .done frames rest

/-- The text behind one value. -/
def skim (text : List Char) : Option (List Char) :=
  skimFrom (2 * text.length + 2) .value [] text

end Polyglot.Json
