/-
Quoted text, as log lines show the words of a client: in double quotes, with a backslash before a
quote or a backslash and with unseen characters spelled out.
-/
import Polyglot.Text.Unseen

namespace Polyglot.Text

/-- A number in lower-case hexadecimal digits, without leading zeros. -/
def hex (n : Nat) : List Char := Nat.toDigits 16 n

/-- One character as it stands between quotes. -/
def quotedChar (c : Char) : List Char :=
  if c == '"' then ['\\', '"']
  else if c == '\\' then ['\\', '\\']
  else if c == '\n' then ['\\', 'n']
  else if c == '\r' then ['\\', 'r']
  else if c == '\t' then ['\\', 't']
  else if c.toNat == 0 then ['\\', '0']
  -- braces around the digits: code points have no fixed width
  else if isUnseen c then ['\\', 'u', '\x7b'] ++ hex c.toNat ++ ['\x7d']
  else [c]

/-- A text between double quotes. -/
def quoted (s : String) : String :=
  String.ofList ('"' :: s.toList.flatMap quotedChar ++ ['"'])

end Polyglot.Text
