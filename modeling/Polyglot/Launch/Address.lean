/-
Host texts that are addresses by themselves. An address of version 4 is one to four numbers between
points, each decimal, octal or hexadecimal by its first characters; the last number fills all bytes
that are left. One of version 6 is eight groups of hexadecimal digits between colons, of which one
run of zeros may be left out.
-/
import Polyglot.Json.Reader

namespace Polyglot.Launch

/-- An address that a daemon can listen on. -/
inductive Address where
  | v4 (value : Nat)
  | v6 (groups : List Nat)
  deriving DecidableEq, Repr

namespace Address

/-- The value of digits of a base, which may be none. -/
def readBase (base : Nat) : List Char → Option Nat
  | text => text.foldl
    (fun n c => match n, Json.hexDigit? c with
      | some n, some d => if d < base then some (base * n + d) else none
      | _, _ => none)
    (some 0)

/-- One number of an address of version 4. -/
def readNumber : List Char → Option Nat
  | [] => none
  | '0' :: 'x' :: digits => if digits.isEmpty then none else readBase 16 digits
  | '0' :: 'X' :: digits => if digits.isEmpty then none else readBase 16 digits
  | '0' :: digits => readBase 8 digits
  | digits => readBase 10 digits

/-- The pieces of a text between separators. -/
def pieces (separator : Char) : List Char → List (List Char)
  | [] => [[]]
  | c :: rest =>
    match pieces separator rest with
    | [] => [[c]]
    | piece :: more => if c == separator then [] :: piece :: more else (c :: piece) :: more

/-- Puts the numbers of an address of version 4 together. -/
def joinNumbers (value : Nat) (bytesLeft : Nat) : List Nat → Option Nat
  | [] => none
  | [last] =>
    let scale := Nat.pow 256 bytesLeft
    if last < scale then some (value * scale + last) else none
  | n :: rest =>
    if n < 256 ∧ 1 < bytesLeft then joinNumbers (value * 256 + n) (bytesLeft - 1) rest else none

/-- Reads an address of version 4. -/
def readV4 (text : List Char) : Option Nat :=
  ((pieces '.' text).mapM readNumber).bind (joinNumbers 0 4)

/-- One group of an address of version 6. -/
def readGroup (text : List Char) : Option Nat :=
  if text.isEmpty || 4 < text.length then none else readBase 16 text

/-- Groups between colons, perhaps none. -/
def readGroups (text : List Char) : Option (List Nat) :=
  if text.isEmpty then some [] else (pieces ':' text).mapM readGroup

/-- The parts of a text before and behind the first two colons in a row. -/
def splitAtGap : List Char → Option (List Char × List Char)
  | ':' :: ':' :: rest => some ([], rest)
  | c :: rest => (splitAtGap rest).map fun (before, behind) => (c :: before, behind)
  | [] => none

/-- Reads an address of version 6. -/
def readV6 (text : List Char) : Option (List Nat) :=
  match splitAtGap text with
  | none => (readGroups text).filter (·.length == 8)
  | some (before, behind) =>
    match readGroups before, readGroups behind with
    | some front, some back =>
      let present := front.length + back.length
      if present < 8 then some (front ++ List.replicate (8 - present) 0 ++ back) else none
    | _, _ => none

/-- The address that a host text is. -/
def ofText? (text : String) : Option Address :=
  match readV4 text.toList with
  | some value => some (.v4 value)
  | none => (readV6 text.toList).map .v6

/-- The address as text; of zero groups the whole run at the front is left out. -/
def text : Address → String
  | .v4 value =>
    let byte (scale : Nat) : String := toString (value / scale % 256)
    ".".intercalate [byte 0x1000000, byte 0x10000, byte 0x100, byte 1]
  | .v6 groups =>
    let group (n : Nat) : String := String.ofList (Nat.toDigits 16 n)
    let rest := groups.dropWhile (· == 0)
    if rest.length + 2 ≤ groups.length then "[::" ++ ":".intercalate (rest.map group) ++ "]"
    else "[" ++ ":".intercalate (groups.map group) ++ "]"

/-- Whether every machine has the address: it is unspecified or leads back. -/
def isEverywhere : Address → Bool
  | .v4 value => value == 0 || value / 0x1000000 == 127
  | .v6 groups => groups.dropLast.all (· == 0) && groups.getLast?.all (· ≤ 1)

end Address

/-- What looking up a host comes to that has no address. -/
def lookupFailure : String :=
  "failed to lookup address information: Name or service not known"

/-- What listening on an address comes to that the machine does not have. -/
def addressFailure : String := "Cannot assign requested address (os error 99)"

/-- Listening on a machine without names: the text of the address and the port, or what went wrong.
The one name that is known is that of the machine itself. -/
def listenByNumber (host : String) (port : String) : Except String String :=
  let address := if host == "localhost" then some (.v4 0x7F000001) else Address.ofText? host
  match address with
  | none => .error lookupFailure
  | some a =>
    if a.isEverywhere then .ok (a.text ++ ":" ++ port) else .error addressFailure

end Polyglot.Launch
