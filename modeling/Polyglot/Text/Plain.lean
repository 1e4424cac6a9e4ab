/-
Text for an output that is no terminal. Control characters are left out, except those that are
blank, and with them the sequences by which terminals are steered: an escape character and what
belongs to it.
-/
namespace Polyglot.Text

/-- Where in a steering sequence a text stands. -/
inductive Steering where
  /-- Outside of any. -/
  | ground
  /-- Behind the escape character. -/
  | escape
  /-- Behind the escape character and an intermediate one: one more character ends the sequence. -/
  | intermediate
  /-- Among the parameters of a control sequence: a letter ends it. -/
  | parameters
  /-- Inside a command to the system: a bell ends it. -/
  | command
  /-- Inside a string for the device: only a new sequence or a cancel ends it. -/
  | device
  deriving DecidableEq, Repr

namespace Steering

/-- Whether a control character moves the place of writing and is left in. -/
def isLayout (c : Char) : Bool := c == '\t' || c == '\n' || c == '\x0c' || c == '\r'

/-- Where an escape character and the given character lead. -/
def ofEscaped (c : Char) : Steering :=
  if c.toNat < 0x30 then .intermediate
  else if c == '[' then .parameters
  else if c == ']' then .command
  else if c == 'P' || c == 'X' || c == '^' || c == '_' then .device
  else .ground

/-- Where a character leads that neither starts nor cancels a sequence, and whether it is shown. -/
def step (place : Steering) (c : Char) : Steering × Bool :=
  let isControl := c.toNat < 0x20 || c == '\x7f'
  match place with
  | .ground => (.ground, !isControl || isLayout c)
  | .command => (if c == '\x07' then .ground else .command, false)
  | .device => (.device, false)
  | place =>
    -- inside a short sequence layout is shown at once and breaks the sequence off
    if isLayout c then (.ground, true)
    else if isControl || 0x80 ≤ c.toNat then (place, false)
    else match place with
      | .escape => (ofEscaped c, false)
      | .intermediate => (if c.toNat < 0x30 then .intermediate else .ground, false)
      | _ => (if c.toNat < 0x40 then place else .ground, false)

end Steering

/-- The characters that are shown, from a place on. -/
def plainFrom : Steering → List Char → List Char
  | _, [] => []
  | place, c :: rest =>
    if c == '\x1b' then plainFrom .escape rest
    else if c == '\x18' || c == '\x1a' then plainFrom .ground rest
    else
      let (next, isShown) := place.step c
      if isShown then c :: plainFrom next rest else plainFrom next rest

/-- A text without control characters and steering sequences. -/
def plain (s : String) : String := String.ofList (plainFrom .ground s.toList)

end Polyglot.Text
