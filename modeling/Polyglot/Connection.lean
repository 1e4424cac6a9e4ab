/-
Connections. Each has a reader that takes the frames of one client, dispatches that are under way
each on its own, a queue of outgoing messages, and a writer that sends them one after the other. A
server is any number of connections. It moves by single actions, each of which belongs to one
connection; everything about their order is left open.

A dispatch that is under way may still queue a message. So the writer comes to its end only when the
reader has stopped, no dispatch is under way and the queue is empty, or when a message cannot be
sent.
-/
import Polyglot.Dispatch

namespace Polyglot

/-- A frame that asks for a detection. -/
inductive Inquiry where
  | text (characters : List Char)
  | binary (bytes : List UInt8)
  deriving DecidableEq, Repr

/-- The response to an inquiry. -/
def Inquiry.response (host : Host) (registry : Registry) : Inquiry → String
  | .text characters => (Dispatch.handle host registry characters).response
  | .binary bytes => (Dispatch.handleBytes host registry bytes).response

/-- What a client is sent. -/
inductive Message where
  | text (words : String)
  /-- The answer to a ping, with the same payload. -/
  | pong (payload : List UInt8)
  deriving DecidableEq, Repr

/-- How far a writer has come. -/
inductive Writer where
  | running
  /-- A message could not be sent. -/
  | failed
  /-- Nothing more can come. -/
  | done
  deriving DecidableEq, Repr

/-- A connection whose handshake is done. -/
structure Connection where
  /-- Whether frames are still taken. -/
  reading : Bool
  writer : Writer
  /-- The dispatches under way, the oldest first. -/
  inFlight : List Inquiry
  /-- The messages to be sent, the oldest first. -/
  queued : List Message
  /-- The messages that have been sent, the oldest first. -/
  sent : List Message
  deriving DecidableEq, Repr

namespace Connection

/-- A new connection: the greeting waits to be sent. -/
def opened : Connection := ⟨true, .running, [], [.text Response.greeting], []⟩

/-- Puts a message into the queue. Once the writer has stopped there is no queue any more, and the
message is dropped. -/
def post (c : Connection) (m : Message) : Connection :=
  match c.writer with
  | .running => { c with queued := c.queued ++ [m] }
  | _ => c

end Connection

/-- What may happen on a connection. -/
inductive Action where
  /-- The reader takes an inquiry, and a dispatch starts. -/
  | take (inquiry : Inquiry)
  /-- The reader takes a ping. -/
  | ping (payload : List UInt8)
  /-- The reader takes a pong that nobody asked for. -/
  | pong
  /-- The reader takes a close frame or a broken one, or the client is gone. -/
  | stop
  /-- The dispatch at the given place among those under way comes to its end. -/
  | finish (place : Nat)
  /-- The writer sends the oldest message. -/
  | send
  /-- The writer fails to send the oldest message. -/
  | sendFails
  /-- The writer comes to its end. -/
  | close
  deriving DecidableEq, Repr

namespace Connection

/-- The connection after an action, if the action can happen. -/
def step (respond : Inquiry → String) (c : Connection) : Action → Option Connection
  | .take inquiry => if c.reading then some { c with inFlight := c.inFlight ++ [inquiry] } else none
  | .ping payload => if c.reading then some (c.post (.pong payload)) else none
  | .pong => if c.reading then some c else none
  | .stop => if c.reading then some { c with reading := false } else none
  -- a dispatch ends on its own: neither the reader nor the writer has to be running
  | .finish place =>
    match c.inFlight[place]? with
    | none => none
    | some inquiry =>
      some ({ c with inFlight := c.inFlight.eraseIdx place }.post (.text (respond inquiry)))
  | .send =>
    match c.writer, c.queued with
    | .running, m :: rest => some { c with queued := rest, sent := c.sent ++ [m] }
    | _, _ => none
  | .sendFails =>
    match c.writer, c.queued with
    | .running, _ :: _ => some { c with writer := .failed, queued := [] }
    | _, _ => none
  | .close =>
    if c.writer = .running ∧ c.reading = false ∧ c.inFlight = [] ∧ c.queued = [] then
      some { c with writer := .done }
    else none

end Connection

/-- The connections of a server, in the order in which they were made. -/
abbrev Server := List Connection

/-- What may happen on a server. -/
inductive Move where
  /-- The handshake of a new connection is done. -/
  | connect
  /-- Something happens on the connection of the given number. -/
  | act (connection : Nat) (action : Action)
  deriving DecidableEq, Repr

namespace Server

/-- The server after a move, if the move can happen. -/
def step (respond : Inquiry → String) (server : Server) : Move → Option Server
  | .connect => some (server ++ [.opened])
  | .act number action =>
    match server[number]? with
    | none => none
    | some c => (c.step respond action).map fun c => server.set number c

/-- The server after several moves, if they can happen one after the other. -/
def run (respond : Inquiry → String) : Server → List Move → Option Server
  | server, [] => some server
  | server, m :: moves =>
    match server.step respond m with
    | none => none
    | some server => run respond server moves

end Server

end Polyglot
