/-
The queue of a connection is a channel with many senders and one receiver. The reader holds a sender,
and every dispatch is handed one of its own when it starts and gives it back once its response has
been sent. The writer holds the receiver and asks nobody whether more is to come: it takes messages
until nothing waits and no sender is left. A connection that is wired up like this makes the same
steps as one whose writer knows of the reader and of the dispatches, since who holds a sender is told
by the account of the connection: the reader as long as it reads, and the dispatches under way.
-/
import Polyglot.Proofs.Connection.Delivery
import Mathlib.Data.List.Nodup

namespace Polyglot

variable {ρ : Type} {respond : ρ → Inquiry → String}

/-! ## Channels -/

/-- Someone who holds a sender. -/
inductive Holder where
  | reader
  /-- The dispatch of the given number. -/
  | dispatch (number : Nat)
  deriving DecidableEq, Repr

/-- A channel: any number of senders and one receiver. -/
structure Channel where
  /-- Those who hold a sender, each once for every sender. -/
  holders : List Holder
  /-- The messages that have not been received, the oldest first. -/
  waiting : List Message
  /-- Whether the receiver is still there. -/
  listening : Bool
  deriving DecidableEq, Repr

/-- What the receiver of a channel finds. -/
inductive Receipt where
  /-- The oldest message, and the channel without it. -/
  | message (m : Message) (rest : Channel)
  /-- Nothing waits, but a message may still be sent. -/
  | pending
  /-- Nothing waits, and nobody is left to send a message. -/
  | ended

namespace Channel

/-- Hands a further sender to someone. -/
def lend (channel : Channel) (holder : Holder) : Channel :=
  { channel with holders := channel.holders ++ [holder] }

/-- Takes a sender back. -/
def giveBack (channel : Channel) (holder : Holder) : Channel :=
  { channel with holders := channel.holders.erase holder }

/-- Sends a message. Without a receiver it is dropped. -/
def send (channel : Channel) (m : Message) : Channel :=
  if channel.listening then { channel with waiting := channel.waiting ++ [m] } else channel

/-- Looks for the next message. -/
def receive (channel : Channel) : Receipt :=
  match channel.waiting with
  | m :: rest => .message m { channel with waiting := rest }
  | [] => if channel.holders = [] then .ended else .pending

/-- Drops the receiver, and with it what still waits. -/
def hangUp (channel : Channel) : Channel := { channel with waiting := [], listening := false }

theorem waiting_send (channel : Channel) (m : Message) :
    (channel.send m).waiting =
      if channel.listening then channel.waiting ++ [m] else channel.waiting := by
  rw [send]
  split <;> rfl

@[simp]
theorem holders_send (channel : Channel) (m : Message) :
    (channel.send m).holders = channel.holders := by
  rw [send]
  split <;> rfl

@[simp]
theorem listening_send (channel : Channel) (m : Message) :
    (channel.send m).listening = channel.listening := by
  rw [send]
  split <;> rfl

@[simp]
theorem waiting_giveBack (channel : Channel) (holder : Holder) :
    (channel.giveBack holder).waiting = channel.waiting := rfl

@[simp]
theorem holders_giveBack (channel : Channel) (holder : Holder) :
    (channel.giveBack holder).holders = channel.holders.erase holder := rfl

@[simp]
theorem listening_giveBack (channel : Channel) (holder : Holder) :
    (channel.giveBack holder).listening = channel.listening := rfl

theorem receive_eq_ended_iff {channel : Channel} :
    channel.receive = .ended ↔ channel.waiting = [] ∧ channel.holders = [] := by
  rw [receive]
  cases channel.waiting with
  | nil => by_cases h : channel.holders = [] <;> simp [h]
  | cons m rest => simp

theorem receive_eq_message_iff {channel rest : Channel} {m : Message} :
    channel.receive = .message m rest ↔
      channel.waiting = m :: rest.waiting ∧ rest.holders = channel.holders ∧
        rest.listening = channel.listening := by
  obtain ⟨holders, waiting, listening⟩ := channel
  obtain ⟨holders', waiting', listening'⟩ := rest
  rw [receive]
  cases waiting with
  | nil => by_cases h : holders = [] <;> simp [h]
  | cons m' rest => simp; tauto

end Channel

/-! ## Connections with their channel -/

/-- A connection with the channel that its messages go through. -/
structure Wired where
  /-- Whether frames are still taken. -/
  reading : Bool
  writer : Writer
  /-- The dispatches under way with their numbers, the oldest first. -/
  underWay : List (Inquiry × Nat)
  /-- How many dispatches have been started. -/
  started : Nat
  channel : Channel
  sent : List Message
  deriving DecidableEq, Repr

namespace Wired

/-- A new connection: the reader has sent the greeting and holds the only sender. -/
def opened : Wired :=
  ⟨true, .running, [], 0, ⟨[.reader], [.text Response.greeting], true⟩, []⟩

/-- The connection after an action, if the action can happen. -/
def step (respond : Inquiry → String) (w : Wired) : Action → Option Wired
  | .take inquiry =>
    if w.reading then
      some { w with
        underWay := w.underWay ++ [(inquiry, w.started)]
        started := w.started + 1
        channel := w.channel.lend (.dispatch w.started) }
    else none
  | .ping payload =>
    if w.reading then some { w with channel := w.channel.send (.pong payload) } else none
  | .pong => if w.reading then some w else none
  | .stop =>
    if w.reading then some { w with reading := false, channel := w.channel.giveBack .reader }
    else none
  | .finish place =>
    match w.underWay[place]? with
    | none => none
    | some (inquiry, number) =>
      -- the response is sent first: a dispatch is the last one to need its sender
      some { w with
        underWay := w.underWay.eraseIdx place
        channel := (w.channel.send (.text (respond inquiry))).giveBack (.dispatch number) }
  | .send =>
    match w.writer, w.channel.receive with
    | .running, .message m rest => some { w with channel := rest, sent := w.sent ++ [m] }
    | _, _ => none
  | .sendFails =>
    match w.writer, w.channel.receive with
    | .running, .message _ rest => some { w with writer := .failed, channel := rest.hangUp }
    | _, _ => none
  | .close =>
    match w.writer, w.channel.receive with
    | .running, .ended => some { w with writer := .done, channel := w.channel.hangUp }
    | _, _ => none

/-- The connection after several actions, each in a process of its own. -/
def runIn (respond : ρ → Inquiry → String) : Wired → List (ρ × Action) → Option Wired
  | w, [] => some w
  | w, (process, a) :: actions =>
    match w.step (respond process) a with
    | none => none
    | some w => runIn respond w actions

/-- The connection without its channel, but for what is queued in it. -/
def connection (w : Wired) : Connection :=
  ⟨w.reading, w.writer, w.underWay.map Prod.fst, w.channel.waiting, w.sent⟩

@[simp]
theorem connection_reading (w : Wired) : w.connection.reading = w.reading := rfl

@[simp]
theorem connection_writer (w : Wired) : w.connection.writer = w.writer := rfl

@[simp]
theorem connection_inFlight (w : Wired) :
    w.connection.inFlight = w.underWay.map Prod.fst := rfl

@[simp]
theorem connection_queued (w : Wired) : w.connection.queued = w.channel.waiting := rfl

/-! ## Who holds a sender -/

/-- Those who may still send a message: the reader as long as it reads, and the dispatches under
way. -/
def senders (reading : Bool) (underWay : List (Inquiry × Nat)) : List Holder :=
  (if reading then [.reader] else []) ++ underWay.map fun dispatch => .dispatch dispatch.2

theorem senders_eq_nil_iff {reading : Bool} {underWay : List (Inquiry × Nat)} :
    senders reading underWay = [] ↔ reading = false ∧ underWay = [] := by
  cases reading <;> simp [senders]

/-- What the account of a connection says about its channel. -/
structure Sound (account : Account ρ) (w : Wired) : Prop where
  underWay : w.underWay = account.underWay
  started : w.started = account.taken.length
  holders : w.channel.holders = senders w.reading account.underWay
  listening : w.channel.listening = decide (w.writer = .running)

end Wired

/-- The dispatches under way have different numbers. -/
theorem Account.Numbered.nodup {account : Account ρ} (h : account.Numbered) :
    (account.underWay.map Prod.snd).Nodup := by
  have hperm := h.map Prod.snd
  rw [List.map_append, List.zipIdx_map_snd] at hperm
  exact (List.nodup_append.1 (hperm.nodup_iff.2 List.nodup_range')).1

namespace Wired

variable {account : Account ρ} {w w' : Wired}

/-- A dispatch that ends gives its own sender back and no other. -/
theorem senders_erase (reading : Bool) {underWay : List (Inquiry × Nat)} {place : Nat}
    {dispatch : Inquiry × Nat} (hn : (underWay.map Prod.snd).Nodup)
    (hplace : underWay[place]? = some dispatch) :
    (senders reading underWay).erase (.dispatch dispatch.2) =
      senders reading (underWay.eraseIdx place) := by
  have hinj : Function.Injective Holder.dispatch := fun _ _ h => Holder.dispatch.inj h
  have hnodup : (underWay.map fun dispatch => Holder.dispatch dispatch.2).Nodup := by
    have hmap := hn.map hinj
    rwa [List.map_map] at hmap
  obtain ⟨hlt, rfl⟩ := List.getElem?_eq_some_iff.1 hplace
  have hreader : Holder.dispatch underWay[place].2 ∉
      (if reading then [Holder.reader] else [] : List Holder) := by
    cases reading <;> simp
  rw [senders, senders, List.erase_append_right _ hreader, ← List.eraseIdx_map,
    ← hnodup.erase_getElem place (by simpa using hlt), List.getElem_map]

theorem senders_concat (reading : Bool) (underWay : List (Inquiry × Nat))
    (dispatch : Inquiry × Nat) :
    senders reading (underWay ++ [dispatch]) =
      senders reading underWay ++ [.dispatch dispatch.2] := by
  simp [senders]

theorem sound_opened : Sound (.start : Account ρ) .opened := ⟨rfl, rfl, rfl, rfl⟩

theorem Sound.step {process : ρ} {a : Action} (h : w.Sound account) (hn : account.Numbered)
    (hstep : w.step (respond process) a = some w') : w'.Sound (account.note (process, a)) := by
  have hholders := h.holders
  cases a with
  | take inquiry =>
    simp only [Wired.step, Option.ite_none_right_eq_some, Option.some.injEq] at hstep
    obtain ⟨-, rfl⟩ := hstep
    refine ⟨?_, ?_, ?_, h.listening⟩
    · simp [Account.note, h.underWay, h.started]
    · simp [Account.note, h.started]
    · simp [Account.note, Channel.lend, senders_concat, hholders, h.started]
  | ping payload =>
    simp only [Wired.step, Option.ite_none_right_eq_some, Option.some.injEq] at hstep
    obtain ⟨-, rfl⟩ := hstep
    refine ⟨h.underWay, h.started, ?_, ?_⟩
    · rw [Channel.holders_send]
      exact hholders
    · rw [Channel.listening_send]
      exact h.listening
  | pong =>
    simp only [Wired.step, Option.ite_none_right_eq_some, Option.some.injEq] at hstep
    obtain ⟨-, rfl⟩ := hstep
    exact h
  | stop =>
    simp only [Wired.step, Option.ite_none_right_eq_some, Option.some.injEq] at hstep
    -- the loop had a sender until now: it is the first of the holders
    obtain ⟨hr, rfl⟩ := hstep
    refine ⟨h.underWay, h.started, ?_, h.listening⟩
    rw [Channel.holders_giveBack, hholders, senders, hr]
    rfl
  | finish place =>
    simp only [Wired.step] at hstep
    split at hstep
    · cases hstep
    · rename_i inquiry number hplace
      cases hstep
      rw [h.underWay] at hplace
      rw [Account.note, hplace]
      refine ⟨?_, h.started, ?_, by simpa using h.listening⟩
      · rw [← h.underWay]
      · -- numbers do not repeat, so it is the sender of this dispatch that goes
        rw [← senders_erase w.reading hn.nodup hplace, ← hholders]
        simp
  | send =>
    simp only [Wired.step] at hstep
    split at hstep
    · rename_i m rest hw hreceive
      cases hstep
      obtain ⟨-, hrest, hlistening⟩ := Channel.receive_eq_message_iff.1 hreceive
      exact ⟨h.underWay, h.started, hrest.trans hholders, hlistening.trans h.listening⟩
    · cases hstep
  | sendFails =>
    simp only [Wired.step] at hstep
    split at hstep
    · rename_i m rest hw hreceive
      cases hstep
      obtain ⟨-, hrest, -⟩ := Channel.receive_eq_message_iff.1 hreceive
      exact ⟨h.underWay, h.started, hrest.trans hholders, rfl⟩
    · cases hstep
  | close =>
    simp only [Wired.step] at hstep
    split at hstep
    · cases hstep
      exact ⟨h.underWay, h.started, hholders, rfl⟩
    · cases hstep

/-- The channel ends just if the reader has stopped, no dispatch is under way and nothing is
queued. -/
theorem Sound.receive_eq_ended_iff (h : w.Sound account) :
    w.channel.receive = .ended ↔ w.connection.reading = false ∧ w.connection.inFlight = [] ∧
      w.connection.queued = [] := by
  rw [Channel.receive_eq_ended_iff, h.holders, senders_eq_nil_iff, ← h.underWay]
  simp only [connection_reading, connection_inFlight, connection_queued, List.map_eq_nil_iff]
  tauto

/-! ## The two make the same steps -/

theorem Sound.connection_send (h : w.Sound account) (underWay : List (Inquiry × Nat))
    (m : Message) : connection { w with underWay := underWay, channel := w.channel.send m } =
      { w.connection with inFlight := underWay.map Prod.fst }.post m := by
  rw [Connection.post_eq, connection, Channel.waiting_send, h.listening]
  simp only [decide_eq_true_eq]
  rfl

theorem Sound.step_connection {process : ρ} (h : w.Sound account) (a : Action) :
    (w.step (respond process) a).map connection = w.connection.step (respond process) a := by
  cases a with
  | take inquiry =>
    rw [Wired.step, Connection.step, connection_reading]
    by_cases hr : w.reading = true <;> simp [connection, hr, Channel.lend]
  | ping payload =>
    have hsend := h.connection_send w.underWay (.pong payload)
    rw [Wired.step, Connection.step, connection_reading]
    by_cases hr : w.reading = true
    · rw [if_pos hr, if_pos hr, Option.map_some, hsend]
      rfl
    · rw [if_neg hr, if_neg hr, Option.map_none]
  | pong =>
    rw [Wired.step, Connection.step, connection_reading]
    by_cases hr : w.reading = true <;> simp [hr]
  | stop =>
    rw [Wired.step, Connection.step, connection_reading]
    by_cases hr : w.reading = true <;> simp [connection, hr]
  | finish place =>
    rw [Wired.step, Connection.step, connection_inFlight, List.getElem?_map]
    cases w.underWay[place]? with
    | none => rfl
    | some dispatch =>
      obtain ⟨inquiry, number⟩ := dispatch
      have hsend := h.connection_send (w.underWay.eraseIdx place) (.text (respond process inquiry))
      rw [← List.eraseIdx_map] at hsend
      exact congrArg some hsend
  | send =>
    rw [Wired.step, Connection.step, connection_writer, connection_queued, Channel.receive]
    cases w.writer <;> cases w.channel.waiting with
    | nil => by_cases hh : w.channel.holders = [] <;> simp [hh]
    | cons m rest => simp [connection]
  | sendFails =>
    rw [Wired.step, Connection.step, connection_writer, connection_queued, Channel.receive]
    cases w.writer <;> cases w.channel.waiting with
    | nil => by_cases hh : w.channel.holders = [] <;> simp [hh]
    | cons m rest => simp [connection, Channel.hangUp]
  | close =>
    -- what the one guard asks for is what the channel tells the other
    rw [Wired.step, Connection.step]
    by_cases hended : w.channel.receive = .ended
    · obtain ⟨hr, hf, hq⟩ := h.receive_eq_ended_iff.1 hended
      simp only [hended, hr, hf, hq, connection_writer]
      cases w.writer with
      | running => simpa [connection, Channel.hangUp] using And.intro hr hf
      | failed | done => rfl
    · have hguard := fun hguard => hended (h.receive_eq_ended_iff.2 hguard)
      rw [if_neg fun hall => hguard hall.2]
      split
      · rename_i hreceive
        exact absurd hreceive hended
      · rfl

/-! ## Runs -/

/-- Wired up or not, a connection takes the same course. -/
theorem Sound.runIn (h : w.Sound account) (hn : account.Numbered) (actions : List (ρ × Action)) :
    (w.runIn respond actions).map connection = w.connection.runIn respond actions ∧
      ∀ w', w.runIn respond actions = some w' →
        w'.Sound (actions.foldl Account.note account) := by
  induction actions generalizing w account with
  | nil =>
    refine ⟨rfl, fun w' hrun => ?_⟩
    cases hrun
    exact h
  | cons occurrence actions ih =>
    obtain ⟨process, a⟩ := occurrence
    have hsame : (w.step (respond process) a).map connection =
        w.connection.step (respond process) a := h.step_connection a
    rw [Wired.runIn, Connection.runIn, ← hsame]
    cases hstep : w.step (respond process) a with
    | none =>
      refine ⟨rfl, fun w' hrun => ?_⟩
      cases hrun
    | some w₁ => exact ih (h.step hn hstep) (Account.numbered_note hn _)

/-- What has become of a connection has become of it with its channel as well. -/
theorem exists_wired {actions : List (ρ × Action)} {c : Connection}
    (hrun : Connection.opened.runIn respond actions = some c) :
    ∃ w, opened.runIn respond actions = some w ∧ w.connection = c ∧
      w.Sound (Account.of actions) := by
  have hopened : opened.Sound (Account.of ([] : List (ρ × Action))) := sound_opened
  have hruns : (opened.runIn respond actions).map connection = _ ∧ _ :=
    hopened.runIn (Account.numbered_of []) actions
  obtain ⟨hsame, hsound⟩ := hruns
  obtain ⟨w, hw, hc⟩ := Option.map_eq_some_iff.1 (hsame.trans hrun)
  exact ⟨w, hw, hc, hsound w hw⟩

end Wired

end Polyglot
