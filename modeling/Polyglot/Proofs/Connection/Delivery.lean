/-
Every response is delivered once. A connection is followed by a simpler account of the same actions,
which knows neither queue nor writer: it numbers the dispatches as they start and notes down what is
due to the client whenever one ends or a ping is taken. As long as the writer runs, what has been
sent and what is queued is the greeting and then exactly what is due, in that order; a writer that
has stopped has sent a first part of it.
-/
import Polyglot.Proofs.Connection.Runs
import Polyglot.Proofs.Response.Echo
import Polyglot.Proofs.Response.Inquiries
import Mathlib.Data.List.Induction
import Mathlib.Data.List.InsertIdx
import Mathlib.Data.List.Perm.Basic

namespace Polyglot

variable {ρ : Type} {respond : ρ → Inquiry → String}

/-- Something that is due to a client. -/
inductive Due (ρ : Type) where
  /-- The response of a dispatch, known by its inquiry and its number, that ended in a process. -/
  | response (dispatch : Inquiry × Nat) (process : ρ)
  /-- The answer to a ping. -/
  | pong (payload : List UInt8)

namespace Due

def message (respond : ρ → Inquiry → String) : Due ρ → Message
  | .response (inquiry, _) process => .text (respond process inquiry)
  | .pong payload => .pong payload

def dispatch? : Due ρ → Option (Inquiry × Nat)
  | .response dispatch _ => some dispatch
  | .pong _ => none

def process? : Due ρ → Option ρ
  | .response _ process => some process
  | .pong _ => none

def payload? : Due ρ → Option (List UInt8)
  | .response .. => none
  | .pong payload => some payload

end Due

/-! ## The account of a connection -/

/-- The inquiries that are taken, in order. -/
def inquiriesOf (actions : List (ρ × Action)) : List Inquiry :=
  actions.filterMap fun
    | (_, .take inquiry) => some inquiry
    | _ => none

/-- The payloads of the pings that are taken, in order. -/
def payloadsOf (actions : List (ρ × Action)) : List (List UInt8) :=
  actions.filterMap fun
    | (_, .ping payload) => some payload
    | _ => none

/-- The processes that dispatches end in, in order. -/
def endingsOf (actions : List (ρ × Action)) : List ρ :=
  actions.filterMap fun
    | (process, .finish _) => some process
    | _ => none

/-- What has come of the actions on a connection, whatever has been sent of it. -/
structure Account (ρ : Type) where
  /-- The inquiries taken, the oldest first. Each has started a dispatch, which has its place here as
  its number. -/
  taken : List Inquiry
  /-- The dispatches under way, the oldest first. -/
  underWay : List (Inquiry × Nat)
  /-- What is due to the client, in the order in which it came up. -/
  due : List (Due ρ)

namespace Account

def start : Account ρ := ⟨[], [], []⟩

/-- The dispatches that have ended, in the order in which they did. -/
def ended (account : Account ρ) : List (Inquiry × Nat) := account.due.filterMap Due.dispatch?

/-- What the client is to be sent. -/
def messages (respond : ρ → Inquiry → String) (account : Account ρ) : List Message :=
  .text Response.greeting :: account.due.map (Due.message respond)

def note (account : Account ρ) : ρ × Action → Account ρ
  | (_, .take inquiry) =>
    ⟨account.taken ++ [inquiry], account.underWay ++ [(inquiry, account.taken.length)],
      account.due⟩
  | (_, .ping payload) => { account with due := account.due ++ [.pong payload] }
  | (process, .finish place) =>
    match account.underWay[place]? with
    | none => account
    | some dispatch =>
      ⟨account.taken, account.underWay.eraseIdx place, account.due ++ [.response dispatch process]⟩
  | _ => account

def of (actions : List (ρ × Action)) : Account ρ := actions.foldl note start

/-- Every dispatch that has started is under way or has ended, and only one of the two. -/
def Numbered (account : Account ρ) : Prop :=
  (account.underWay ++ account.ended).Perm account.taken.zipIdx

theorem ended_append (due : List (Due ρ)) (d : Due ρ) :
    (due ++ [d]).filterMap Due.dispatch? = due.filterMap Due.dispatch? ++ d.dispatch?.toList := by
  rw [List.filterMap_append]
  cases d <;> rfl

theorem numbered_note {account : Account ρ} (h : account.Numbered) (occurrence : ρ × Action) :
    (account.note occurrence).Numbered := by
  obtain ⟨process, a⟩ := occurrence
  unfold Numbered ended at h ⊢
  cases a with
  | take inquiry =>
    -- the number of the dispatch moves behind those that have ended
    have hcomm : (account.underWay ++ [(inquiry, account.taken.length)] ++
        account.due.filterMap Due.dispatch?).Perm (account.underWay ++
          account.due.filterMap Due.dispatch? ++ [(inquiry, account.taken.length)]) := by
      rw [List.append_assoc, List.append_assoc]
      exact List.perm_append_comm.append_left _
    rw [note, List.zipIdx_append]
    simpa using hcomm.trans (h.append_right _)
  | ping payload =>
    rw [note, ended_append]
    simpa [Due.dispatch?] using h
  | pong | stop | send | sendFails | close => exact h
  | finish place =>
    rw [note]
    split
    · exact h
    · rename_i dispatch hplace
      obtain ⟨hlt, rfl⟩ := List.getElem?_eq_some_iff.1 hplace
      -- it leaves the ones under way just as it joins the ones that have ended
      have herase := (List.getElem_cons_eraseIdx_perm hlt).append_right
        (account.due.filterMap Due.dispatch?)
      rw [ended_append, ← List.append_assoc]
      refine List.perm_append_comm.trans ?_
      exact herase.trans h

theorem of_concat (actions : List (ρ × Action)) (occurrence : ρ × Action) :
    of (actions ++ [occurrence]) = (of actions).note occurrence := by
  simp [of]

theorem numbered_of (actions : List (ρ × Action)) : (of actions).Numbered := by
  induction actions using List.reverseRecOn with
  | nil => exact .refl _
  | append_singleton actions occurrence ih =>
    rw [of_concat]
    exact numbered_note ih occurrence

theorem taken_of (actions : List (ρ × Action)) : (of actions).taken = inquiriesOf actions := by
  induction actions using List.reverseRecOn with
  | nil => rfl
  | append_singleton actions occurrence ih =>
    obtain ⟨process, a⟩ := occurrence
    rw [of_concat, inquiriesOf, List.filterMap_append, ← inquiriesOf, ← ih]
    cases a with
    | finish place =>
      simp only [note]
      split <;> simp
    | _ => simp [note]

theorem payloads_of (actions : List (ρ × Action)) :
    (of actions).due.filterMap Due.payload? = payloadsOf actions := by
  induction actions using List.reverseRecOn with
  | nil => rfl
  | append_singleton actions occurrence ih =>
    obtain ⟨process, a⟩ := occurrence
    rw [of_concat, payloadsOf, List.filterMap_append, ← payloadsOf, ← ih]
    cases a with
    | finish place =>
      simp only [note]
      split <;> simp [Due.payload?]
    | _ => simp [note, Due.payload?]

end Account

/-! ## The connection and its account -/

/-- What an account says about its connection. -/
structure Covers (respond : ρ → Inquiry → String) (account : Account ρ) (c : Connection) :
    Prop where
  inFlight : c.inFlight = account.underWay.map Prod.fst
  /-- Unless a message could not be sent, nothing is missing. -/
  whole : c.writer ≠ .failed → c.sent ++ c.queued = account.messages respond
  sent : c.sent <+: account.messages respond
  /-- A writer that came to its end misses nothing that is still to come. -/
  closed : c.writer = .done → c.reading = false ∧ c.inFlight = []

namespace Covers

variable {account : Account ρ} {c c' : Connection}

theorem start : Covers respond .start .opened where
  inFlight := rfl
  whole _ := rfl
  sent := List.nil_prefix
  closed h := nomatch h

/-- A message is posted as it comes to be due, and some dispatches may have ended. -/
theorem post (h : Covers respond account c) (hopen : c.writer ≠ .done)
    (underWay : List (Inquiry × Nat)) (d : Due ρ) :
    Covers respond ⟨account.taken, underWay, account.due ++ [d]⟩
      ({ c with inFlight := underWay.map Prod.fst }.post (d.message respond)) where
  inFlight := Connection.post_inFlight ..
  whole hw := by
    rw [Connection.post_writer] at hw
    have hrunning : c.writer = .running := by
      cases hc : c.writer with
      | running => rfl
      | failed => exact absurd hc hw
      | done => exact absurd hc hopen
    rw [Connection.post_sent, Connection.post_queued, if_pos hrunning, ← List.append_assoc,
      h.whole hw, Account.messages, Account.messages, List.map_append, List.cons_append]
    rfl
  sent := by
    have hmore : account.messages respond <+:
        Account.messages respond ⟨account.taken, underWay, account.due ++ [d]⟩ := by
      rw [Account.messages, Account.messages, List.map_append, ← List.cons_append]
      exact List.prefix_append _ _
    rw [Connection.post_sent]
    exact h.sent.trans hmore
  closed hw := by
    rw [Connection.post_writer] at hw
    exact absurd hw hopen

theorem step {process : ρ} {a : Action} (h : Covers respond account c)
    (hstep : c.Steps (respond process) a c') :
    Covers respond (account.note (process, a)) c' := by
  -- a writer that came to its end is not followed by anything that could be due
  have hopen : c.reading = true ∨ c.inFlight ≠ [] → c.writer ≠ .done := by
    rintro hmore hw
    obtain ⟨hr, hf⟩ := h.closed hw
    simp [hr, hf] at hmore
  cases hstep with
  | @take inquiry hr =>
    refine ⟨?_, h.whole, h.sent, fun hw => absurd hw (hopen (.inl hr))⟩
    simp [Account.note, h.inFlight]
  | @ping payload hr =>
    have hpost := h.post (hopen (.inl hr)) account.underWay (.pong payload)
    rw [← h.inFlight] at hpost
    exact hpost
  | pong hr => exact h
  | stop hr => exact ⟨h.inFlight, h.whole, h.sent, fun hw => ⟨rfl, (h.closed hw).2⟩⟩
  | @finish place inquiry hf =>
    have hne : c.inFlight ≠ [] := List.ne_nil_of_mem (List.mem_of_getElem? hf)
    rw [h.inFlight, List.getElem?_map] at hf
    obtain ⟨dispatch, hplace, rfl⟩ := Option.map_eq_some_iff.1 hf
    have hpost := h.post (hopen (.inr hne)) (account.underWay.eraseIdx place)
      (.response dispatch process)
    rw [← List.eraseIdx_map, ← h.inFlight] at hpost
    rw [Account.note, hplace]
    exact hpost
  | @send m rest hw hq =>
    have hwhole : c.sent ++ [m] ++ rest = account.messages respond := by
      rw [List.append_assoc, List.singleton_append, ← hq]
      exact h.whole (by simp [hw])
    refine ⟨h.inFlight, fun _ => hwhole, ⟨rest, hwhole⟩, fun hdone => ?_⟩
    simp [hw] at hdone
  | sendFails hw hq => exact ⟨h.inFlight, fun hne => absurd rfl hne, h.sent, nofun⟩
  | close hw hr hf hq =>
    exact ⟨h.inFlight, fun _ => h.whole (by simp [hw]), h.sent, fun _ => ⟨hr, hf⟩⟩

theorem endings_step {process : ρ} {a : Action} (h : Covers respond account c)
    (hstep : c.Steps (respond process) a c') :
    (account.note (process, a)).due.filterMap Due.process? =
      account.due.filterMap Due.process? ++ endingsOf [(process, a)] := by
  cases hstep with
  | @finish place inquiry hf =>
    rw [h.inFlight, List.getElem?_map] at hf
    obtain ⟨dispatch, hplace, rfl⟩ := Option.map_eq_some_iff.1 hf
    simp [Account.note, hplace, endingsOf, Due.process?]
  | _ => simp [Account.note, endingsOf, Due.process?]

theorem run {actions : List (ρ × Action)} (h : Covers respond account c)
    (hrun : c.runIn respond actions = some c') :
    Covers respond (actions.foldl Account.note account) c' ∧
      (actions.foldl Account.note account).due.filterMap Due.process? =
        account.due.filterMap Due.process? ++ endingsOf actions := by
  induction actions generalizing account c with
  | nil =>
    simp only [Connection.runIn, Option.some.injEq] at hrun
    subst hrun
    exact ⟨h, (List.append_nil _).symm⟩
  | cons occurrence actions ih =>
    obtain ⟨process, a⟩ := occurrence
    obtain ⟨c₁, hstep, hrun⟩ := Connection.runIn_cons.1 hrun
    obtain ⟨hcovers, hendings⟩ := ih (h.step hstep) hrun
    refine ⟨hcovers, ?_⟩
    rw [List.foldl_cons, hendings, h.endings_step hstep, List.append_assoc, endingsOf, endingsOf,
      endingsOf, ← List.filterMap_append, List.singleton_append]

end Covers

/-! ## Runs of a server -/

/-- No response and no pong can be taken for the greeting. -/
theorem Account.count_greeting (account : Account Host) (registry : Registry) :
    (account.messages fun host => Inquiry.response host registry).count
      (.text Response.greeting) = 1 := by
  rw [messages, List.count_cons_self, List.count_eq_zero.2]
  intro hmem
  obtain ⟨d, -, hd⟩ := List.mem_map.1 hmem
  cases d with
  | response dispatch host =>
    simp only [Due.message, Message.text.injEq] at hd
    exact Inquiry.response_ne_greeting host registry dispatch.1 hd
  | pong payload => cases hd

namespace Server

/-- Whatever happens on a server and in whatever order, a connection whose writer has not stopped has
sent or queued the greeting, once, and then one message for each dispatch that has ended and for each
ping, in the order in which they did, and nothing else. A response is that to the inquiry of its
dispatch, every dispatch that was started is under way or has ended, and none is both or twice. A
writer that could not send a message has sent a first part of this. -/
theorem delivered_once {registry : Registry} {moves : List (Host × Move)} {server : Server}
    {k : Nat} {c : Connection}
    (hrun : runIn (fun host => Inquiry.response host registry) [] moves = some server)
    (hc : server[k]? = some c) :
    let actions := actionsOn k moves
    let account := Account.of actions
    let messages := account.messages fun host => Inquiry.response host registry
    (c.writer ≠ .failed →
      c.sent ++ c.queued = messages ∧ (c.sent ++ c.queued).count (.text Response.greeting) = 1) ∧
    c.sent <+: messages ∧
    c.inFlight = account.underWay.map Prod.fst ∧
    (account.underWay ++ account.ended).Perm (inquiriesOf actions).zipIdx ∧
    account.due.filterMap Due.process? = endingsOf actions ∧
    account.due.filterMap Due.payload? = payloadsOf actions := by
  intro actions account messages
  have hown := runIn_actionsOn hrun hc
  obtain ⟨hcovers, hendings⟩ := Covers.start.run hown
  have hnumbered := Account.numbered_of actions
  rw [Account.Numbered, Account.taken_of] at hnumbered
  refine ⟨fun hw => ?_, hcovers.sent, hcovers.inFlight, hnumbered, hendings,
    Account.payloads_of actions⟩
  have hwhole : c.sent ++ c.queued = messages := hcovers.whole hw
  rw [hwhole]
  exact ⟨rfl, Account.count_greeting account registry⟩

/-- Two clients. The first asks for two detections, of which the second ends first, and pings in
between. -/
def overtaken : List Move :=
  [.connect, .connect, .act 0 (.take (.text ['x'])), .act 0 (.take (.binary [])),
    .act 1 (.take (.binary [])), .act 0 .send, .act 0 (.ping [1]), .act 0 (.finish 1),
    .act 0 (.finish 0)]

/-- The first client is sent its greeting, its pong and both its responses, the second one first. -/
theorem delivered_once_overtaken : ∃ server c,
    runIn (fun host => Inquiry.response host (.ofBackend Dispatch.silent)) []
      (overtaken.map (Dispatch.quiet, ·)) = some server ∧
    server[0]? = some c ∧
    c.sent ++ c.queued = [.text Response.greeting, .pong [1],
      .text (Inquiry.response Dispatch.quiet (.ofBackend Dispatch.silent) (.binary [])),
      .text (Inquiry.response Dispatch.quiet (.ofBackend Dispatch.silent) (.text ['x']))] := by
  refine ⟨_, _, rfl, rfl, ?_⟩
  have hdelivered := @delivered_once (.ofBackend Dispatch.silent)
    (overtaken.map (Dispatch.quiet, ·)) _ 0 _ rfl rfl
  exact (hdelivered.1 nofun).1

end Server

end Polyglot
