/-
Runs of connections and servers. `Steps` says once what each action needs and does. In a run every
move is made in a process of its own, since what a dispatch comes to depends on the process that it
ends in. A connection of a server goes its own way: what it has become is the run of its own actions,
whatever happens in between on the others.
-/
import Polyglot.Connection

namespace Polyglot

variable {ρ : Type} {respond : ρ → Inquiry → String}

namespace Connection

/-! ## Steps -/

theorem post_eq (c : Connection) (m : Message) :
    c.post m = { c with queued := if c.writer = .running then c.queued ++ [m] else c.queued } := by
  obtain ⟨reading, writer, inFlight, queued, sent⟩ := c
  cases writer <;> rfl

@[simp]
theorem post_reading (c : Connection) (m : Message) : (c.post m).reading = c.reading := by
  rw [post_eq]

@[simp]
theorem post_writer (c : Connection) (m : Message) : (c.post m).writer = c.writer := by
  rw [post_eq]

@[simp]
theorem post_inFlight (c : Connection) (m : Message) : (c.post m).inFlight = c.inFlight := by
  rw [post_eq]

@[simp]
theorem post_sent (c : Connection) (m : Message) : (c.post m).sent = c.sent := by
  rw [post_eq]

theorem post_queued (c : Connection) (m : Message) :
    (c.post m).queued = if c.writer = .running then c.queued ++ [m] else c.queued := by
  rw [post_eq]

/-- What each action needs and what it does. -/
inductive Steps (respond : Inquiry → String) (c : Connection) : Action → Connection → Prop
  | take {inquiry : Inquiry} (hr : c.reading = true) :
      Steps respond c (.take inquiry) { c with inFlight := c.inFlight ++ [inquiry] }
  | ping {payload : List UInt8} (hr : c.reading = true) :
      Steps respond c (.ping payload) (c.post (.pong payload))
  | pong (hr : c.reading = true) : Steps respond c .pong c
  | stop (hr : c.reading = true) : Steps respond c .stop { c with reading := false }
  | finish {place : Nat} {inquiry : Inquiry} (hf : c.inFlight[place]? = some inquiry) :
      Steps respond c (.finish place)
        ({ c with inFlight := c.inFlight.eraseIdx place }.post (.text (respond inquiry)))
  | send {m : Message} {rest : List Message} (hw : c.writer = .running)
      (hq : c.queued = m :: rest) :
      Steps respond c .send { c with queued := rest, sent := c.sent ++ [m] }
  | sendFails (hw : c.writer = .running) (hq : c.queued ≠ []) :
      Steps respond c .sendFails { c with writer := .failed, queued := [] }
  | close (hw : c.writer = .running) (hr : c.reading = false) (hf : c.inFlight = [])
      (hq : c.queued = []) : Steps respond c .close { c with writer := .done }

theorem steps_of_step {respond : Inquiry → String} {c c' : Connection} {a : Action}
    (h : c.step respond a = some c') : Steps respond c a c' := by
  cases a with
  | take | ping | pong | stop =>
    simp only [step, Option.ite_none_right_eq_some, Option.some.injEq] at h
    obtain ⟨hr, rfl⟩ := h
    constructor
    exact hr
  | finish place =>
    simp only [step] at h
    split at h
    · cases h
    · rename_i inquiry hf
      cases h
      exact .finish hf
  | send =>
    simp only [step] at h
    split at h
    · rename_i m rest hw hq
      cases h
      exact .send hw hq
    · cases h
  | sendFails =>
    simp only [step] at h
    split at h
    · rename_i m rest hw hq
      cases h
      exact .sendFails hw (hq ▸ List.cons_ne_nil _ _)
    · cases h
  | close =>
    simp only [step, Option.ite_none_right_eq_some, Option.some.injEq] at h
    obtain ⟨⟨hw, hr, hf, hq⟩, rfl⟩ := h
    exact .close hw hr hf hq

theorem Steps.step_eq {respond : Inquiry → String} {c c' : Connection} {a : Action}
    (h : Steps respond c a c') : c.step respond a = some c' := by
  cases h with
  | take hr | ping hr | pong hr | stop hr => simp [step, hr]
  | finish hf => simp [step, hf]
  | send hw hq => simp [step, hw, hq]
  | sendFails hw hq =>
    obtain ⟨m, rest, hq⟩ := List.exists_cons_of_ne_nil hq
    simp [step, hw, hq]
  | close hw hr hf hq => simp [step, hw, hr, hf, hq]

/-! ## Runs of a connection -/

/-- The connection after several actions, each in a process of its own. -/
def runIn (respond : ρ → Inquiry → String) : Connection → List (ρ × Action) → Option Connection
  | c, [] => some c
  | c, (process, a) :: actions =>
    match c.step (respond process) a with
    | none => none
    | some c => runIn respond c actions

theorem runIn_cons {c c' : Connection} {process : ρ} {a : Action} {actions : List (ρ × Action)} :
    runIn respond c ((process, a) :: actions) = some c' ↔
      ∃ c₁, Steps (respond process) c a c₁ ∧ runIn respond c₁ actions = some c' := by
  rw [runIn]
  constructor
  · intro h
    split at h
    · cases h
    · rename_i c₁ hstep
      exact ⟨c₁, steps_of_step hstep, h⟩
  · rintro ⟨c₁, hsteps, h⟩
    rw [hsteps.step_eq]
    exact h

end Connection

/-! ## Runs of a server -/

namespace Server

theorem step_act_eq_some {respond : Inquiry → String} {server server' : Server} {k : Nat}
    {a : Action} : server.step respond (.act k a) = some server' ↔
      ∃ c c', server[k]? = some c ∧ c.Steps respond a c' ∧ server' = server.set k c' := by
  rw [step]
  constructor
  · intro h
    split at h
    · cases h
    · rename_i c hc
      obtain ⟨c', hstep, rfl⟩ := Option.map_eq_some_iff.1 h
      exact ⟨c, c', hc, Connection.steps_of_step hstep, rfl⟩
  · rintro ⟨c, c', hc, hsteps, rfl⟩
    rw [hc]
    exact Option.map_eq_some_iff.2 ⟨c', hsteps.step_eq, rfl⟩

/-- The server after several moves, each in a process of its own. -/
def runIn (respond : ρ → Inquiry → String) : Server → List (ρ × Move) → Option Server
  | server, [] => some server
  | server, (process, m) :: moves =>
    match server.step (respond process) m with
    | none => none
    | some server => runIn respond server moves

theorem runIn_cons {server server' : Server} {process : ρ} {m : Move}
    {moves : List (ρ × Move)} :
    runIn respond server ((process, m) :: moves) = some server' ↔
      ∃ server₁, server.step (respond process) m = some server₁ ∧
        runIn respond server₁ moves = some server' := by
  rw [runIn]
  cases server.step (respond process) m <;> simp

theorem runIn_append {server server' : Server} {moves moves' : List (ρ × Move)} :
    runIn respond server (moves ++ moves') = some server' ↔
      ∃ server₁, runIn respond server moves = some server₁ ∧
        runIn respond server₁ moves' = some server' := by
  induction moves generalizing server with
  | nil => simp [runIn]
  | cons move moves ih =>
    obtain ⟨process, m⟩ := move
    rw [List.cons_append, runIn_cons]
    constructor
    · rintro ⟨server₁, hstep, h⟩
      obtain ⟨server₂, hrun, h⟩ := ih.1 h
      exact ⟨server₂, runIn_cons.2 ⟨server₁, hstep, hrun⟩, h⟩
    · rintro ⟨server₂, hrun, h⟩
      obtain ⟨server₁, hstep, hrun⟩ := runIn_cons.1 hrun
      exact ⟨server₁, hstep, ih.2 ⟨server₂, hrun, h⟩⟩

/-- What happens on the connection of the given number. -/
def actionsOn (k : Nat) (moves : List (ρ × Move)) : List (ρ × Action) :=
  moves.filterMap fun
    | (_, .connect) => none
    | (process, .act number a) => if number = k then some (process, a) else none

@[simp]
theorem actionsOn_connect (k : Nat) (process : ρ) (moves : List (ρ × Move)) :
    actionsOn k ((process, .connect) :: moves) = actionsOn k moves := rfl

theorem actionsOn_act (k number : Nat) (process : ρ) (a : Action) (moves : List (ρ × Move)) :
    actionsOn k ((process, .act number a) :: moves) =
      if number = k then (process, a) :: actionsOn k moves else actionsOn k moves := by
  unfold actionsOn
  by_cases hk : number = k <;> simp [hk]

theorem getElem?_connect {server : Server} {k : Nat} (hk : server.length ≠ k) :
    (server ++ [Connection.opened])[k]? = server[k]? := by
  rw [List.getElem?_append]
  split
  · rfl
  · rw [List.getElem?_eq_none (by rw [List.length_singleton]; omega),
      List.getElem?_eq_none (by omega)]

theorem getD_connect (server : Server) (k : Nat) :
    ((server ++ [Connection.opened])[k]?).getD .opened = (server[k]?).getD .opened := by
  by_cases hk : server.length = k
  · subst hk
    simp
  · rw [getElem?_connect hk]

/-- A connection has become what its own actions make of it. -/
theorem runIn_actionsOn {server server' : Server} {moves : List (ρ × Move)} {k : Nat}
    {c : Connection} (hrun : runIn respond server moves = some server')
    (hc : server'[k]? = some c) :
    Connection.runIn respond ((server[k]?).getD .opened) (actionsOn k moves) = some c := by
  induction moves generalizing server with
  | nil =>
    simp only [runIn, Option.some.injEq] at hrun
    rw [hrun, hc]
    rfl
  | cons move moves ih =>
    obtain ⟨process, m⟩ := move
    obtain ⟨server₁, hstep, hrun⟩ := runIn_cons.1 hrun
    have hrest := ih hrun
    cases m with
    | connect =>
      simp only [step, Option.some.injEq] at hstep
      rw [← hstep, getD_connect] at hrest
      exact hrest
    | act number a =>
      obtain ⟨c₀, c₁, hc₀, hsteps, rfl⟩ := step_act_eq_some.1 hstep
      rw [List.getElem?_set] at hrest
      -- an act on another connection leaves this one alone
      by_cases hk : number = k
      · subst hk
        have hlt : number < server.length := (List.getElem?_eq_some_iff.1 hc₀).1
        rw [if_pos rfl, if_pos hlt, Option.getD_some] at hrest
        rw [hc₀, Option.getD_some, actionsOn_act, if_pos rfl]
        exact Connection.runIn_cons.2 ⟨c₁, hsteps, hrest⟩
      · rw [if_neg hk] at hrest
        rw [actionsOn_act, if_neg hk]
        exact hrest

end Server

end Polyglot
