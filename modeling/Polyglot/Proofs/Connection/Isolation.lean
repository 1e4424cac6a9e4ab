/-
Connections and requests are isolated. What a connection comes to is what it comes to alone, with all
moves of the others left out. A dispatch that never ends stands in nobody's way: what can happen
without it can happen while it is under way, and what comes of it is the same but for that dispatch.
And a dispatch that fails adds its own response and nothing else.
-/
import Polyglot.Proofs.Connection.Runs
import Polyglot.Proofs.Response.Echo
import Polyglot.Proofs.Response.Inquiries
import Mathlib.Data.List.Forall2

namespace Polyglot

variable {ρ : Type} {respond respond' : ρ → Inquiry → String}

namespace Server

/-! ## One connection alone -/

/-- The moves that belong to the connection of the given number. It is the only one that is left, so
its number becomes 0. Some connections have been made before. -/
def alone (k : Nat) : Nat → List (ρ × Move) → List (ρ × Move)
  | _, [] => []
  | made, (process, .connect) :: moves =>
    if made = k then (process, .connect) :: alone k (made + 1) moves else alone k (made + 1) moves
  | made, (process, .act number a) :: moves =>
    if number = k then (process, .act 0 a) :: alone k made moves else alone k made moves

theorem actionsOn_alone (k made : Nat) (moves : List (ρ × Move)) :
    actionsOn 0 (alone k made moves) = actionsOn k moves := by
  induction moves generalizing made with
  | nil => rfl
  | cons move moves ih =>
    obtain ⟨process, _ | ⟨number, a⟩⟩ := move
    · rw [alone, actionsOn_connect]
      split <;> simp [ih]
    · rw [alone, actionsOn_act]
      split <;> simp [actionsOn_act, ih]

/-- The moves that are left of a first part of a run come first. -/
theorem alone_isPrefix (k made : Nat) (moves moves' : List (ρ × Move)) :
    alone k made moves <+: alone k made (moves ++ moves') := by
  induction moves generalizing made with
  | nil => exact List.nil_prefix
  | cons move moves ih =>
    obtain ⟨process, _ | ⟨number, a⟩⟩ := move
    · rw [List.cons_append, alone, alone]
      split <;> simp [ih]
    · rw [List.cons_append, alone, alone]
      split <;> simp [ih]

/-- Without the others a connection becomes the same. -/
theorem runIn_alone {server server' : Server} {moves : List (ρ × Move)} (k : Nat)
    (hrun : runIn respond server moves = some server') :
    runIn respond server[k]?.toList (alone k server.length moves) = some server'[k]?.toList := by
  induction moves generalizing server with
  | nil =>
    simp only [runIn, Option.some.injEq] at hrun
    rw [hrun, alone, runIn]
  | cons move moves ih =>
    obtain ⟨process, m⟩ := move
    obtain ⟨server₁, hstep, hrun⟩ := runIn_cons.1 hrun
    have hrest := ih hrun
    cases m with
    | connect =>
      simp only [step, Option.some.injEq] at hstep
      subst hstep
      rw [List.length_append, List.length_singleton] at hrest
      rw [alone]
      -- the connection is there from the move on that opens it
      by_cases hk : server.length = k
      · subst hk
        rw [if_pos rfl]
        refine runIn_cons.2 ⟨[.opened], ?_, ?_⟩
        · simp [step]
        · simpa using hrest
      · rw [getElem?_connect hk] at hrest
        rw [if_neg hk]
        exact hrest
    | act number a =>
      obtain ⟨c, c₁, hc, hsteps, rfl⟩ := step_act_eq_some.1 hstep
      rw [List.length_set] at hrest
      rw [alone]
      by_cases hk : number = k
      · subst hk
        have hlt : number < server.length := (List.getElem?_eq_some_iff.1 hc).1
        rw [List.getElem?_set_self hlt] at hrest
        rw [if_pos rfl, hc]
        exact runIn_cons.2 ⟨[c₁], step_act_eq_some.2 ⟨c, c₁, rfl, hsteps, rfl⟩, hrest⟩
      · rw [List.getElem?_set_ne hk] at hrest
        rw [if_neg hk]
        exact hrest

end Server

/-! ## A dispatch that does not end -/

/-- An action as it reads with one more dispatch under way, at the given place. -/
def Action.past (place : Nat) : Action → Action
  | .finish place' => .finish (if place' < place then place' else place' + 1)
  | a => a

/-- The place of that dispatch after the action. -/
def Action.placeAfter (place : Nat) : Action → Nat
  | .finish place' => if place' < place then place - 1 else place
  | _ => place

/-- A move as it reads with one more dispatch under way, at the given place of a connection. -/
def Move.past (k place : Nat) : Move → Move
  | .connect => .connect
  | .act number a => .act number (if number = k then a.past place else a)

def Move.placeAfter (k place : Nat) : Move → Nat
  | .connect => place
  | .act number a => if number = k then a.placeAfter place else place

namespace Connection

def without (place : Nat) (c : Connection) : Connection :=
  { c with inFlight := c.inFlight.eraseIdx place }

/-- `c` is `c₀` with one more dispatch under way, at the given place. -/
def Holds (place : Nat) (inquiry : Inquiry) (c₀ c : Connection) : Prop :=
  c.inFlight[place]? = some inquiry ∧ c.without place = c₀

theorem holds_iff {place : Nat} {inquiry : Inquiry} {c₀ c : Connection} :
    Holds place inquiry c₀ c ↔ ∃ older younger, older.length = place ∧
      c.inFlight = older ++ inquiry :: younger ∧
      { c with inFlight := older ++ younger } = c₀ := by
  constructor
  · rintro ⟨hf, rfl⟩
    obtain ⟨hlt, rfl⟩ := List.getElem?_eq_some_iff.1 hf
    refine ⟨c.inFlight.take place, c.inFlight.drop (place + 1), ?_, ?_, ?_⟩
    · rw [List.length_take]
      omega
    · rw [List.getElem_cons_drop, List.take_append_drop]
    · rw [without, List.eraseIdx_eq_take_drop_succ]
  · rintro ⟨older, younger, rfl, hf, rfl⟩
    refine ⟨?_, ?_⟩
    · simp [hf]
    · rw [without, hf, List.eraseIdx_append_of_length_le le_rfl, Nat.sub_self, List.eraseIdx_zero,
        List.tail_cons]

theorem post_with (c : Connection) (inFlight : List Inquiry) (m : Message) :
    { c with inFlight := inFlight }.post m = { c.post m with inFlight := inFlight } := by
  rw [post_eq, post_eq]

/-- What can happen without the dispatch can happen with it. Only the writer waits with coming to its
end, since the dispatch may still queue a message. -/
theorem Holds.step {respond : Inquiry → String} {place : Nat} {inquiry : Inquiry} {a : Action}
    {c₀ c c₀' : Connection} (h : Holds place inquiry c₀ c) (hne : a ≠ .close)
    (hstep : c₀.Steps respond a c₀') :
    ∃ c', c.Steps respond (a.past place) c' ∧ Holds (a.placeAfter place) inquiry c₀' c' := by
  obtain ⟨older, younger, rfl, hf, rfl⟩ := holds_iff.1 h
  cases hstep with
  | @take new hr =>
    refine ⟨_, .take hr, holds_iff.2 ⟨older, younger ++ [new], rfl, ?_, ?_⟩⟩
    · simp [hf]
    · simp
  | ping hr =>
    refine ⟨_, .ping hr, holds_iff.2 ⟨older, younger, rfl, ?_, ?_⟩⟩
    · rw [post_inFlight, hf]
    · exact (post_with c _ _).symm
  | pong hr => exact ⟨_, .pong hr, h⟩
  | stop hr => exact ⟨_, .stop hr, holds_iff.2 ⟨older, younger, rfl, hf, rfl⟩⟩
  | @finish place' ended hended =>
    dsimp only at hended ⊢
    rw [Action.past, Action.placeAfter]
    -- the dispatch that ends is one of the older ones or one of the younger ones
    by_cases hlt : place' < older.length
    · rw [if_pos hlt, if_pos hlt]
      rw [List.getElem?_append_left hlt] at hended
      have hended' : c.inFlight[place']? = some ended := by
        rw [hf, List.getElem?_append_left hlt, hended]
      refine ⟨_, .finish hended', holds_iff.2 ⟨older.eraseIdx place', younger, ?_, ?_, ?_⟩⟩
      · rw [List.length_eraseIdx, if_pos hlt]
      · rw [post_inFlight, hf, List.eraseIdx_append_of_lt_length hlt]
      · rw [List.eraseIdx_append_of_lt_length hlt]
        exact (post_with { c with inFlight := c.inFlight.eraseIdx place' } _ _).symm
    · rw [if_neg hlt, if_neg hlt]
      have hle : older.length ≤ place' := Nat.le_of_not_lt hlt
      have hsub : place' + 1 - older.length = place' - older.length + 1 := by omega
      rw [List.getElem?_append_right hle] at hended
      have hended' : c.inFlight[place' + 1]? = some ended := by
        rw [hf, List.getElem?_append_right (by omega), hsub, List.getElem?_cons_succ, hended]
      refine ⟨_, .finish hended',
        holds_iff.2 ⟨older, younger.eraseIdx (place' - older.length), rfl, ?_, ?_⟩⟩
      · rw [post_inFlight, hf, List.eraseIdx_append_of_length_le (by omega), hsub,
          List.eraseIdx_cons_succ]
      · rw [List.eraseIdx_append_of_length_le hle]
        exact (post_with { c with inFlight := c.inFlight.eraseIdx (place' + 1) } _ _).symm
  | send hw hq => exact ⟨_, .send hw hq, holds_iff.2 ⟨older, younger, rfl, hf, rfl⟩⟩
  | sendFails hw hq => exact ⟨_, .sendFails hw hq, holds_iff.2 ⟨older, younger, rfl, hf, rfl⟩⟩
  | close => exact absurd rfl hne

end Connection

namespace Server

/-- Moves as they read with one more dispatch under way. -/
def past (k : Nat) : Nat → List (ρ × Move) → List (ρ × Move)
  | _, [] => []
  | place, (process, m) :: moves =>
    (process, m.past k place) :: past k (m.placeAfter k place) moves

theorem step_past {respond : Inquiry → String} {k place : Nat} {inquiry : Inquiry} {m : Move}
    {server server₀' : Server} {c : Connection} (hc : server[k]? = some c)
    (hf : c.inFlight[place]? = some inquiry) (hne : m ≠ .act k .close)
    (hstep : step respond (server.set k (c.without place)) m = some server₀') :
    ∃ server' c', server.step respond (m.past k place) = some server' ∧
      server'[k]? = some c' ∧ c'.inFlight[m.placeAfter k place]? = some inquiry ∧
      server'.set k (c'.without (m.placeAfter k place)) = server₀' := by
  have hlt : k < server.length := (List.getElem?_eq_some_iff.1 hc).1
  cases m with
  | connect =>
    simp only [step, Option.some.injEq] at hstep
    refine ⟨server ++ [.opened], c, rfl, ?_, hf, ?_⟩
    · rw [List.getElem?_append_left hlt, hc]
    · rw [List.set_append_left _ _ hlt, ← hstep]
      rfl
  | act number a =>
    obtain ⟨c₀, c₀', hc₀, hsteps, rfl⟩ := step_act_eq_some.1 hstep
    rw [Move.past, Move.placeAfter]
    by_cases hk : number = k
    · subst hk
      rw [if_pos rfl, if_pos rfl]
      rw [List.getElem?_set_self hlt, Option.some.injEq] at hc₀
      -- the writer is the one part of the connection that takes notice of the dispatch
      have ha : a ≠ .close := fun h => hne (h ▸ rfl)
      obtain ⟨c', hsteps', hf', hwithout⟩ := Connection.Holds.step ⟨hf, hc₀⟩ ha hsteps
      refine ⟨server.set number c', c', step_act_eq_some.2 ⟨c, c', hc, hsteps', rfl⟩,
        List.getElem?_set_self hlt, hf', ?_⟩
      rw [List.set_set, List.set_set, hwithout]
    · rw [if_neg hk, if_neg hk]
      rw [List.getElem?_set_ne (Ne.symm hk)] at hc₀
      refine ⟨server.set number c₀', c, step_act_eq_some.2 ⟨c₀, c₀', hc₀, hsteps, rfl⟩, ?_, hf, ?_⟩
      · rw [List.getElem?_set_ne hk, hc]
      · rw [List.set_comm _ _ hk]

/-- A dispatch that is under way takes nothing from anybody: whatever can happen without it can happen
while it does not end, and leaves the same but for that dispatch. -/
theorem runIn_past {k place : Nat} {inquiry : Inquiry} {server server₀' : Server} {c : Connection}
    {moves : List (ρ × Move)} (hc : server[k]? = some c)
    (hf : c.inFlight[place]? = some inquiry)
    (hne : ∀ process, (process, Move.act k .close) ∉ moves)
    (hrun : runIn respond (server.set k (c.without place)) moves = some server₀') :
    ∃ server' c' place', runIn respond server (past k place moves) = some server' ∧
      server'[k]? = some c' ∧ c'.inFlight[place']? = some inquiry ∧
      server'.set k (c'.without place') = server₀' := by
  induction moves generalizing server c place with
  | nil =>
    simp only [runIn, Option.some.injEq] at hrun
    exact ⟨server, c, place, rfl, hc, hf, hrun⟩
  | cons move moves ih =>
    obtain ⟨process, m⟩ := move
    obtain ⟨server₁, hstep, hrest⟩ := runIn_cons.1 hrun
    have hm : m ≠ .act k .close := by
      rintro rfl
      exact hne process List.mem_cons_self
    obtain ⟨server₂, c₂, hstep₂, hc₂, hf₂, rfl⟩ := step_past hc hf hm hstep
    have hne₂ : ∀ process, (process, Move.act k .close) ∉ moves :=
      fun process h => hne process (List.mem_cons_of_mem _ h)
    obtain ⟨server', c', place', hpast, h⟩ := ih hc₂ hf₂ hne₂ hrest
    exact ⟨server', c', place', runIn_cons.2 ⟨server₂, hstep₂, hpast⟩, h⟩

end Server

/-! ## Dispatches that come to something else -/

/-- The same message, or what a dispatch comes to in one case and in another. -/
inductive Message.Alike (respond respond' : ρ → Inquiry → String) : Message → Message → Prop
  | same (m : Message) : Alike respond respond' m m
  | response (process : ρ) (inquiry : Inquiry) :
      Alike respond respond' (.text (respond process inquiry)) (.text (respond' process inquiry))

namespace Connection

/-- The same connection but for what its dispatches have come to. -/
structure Alike (respond respond' : ρ → Inquiry → String) (c c' : Connection) : Prop where
  reading : c.reading = c'.reading
  writer : c.writer = c'.writer
  inFlight : c.inFlight = c'.inFlight
  queued : List.Forall₂ (Message.Alike respond respond') c.queued c'.queued
  sent : List.Forall₂ (Message.Alike respond respond') c.sent c'.sent

variable {c c' c₁ : Connection}

theorem alike_opened : Alike respond respond' .opened .opened :=
  ⟨rfl, rfl, rfl, .cons (.same _) .nil, .nil⟩

theorem Alike.post (h : Alike respond respond' c c') {m m' : Message}
    (hm : Message.Alike respond respond' m m') :
    Alike respond respond' (c.post m) (c'.post m') := by
  refine ⟨?_, ?_, ?_, ?_, ?_⟩
  · simpa using h.reading
  · simpa using h.writer
  · simpa using h.inFlight
  · rw [post_queued, post_queued, h.writer]
    split
    · exact List.rel_append h.queued (.cons hm .nil)
    · exact h.queued
  · simpa using h.sent

theorem Alike.step {process : ρ} {a : Action} (h : Alike respond respond' c c')
    (hstep : c.Steps (respond process) a c₁) :
    ∃ c₁', c'.Steps (respond' process) a c₁' ∧ Alike respond respond' c₁ c₁' := by
  cases hstep with
  | @take inquiry hr =>
    refine ⟨_, .take (h.reading ▸ hr), h.reading, h.writer, ?_, h.queued, h.sent⟩
    exact congrArg (· ++ [inquiry]) h.inFlight
  | ping hr => exact ⟨_, .ping (h.reading ▸ hr), h.post (.same _)⟩
  | pong hr => exact ⟨_, .pong (h.reading ▸ hr), h⟩
  | stop hr => exact ⟨_, .stop (h.reading ▸ hr), rfl, h.writer, h.inFlight, h.queued, h.sent⟩
  | @finish place inquiry hf =>
    -- the responses may differ, but both sides post one
    have hended : Alike respond respond' { c with inFlight := c.inFlight.eraseIdx place }
        { c' with inFlight := c'.inFlight.eraseIdx place } :=
      ⟨h.reading, h.writer, congrArg (·.eraseIdx place) h.inFlight, h.queued, h.sent⟩
    exact ⟨_, .finish (h.inFlight ▸ hf), hended.post (.response process inquiry)⟩
  | @send m rest hw hq =>
    have hqueued := h.queued
    rw [hq] at hqueued
    obtain ⟨m', rest', hm, hrest, hq'⟩ := List.forall₂_cons_left_iff.1 hqueued
    exact ⟨_, .send (h.writer ▸ hw) hq', h.reading, h.writer, h.inFlight, hrest,
      List.rel_append h.sent (.cons hm .nil)⟩
  | sendFails hw hq =>
    -- alike queues have the same length
    have hq' : c'.queued ≠ [] := by
      intro hnil
      have hqueued := h.queued
      rw [hnil, List.forall₂_nil_right_iff] at hqueued
      exact hq hqueued
    exact ⟨_, .sendFails (h.writer ▸ hw) hq', h.reading, rfl, h.inFlight, .nil, h.sent⟩
  | close hw hr hf hq =>
    have hqueued := h.queued
    rw [hq, List.forall₂_nil_left_iff] at hqueued
    exact ⟨_, .close (h.writer ▸ hw) (h.reading ▸ hr) (h.inFlight ▸ hf) hqueued, h.reading, rfl,
      h.inFlight, h.queued, h.sent⟩

end Connection

namespace Server

theorem forall₂_set {R : Connection → Connection → Prop} {server server' : Server}
    {c c' : Connection} (h : List.Forall₂ R server server') (hc : R c c') (k : Nat) :
    List.Forall₂ R (server.set k c) (server'.set k c') := by
  induction h generalizing k with
  | nil => exact .nil
  | cons hfirst hrest ih =>
    cases k with
    | zero => exact .cons hc hrest
    | succ k => exact .cons hfirst (ih k)

theorem step_alike {server server' server₁ : Server} {process : ρ} {m : Move}
    (h : List.Forall₂ (Connection.Alike respond respond') server server')
    (hstep : server.step (respond process) m = some server₁) :
    ∃ server₁', server'.step (respond' process) m = some server₁' ∧
      List.Forall₂ (Connection.Alike respond respond') server₁ server₁' := by
  cases m with
  | connect =>
    simp only [step, Option.some.injEq] at hstep
    subst hstep
    exact ⟨_, rfl, List.rel_append h (.cons Connection.alike_opened .nil)⟩
  | act number a =>
    obtain ⟨c, c₁, hc, hsteps, rfl⟩ := step_act_eq_some.1 hstep
    obtain ⟨hlt, rfl⟩ := List.getElem?_eq_some_iff.1 hc
    have hlt' : number < server'.length := h.length_eq ▸ hlt
    obtain ⟨c₁', hsteps', halike⟩ := (h.get hlt hlt').step hsteps
    refine ⟨server'.set number c₁', ?_, forall₂_set h halike number⟩
    exact step_act_eq_some.2 ⟨_, c₁', List.getElem?_eq_getElem hlt', hsteps', rfl⟩

/-- The same moves are possible whatever dispatches come to, and nothing but their own responses
depends on it. -/
theorem runIn_alike {server server' server₁ : Server} {moves : List (ρ × Move)}
    (h : List.Forall₂ (Connection.Alike respond respond') server server')
    (hrun : runIn respond server moves = some server₁) :
    ∃ server₁', runIn respond' server' moves = some server₁' ∧
      List.Forall₂ (Connection.Alike respond respond') server₁ server₁' := by
  induction moves generalizing server server' with
  | nil =>
    simp only [runIn, Option.some.injEq] at hrun
    exact ⟨server', rfl, hrun ▸ h⟩
  | cons move moves ih =>
    obtain ⟨process, m⟩ := move
    obtain ⟨server₂, hstep, hrest⟩ := runIn_cons.1 hrun
    obtain ⟨server₂', hstep', halike⟩ := step_alike h hstep
    obtain ⟨server₁', hrest', h'⟩ := ih halike hrest
    exact ⟨server₁', runIn_cons.2 ⟨server₂', hstep', hrest'⟩, h'⟩

/-! ## A dispatch that fails -/

/-- A dispatch that fails adds its own response, on its own connection, and nothing else. -/
theorem step_finish_error {host : Host} {registry : Registry} {server : Server} {k place : Nat}
    {c : Connection} {inquiry : Inquiry} {f : Failure} (hc : server[k]? = some c)
    (hf : c.inFlight[place]? = some inquiry) (hfails : inquiry.result host registry = .error f) :
    server.step (Inquiry.response host registry) (.act k (.finish place)) =
      some (server.set k { c with
        inFlight := c.inFlight.eraseIdx place
        queued := if c.writer = .running then c.queued ++ [.text (Response.encodeFailure f)]
          else c.queued }) := by
  refine step_act_eq_some.2 ⟨c, _, hc, .finish hf, ?_⟩
  rw [Connection.post_eq, Inquiry.response_eq, hfails]

/-- At every moment a connection is what it is alone, with all moves of the others left out. Whatever
can happen without a dispatch can happen while it is under way, also if it never ends, and leaves the
same but for that dispatch; only its own writer waits with coming to its end, since a message may
still come. A dispatch that is not answered with predictions adds a response with the words of its
failure and nothing else. And the same moves are possible whatever the dispatches come to: only their
own responses depend on it. -/
theorem isolated (registry : Registry) :
    let respond := fun host => Inquiry.response host registry
    (∀ (before later : List (Host × Move)) (server : Server) (k : Nat),
      runIn respond [] (before ++ later) = some server →
      ∃ server₁, runIn respond [] before = some server₁ ∧
        runIn respond [] (alone k 0 before) = some server₁[k]?.toList ∧
        actionsOn 0 (alone k 0 before) = actionsOn k before ∧
        alone k 0 before <+: alone k 0 (before ++ later)) ∧
    (∀ (server server₀' : Server) (k place : Nat) (c : Connection) (inquiry : Inquiry)
      (moves : List (Host × Move)), server[k]? = some c → c.inFlight[place]? = some inquiry →
      (∀ host, (host, Move.act k .close) ∉ moves) →
      runIn respond (server.set k (c.without place)) moves = some server₀' →
      ∃ server' c' place', runIn respond server (past k place moves) = some server' ∧
        server'[k]? = some c' ∧ c'.inFlight[place']? = some inquiry ∧
        server'.set k (c'.without place') = server₀') ∧
    (∀ (host : Host) (server : Server) (k place : Nat) (c : Connection) (inquiry : Inquiry),
      server[k]? = some c → c.inFlight[place]? = some inquiry →
      (∀ raw request predictions, inquiry.text? = some raw →
        (Request.decode raw).1 = .ok request →
        Dispatch.outcome host registry request ≠ .predictions predictions) →
      ∃ f, inquiry.result host registry = .error f ∧
        Json.parse (Response.encodeFailure f).toList =
          .ok (.object [(Request.errorField, .string f.message)]) ∧
        server.step (respond host) (.act k (.finish place)) =
          some (server.set k { c with
            inFlight := c.inFlight.eraseIdx place
            queued := if c.writer = .running then c.queued ++ [.text (Response.encodeFailure f)]
              else c.queued })) ∧
    ∀ (registry' : Registry) (moves : List (Host × Move)) (server : Server),
      let respond' := fun host => Inquiry.response host registry'
      runIn respond [] moves = some server →
      ∃ server', runIn respond' [] moves = some server' ∧
        List.Forall₂ (Connection.Alike respond respond') server server' := by
  intro respond
  refine ⟨?_, ?_, ?_, ?_⟩
  · intro before later server k hrun
    obtain ⟨server₁, hbefore, -⟩ := runIn_append.1 hrun
    exact ⟨server₁, hbefore, runIn_alone k hbefore, actionsOn_alone k 0 before,
      alone_isPrefix k 0 before later⟩
  · intro server server₀' k place c inquiry moves hc hf hne hrun
    exact runIn_past hc hf hne hrun
  · intro host server k place c inquiry hc hf hnone
    cases hresult : inquiry.result host registry with
    | error f =>
      exact ⟨f, rfl, Response.parse_encodeFailure f, step_finish_error hc hf hresult⟩
    | ok answer =>
      obtain ⟨predictions, passthrough⟩ := answer
      obtain ⟨raw, request, htext, hdecode, houtcome, -⟩ :=
        (Inquiry.result_eq_ok_iff host registry).1 hresult
      exact absurd houtcome (hnone raw request predictions htext hdecode)
  · intro registry' moves server respond' hrun
    exact runIn_alike .nil hrun

/-- Two clients that wait. The first one has asked for two detections, the second time with a frame
that holds no text. -/
def waiting : Server :=
  [⟨true, .running, [.text ['x'], .binary [0xff]], [], []⟩,
    ⟨true, .running, [.binary []], [], []⟩]

/-- What can happen without the first detection. -/
def others : List Move := [.act 0 (.finish 0), .act 1 (.finish 0), .act 1 .send, .act 0 .send]

/-- All of it can happen while that detection does not end; and the frame that holds no text adds the
words of its failure. -/
theorem isolated_waiting :
    (∃ (server' : Server) (c' : Connection) (place' : Nat),
      runIn (fun host => Inquiry.response host (.ofBackend Dispatch.silent)) waiting
        (past 0 0 (others.map (Dispatch.quiet, ·))) = some server' ∧
      server'[0]? = some c' ∧ c'.inFlight[place']? = some (.text ['x'])) ∧
    ∃ f, waiting.step (Inquiry.response Dispatch.quiet (.ofBackend Dispatch.silent))
        (.act 0 (.finish 1)) =
      some (waiting.set 0
        ⟨true, .running, [.text ['x']], [.text (Response.encodeFailure f)], []⟩) := by
  obtain ⟨-, hpast, hfails, -⟩ := isolated (.ofBackend Dispatch.silent)
  constructor
  · obtain ⟨server', c', place', hrun, hc, hf, -⟩ := hpast waiting _ 0 0 _ _
      (others.map (Dispatch.quiet, ·)) rfl rfl (by simp [others]) rfl
    exact ⟨server', c', place', hrun, hc, hf⟩
  · have htext : (Inquiry.binary [0xff]).text? = none := rfl
    obtain ⟨f, -, -, hstep⟩ := hfails Dispatch.quiet waiting 0 1 _ _ rfl rfl (by simp [htext])
    exact ⟨f, hstep⟩

end Server

end Polyglot
