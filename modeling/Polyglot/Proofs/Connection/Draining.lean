/-
Connections drain. Once the reader has stopped no dispatch is started any more, and only so much can
still happen: every action uses up a dispatch that is under way, a message that is queued or the
writer itself. Those dispatches hold senders, so the channel does not end before them, and the writer
comes to its end with everything sent, or at the first message that cannot be sent. A connection on
which nothing can happen any more has therefore sent every response but for those from the first
failed send on.
-/
import Polyglot.Proofs.Connection.Channel

namespace Polyglot

variable {ρ : Type} {respond : ρ → Inquiry → String}

namespace Connection

variable {c c' : Connection} {actions : List (ρ × Action)}

theorem runIn_append {actions' : List (ρ × Action)} :
    c.runIn respond (actions ++ actions') = some c' ↔
      ∃ c₁, c.runIn respond actions = some c₁ ∧ c₁.runIn respond actions' = some c' := by
  induction actions generalizing c with
  | nil => simp [runIn]
  | cons occurrence actions ih =>
    obtain ⟨process, a⟩ := occurrence
    rw [List.cons_append, runIn_cons]
    constructor
    · rintro ⟨c₁, hsteps, h⟩
      obtain ⟨c₂, hrun, h⟩ := ih.1 h
      exact ⟨c₂, runIn_cons.2 ⟨c₁, hsteps, hrun⟩, h⟩
    · rintro ⟨c₂, hrun, h⟩
      obtain ⟨c₁, hsteps, hrun⟩ := runIn_cons.1 hrun
      exact ⟨c₁, hsteps, ih.2 ⟨c₂, hrun, h⟩⟩

theorem runIn_concat {process : ρ} {a : Action} :
    c.runIn respond (actions ++ [(process, a)]) = some c' ↔
      ∃ c₁, c.runIn respond actions = some c₁ ∧ c₁.Steps (respond process) a c' := by
  rw [runIn_append]
  refine exists_congr fun c₁ => and_congr_right fun _ => ?_
  rw [runIn_cons]
  simp [runIn]

/-! ## After the reader has stopped -/

theorem Steps.reading_eq {respond : Inquiry → String} {a : Action} (h : c.Steps respond a c') :
    c'.reading = if a = .stop then false else c.reading := by
  cases h <;> simp

theorem reading_eq_false_iff (hrun : c.runIn respond actions = some c') :
    c'.reading = false ↔ c.reading = false ∨ ∃ process, (process, .stop) ∈ actions := by
  induction actions generalizing c with
  | nil =>
    simp only [runIn, Option.some.injEq] at hrun
    simp [hrun]
  | cons occurrence actions ih =>
    obtain ⟨process, a⟩ := occurrence
    obtain ⟨c₁, hsteps, hrun⟩ := runIn_cons.1 hrun
    rw [ih hrun, hsteps.reading_eq]
    by_cases ha : a = .stop
    · subst ha
      simp
    · simp [ha, Ne.symm ha]

/-- How much can still happen on a connection whose reader has stopped. -/
def remaining (c : Connection) : Nat :=
  2 * c.inFlight.length + c.queued.length + if c.writer = .running then 1 else 0

/-- Without the reader every action leaves less to happen. -/
theorem Steps.remaining_lt {respond : Inquiry → String} {a : Action}
    (h : c.Steps respond a c') (hr : c.reading = false) :
    c'.remaining < c.remaining := by
  cases h with
  | take hr' | ping hr' | pong hr' | stop hr' => simp [hr] at hr'
  | @finish place inquiry hf =>
    -- an ended dispatch counts for two, and leaves one message at most
    obtain ⟨hlt, -⟩ := List.getElem?_eq_some_iff.1 hf
    have herase := List.length_eraseIdx_add_one hlt
    rw [remaining, remaining, post_inFlight, post_writer, post_queued]
    dsimp only
    split
    · rw [List.length_append, List.length_singleton]
      omega
    · omega
  | send hw hq => simp [remaining, hq]
  | sendFails hw hq =>
    rw [remaining, remaining, if_pos hw, if_neg nofun]
    dsimp only [List.length_nil]
    omega
  | close hw => simp [remaining, hw]

theorem runIn_remaining (hrun : c.runIn respond actions = some c') (hr : c.reading = false) :
    actions.length + c'.remaining ≤ c.remaining ∧ inquiriesOf actions = [] := by
  induction actions generalizing c with
  | nil =>
    simp only [runIn, Option.some.injEq] at hrun
    simp [hrun, inquiriesOf]
  | cons occurrence actions ih =>
    obtain ⟨process, a⟩ := occurrence
    obtain ⟨c₁, hsteps, hrun⟩ := runIn_cons.1 hrun
    have hr₁ : c₁.reading = false := by
      rw [hsteps.reading_eq, hr, ite_self]
    have hlt := hsteps.remaining_lt hr
    obtain ⟨hle, hnone⟩ := ih hrun hr₁
    refine ⟨?_, ?_⟩
    · rw [List.length_cons]
      omega
    · cases hsteps with
      | take hr' => simp [hr] at hr'
      | _ => exact hnone

/-- Nothing can happen on a connection just if its reader and its writer have stopped and no dispatch
is under way. -/
theorem step_eq_none_iff {respond : Inquiry → String} :
    (∀ a, c.step respond a = none) ↔
      c.reading = false ∧ c.inFlight = [] ∧ c.writer ≠ .running := by
  constructor
  · intro h
    have hr : c.reading = false := by simpa [step] using h .stop
    have hf : c.inFlight = [] := by
      rw [List.eq_nil_iff_forall_not_mem]
      intro inquiry hmem
      obtain ⟨place, hplace⟩ := List.getElem?_of_mem hmem
      have hfinish := h (.finish place)
      simp [step, hplace] at hfinish
    -- a writer that runs has something to send, or comes to its end
    refine ⟨hr, hf, fun hw => ?_⟩
    cases hq : c.queued with
    | nil =>
      have hclose := h .close
      simp [step, hw, hr, hf, hq] at hclose
    | cons m rest =>
      have hsend := h .send
      simp [step, hw, hq] at hsend
  · rintro ⟨hr, hf, hw⟩ a
    cases hstep : c.step respond a with
    | none => rfl
    | some c' =>
      cases steps_of_step hstep with
      | take hr' | ping hr' | pong hr' | stop hr' => simp [hr] at hr'
      | finish hf' => simp [hf] at hf'
      | send hw' | sendFails hw' | close hw' => exact absurd hw' hw

theorem Steps.queued_eq_nil {respond : Inquiry → String} {a : Action} (h : c.Steps respond a c')
    (hidle : c.writer ≠ .running → c.queued = []) (hw : c'.writer ≠ .running) :
    c'.queued = [] := by
  cases h with
  | take | pong | stop => exact hidle hw
  | ping | finish =>
    rw [post_writer] at hw
    rw [post_queued, if_neg hw]
    exact hidle hw
  | send hw' => exact absurd hw' hw
  | sendFails => rfl
  | close _ _ _ hq => exact hq

/-- A writer that has stopped leaves nothing behind that it might still send. -/
theorem queued_eq_nil (hrun : opened.runIn respond actions = some c) (hw : c.writer ≠ .running) :
    c.queued = [] := by
  induction actions using List.reverseRecOn generalizing c with
  | nil =>
    simp only [runIn, Option.some.injEq] at hrun
    subst hrun
    exact absurd rfl hw
  | append_singleton actions occurrence ih =>
    obtain ⟨process, a⟩ := occurrence
    obtain ⟨c₁, hbefore, hsteps⟩ := runIn_concat.1 hrun
    exact hsteps.queued_eq_nil (ih hbefore) hw

/-! ## Failed sends -/

/-- A writer that has failed has just done so, or had before and sends nothing. -/
theorem Steps.of_failed {respond : Inquiry → String} {a : Action} (h : c.Steps respond a c')
    (hw : c'.writer = .failed) :
    (a = .sendFails ∧ c.writer = .running ∧ c.queued ≠ [] ∧ c'.sent = c.sent) ∨
      (c.writer = .failed ∧ c'.sent = c.sent) := by
  cases h with
  | take | pong | stop => exact .inr ⟨hw, rfl⟩
  | ping | finish =>
    rw [post_writer] at hw
    exact .inr ⟨hw, post_sent ..⟩
  | sendFails hw' hq => exact .inl ⟨rfl, hw', hq, rfl⟩
  | send hw' => simp [hw'] at hw
  | close => cases hw

end Connection

namespace Account

theorem due_note_isPrefix (account : Account ρ) (occurrence : ρ × Action) :
    account.due <+: (account.note occurrence).due := by
  obtain ⟨process, a⟩ := occurrence
  cases a with
  | ping payload => exact List.prefix_append _ _
  | finish place =>
    rw [note]
    split
    · exact List.prefix_rfl
    · exact List.prefix_append _ _
  | _ => exact List.prefix_rfl

/-- What has come to be due stays so, in its place. -/
theorem messages_isPrefix (respond : ρ → Inquiry → String) (actions later : List (ρ × Action)) :
    (of actions).messages respond <+: (of (actions ++ later)).messages respond := by
  induction later using List.reverseRecOn with
  | nil => simp
  | append_singleton later occurrence ih =>
    rw [← List.append_assoc, of_concat]
    have hdue := (due_note_isPrefix (of (actions ++ later)) occurrence).map (Due.message respond)
    exact ih.trans ((List.prefix_cons_inj _).2 hdue)

end Account

/-- A message up to the given place among those due could not be sent: the writer failed on it. -/
def Lost (respond : ρ → Inquiry → String) (actions : List (ρ × Action)) (place : Nat) : Prop :=
  ∃ before process later c m, actions = before ++ (process, .sendFails) :: later ∧
    Connection.opened.runIn respond before = some c ∧ c.writer = .running ∧
    c.queued.head? = some m ∧ c.sent.length ≤ place ∧
    ((Account.of actions).messages respond)[c.sent.length]? = some m

theorem Lost.mono {actions : List (ρ × Action)} {place place' : Nat}
    (h : Lost respond actions place) (hle : place ≤ place') : Lost respond actions place' := by
  obtain ⟨before, process, later, c, m, hactions, hbefore, hw, hhead, hsent, hm⟩ := h
  exact ⟨before, process, later, c, m, hactions, hbefore, hw, hhead, hsent.trans hle, hm⟩

namespace Connection

variable {c : Connection} {actions : List (ρ × Action)}

theorem covers_of_runIn (hrun : opened.runIn respond actions = some c) :
    Covers respond (Account.of actions) c :=
  (Covers.start.run hrun).1

/-- The writer failed on the first message that has not been sent. -/
theorem lost_of_failed (hrun : opened.runIn respond actions = some c) (hw : c.writer = .failed) :
    Lost respond actions c.sent.length := by
  -- all that matters is the moment of the failed send; later ones change nothing that was sent
  suffices h : ∃ before process later c₁, actions = before ++ (process, .sendFails) :: later ∧
      opened.runIn respond before = some c₁ ∧ c₁.writer = .running ∧ c₁.queued ≠ [] ∧
      c₁.sent = c.sent by
    obtain ⟨before, process, later, c₁, rfl, hbefore, hw₁, hq, hsent⟩ := h
    obtain ⟨m, rest, hq⟩ := List.exists_cons_of_ne_nil hq
    have hcovers := covers_of_runIn hbefore
    have hwhole := hcovers.whole (by simp [hw₁])
    have hm : ((Account.of before).messages respond)[c₁.sent.length]? = some m := by
      rw [← hwhole, hq]
      simp
    -- what is due then is still due, at the same place, in the end
    obtain ⟨more, hmore⟩ :=
      Account.messages_isPrefix respond before ((process, .sendFails) :: later)
    refine ⟨before, process, later, c₁, m, rfl, hbefore, hw₁, ?_, hsent ▸ le_rfl, ?_⟩
    · rw [hq, List.head?_cons]
    · rw [← hmore, List.getElem?_append_left (List.getElem?_eq_some_iff.1 hm).1, hm]
  induction actions using List.reverseRecOn generalizing c with
  | nil =>
    simp only [runIn, Option.some.injEq] at hrun
    subst hrun
    cases hw
  | append_singleton actions occurrence ih =>
    obtain ⟨process, a⟩ := occurrence
    obtain ⟨c₁, hbefore, hsteps⟩ := runIn_concat.1 hrun
    rcases hsteps.of_failed hw with ⟨rfl, hw₁, hq, hsent⟩ | ⟨hw₁, hsent⟩
    · exact ⟨actions, process, [], c₁, rfl, hbefore, hw₁, hq, hsent.symm⟩
    · obtain ⟨before, process', later, c₂, rfl, hrest⟩ := ih hbefore hw₁
      rw [← hsent] at hrest
      exact ⟨before, process', later ++ [(process, a)], c₂, by simp, hrest⟩

/-- Every message that is due has been sent or is queued, or was lost with a failed send. -/
theorem sent_or_queued_or_lost (hrun : opened.runIn respond actions = some c) {place : Nat}
    {m : Message} (hm : ((Account.of actions).messages respond)[place]? = some m) :
    c.sent[place]? = some m ∨
      (c.writer ≠ .failed ∧ c.queued[place - c.sent.length]? = some m) ∨
      Lost respond actions place := by
  have hcovers := covers_of_runIn hrun
  obtain ⟨rest, hrest⟩ := hcovers.sent
  rw [← hrest, List.getElem?_append] at hm
  split at hm
  · exact .inl hm
  · rename_i hplace
    by_cases hw : c.writer = .failed
    · exact .inr (.inr ((lost_of_failed hrun hw).mono (Nat.le_of_not_lt hplace)))
    · right; left
      have hqueued : rest = c.queued :=
        List.append_cancel_left (hrest.trans (hcovers.whole hw).symm)
      exact ⟨hw, hqueued ▸ hm⟩

/-- A writer that came to its end has sent everything that was due. -/
theorem sent_eq_messages (hrun : opened.runIn respond actions = some c) (hw : c.writer = .done) :
    c.sent = (Account.of actions).messages respond := by
  have hwhole := (covers_of_runIn hrun).whole (by simp [hw])
  rwa [queued_eq_nil hrun (by simp [hw]), List.append_nil] at hwhole

/-- With no dispatch under way every one that was started has ended, once. -/
theorem ended_perm (hrun : opened.runIn respond actions = some c) (hf : c.inFlight = []) :
    (Account.of actions).ended.Perm (inquiriesOf actions).zipIdx := by
  have hnumbered := Account.numbered_of actions
  have hunderWay := (covers_of_runIn hrun).inFlight
  rw [hf, eq_comm, List.map_eq_nil_iff] at hunderWay
  rwa [Account.Numbered, hunderWay, List.nil_append, Account.taken_of] at hnumbered

end Connection

namespace Server

theorem getElem?_of_step_act {respond : Inquiry → String} {server server' : Server} {j k : Nat}
    {a : Action} (hstep : server.step respond (.act k a) = some server') (hj : j ≠ k) :
    server'[j]? = server[j]? := by
  obtain ⟨c, c', -, -, rfl⟩ := step_act_eq_some.1 hstep
  exact List.getElem?_set_ne (Ne.symm hj)

/-- Once the reader of a connection has stopped no dispatch is started on it any more. The dispatches
under way hold senders, so the channel does not end before they have, nor with a message in it. A
writer that has stopped has failed to send a message, or the reader has stopped, every dispatch has
ended and all that was due has been sent. Whatever is due is sent or queued, or was lost with a
failed send of itself or of something before it; and after the reader has stopped only so much can
happen until nothing can and nothing is queued. No other connection takes part in any of it. -/
theorem drained {registry : Registry} {moves : List (Host × Move)} {server : Server}
    {k : Nat} {c : Connection}
    (hrun : runIn (fun host => Inquiry.response host registry) [] moves = some server)
    (hc : server[k]? = some c) :
    let respond := fun host => Inquiry.response host registry
    let actions := actionsOn k moves
    let account := Account.of actions
    let messages := account.messages respond
    ((c.reading = false ↔ ∃ host, (host, .stop) ∈ actions) ∧
      ∀ before host later, actions = before ++ (host, .stop) :: later →
        inquiriesOf later = []) ∧
    (∃ w, Wired.opened.runIn respond actions = some w ∧ w.connection = c ∧
      (∀ dispatch ∈ account.underWay, .dispatch dispatch.2 ∈ w.channel.holders) ∧
      (w.channel.receive = .ended →
        c.reading = false ∧ account.underWay = [] ∧ c.queued = [])) ∧
    (c.writer ≠ .running →
      (c.writer = .failed ∧ Lost respond actions c.sent.length) ∨
      (c.writer = .done ∧ c.reading = false ∧
        account.ended.Perm (inquiriesOf actions).zipIdx ∧ c.sent = messages)) ∧
    (∀ place m, messages[place]? = some m →
      c.sent[place]? = some m ∨
        (c.writer = .running ∧ c.queued[place - c.sent.length]? = some m) ∨
        Lost respond actions place) ∧
    (c.reading = false → ∀ later server' c', runIn respond server later = some server' →
      server'[k]? = some c' → (actionsOn k later).length + c'.remaining ≤ c.remaining) ∧
    (∀ host, (∀ a, c.step (respond host) a = none) →
      account.ended.Perm (inquiriesOf actions).zipIdx ∧
        ∀ place m, messages[place]? = some m →
          c.sent[place]? = some m ∨ Lost respond actions place) ∧
    ∀ j d, j ≠ k → server[j]? = some d →
      (∀ host a server', server.step (respond host) (.act k a) = some server' →
        server'[j]? = some d) ∧
      d.sent <+: (Account.of (actionsOn j moves)).messages respond := by
  intro respond actions account messages
  have hown : Connection.opened.runIn respond actions = some c := runIn_actionsOn hrun hc
  have hcovers := Connection.covers_of_runIn hown
  -- what has neither been sent nor lost still waits for a writer that runs
  have hdue : ∀ place m, messages[place]? = some m → c.sent[place]? = some m ∨
      (c.writer = .running ∧ c.queued[place - c.sent.length]? = some m) ∨
      Lost respond actions place := by
    intro place m hm
    rcases Connection.sent_or_queued_or_lost hown hm with hsent | ⟨-, hqueued⟩ | hlost
    · exact .inl hsent
    · refine .inr (.inl ⟨?_, hqueued⟩)
      by_contra hw
      simp [Connection.queued_eq_nil hown hw] at hqueued
    · exact .inr (.inr hlost)
  refine ⟨⟨?_, ?_⟩, ?_, ?_, hdue, ?_, ?_, ?_⟩
  · rw [Connection.reading_eq_false_iff hown]
    simp [Connection.opened]
  · intro before host later hactions
    rw [hactions] at hown
    obtain ⟨c₁, -, hown⟩ := Connection.runIn_append.1 hown
    obtain ⟨c₂, hstop, hlater⟩ := Connection.runIn_cons.1 hown
    have hr : c₂.reading = false := by
      rw [hstop.reading_eq, if_pos rfl]
    exact (Connection.runIn_remaining hlater hr).2
  · obtain ⟨w, hw, hconnection, hsound⟩ := Wired.exists_wired hown
    refine ⟨w, hw, hconnection, ?_, ?_⟩
    · intro dispatch hdispatch
      rw [hsound.holders]
      exact List.mem_append_right _ (List.mem_map_of_mem hdispatch)
    · intro hended
      have hguard := hsound.receive_eq_ended_iff.1 hended
      rw [hconnection, hcovers.inFlight, List.map_eq_nil_iff] at hguard
      exact hguard
  · intro hw
    cases hwriter : c.writer with
    | running => exact absurd hwriter hw
    | failed => exact .inl ⟨rfl, Connection.lost_of_failed hown hwriter⟩
    | done =>
      obtain ⟨hr, hf⟩ := hcovers.closed hwriter
      exact .inr ⟨rfl, hr, Connection.ended_perm hown hf,
        Connection.sent_eq_messages hown hwriter⟩
  · intro hr later server' c' hlater hc'
    have hlater := runIn_actionsOn hlater hc'
    rw [hc, Option.getD_some] at hlater
    exact (Connection.runIn_remaining hlater hr).1
  · intro host hnone
    obtain ⟨-, hf, hw⟩ := Connection.step_eq_none_iff.1 hnone
    refine ⟨Connection.ended_perm hown hf, fun place m hm => ?_⟩
    rcases hdue place m hm with hsent | ⟨hrunning, -⟩ | hlost
    · exact .inl hsent
    · exact absurd hrunning hw
    · exact .inr hlost
  · intro j d hj hd
    refine ⟨fun host a server' hstep => ?_, ?_⟩
    · rw [getElem?_of_step_act hstep hj, hd]
    · exact (Connection.covers_of_runIn (runIn_actionsOn hrun hd)).sent

/-- Two clients that each ask for a detection and leave. The response to the second one cannot be
sent. -/
def leaving : List Move :=
  [.connect, .connect, .act 0 (.take (.text ['x'])), .act 1 (.take (.binary [])), .act 0 .stop,
    .act 1 .stop, .act 1 .send, .act 0 (.finish 0), .act 0 .send, .act 1 (.finish 0), .act 0 .send,
    .act 1 .sendFails, .act 0 .close]

/-- The first client gets all that is due to it, and the other one only its greeting. -/
theorem drained_leaving : ∃ server c d,
    runIn (fun host => Inquiry.response host (.ofBackend Dispatch.silent)) []
      (leaving.map (Dispatch.quiet, ·)) = some server ∧
    server[0]? = some c ∧ server[1]? = some d ∧
    c.sent = [.text Response.greeting,
      .text (Inquiry.response Dispatch.quiet (.ofBackend Dispatch.silent) (.text ['x']))] ∧
    d.sent = [.text Response.greeting] ∧
    Lost (fun host => Inquiry.response host (.ofBackend Dispatch.silent))
      (actionsOn 1 (leaving.map (Dispatch.quiet, ·))) 1 := by
  refine ⟨_, _, _, rfl, rfl, rfl, ?_, rfl, ?_⟩
  · obtain ⟨-, -, hstopped, -⟩ := @drained (.ofBackend Dispatch.silent)
      (leaving.map (Dispatch.quiet, ·)) _ 0 _ rfl rfl
    rcases hstopped nofun with ⟨hfailed, -⟩ | ⟨-, -, -, hsent⟩
    · cases hfailed
    · exact hsent
  · obtain ⟨-, -, hstopped, -⟩ := @drained (.ofBackend Dispatch.silent)
      (leaving.map (Dispatch.quiet, ·)) _ 1 _ rfl rfl
    rcases hstopped nofun with ⟨-, hlost⟩ | ⟨hdone, -⟩
    · exact hlost
    · cases hdone

end Server

end Polyglot
