import PeerRpc.Proofs.Session.Responses
import PeerRpc.Proofs.Session.Tickets

/-!
# A session in other surroundings

What comes in, what goes out, the events that wait and the records are the *surroundings* of a
session. Most of what happens to a session is the same in all surroundings, and so is what it does
to them: it puts an envelope into the outbox or none, and delivers an event or none (`steady_act`,
`steady_handlePayload`). To stop listening is the same in surroundings where the same requests wait
(`dropEvents_within`).
-/

namespace PeerRpc.Session

open Rpc (Envelope Id)

/-- What is around a session. -/
structure Surroundings (R N : Type) where
  reader : Frame.Reader
  outbox : Outbox
  events : Array (Event R N)
  records : Array Log.Record

/-- Whether an action neither reads nor looks at the surroundings of the session. -/
def Action.steady : Action → Bool
  | .arrive _ | .closeSource _ | .receive | .write | .notice | .dropEvents => false
  | _ => true

namespace State

variable {R N : Type}

/-- The surroundings of a session. -/
def surroundings (s : State R N) : Surroundings R N :=
  ⟨s.reader, s.outbox, s.events, s.records⟩

/-- The session in other surroundings. -/
def within (s : State R N) (w : Surroundings R N) : State R N :=
  { s with reader := w.reader, outbox := w.outbox, events := w.events, records := w.records }

theorem within_surroundings (s : State R N) : s.within s.surroundings = s := rfl

@[simp] theorem within_within (s : State R N) (w w' : Surroundings R N) :
    (s.within w).within w' = s.within w' := rfl

@[simp] theorem isRunning_within (s : State R N) (w : Surroundings R N) :
    (s.within w).isRunning = s.isRunning := rfl

@[simp] theorem core_within (s : State R N) (w : Surroundings R N) :
    (s.within w).core = s.core := rfl

@[simp] theorem calls_within (s : State R N) (w : Surroundings R N) :
    (s.within w).calls = s.calls := rfl

@[simp] theorem commands_within (s : State R N) (w : Surroundings R N) :
    (s.within w).commands = s.commands := rfl

@[simp] theorem holds_within (s : State R N) (w : Surroundings R N) (call : Nat) :
    (s.within w).holds call = s.holds call := rfl

/-- What can be done to the outbox of a session while it goes from one state to another, whatever is
in the outbox. -/
inductive Moves (s s' : State R N) : (Outbox → Outbox) → Prop
  | same : Moves s s' id
  | put (hrun : s.isRunning = true) (e : Envelope) : Moves s s' (·.put e)
  | closeOff (hrun : s'.isRunning = false) : Moves s s' Outbox.closeOff
  | setMode (mode : Frame.SinkMode) : Moves s s' fun o => { o with sink := { o.sink with mode } }

/-- What can be done to the events that wait, whatever they are. -/
inductive Delivers (s : State R N) : (Array (Event R N) → Array (Event R N)) → Prop
  | same : Delivers s id
  | emit (hrun : s.isRunning = true) (e : Event R N) :
    Delivers s fun events => if s.listening then events.push e else events
  | clear : Delivers s fun _ => #[]

/-- Something that happens to a session is the same in all surroundings. -/
def Steady (s : State R N) (act : State R N → State R N) : Prop :=
  ∃ move deliver, Moves s (act s) move ∧ Delivers s deliver ∧ ∀ w, ∃ records,
    act (s.within w) = (act s).within ⟨w.reader, move w.outbox, deliver w.events, records⟩

/-- Something that happens to a session is the same in all surroundings, and delivers nothing. -/
def Silent (s : State R N) (act : State R N → State R N) : Prop :=
  ∃ move, Moves s (act s) move ∧ ∀ w, ∃ records,
    act (s.within w) = (act s).within ⟨w.reader, move w.outbox, w.events, records⟩

section

variable {s : State R N} {f g : State R N → State R N}

theorem Steady.congr (h : Steady s g) (hfg : ∀ w, f (s.within w) = g (s.within w)) :
    Steady s f := by
  obtain ⟨move, deliver, hmove, hdeliver, hwithin⟩ := h
  have hs : f s = g s := hfg s.surroundings
  refine ⟨move, deliver, hs ▸ hmove, hdeliver, fun w => ?_⟩
  rw [hfg w, hs]
  exact hwithin w

/-- What comes before may change anything but the surroundings. -/
theorem Steady.after (h : Steady (g s) f)
    (hg : ∀ w, g (s.within w) = (g s).within w)
    (hrun : (g s).isRunning = true → s.isRunning = true) (hl : (g s).listening = s.listening) :
    Steady s fun s => f (g s) := by
  obtain ⟨move, deliver, hmove, hdeliver, hwithin⟩ := h
  have hmove' : Moves s (f (g s)) move := by
    cases hmove with
    | same => exact .same
    | put h e => exact .put (hrun h) e
    | closeOff h => exact .closeOff h
    | setMode mode => exact .setMode mode
  have hdeliver' : Delivers s deliver := by
    cases hdeliver with
    | same => exact .same
    | emit h e =>
      rw [hl]
      exact .emit (hrun h) e
    | clear => exact .clear
  refine ⟨move, deliver, hmove', hdeliver', fun w => ?_⟩
  dsimp only
  rw [hg w]
  exact hwithin w

theorem Silent.steady (h : Silent s f) : Steady s f :=
  let ⟨move, hmove, hwithin⟩ := h
  ⟨move, id, hmove, .same, hwithin⟩

theorem Silent.of_within (h : ∀ w, f (s.within w) = (f s).within w) : Silent s f :=
  ⟨id, .same, fun w => ⟨w.records, h w⟩⟩

theorem silent_log (s : State R N) (level : Log.Level) (text : String) :
    Silent s fun s => s.log level text :=
  ⟨id, .same, fun w => ⟨((s.within w).log level text).records, rfl⟩⟩

theorem silent_queue (hrun : s.isRunning = true) (e : Envelope) : Silent s fun s => s.queue e :=
  ⟨(·.put e), .put hrun e, fun w => ⟨w.records, rfl⟩⟩

theorem emit_eq (s : State R N) (e : Event R N) :
    s.emit e = s.within { s.surroundings with
      events := if s.listening then s.events.push e else s.events } := by
  unfold emit
  split_ifs <;> rfl

theorem emit_within (s : State R N) (e : Event R N) (w : Surroundings R N) :
    (s.within w).emit e = (s.emit e).within
      { w with events := if s.listening then w.events.push e else w.events } := by
  rw [emit_eq, emit_eq]
  rfl

/-- What delivers nothing may be followed by an event. -/
theorem Silent.emit (h : Silent s f) (hrun : s.isRunning = true)
    (hkeep : (f s).isRunning = true) (hl : (f s).listening = s.listening) (e : Event R N) :
    Steady s fun s => (f s).emit e := by
  obtain ⟨move, hmove, hwithin⟩ := h
  have hmove' : Moves s ((f s).emit e) move := by
    cases hmove with
    | same => exact .same
    | put hrun e => exact .put hrun e
    | closeOff hstop => exact absurd (hstop.symm.trans hkeep) Bool.false_ne_true
    | setMode mode => exact .setMode mode
  refine ⟨move, _, hmove', .emit hrun e, fun w => ?_⟩
  obtain ⟨records, hw⟩ := hwithin w
  refine ⟨records, ?_⟩
  dsimp only
  rw [hw, emit_within, hl]

end

variable {s : State R N}

/-! ## The owner -/

theorem command_within (s : State R N) (c : Command) (w : Surroundings R N) :
    (s.within w).command c = (s.command c).within w := by
  unfold command
  rw [isRunning_within]
  split_ifs <;> rfl

theorem send_within (s : State R N) (m : Rpc.RequestMethod) (p : m.Params) (transient : Bool)
    (w : Surroundings R N) :
    ((s.within w).send m p transient).2 = (s.send m p transient).2.within w := by
  unfold send
  cases m.params.encode p with
  | error fault => rfl
  | ok params =>
    dsimp only
    by_cases hr : s.isRunning = true
    · have hsend : s.sendWritten m.name params transient = (.ok s.calls.size, _) := if_pos hr
      have hsend' : (s.within w).sendWritten m.name params transient =
        (.ok s.calls.size, _) := if_pos hr
      rw [hsend, hsend']
      exact command_within
        { s with
          nextId := s.nextId + 1
          calls := s.calls.push { id := .number s.nextId, method := m.name, transient } }
        (.request (.number s.nextId) m.name params s.calls.size) w
    · have hsend : s.sendWritten m.name params transient = (.error .closed, _) := if_neg hr
      have hsend' : (s.within w).sendWritten m.name params transient =
        (.error .closed, _) := if_neg hr
      rw [hsend, hsend']
      rfl

theorem notify_within (s : State R N) (m : Rpc.NotificationMethod) (p : m.Params)
    (w : Surroundings R N) : ((s.within w).notify m p).2 = (s.notify m p).2.within w := by
  unfold notify
  rw [isRunning_within]
  cases m.params.encode p with
  | error fault => rfl
  | ok params =>
    dsimp only
    split_ifs
    · exact command_within s _ w
    · rfl

theorem poll_within (s : State R N) (call : Nat) (w : Surroundings R N) :
    ((s.within w).poll call).2 = (s.poll call).2.within w := by
  unfold poll
  rw [calls_within]
  cases s.calls[call]? with
  | none => rfl
  | some k =>
    dsimp only
    split_ifs
    · rfl
    · cases k.outcomes.head? <;> rfl

theorem cancel_within (s : State R N) (call : Nat) (w : Surroundings R N) :
    (s.within w).cancel call = (s.cancel call).within w := by
  unfold cancel
  rw [calls_within]
  cases s.calls[call]? with
  | none => rfl
  | some k =>
    dsimp only
    split_ifs
    · rfl
    · exact command_within
        { s with calls := s.calls.modify call fun c => { c with cancelled := true } }
        (.abandon k.id s.cancelOnAbandon) w

theorem dropCall_within (s : State R N) (call : Nat) (w : Surroundings R N) :
    (s.within w).dropCall call = (s.dropCall call).within w := by
  unfold dropCall
  rw [calls_within]
  cases s.calls[call]? with
  | none => rfl
  | some k =>
    dsimp only
    split_ifs
    · rw [abandon, abandon, command_within]
      rfl
    · rfl

theorem countPending_within (s : State R N) (w : Surroundings R N) :
    (s.within w).countPending.2 = s.countPending.2.within w := by
  unfold countPending
  rw [isRunning_within]
  split_ifs
  · exact command_within { s with waiters := s.waiters.push (.counting none) }
      (.count s.waiters.size) w
  · rfl

theorem close_within (s : State R N) (w : Surroundings R N) :
    (s.within w).close.2 = s.close.2.within w := by
  unfold close
  rw [command_within]
  rfl

theorem pollWaiter_within (s : State R N) (waiter : Nat) (w : Surroundings R N) :
    ((s.within w).pollWaiter waiter).2 = (s.pollWaiter waiter).2.within w := by
  have hwaiters : (s.within w).waiters = s.waiters := rfl
  have hline : (s.within w).line = s.line := rfl
  have hreport : (s.within w).report = s.report := rfl
  have hphase : (s.within w).phase = s.phase := rfl
  unfold pollWaiter
  rw [hwaiters]
  rcases s.waiters[waiter]? with _ | (_ | n) | _ | _
  · rfl
  · rfl
  · rfl
  · dsimp only [pollJoin]
    rw [hline, hreport, hphase]
    split_ifs
    · cases s.report <;> cases s.phase <;> rfl
    · rfl
  · rfl

/-- A ticket that can be used is spent, and its answer goes to the outbox of a session that is
running. -/
theorem respond_of_ticket {ticket : Nat} {t : Ticket} (ht : s.ticket? ticket = some t)
    (outcome : Except Rpc.Failure Json) :
    (s.respond ticket outcome).2 =
      if s.isRunning then (s.spend ticket).queue (.response t.id outcome) else s.spend ticket := by
  have hrun : (s.spend ticket).isRunning = s.isRunning := rfl
  have hactive : (s.spend ticket).outbox.isActive = s.outbox.isActive := rfl
  rw [respond, ht]
  dsimp only
  rw [hrun, hactive]
  by_cases hr : s.isRunning = true
  · by_cases ha : s.outbox.isActive = true
    · rw [hr, ha]
      rfl
    · have hsame : s.outbox.put (.response t.id outcome) = s.outbox := if_neg ha
      rw [if_neg (by simp [ha]), if_pos hr]
      change s.spend ticket =
        { s.spend ticket with outbox := s.outbox.put (.response t.id outcome) }
      rw [hsame]
      rfl
  · rw [if_neg (by simp [hr]), if_neg hr]

theorem silent_respond (s : State R N) (ticket : Nat) (outcome : Except Rpc.Failure Json) :
    Silent s fun s => (s.respond ticket outcome).2 := by
  cases ht : s.ticket? ticket with
  | none =>
    refine .of_within fun w => ?_
    rw [respond_of_none ht, respond_of_none (by exact ht)]
  | some t =>
    by_cases hr : s.isRunning = true
    · refine ⟨_, .put hr (.response t.id outcome), fun w => ⟨w.records, ?_⟩⟩
      dsimp only
      rw [respond_of_ticket ht, respond_of_ticket (s := s.within w) ht, if_pos hr,
        if_pos (by exact hr)]
      rfl
    · refine .of_within fun w => ?_
      rw [respond_of_ticket ht, respond_of_ticket (s := s.within w) ht, if_neg hr,
        if_neg (by exact hr)]
      rfl

theorem dropTicket_of_ticket {ticket : Nat} {t : Ticket} (ht : s.ticket? ticket = some t) :
    s.dropTicket ticket = (s.spend ticket).log .warn
      ("Request " ++ t.id.describe ++ " (" ++ t.method ++ ") dropped without a response") := by
  rw [dropTicket, ht]

theorem dropTicket_within (s : State R N) (ticket : Nat) (w : Surroundings R N) :
    ∃ records, (s.within w).dropTicket ticket = (s.dropTicket ticket).within { w with records } := by
  cases ht : s.ticket? ticket with
  | none =>
    have hnone : ∀ s' : State R N, s'.ticket? ticket = none → s'.dropTicket ticket = s' := by
      intro s' h
      rw [dropTicket, h]
    exact ⟨w.records, by rw [hnone s ht, hnone (s.within w) ht]⟩
  | some t =>
    refine ⟨((s.within w).dropTicket ticket).records, ?_⟩
    rw [dropTicket_of_ticket ht, dropTicket_of_ticket (s := s.within w) ht]
    rfl

/-! ## The task -/

theorem foldl_refuse_within (commands : List Command) (s : State R N) (w : Surroundings R N) :
    commands.foldl refuse (s.within w) = (commands.foldl refuse s).within w := by
  induction commands generalizing s with
  | nil => rfl
  | cons c rest ih =>
    rw [List.foldl_cons, List.foldl_cons, ← ih]
    cases c <;> rfl

theorem foldl_settle_within (pending : List (Id × Nat)) (s : State R N) (w : Surroundings R N) :
    pending.foldl (fun s p => s.settleCall p.2 (.error .closed)) (s.within w) =
      (pending.foldl (fun s p => s.settleCall p.2 (.error .closed)) s).within w := by
  induction pending generalizing s with
  | nil => rfl
  | cons p rest ih => exact ih (s.settleCall p.2 (.error .closed))

theorem stop_within (s : State R N) (w : Surroundings R N) :
    (s.within w).stop .closed =
      (s.stop .closed).within { w with outbox := w.outbox.closeOff } := by
  have hrefuse := foldl_refuse_within s.commands s w
  have hsettle := foldl_settle_within (s.commands.foldl refuse s).pending
    (s.commands.foldl refuse s) w
  have hpending : ((s.commands.foldl refuse s).within w).pending =
    (s.commands.foldl refuse s).pending := rfl
  unfold stop
  rw [commands_within, hrefuse]
  dsimp only
  rw [hpending, hsettle]
  rfl

/-- Stopping changes none of the events that wait. -/
theorem events_stop (s : State R N) (reason : Stop) : (s.stop reason).events = s.events := by
  have hrefuse := congrArg State.events (foldl_refuse_within s.commands s s.surroundings)
  have hsettle := congrArg State.events (foldl_settle_within (s.commands.foldl refuse s).pending
    (s.commands.foldl refuse s) (s.commands.foldl refuse s).surroundings)
  rw [within_surroundings] at hrefuse hsettle
  have hevents : ((s.commands.foldl refuse s).pending.foldl
      (fun s p => s.settleCall p.2 (.error .closed)) (s.commands.foldl refuse s)).events =
      s.events := hsettle.trans hrefuse
  cases reason <;> exact hevents

theorem silent_stop (s : State R N) : Silent s fun s => s.stop .closed :=
  ⟨_, .closeOff (isRunning_stop s .closed), fun w => ⟨w.records, stop_within s w⟩⟩

theorem silent_sendCancel (hrun : s.isRunning = true) (id : Id) :
    Silent s fun s => s.sendCancel id := by
  unfold sendCancel
  cases Rpc.Catalog.cancel.params.encode ⟨id⟩ with
  | error fault => exact silent_log s _ _
  | ok params => exact silent_queue hrun _

theorem steady_request (hrun : s.isRunning = true) (id : Id) (method : String)
    (params : Option Json) (call : Nat) :
    Steady s fun s => s.handleCommand (.request id method params call) := by
  cases hn : s.pendingCall? id with
  | some other =>
    have hhandle : ∀ w, (s.within w).handleCommand (.request id method params call) =
        (((s.within w).log .warn
          ("Request id " ++ id.describe ++ " is already pending")).settleCall call
            (.error (.duplicateId id))).emit (.protocolError (.duplicateRequest id)) := by
      intro w
      have hn' : (s.within w).pendingCall? id = some other := hn
      rw [handleCommand, hn']
    refine .congr (Silent.emit (f := fun s => (s.log .warn _).settleCall call _) ?_ hrun hrun
      rfl _) hhandle
    exact ⟨_, .same, fun w => ⟨_, rfl⟩⟩
  | none =>
    have hhandle : ∀ w, (s.within w).handleCommand (.request id method params call) =
        { s.within w with pending := s.pending ++ [(id, call)] }.queue
          (.request id method params) := by
      intro w
      have hn' : (s.within w).pendingCall? id = none := hn
      rw [handleCommand, hn']
      rfl
    have hqueue := silent_queue (s := { s with pending := s.pending ++ [(id, call)] }) hrun
      (.request id method params)
    exact .congr (.after (g := fun s => { s with pending := s.pending ++ [(id, call)] })
      hqueue.steady (fun _ => rfl) (fun h => h) rfl) hhandle

theorem steady_abandon (hrun : s.isRunning = true) (id : Id) (tell : Bool) :
    Steady s fun s => s.handleCommand (.abandon id tell) := by
  cases hn : s.pendingCall? id with
  | none =>
    have hhandle : ∀ w, (s.within w).handleCommand (.abandon id tell) = s.within w := by
      intro w
      have hn' : (s.within w).pendingCall? id = none := hn
      rw [handleCommand, hn']
    exact .congr (g := fun s => s) (Silent.of_within fun _ => rfl).steady hhandle
  | some call =>
    have hhandle : ∀ w, (s.within w).handleCommand (.abandon id tell) =
        if tell then
          (((s.within w).closePending id).settleCall call (.error .cancelled)).sendCancel id
        else ((s.within w).closePending id).settleCall call (.error .cancelled) := by
      intro w
      have hn' : (s.within w).pendingCall? id = some call := hn
      rw [handleCommand, hn']
    cases tell with
    | false =>
      exact .congr (g := fun s => (s.closePending id).settleCall call (.error .cancelled))
        (Silent.of_within fun _ => rfl).steady hhandle
    | true =>
      have hcancel := silent_sendCancel
        (s := (s.closePending id).settleCall call (.error .cancelled)) hrun id
      exact .congr (.after (g := fun s => (s.closePending id).settleCall call (.error .cancelled))
        hcancel.steady (fun _ => rfl) (fun h => h) rfl) hhandle

theorem steady_handleCommand (hrun : s.isRunning = true) (c : Command) :
    Steady s fun s => s.handleCommand c := by
  cases c with
  | request id method params call => exact steady_request hrun id method params call
  | notify method params => exact (silent_queue hrun (.notification method params)).steady
  | abandon id tell => exact steady_abandon hrun id tell
  | count waiter => exact (Silent.of_within fun _ => rfl).steady
  | close => exact (silent_stop s).steady

theorem steady_handleNext (hrun : s.isRunning = true) : Steady s fun s => s.handleNext := by
  cases hc : s.commands with
  | nil =>
    have hhandle : ∀ w, (s.within w).handleNext = s.within w := by
      intro w
      rw [handleNext, commands_within, hc]
    exact .congr (g := fun s => s) (Silent.of_within fun _ => rfl).steady hhandle
  | cons c rest =>
    have hhandle : ∀ w, (s.within w).handleNext =
        { s.within w with commands := rest }.handleCommand c := by
      intro w
      rw [handleNext, commands_within, hc]
    have hcommand := steady_handleCommand (s := { s with commands := rest }) hrun c
    exact .congr (.after (g := fun s => { s with commands := rest }) hcommand (fun _ => rfl)
      (fun h => h) rfl) hhandle

theorem steady_handleRequest (hrun : s.isRunning = true) (id : Id) (method : String)
    (params : Option Json) : Steady s fun s => s.handleRequest id method params := by
  cases hd : s.registry.decodeRequest method params with
  | ok value =>
    have hhandle : ∀ w, (s.within w).handleRequest id method params =
        (s.within w).deliverRequest id method value := by
      intro w
      have hd' : (s.within w).registry.decodeRequest method params = .ok value := hd
      rw [handleRequest, hd']
    refine .congr (g := fun s => s.deliverRequest id method value) ?_ hhandle
    by_cases hl : s.listening = true
    · refine ⟨_, _, .same, .emit hrun (.request id value s.tickets.size), fun w => ⟨w.records, ?_⟩⟩
      have hdeliver : ∀ s' : State R N, s'.listening = true → s'.deliverRequest id method value =
          { s' with
            tickets := s'.tickets.push { id, method }
            events := s'.events.push (.request id value s'.tickets.size) } :=
        fun s' h => if_pos h
      dsimp only
      rw [hdeliver s hl, hdeliver (s.within w) hl, if_pos hl]
      rfl
    · have hanswer : ∀ w, (s.within w).deliverRequest id method value =
          (s.within w).queue (.failure id (.internalError "No handler for requests")) :=
        fun w => if_neg hl
      exact .congr (silent_queue hrun _).steady hanswer
  | error fault =>
    have hhandle : ∀ w, (s.within w).handleRequest id method params =
        (((s.within w).log .warn
          ("Rejecting request " ++ id.describe ++ ": " ++ fault.message)).queue
            (.failure id fault.toFailure)).emit (.protocolError (.decode (some id) fault)) := by
      intro w
      have hd' : (s.within w).registry.decodeRequest method params = .error fault := hd
      rw [handleRequest, hd']
    refine .congr (Silent.emit (f := fun s => (s.log .warn _).queue _) ?_ hrun hrun rfl _) hhandle
    exact ⟨_, .put hrun _, fun w => ⟨_, rfl⟩⟩

theorem steady_handleNotification (hrun : s.isRunning = true) (method : String)
    (params : Option Json) : Steady s fun s => s.handleNotification method params := by
  cases hd : s.registry.decodeNotification method params with
  | ok value =>
    have hhandle : ∀ w, (s.within w).handleNotification method params =
        (s.within w).emit (.notification value) := by
      intro w
      have hd' : (s.within w).registry.decodeNotification method params = .ok value := hd
      rw [handleNotification, hd']
    exact .congr (Silent.emit (f := fun s => s) (.of_within fun _ => rfl) hrun hrun rfl _) hhandle
  | error fault =>
    have hhandle : ∀ w, (s.within w).handleNotification method params =
        ((s.within w).log .warn ("Dropping notification: " ++ fault.message)).emit
          (.protocolError (.decode none fault)) := by
      intro w
      have hd' : (s.within w).registry.decodeNotification method params = .error fault := hd
      rw [handleNotification, hd']
    exact .congr (Silent.emit (f := fun s => s.log .warn _) (silent_log s _ _) hrun hrun rfl _)
      hhandle

theorem steady_handleResponse (hrun : s.isRunning = true) (r : Rpc.Response) :
    Steady s fun s => s.handleResponse r := by
  cases hn : s.pendingCall? r.id with
  | none =>
    have hhandle : ∀ w, (s.within w).handleResponse r =
        ((s.within w).log .warn ("Response for unknown request id " ++ r.id.describe)).emit
          (.protocolError (.unknownResponse r.id)) := by
      intro w
      have hn' : (s.within w).pendingCall? r.id = none := hn
      rw [handleResponse, hn']
    exact .congr (Silent.emit (f := fun s => s.log .warn _) (silent_log s _ _) hrun hrun rfl _)
      hhandle
  | some call =>
    have hn' : ∀ w, (s.within w).pendingCall? r.id = some call := fun _ => hn
    cases ho : r.outcome with
    | ok outcome =>
      have hhandle : ∀ w, (s.within w).handleResponse r =
          ((s.within w).closePending r.id).settleCall call (outcome.mapError .rpc) := by
        intro w
        rw [handleResponse, hn' w]
        dsimp only
        rw [ho]
      exact .congr (g := fun s => (s.closePending r.id).settleCall call (outcome.mapError .rpc))
        (Silent.of_within fun _ => rfl).steady hhandle
    | error fault =>
      have hhandle : ∀ w, (s.within w).handleResponse r =
          ((((s.within w).closePending r.id).log .warn
            ("Malformed response: " ++ fault.message)).settleCall call
              (.error (.malformedResponse fault.message))).emit
                (.protocolError (.malformedResponse fault)) := by
        intro w
        rw [handleResponse, hn' w]
        dsimp only
        rw [ho]
      refine .congr (Silent.emit (f := fun s =>
        ((s.closePending r.id).log .warn _).settleCall call _) ?_ hrun hrun rfl _) hhandle
      exact ⟨_, .same, fun w => ⟨_, rfl⟩⟩

theorem steady_handleMalformed (hrun : s.isRunning = true) (payload : List UInt8)
    (fault : Rpc.EnvelopeFault) : Steady s fun s => s.handleMalformed payload fault := by
  unfold handleMalformed
  cases Rpc.requestIdOf? payload with
  | none => exact Silent.emit (silent_log s _ _) hrun hrun rfl _
  | some id =>
    refine Silent.emit (f := fun s => (s.log .warn _).queue _) ?_ hrun hrun rfl _
    exact ⟨_, .put hrun _, fun w => ⟨_, rfl⟩⟩

/-- A payload means the same to a session in all surroundings. -/
theorem steady_handlePayload (hrun : s.isRunning = true) (payload : List UInt8) :
    Steady s fun s => s.handlePayload payload := by
  unfold handlePayload
  cases Rpc.Message.ofPayload payload with
  | error fault => exact steady_handleMalformed hrun payload fault
  | ok message =>
    cases message with
    | request id method params => exact steady_handleRequest hrun id method params
    | notification method params => exact steady_handleNotification hrun method params
    | response r => exact steady_handleResponse hrun r

/-! ## Stopping to listen -/

/-- The session that has thrown an event away, with the ticket of a request. -/
def discard (s : State R N) : Event R N → State R N
  | .request _ _ ticket => s.dropTicket ticket
  | _ => s

theorem dropEvents_eq (s : State R N) :
    s.dropEvents =
      { s.events.toList.foldl discard s with events := #[], listening := false } := by
  rw [dropEvents, ← Array.foldl_toList]
  rfl

/-- Only the requests matter among the events that are thrown away. -/
theorem foldl_discard_filter (events : List (Event R N)) (s : State R N) :
    (events.filter Event.isCall).foldl discard s = events.foldl discard s := by
  induction events generalizing s with
  | nil => rfl
  | cons e events ih =>
    cases e with
    | protocolError error =>
      rw [List.filter_cons_of_neg (by simp [Event.isCall]), ih]
      rfl
    | notification value =>
      rw [List.filter_cons_of_pos rfl]
      exact ih s
    | request id value ticket =>
      rw [List.filter_cons_of_pos rfl]
      exact ih (s.dropTicket ticket)

theorem foldl_discard_within (events : List (Event R N)) (s : State R N) (w : Surroundings R N) :
    ∃ records, events.foldl discard (s.within w) =
      (events.foldl discard s).within { w with records } := by
  induction events generalizing s w with
  | nil => exact ⟨w.records, rfl⟩
  | cons e events ih =>
    cases e with
    | protocolError | notification => exact ih s w
    | request id value ticket =>
      obtain ⟨records, h⟩ := dropTicket_within s ticket w
      obtain ⟨records', h'⟩ := ih (s.dropTicket ticket) { w with records }
      exact ⟨records', (congrArg (events.foldl discard) h).trans h'⟩

theorem dropEvents_within {w : Surroundings R N}
    (h : w.events.toList.filter Event.isCall = s.events.toList.filter Event.isCall) :
    ∃ records, (s.within w).dropEvents = s.dropEvents.within { w with events := #[], records } := by
  obtain ⟨records, hdiscard⟩ := foldl_discard_within s.events.toList s w
  have hevents : (s.within w).events = w.events := rfl
  refine ⟨records, ?_⟩
  rw [dropEvents_eq, dropEvents_eq, hevents, ← foldl_discard_filter, h, foldl_discard_filter,
    hdiscard]
  rfl

/-! ## The actions -/

theorem Steady.ite {f : State R N → State R N} {p : State R N → Bool}
    (hp : ∀ w, p (s.within w) = p s) (h : p s = true → Steady s f) :
    Steady s fun s => if p s then f s else s := by
  cases hps : p s with
  | true =>
    refine .congr (h hps) fun w => ?_
    rw [hp w, hps, if_pos rfl]
  | false =>
    refine .congr (g := fun s => s) (Silent.of_within fun _ => rfl).steady fun w => ?_
    rw [hp w, hps, if_neg Bool.false_ne_true]

/-- An action other than reading and looking at the surroundings is the same in all of them. -/
theorem steady_act (s : State R N) (a : Action) (ha : a.steady = true) :
    Steady s fun s => s.act a := by
  cases a with
  | send m p transient => exact (Silent.of_within (send_within s m p transient)).steady
  | notify m p => exact (Silent.of_within (notify_within s m p)).steady
  | countPending => exact (Silent.of_within (countPending_within s)).steady
  | close => exact (Silent.of_within (close_within s)).steady
  | poll call =>
    exact .ite (p := fun s => s.holds call) (holds_within s · call)
      fun _ => (Silent.of_within (poll_within s call)).steady
  | cancel call =>
    exact .ite (p := fun s => s.holds call) (holds_within s · call)
      fun _ => (Silent.of_within (cancel_within s call)).steady
  | dropCall call =>
    exact .ite (p := fun s => s.holds call) (holds_within s · call)
      fun _ => (Silent.of_within (dropCall_within s call)).steady
  | respond ticket outcome => exact (silent_respond s ticket outcome).steady
  | dropTicket ticket => exact ⟨_, _, .same, .same, dropTicket_within s ticket⟩
  | pollWaiter waiter => exact (Silent.of_within (pollWaiter_within s waiter)).steady
  | takeEvents => exact ⟨_, _, .same, .clear, fun w => ⟨w.records, rfl⟩⟩
  | takeRecords => exact ⟨_, _, .same, .same, fun w => ⟨#[], rfl⟩⟩
  | setSink mode => exact ⟨_, _, .setMode mode, .same, fun w => ⟨w.records, rfl⟩⟩
  | handle => exact .ite (isRunning_within s) fun hrun => steady_handleNext hrun
  | release =>
    exact .ite (p := fun s => s.isRunning && s.commands.isEmpty && !s.isHeld) (fun _ => rfl)
      fun _ => (silent_stop s).steady
  | addHandle | dropHandle | wait | dropWaiter waiter =>
    exact (Silent.of_within fun _ => rfl).steady
  | arrive | closeSource | receive | write | notice | dropEvents => cases ha

end State

end PeerRpc.Session
