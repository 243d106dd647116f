import PeerRpc.Proofs.Session.Action

/-!
# What hardly anything looks at

Only those who send a request look at the next identifier, and only those who wait for the end of
the session, or no longer wait for it, at who is to learn how it stopped. Everything else happens in
the same way whatever these two are, and leaves them as they are (`act_aside`).
-/

namespace PeerRpc.Session

/-- Whether an action looks at the next identifier, or at who is to learn how the session stopped.
-/
def Action.looksAside : Action → Bool
  | .send .. | .pollWaiter _ | .dropWaiter _ => true
  | _ => false

namespace State

variable {R N : Type}

/-- The session with another next identifier, and with somebody else to learn how it stopped. -/
def aside (s : State R N) (n : Int64) (r : Report) : State R N :=
  { s with nextId := n, report := r }

@[simp] theorem isRunning_aside (s : State R N) (n : Int64) (r : Report) :
    (s.aside n r).isRunning = s.isRunning := rfl

@[simp] theorem calls_aside (s : State R N) (n : Int64) (r : Report) :
    (s.aside n r).calls = s.calls := rfl

@[simp] theorem holds_aside (s : State R N) (n : Int64) (r : Report) (call : Nat) :
    (s.aside n r).holds call = s.holds call := rfl

@[simp] theorem pendingCall?_aside (s : State R N) (n : Int64) (r : Report) (id : Rpc.Id) :
    (s.aside n r).pendingCall? id = s.pendingCall? id := rfl

@[simp] theorem ticket?_aside (s : State R N) (n : Int64) (r : Report) (ticket : Nat) :
    (s.aside n r).ticket? ticket = s.ticket? ticket := rfl

variable (s : State R N) (n : Int64) (r : Report)

/-! ## The owner -/

theorem command_aside (c : Command) : (s.aside n r).command c = (s.command c).aside n r := by
  unfold command
  rw [isRunning_aside]
  split_ifs <;> rfl

theorem emit_aside {s' : State R N} (h : s' = s.aside n r) (e : Event R N) :
    s'.emit e = (s.emit e).aside n r := by
  subst h
  change (if s.listening then _ else _) = _
  unfold emit
  split_ifs <;> rfl

theorem notify_aside (m : Rpc.NotificationMethod) (p : m.Params) :
    (s.aside n r).notify m p = ((s.notify m p).1, (s.notify m p).2.aside n r) := by
  unfold notify
  cases m.params.encode p with
  | error fault => rfl
  | ok params =>
    dsimp only
    rw [isRunning_aside, command_aside]
    split_ifs <;> rfl

theorem poll_aside (call : Nat) :
    (s.aside n r).poll call = ((s.poll call).1, (s.poll call).2.aside n r) := by
  unfold poll
  rw [calls_aside]
  cases s.calls[call]? with
  | none => rfl
  | some k =>
    dsimp only
    split_ifs
    · rfl
    · cases k.outcomes.head? <;> rfl

theorem cancel_aside (call : Nat) : (s.aside n r).cancel call = (s.cancel call).aside n r := by
  unfold cancel
  rw [calls_aside]
  cases s.calls[call]? with
  | none => rfl
  | some k =>
    dsimp only
    split_ifs
    · rfl
    · exact command_aside
        { s with calls := s.calls.modify call fun c => { c with cancelled := true } } n r
        (.abandon k.id s.cancelOnAbandon)

theorem dropCall_aside (call : Nat) :
    (s.aside n r).dropCall call = (s.dropCall call).aside n r := by
  unfold dropCall
  rw [calls_aside]
  cases s.calls[call]? with
  | none => rfl
  | some k =>
    dsimp only
    split_ifs
    · rw [abandon, abandon, command_aside]
      rfl
    · rfl

theorem respond_aside (ticket : Nat) (outcome : Except Rpc.Failure Json) :
    (s.aside n r).respond ticket outcome =
      ((s.respond ticket outcome).1, (s.respond ticket outcome).2.aside n r) := by
  unfold respond
  rw [ticket?_aside]
  cases s.ticket? ticket with
  | none => rfl
  | some t =>
    change (if (s.spend ticket).isRunning && (s.spend ticket).outbox.isActive then _ else _) = _
    dsimp only
    split_ifs <;> rfl

theorem dropTicket_aside (ticket : Nat) :
    (s.aside n r).dropTicket ticket = (s.dropTicket ticket).aside n r := by
  unfold dropTicket
  rw [ticket?_aside]
  cases s.ticket? ticket <;> rfl

/-- Steps of which none looks aside do not look aside one after the other. -/
theorem foldl_aside {α : Type*} {f : State R N → α → State R N}
    (hf : ∀ s x, f (s.aside n r) x = (f s x).aside n r) (xs : List α) :
    xs.foldl f (s.aside n r) = (xs.foldl f s).aside n r := by
  induction xs generalizing s with
  | nil => rfl
  | cons x xs ih => rw [List.foldl_cons, List.foldl_cons, hf, ih]

theorem dropEvents_aside : (s.aside n r).dropEvents = s.dropEvents.aside n r := by
  unfold dropEvents
  dsimp only
  rw [← Array.foldl_toList, ← Array.foldl_toList,
    show (s.aside n r).events = s.events from rfl, foldl_aside]
  · rfl
  · intro s e
    cases e with
    | request id value ticket => exact dropTicket_aside s n r ticket
    | _ => rfl

theorem countPending_aside :
    (s.aside n r).countPending = (s.countPending.1, s.countPending.2.aside n r) := by
  unfold countPending
  rw [isRunning_aside]
  dsimp only
  split_ifs
  · exact congrArg (Prod.mk s.waiters.size) (command_aside
      { s with waiters := s.waiters.push (.counting none) } n r (.count s.waiters.size))
  · rfl

theorem close_aside : (s.aside n r).close = (s.close.1, s.close.2.aside n r) := by
  unfold close
  rw [command_aside]
  rfl

/-! ## The task -/

theorem refuse_aside (c : Command) : (s.aside n r).refuse c = (s.refuse c).aside n r := by
  cases c <;> rfl

theorem stop_aside {s' : State R N} (h : s' = s.aside n r) (reason : Stop) :
    s'.stop reason = (s.stop reason).aside n r := by
  subst h
  unfold stop
  dsimp only
  rw [show (s.aside n r).commands = s.commands from rfl,
    foldl_aside s n r fun s c => refuse_aside s n r c,
    show ((s.commands.foldl refuse s).aside n r).pending = (s.commands.foldl refuse s).pending
      from rfl, foldl_aside _ n r fun s p => rfl]
  cases reason <;> rfl

theorem sendCancel_aside (id : Rpc.Id) :
    (s.aside n r).sendCancel id = (s.sendCancel id).aside n r := by
  unfold sendCancel
  cases Rpc.Catalog.cancel.params.encode ⟨id⟩ <;> rfl

theorem handleCommand_aside (c : Command) :
    (s.aside n r).handleCommand c = (s.handleCommand c).aside n r := by
  cases c with
  | request id method params call =>
    rw [handleCommand, handleCommand, pendingCall?_aside]
    cases s.pendingCall? id with
    | none => rfl
    | some other => exact emit_aside _ n r (by rfl) _
  | notify method params => rfl
  | abandon id tell =>
    rw [handleCommand, handleCommand, pendingCall?_aside]
    cases s.pendingCall? id with
    | none => rfl
    | some call =>
      dsimp only
      split_ifs
      · exact sendCancel_aside ((s.closePending id).settleCall call (.error .cancelled)) n r id
      · rfl
  | count waiter => rfl
  | close => exact stop_aside s n r rfl .closed

theorem handleNext_aside : (s.aside n r).handleNext = s.handleNext.aside n r := by
  unfold handleNext
  rw [show (s.aside n r).commands = s.commands from rfl]
  cases s.commands with
  | nil => rfl
  | cons c rest => exact handleCommand_aside { s with commands := rest } n r c

theorem handlePayload_aside (payload : List UInt8) :
    (s.aside n r).handlePayload payload = (s.handlePayload payload).aside n r := by
  unfold handlePayload
  rcases Rpc.Message.ofPayload payload with fault | ⟨id, method, params⟩ | ⟨method, params⟩ | m
  · dsimp only [handleMalformed]
    cases Rpc.requestIdOf? payload <;> exact emit_aside _ n r (by rfl) _
  · dsimp only [handleMessage, handleRequest]
    rw [show (s.aside n r).registry = s.registry from rfl]
    cases s.registry.decodeRequest method params with
    | error fault => exact emit_aside _ n r (by rfl) _
    | ok value =>
      dsimp only [deliverRequest]
      rw [show (s.aside n r).listening = s.listening from rfl]
      split_ifs <;> rfl
  · dsimp only [handleMessage, handleNotification]
    rw [show (s.aside n r).registry = s.registry from rfl]
    cases s.registry.decodeNotification method params <;> exact emit_aside _ n r (by rfl) _
  · dsimp only [handleMessage, handleResponse]
    rw [pendingCall?_aside]
    cases s.pendingCall? m.id with
    | none => exact emit_aside _ n r (by rfl) _
    | some call =>
      cases m.outcome with
      | ok outcome => rfl
      | error fault => exact emit_aside _ n r (by rfl) _

theorem receiveNext_aside : (s.aside n r).receiveNext = s.receiveNext.aside n r := by
  unfold receiveNext
  rw [show (s.aside n r).reader = s.reader from rfl]
  rcases s.reader.next with ⟨payload | _ | cutShort | fault, reader⟩
  · exact handlePayload_aside { s with reader } n r payload
  · rfl
  · cases cutShort <;> exact stop_aside _ n r (by rfl) _
  · exact stop_aside _ n r (by rfl) _

theorem noticeOutbox_aside : (s.aside n r).noticeOutbox = s.noticeOutbox.aside n r := by
  unfold noticeOutbox
  rw [show (s.aside n r).phase = s.phase from rfl, show (s.aside n r).outbox = s.outbox from rfl]
  split
  · exact stop_aside s n r rfl _
  · exact stop_aside s n r rfl _
  all_goals rfl

/-! ## Actions -/

variable {s}

/-- An action that looks at neither happens in the same way whatever they are, and changes
neither. -/
theorem act_aside {a : Action} (ha : a.looksAside = false) :
    (s.aside n r).act a = (s.act a).aside n r := by
  cases a with
  | send | pollWaiter | dropWaiter => cases ha
  | notify m p => exact congrArg Prod.snd (notify_aside s n r m p)
  | poll call =>
    rw [act, act, holds_aside, poll_aside]
    split_ifs <;> rfl
  | cancel call =>
    rw [act, act, holds_aside, cancel_aside]
    split_ifs <;> rfl
  | dropCall call =>
    rw [act, act, holds_aside, dropCall_aside]
    split_ifs <;> rfl
  | respond ticket outcome => exact congrArg Prod.snd (respond_aside s n r ticket outcome)
  | dropTicket ticket => exact dropTicket_aside s n r ticket
  | dropEvents => exact dropEvents_aside s n r
  | countPending => exact congrArg Prod.snd (countPending_aside s n r)
  | close => exact congrArg Prod.snd (close_aside s n r)
  | handle =>
    rw [act, act, isRunning_aside, handleNext_aside]
    split_ifs <;> rfl
  | receive =>
    rw [act, act, isRunning_aside, receiveNext_aside]
    split_ifs <;> rfl
  | release =>
    rw [act, act, stop_aside s n r rfl]
    change (if s.isRunning && s.commands.isEmpty && !s.isHeld then _ else _) = _
    split_ifs <;> rfl
  | notice => exact noticeOutbox_aside s n r
  | _ => rfl

theorem act_eq_aside {a : Action} (ha : a.looksAside = false) :
    s.act a = (s.act a).aside s.nextId s.report :=
  act_aside s.nextId s.report ha

theorem report_send (s : State R N) (m : Rpc.RequestMethod) (p : m.Params) (transient : Bool) :
    (s.send m p transient).2.report = s.report := by
  unfold send
  cases m.params.encode p with
  | error fault => rfl
  | ok params =>
    dsimp only [sendWritten, command]
    split_ifs <;> rfl

theorem report_act {a : Action} (ha : a.looksAside = false) : (s.act a).report = s.report := by
  rw [act_eq_aside ha]
  rfl

end State

end PeerRpc.Session
