import Mathlib
import PeerRpc.Session.Handle

/-!
# What a session knows of its calls

Most of a session's state has no part in how its calls end. `State.core` is the part that has, and
`Core.Step` tells all the ways in which it can change; the lemmas `core_…` say which of them each
function of a session is.
-/

namespace PeerRpc.Session

open Rpc (Envelope Id)

/-- The part of a session's state that its calls depend on. -/
@[ext]
structure Core where
  running : Bool
  nextId : Int64
  commands : List Command
  pending : List (Id × Nat)
  calls : Array Call

/-- A call that its caller has given up: it was cancelled, or let go of before it had ended. -/
def Call.Abandoned (c : Call) : Prop :=
  c.cancelled = true ∨ c.held = false ∧ c.finished = false

/-- The calls, one of which has one more outcome. -/
def settled (calls : Array Call) (call : Nat) (outcome : Outcome) : Array Call :=
  calls.modify call fun k => { k with outcomes := k.outcomes ++ [outcome] }

/-- The calls, some of which have failed because the task stops. -/
def allClosed (calls : Array Call) (slots : List (Id × Nat)) : Array Call :=
  slots.foldl (fun calls p => settled calls p.2 (.error .closed)) calls

namespace Core

/-- The core in which a call has one more outcome. -/
def settle (c : Core) (call : Nat) (outcome : Outcome) : Core :=
  { c with calls := settled c.calls call outcome }

/-- The number of the open call of an identifier. -/
def pendingCall? (c : Core) (id : Id) : Option Nat :=
  (c.pending.find? fun p => p.1 = id).map (·.2)

/-- The core in which the call of an identifier is no longer open. -/
def closePending (c : Core) (id : Id) : Core :=
  { c with pending := c.pending.filter fun p => p.1 ≠ id }

/-- The core with one more command; it is refused once the task has stopped. -/
def enqueue (c : Core) (a : Command) : Core :=
  if c.running then { c with commands := c.commands ++ [a] } else c

/-- The call that a command brings with it, and its identifier. -/
def callOf : Command → Option (Id × Nat)
  | .request id _ _ call => some (id, call)
  | _ => none

/-- The calls whose outcome the task still has to find, queued or open, with their identifiers. -/
def slots (c : Core) : List (Id × Nat) :=
  c.commands.filterMap callOf ++ c.pending

/-- The core after the task has stopped. -/
def stop (c : Core) : Core :=
  { c with running := false, commands := [], pending := [], calls := allClosed c.calls c.slots }

/-- How a core can change. The label tells which call a response of the peer has settled, and with
which outcome. -/
inductive Step : Option (Nat × Outcome) → Core → Core → Prop
  /-- Nothing changes. -/
  | same (c : Core) : Step none c c
  /-- An identifier is used up although the task has stopped. -/
  | refuse (c : Core) (h : c.running = false) :
    Step none c { c with nextId := c.nextId + 1 }
  /-- A call is made. -/
  | send (c : Core) (method : String) (params : Option Json) (transient : Bool)
    (h : c.running = true) :
    Step none c
      ({ c with
        nextId := c.nextId + 1
        calls := c.calls.push { id := .number c.nextId, method, transient } }.enqueue
          (.request (.number c.nextId) method params c.calls.size))
  /-- A command about no call is queued. -/
  | ask (c : Core) (a : Command) (ha : callOf a = none) (hid : ∀ id tell, a ≠ .abandon id tell) :
    Step none c (c.enqueue a)
  /-- A call is marked by its caller. -/
  | mark (c : Core) (call : Nat) (f : Call → Call) (k : Call) (hk : c.calls[call]? = some k)
    (hid : (f k).id = k.id) (ho : (f k).outcomes = k.outcomes)
    (ha : k.Abandoned → (f k).Abandoned) :
    Step none c { c with calls := c.calls.modify call f }
  /-- A call is marked by its caller as given up, and the task is told. -/
  | giveUp (c : Core) (call : Nat) (f : Call → Call) (k : Call) (tell : Bool)
    (hk : c.calls[call]? = some k) (hid : (f k).id = k.id) (ho : (f k).outcomes = k.outcomes)
    (ha : (f k).Abandoned) :
    Step none c ({ c with calls := c.calls.modify call f }.enqueue (.abandon k.id tell))
  /-- A command is handled that makes no difference to the calls. -/
  | skip (c : Core) (a : Command) (rest : List Command) (h : c.commands = a :: rest)
    (ha : callOf a = none) : Step none c { c with commands := rest }
  /-- A queued call is opened. -/
  | register (c : Core) (id : Id) (method : String) (params : Option Json) (call : Nat)
    (rest : List Command) (h : c.commands = .request id method params call :: rest)
    (hn : c.pendingCall? id = none) :
    Step none c { c with commands := rest, pending := c.pending ++ [(id, call)] }
  /-- A queued call has the identifier of an open one. -/
  | reject (c : Core) (id : Id) (method : String) (params : Option Json) (call other : Nat)
    (rest : List Command) (h : c.commands = .request id method params call :: rest)
    (hn : c.pendingCall? id = some other) :
    Step none c ({ c with commands := rest }.settle call (.error (.duplicateId id)))
  /-- A call that was given up is closed. -/
  | abandon (c : Core) (id : Id) (tell : Bool) (call : Nat) (rest : List Command)
    (h : c.commands = .abandon id tell :: rest) (hn : c.pendingCall? id = some call) :
    Step none c (({ c with commands := rest }.closePending id).settle call (.error .cancelled))
  /-- A response of the peer settles a call. -/
  | answer (c : Core) (id : Id) (call : Nat) (outcome : Outcome)
    (hn : c.pendingCall? id = some call) :
    Step (some (call, outcome)) c ((c.closePending id).settle call outcome)
  /-- The task stops. -/
  | stop (c : Core) : Step none c c.stop

end Core

namespace State

variable {R N : Type}

/-- The part of the state that its calls depend on. -/
def core (s : State R N) : Core :=
  ⟨s.isRunning, s.nextId, s.commands, s.pending, s.calls⟩

/-! ## Small functions -/

@[simp] theorem core_log (s : State R N) (level : Log.Level) (text : String) :
    (s.log level text).core = s.core := rfl

@[simp] theorem core_queue (s : State R N) (e : Envelope) : (s.queue e).core = s.core := rfl

@[simp] theorem core_answerWaiter (s : State R N) (waiter count : Nat) :
    (s.answerWaiter waiter count).core = s.core := rfl

@[simp] theorem core_settleCall (s : State R N) (call : Nat) (outcome : Outcome) :
    (s.settleCall call outcome).core = s.core.settle call outcome := rfl

@[simp] theorem core_closePending (s : State R N) (id : Id) :
    (s.closePending id).core = s.core.closePending id := rfl

@[simp] theorem core_emit (s : State R N) (e : Event R N) : (s.emit e).core = s.core := by
  unfold emit
  split <;> rfl

@[simp] theorem core_sendCancel (s : State R N) (id : Id) : (s.sendCancel id).core = s.core := by
  unfold sendCancel
  split <;> rfl

@[simp] theorem core_command (s : State R N) (a : Command) :
    (s.command a).core = s.core.enqueue a := by
  unfold command Core.enqueue
  change _ = if s.isRunning then _ else _
  split_ifs <;> rfl

/-! ## The task -/

theorem core_refuse (s : State R N) (a : Command) :
    (s.refuse a).core =
      (Core.callOf a).elim s.core fun p => s.core.settle p.2 (.error .closed) := by
  cases a <;> rfl

theorem core_foldl_refuse (s : State R N) (commands : List Command) :
    (commands.foldl refuse s).core =
      { s.core with calls := allClosed s.calls (commands.filterMap Core.callOf) } := by
  induction commands generalizing s with
  | nil => rfl
  | cons a rest ih =>
    rw [List.foldl_cons, ih, core_refuse]
    cases a <;> rfl

theorem core_foldl_settle (s : State R N) (pending : List (Id × Nat)) :
    (pending.foldl (fun s p => s.settleCall p.2 (.error .closed)) s).core =
      { s.core with calls := allClosed s.calls pending } := by
  induction pending generalizing s with
  | nil => rfl
  | cons p rest ih =>
    rw [List.foldl_cons, ih, core_settleCall]
    rfl

theorem core_stop (s : State R N) (reason : Stop) : (s.stop reason).core = s.core.stop := by
  have hrefuse := core_foldl_refuse s s.commands
  have hpending : (s.commands.foldl refuse s).pending = s.pending := congrArg Core.pending hrefuse
  have hcalls : (s.commands.foldl refuse s).calls =
      allClosed s.calls (s.commands.filterMap Core.callOf) := congrArg Core.calls hrefuse
  have hcore : ((s.commands.foldl refuse s).pending.foldl
      (fun s p => s.settleCall p.2 (.error .closed)) (s.commands.foldl refuse s)).core =
      { s.core with calls := allClosed s.calls s.core.slots } := by
    rw [hpending, core_foldl_settle, hrefuse, hcalls, Core.slots, allClosed, allClosed, allClosed,
      List.foldl_append]
    rfl
  have hid := congrArg Core.nextId hcore
  have hall := congrArg Core.calls hcore
  cases reason <;> exact Core.ext rfl hid rfl rfl hall

theorem core_handleCommand (s : State R N) (a : Command) (rest : List Command)
    (h : s.commands = a :: rest) :
    Core.Step none s.core ({ s with commands := rest }.handleCommand a).core := by
  cases a with
  | request id method params call =>
    rw [handleCommand]
    split
    · rename_i other hn
      rw [core_emit]
      exact .reject s.core id method params call other rest h hn
    · rename_i hn
      exact .register s.core id method params call rest h hn
  | notify method params => exact .skip s.core _ rest h rfl
  | abandon id tell =>
    rw [handleCommand]
    split
    · exact .skip s.core _ rest h rfl
    · rename_i call hn
      have hstep := Core.Step.abandon s.core id tell call rest h hn
      dsimp only
      split
      · rw [core_sendCancel]
        exact hstep
      · exact hstep
  | count waiter => exact .skip s.core _ rest h rfl
  | close =>
    rw [handleCommand, core_stop]
    have hslots : ({ s with commands := rest } : State R N).core.slots = s.core.slots := by
      unfold Core.slots core
      rw [h]
      rfl
    have hstop : ({ s with commands := rest } : State R N).core.stop = s.core.stop := by
      unfold Core.stop
      rw [hslots]
      rfl
    rw [hstop]
    exact .stop s.core

/-- The call that a payload settles when it is handled, and its outcome. -/
def settledBy (s : State R N) (payload : List UInt8) : Option (Nat × Outcome) :=
  match Rpc.Message.ofPayload payload with
  | .ok (.response r) => (s.pendingCall? r.id).map fun call =>
    (call, match r.outcome with
      | .ok outcome => outcome.mapError .rpc
      | .error fault => .error (.malformedResponse fault.message))
  | _ => none

theorem core_handlePayload (s : State R N) (payload : List UInt8) :
    Core.Step (s.settledBy payload) s.core (s.handlePayload payload).core := by
  unfold settledBy handlePayload
  rcases Rpc.Message.ofPayload payload with fault | ⟨id, method, params⟩ | ⟨method, params⟩ | r
  · dsimp only [handleMalformed]
    rw [core_emit]
    split <;> exact .same s.core
  · dsimp only [handleMessage, handleRequest]
    split
    · rw [deliverRequest]
      split_ifs <;> exact .same s.core
    · rw [core_emit]
      exact .same s.core
  · dsimp only [handleMessage, handleNotification]
    split <;> (rw [core_emit]; exact .same s.core)
  · dsimp only [handleMessage, handleResponse]
    rcases hn : s.pendingCall? r.id with _ | call
    · dsimp only [Option.map_none]
      rw [core_emit]
      exact .same s.core
    · dsimp only [Option.map_some]
      rcases r.outcome with fault | outcome
      · dsimp only
        rw [core_emit]
        exact .answer s.core r.id call _ hn
      · exact .answer s.core r.id call _ hn

/-- What the reader gives next settles a call. -/
def settledNext (s : State R N) : Option (Nat × Outcome) :=
  match s.reader.next with
  | (.payload payload, _) => s.settledBy payload
  | _ => none

theorem core_receiveNext (s : State R N) :
    Core.Step s.settledNext s.core s.receiveNext.core := by
  unfold settledNext receiveNext
  rcases s.reader.next with ⟨payload | _ | cutShort | fault, reader⟩
  · exact core_handlePayload { s with reader } payload
  · exact .same s.core
  · dsimp only
    rw [core_stop]
    cases cutShort <;> exact .stop s.core
  · dsimp only
    rw [core_stop]
    exact .stop s.core

theorem core_noticeOutbox (s : State R N) : Core.Step none s.core s.noticeOutbox.core := by
  unfold noticeOutbox
  split
  · rw [core_stop]
    exact .stop s.core
  · rw [core_stop]
    exact .stop s.core
  · exact .same s.core
  · rename_i hphase _
    have hcore : (s.conclude (.ok ())).core = s.core := by
      refine Core.ext ?_ rfl rfl rfl rfl
      change false = s.isRunning
      rw [isRunning, hphase]
    rw [hcore]
    exact .same s.core
  · exact .same s.core

/-! ## The owner -/

theorem core_send (s : State R N) (m : Rpc.RequestMethod) (p : m.Params) (transient : Bool) :
    Core.Step none s.core (s.send m p transient).2.core := by
  unfold send
  rcases m.params.encode p with fault | params
  · exact .same s.core
  · dsimp only [sendWritten]
    split_ifs with h
    · dsimp only
      rw [core_command]
      exact .send s.core m.name params transient h
    · exact .refuse s.core (Bool.eq_false_iff.2 h)

theorem core_notify (s : State R N) (m : Rpc.NotificationMethod) (p : m.Params) :
    Core.Step none s.core (s.notify m p).2.core := by
  unfold notify
  rcases m.params.encode p with fault | params
  · exact .same s.core
  · dsimp only
    split_ifs
    · dsimp only
      rw [core_command]
      exact .ask s.core _ rfl (by simp)
    · exact .same s.core

theorem core_finishCall (s : State R N) (call : Nat) (k : Call) (hk : s.calls[call]? = some k)
    (hheld : k.held = true) : Core.Step none s.core (s.finishCall call).core := by
  refine .mark s.core call (fun c => { c with finished := true, held := c.held && !c.transient }) k
    hk rfl rfl ?_
  rintro (h | ⟨h, -⟩)
  · exact .inl h
  · rw [hheld] at h
    cases h

variable {s : State R N} {call : Nat} {k : Call}

theorem core_poll (hk : s.calls[call]? = some k) (hheld : k.held = true) :
    Core.Step none s.core (s.poll call).2.core := by
  have hfinish := core_finishCall s call k hk hheld
  rw [poll, hk]
  dsimp only
  split_ifs
  · exact hfinish
  · split
    · exact .same s.core
    · exact hfinish

theorem core_cancel (hk : s.calls[call]? = some k) :
    Core.Step none s.core (s.cancel call).core := by
  rw [cancel, hk]
  dsimp only [abandon]
  split_ifs
  · exact .same s.core
  · rw [core_command]
    exact .giveUp s.core call (fun c => { c with cancelled := true }) k s.cancelOnAbandon hk
      rfl rfl (.inl rfl)

theorem core_dropCall (hk : s.calls[call]? = some k) (hheld : k.held = true) :
    Core.Step none s.core (s.dropCall call).core := by
  rw [dropCall, hk]
  dsimp only [abandon]
  split_ifs with h
  · simp only [Bool.and_eq_true, Bool.not_eq_true'] at h
    have := Core.Step.giveUp s.core call (fun c => { c with held := false }) k s.cancelOnAbandon hk
      rfl rfl (.inr ⟨rfl, h.1.2⟩)
    convert this using 1
    unfold command Core.enqueue
    change _ = if s.isRunning then _ else _
    split_ifs <;> rfl
  · refine .mark s.core call (fun c => { c with held := false }) k hk rfl rfl ?_
    rintro (h | ⟨h, -⟩)
    · exact .inl h
    · rw [hheld] at h
      cases h

theorem core_respond (s : State R N) (ticket : Nat) (outcome : Except Rpc.Failure Json) :
    (s.respond ticket outcome).2.core = s.core := by
  unfold respond
  split
  · rfl
  · dsimp only
    split_ifs <;> rfl

theorem core_dropTicket (s : State R N) (ticket : Nat) : (s.dropTicket ticket).core = s.core := by
  unfold dropTicket
  split <;> rfl

theorem core_dropEvents (s : State R N) : s.dropEvents.core = s.core := by
  unfold dropEvents
  dsimp only
  rw [← Array.foldl_toList]
  generalize s.events.toList = events
  induction events generalizing s with
  | nil => rfl
  | cons e rest ih =>
    rw [List.foldl_cons]
    refine (ih _).trans ?_
    cases e with
    | request id value ticket => exact core_dropTicket s ticket
    | _ => rfl

theorem core_countPending (s : State R N) : Core.Step none s.core s.countPending.2.core := by
  unfold countPending
  dsimp only
  split_ifs
  · dsimp only
    rw [core_command]
    exact .ask s.core _ rfl (by simp)
  · exact .same s.core

theorem core_close (s : State R N) : Core.Step none s.core s.close.2.core := by
  change Core.Step none s.core (s.command .close).core
  rw [core_command]
  exact .ask s.core _ rfl (by simp)

theorem core_pollWaiter (s : State R N) (waiter : Nat) :
    (s.pollWaiter waiter).2.core = s.core := by
  unfold pollWaiter
  split
  · rfl
  · rw [pollJoin]
    split_ifs
    · split <;> rfl
    · rfl
  · rfl

end State

end PeerRpc.Session
