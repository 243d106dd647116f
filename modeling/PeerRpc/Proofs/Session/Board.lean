import PeerRpc.Proofs.Session.Receiving
import PeerRpc.Proofs.Session.Responses

/-!
# Where commands, payloads and waiters meet

The board of a session is what its task works on: whether it is at work, the next identifier, the
commands that wait for it, the open calls, the events, and those who wait for an answer. An action
takes an identifier, a command or a payload, or it stops the task, or else it is of those that can
only queue commands and come or go as waiters: `BoardStep` tells what becomes of the board each
time. The lemmas `board_…` say which of these each function of a session is.
-/

namespace PeerRpc.Session

open Rpc (Id)

/-- The part of a session's state that its task works on. -/
structure Board (R N : Type) where
  running : Bool
  nextId : Int64
  commands : List Command
  pending : List (Id × Nat)
  events : Array (Event R N)
  waiters : Array Waiter

/-- An event that does not say that an identifier is open already. -/
def Event.Harmless {R N : Type} (e : Event R N) : Prop :=
  ∀ id, e ≠ .protocolError (.duplicateRequest id)

/-- A waiter that wants to know the number of open calls is told. -/
def Waiter.told (n : Nat) : Waiter → Waiter
  | .counting _ => .counting (some n)
  | other => other

namespace Board

variable {R N : Type}

/-- The identifiers of the open calls. -/
def keys (b : Board R N) : List Id :=
  b.pending.map (·.1)

/-- What can be done to a board without taking an identifier, a command or a payload. -/
inductive Uses (b : Board R N) : Board R N → Prop
  | queue (more : List Command) : Uses b { b with commands := b.commands ++ more }
  | forget : Uses b { b with events := #[] }
  | wait (more : List Command) : Uses b
    { b with commands := b.commands ++ more, waiters := b.waiters.push .joining }
  | ask (h : b.running = true) : Uses b
    { b with
      commands := b.commands ++ [.count b.waiters.size]
      waiters := b.waiters.push (.counting none) }
  | askStopped (h : b.running = false) :
    Uses b { b with waiters := b.waiters.push (.counting (some 0)) }
  | leave (waiter : Nat) : Uses b { b with waiters := b.waiters.modify waiter fun _ => .gone }

theorem Uses.same (b : Board R N) : Uses b b := by
  have h := Uses.queue (b := b) []
  rwa [List.append_nil] at h

/-- What becomes of a board when the task stops. Those whose commands are refused are told that no
call is open. -/
inductive Stops (b : Board R N) : Board R N → Prop
  | intro (waiters : Array Waiter)
    (h : ∀ (w : Nat) x, waiters[w]? = some x → x = .counting (some 0) ∨
      b.waiters[w]? = some x ∧ (x = .counting none → .count w ∉ b.commands)) :
    Stops b { b with running := false, commands := [], pending := [], waiters }

/-- What becomes of a board when a command is handled that has been taken from it. -/
inductive Obeys (b : Board R N) : Command → Board R N → Prop
  | register (id : Id) (method : String) (params : Option Json) (call : Nat) (h : id ∉ b.keys) :
    Obeys b (.request id method params call) { b with pending := b.pending ++ [(id, call)] }
  | reject (id : Id) (method : String) (params : Option Json) (call : Nat) (h : id ∈ b.keys)
    (events : Array (Event R N)) :
    Obeys b (.request id method params call) { b with events }
  | notify (method : String) (params : Option Json) : Obeys b (.notify method params) b
  | abandon (id : Id) (tell : Bool) :
    Obeys b (.abandon id tell) { b with pending := b.pending.filter fun p => p.1 ≠ id }
  | count (waiter : Nat) :
    Obeys b (.count waiter)
      { b with waiters := b.waiters.modify waiter (Waiter.told b.pending.length) }
  | close (b' : Board R N) (h : b.Stops b') : Obeys b .close b'

/-- The events, perhaps with one more that does not say that an identifier is open already. -/
def Reports (events events' : Array (Event R N)) : Prop :=
  events' = events ∨ ∃ e : Event R N, e.Harmless ∧ events' = events.push e

end Board

namespace State

variable {R N : Type}

/-- The part of the state that the task works on. -/
def board (s : State R N) : Board R N :=
  ⟨s.isRunning, s.nextId, s.commands, s.pending, s.events, s.waiters⟩

/-- The identifier that an action takes for a request, if it takes one. -/
def issued (s : State R N) : Action → List Id
  | .send m p _ =>
    match m.params.encode p with
    | .ok _ => [.number s.nextId]
    | .error _ => []
  | _ => []

/-- The command that an action handles. -/
def obeyed (s : State R N) : Action → Option Command
  | .handle => if s.isRunning then s.commands.head? else none
  | _ => none

/-- An action that takes neither an identifier nor a command nor a payload. -/
structure TakesNothing (s : State R N) (a : Action) : Prop where
  issued : s.issued a = []
  obeyed : s.obeyed a = none
  handled : s.handled a = none

/-! ## The owner -/

/-- The boards that differ from that of the state by some more commands. -/
def Queues (s : State R N) (b : Board R N) : Prop :=
  ∃ more, b = { s.board with commands := s.commands ++ more }

theorem Queues.same (s : State R N) : Queues s s.board :=
  ⟨[], by rw [List.append_nil]; rfl⟩

theorem Queues.uses {s : State R N} {b : Board R N} (h : Queues s b) : s.board.Uses b := by
  obtain ⟨more, rfl⟩ := h
  exact .queue more

theorem board_command (s : State R N) (c : Command) : Queues s (s.command c).board := by
  unfold command
  split
  · exact ⟨[c], rfl⟩
  · exact .same s

/-- A request takes an identifier if its parameters can be written, or else nothing happens. -/
theorem board_send (s : State R N) (m : Rpc.RequestMethod) (p : m.Params) (transient : Bool) :
    s.issued (.send m p transient) = [.number s.nextId] ∧
        (∃ more, (s.send m p transient).2.board =
          { s.board with nextId := s.nextId + 1, commands := s.commands ++ more }) ∨
      s.issued (.send m p transient) = [] ∧ (s.send m p transient).2 = s := by
  unfold send
  dsimp only [issued]
  cases m.params.encode p with
  | error fault => exact .inr ⟨rfl, rfl⟩
  | ok params =>
    refine .inl ⟨rfl, ?_⟩
    dsimp only [sendWritten]
    split
    · exact board_command _ _
    · exact ⟨[], by rw [List.append_nil]; rfl⟩

theorem board_notify (s : State R N) (m : Rpc.NotificationMethod) (p : m.Params) :
    Queues s (s.notify m p).2.board := by
  unfold notify
  split
  · exact .same s
  · split
    · exact board_command _ _
    · exact .same s

theorem board_poll (s : State R N) (call : Nat) : (s.poll call).2.board = s.board := by
  unfold poll
  split
  · rfl
  · split
    · rfl
    · split <;> rfl

theorem board_cancel (s : State R N) (call : Nat) : Queues s (s.cancel call).board := by
  unfold cancel
  split
  · exact .same s
  · split
    · exact .same s
    · exact board_command _ _

theorem board_dropCall (s : State R N) (call : Nat) : Queues s (s.dropCall call).board := by
  unfold dropCall
  split
  · exact .same s
  · dsimp only
    split
    · exact board_command _ _
    · exact .same s

theorem board_respond (s : State R N) (ticket : Nat) (outcome : Except Rpc.Failure Json) :
    (s.respond ticket outcome).2.board = s.board := by
  unfold respond
  split
  · rfl
  · dsimp only
    split <;> rfl

theorem board_dropTicket (s : State R N) (ticket : Nat) :
    (s.dropTicket ticket).board = s.board := by
  unfold dropTicket
  split <;> rfl

theorem board_dropEvents (s : State R N) :
    s.dropEvents.board = { s.board with events := #[] } := by
  have hfold : ∀ (f : State R N → Event R N → State R N),
      (∀ s e, (f s e).board = s.board) → ∀ events s, (List.foldl f s events).board = s.board := by
    intro f hf events
    induction events with
    | nil => exact fun s => rfl
    | cons e rest ih => exact fun s => (ih (f s e)).trans (hf s e)
  unfold dropEvents
  dsimp only
  rw [← Array.foldl_toList]
  refine congrArg (fun b : Board R N => { b with events := #[] }) (hfold _ (fun s e => ?_) _ s)
  cases e with
  | request id value ticket => exact board_dropTicket s ticket
  | _ => rfl

theorem board_countPending (s : State R N) : s.board.Uses s.countPending.2.board := by
  unfold countPending
  dsimp only
  split_ifs with h
  · have hcommand : ({ s with waiters := s.waiters.push (.counting none) }.command
        (.count s.waiters.size)).board =
        { s.board with
          commands := s.commands ++ [.count s.waiters.size]
          waiters := s.waiters.push (.counting none) } := by
      unfold command
      exact congrArg board (if_pos h)
    exact hcommand ▸ .ask h
  · exact .askStopped (Bool.eq_false_iff.2 h)

theorem board_close (s : State R N) : s.board.Uses s.close.2.board := by
  obtain ⟨more, h⟩ := board_command s .close
  have hwaiters : (s.command .close).waiters = s.waiters := congrArg Board.waiters h
  have hboard : s.close.2.board =
      { s.board with commands := s.commands ++ more, waiters := s.waiters.push .joining } := by
    change { (s.command .close).board with
      waiters := (s.command .close).waiters.push .joining } = _
    rw [h, hwaiters]
  exact hboard ▸ .wait more

theorem board_wait (s : State R N) : s.board.Uses s.wait.2.board := by
  have h := Board.Uses.wait (b := s.board) []
  rw [List.append_nil] at h
  exact h

theorem board_pollWaiter (s : State R N) (w : Nat) : s.board.Uses (s.pollWaiter w).2.board := by
  unfold pollWaiter
  split
  · exact .leave w
  · rw [pollJoin]
    split_ifs
    · split
      · exact .leave w
      · exact .leave w
      · exact .same _
    · exact .same _
  · exact .same _

/-! ## The task -/

theorem board_emit (s : State R N) (e : Event R N) :
    (s.emit e).board = { s.board with events := (s.emit e).events } := by
  unfold emit
  split <;> rfl

theorem reports_emit {e : Event R N} (h : e.Harmless) (s : State R N) :
    Board.Reports s.events (s.emit e).events := by
  unfold emit
  split
  · exact .inr ⟨e, h, rfl⟩
  · exact .inl rfl

theorem board_foldl_settle (s : State R N) (pending : List (Id × Nat)) :
    (pending.foldl (fun s p => s.settleCall p.2 (.error .closed)) s).board = s.board := by
  induction pending generalizing s with
  | nil => rfl
  | cons p rest ih => exact ih _

/-- Those whose commands are refused are told that no call is open, and the others nothing. -/
theorem board_foldl_refuse (s : State R N) (commands : List Command) :
    ∃ waiters, (commands.foldl refuse s).board = { s.board with waiters } ∧
      ∀ (w : Nat) x, waiters[w]? = some x → x = .counting (some 0) ∨
        s.waiters[w]? = some x ∧ (x = .counting none → .count w ∉ commands) := by
  induction commands generalizing s with
  | nil => exact ⟨s.waiters, rfl, fun w x h => .inr ⟨h, fun _ => List.not_mem_nil⟩⟩
  | cons c rest ih =>
    obtain ⟨waiters, hboard, h⟩ := ih (s.refuse c)
    refine ⟨waiters, ?_, fun w x hx => ?_⟩
    · rw [List.foldl_cons, hboard]
      cases c <;> rfl
    · rcases h w x hx with hx | ⟨hx, hrest⟩
      · exact .inl hx
      · cases c with
        | count waiter =>
          have hmodify : (s.waiters.modify waiter (Waiter.told 0))[w]? = some x := hx
          rw [Array.getElem?_modify] at hmodify
          split_ifs at hmodify with hw
          · obtain ⟨y, hy, rfl⟩ := Option.map_eq_some_iff.1 hmodify
            cases y with
            | counting answer => exact .inl rfl
            | joining => exact .inr ⟨hy, nofun⟩
            | gone => exact .inr ⟨hy, nofun⟩
          · refine .inr ⟨hmodify, fun he => List.not_mem_cons_of_ne_of_not_mem ?_ (hrest he)⟩
            exact fun he => hw (Command.count.inj he).symm
        | _ => exact .inr ⟨hx, fun he =>
            List.not_mem_cons_of_ne_of_not_mem nofun (hrest he)⟩

theorem board_stop (s : State R N) (reason : Stop) : s.board.Stops (s.stop reason).board := by
  obtain ⟨waiters, hrefuse, h⟩ := board_foldl_refuse s s.commands
  have hboard := (board_foldl_settle (s.commands.foldl refuse s)
    (s.commands.foldl refuse s).pending).trans hrefuse
  have hnext := congrArg Board.nextId hboard
  have hevents := congrArg Board.events hboard
  have hwaiters := congrArg Board.waiters hboard
  dsimp only [board] at hnext hevents hwaiters
  have hstop : (s.stop reason).board =
      { s.board with running := false, commands := [], pending := [], waiters } := by
    cases reason <;> unfold stop board <;> dsimp only [conclude, log] <;>
      rw [hnext, hevents, hwaiters] <;> rfl
  rw [hstop]
  exact .intro waiters h

theorem board_handleCommand (s : State R N) (c : Command) :
    s.board.Obeys c (s.handleCommand c).board := by
  cases c with
  | request id method params call =>
    rw [handleCommand]
    split
    · rename_i other h
      have hmem : id ∈ s.board.keys := Core.mem_keys_iff (c := s.core) |>.2 ⟨other, h⟩
      rw [board_emit]
      exact .reject id method params call hmem _
    · rename_i h
      exact .register id method params call (Core.pendingCall?_eq_none (c := s.core).1 h)
  | notify method params => exact .notify method params
  | abandon id tell =>
    have habandon : s.board.Obeys (.abandon id tell)
        { s.board with pending := s.pending.filter fun p => p.1 ≠ id } := .abandon id tell
    rw [handleCommand]
    split
    · rename_i h
      have hsame := congrArg Core.pending (Core.closePending_of_none (c := s.core) h)
      have hboard : { s.board with pending := s.pending.filter fun p => p.1 ≠ id } = s.board :=
        congrArg (fun pending => { s.board with pending }) hsame
      rwa [hboard] at habandon
    · dsimp only
      split
      · unfold sendCancel
        split <;> exact habandon
      · exact habandon
  | count waiter => exact .count waiter
  | close => exact .close _ (board_stop s .closed)

theorem reports_handlePayload (s : State R N) (payload : List UInt8) :
    Board.Reports s.events (s.handlePayload payload).events ∧
      (s.handlePayload payload).waiters = s.waiters := by
  have hemit : ∀ (s' : State R N) {e : Event R N}, e.Harmless → s'.events = s.events →
      s'.waiters = s.waiters → Board.Reports s.events (s'.emit e).events ∧
        (s'.emit e).waiters = s.waiters := by
    intro s' e he hevents hwaiters
    refine ⟨hevents ▸ reports_emit he s', ?_⟩
    exact (congrArg Board.waiters (board_emit s' e)).trans hwaiters
  unfold handlePayload
  rcases Rpc.Message.ofPayload payload with fault | ⟨id, method, params⟩ | ⟨method, params⟩ | r
  · dsimp only [handleMalformed]
    split <;> exact hemit _ (fun _ h => by cases h) rfl rfl
  · dsimp only [handleMessage, handleRequest]
    split
    · rename_i value _
      unfold deliverRequest
      split
      · exact ⟨.inr ⟨.request id value s.tickets.size, fun _ => nofun, rfl⟩, rfl⟩
      · exact ⟨.inl rfl, rfl⟩
    · exact hemit _ (fun _ h => by cases h) rfl rfl
  · dsimp only [handleMessage, handleNotification]
    split
    · exact hemit _ (fun _ => nofun) rfl rfl
    · exact hemit _ (fun _ h => by cases h) rfl rfl
  · dsimp only [handleMessage, handleResponse]
    split
    · exact hemit _ (fun _ h => by cases h) rfl rfl
    · split
      · exact ⟨.inl rfl, rfl⟩
      · exact hemit _ (fun _ h => by cases h) rfl rfl

/-- A payload closes the call whose identifier it has if it is a response, and reports nothing that
is about an identifier that is open already. -/
theorem board_handlePayload (s : State R N) (payload : List UInt8) :
    ∃ events, Board.Reports s.events events ∧ (s.handlePayload payload).board =
      { s.board with
        pending := s.pending.filter fun p => (response? payload).map (·.id) ≠ some p.1
        events } := by
  obtain ⟨hreports, hwaiters⟩ := reports_handlePayload s payload
  refine ⟨_, hreports, ?_⟩
  have hcore : (s.handlePayload payload).core =
      { s.core with
        pending := s.pending.filter fun p => (response? payload).map (·.id) ≠ some p.1
        calls := (s.handlePayload payload).calls } := by
    cases hr : response? payload with
    | none =>
      have hpending : s.pending.filter (fun p => (none : Option Id) ≠ some p.1) = s.pending :=
        List.filter_eq_self.2 fun p _ => by simp
      have hsame := core_handlePayload_of_none (s := s) hr
      have hcalls : (s.handlePayload payload).calls = s.calls := congrArg Core.calls hsame
      rw [hsame, hcalls, Option.map_none, hpending]
      rfl
    | some r =>
      have hanswer := core_handlePayload_of_response (s := s) hr
      have hcalls : (s.handlePayload payload).calls = (s.core.answer r).calls :=
        congrArg Core.calls hanswer
      obtain ⟨hrunning, hnext, hcommands⟩ := Core.answers_keeps s.core [r]
      rw [hanswer]
      refine Core.ext hrunning hnext hcommands ?_ hcalls.symm
      rw [Core.answer_pending]
      refine List.filter_congr fun p _ => ?_
      rw [Option.map_some, decide_eq_decide, ne_comm, ne_eq, ne_eq, Option.some_inj]
  have hrunning : (s.handlePayload payload).isRunning = s.isRunning :=
    congrArg Core.running hcore
  have hnext := congrArg Core.nextId hcore
  have hcommands := congrArg Core.commands hcore
  have hpending := congrArg Core.pending hcore
  dsimp only [core] at hnext hcommands hpending
  unfold board
  rw [hrunning, hnext, hcommands, hpending, hwaiters]

/-! ## All of it -/

/-- What becomes of the board in an action. -/
inductive BoardStep (s : State R N) : Action → Board R N → Prop
  | use {a : Action} {b : Board R N} (ha : s.TakesNothing a) (h : s.board.Uses b) : BoardStep s a b
  | issue {a : Action} (more : List Command) (ha : s.issued a = [.number s.nextId])
    (ho : s.obeyed a = none) (hp : s.handled a = none) :
    BoardStep s a { s.board with nextId := s.nextId + 1, commands := s.commands ++ more }
  | obey {b : Board R N} (c : Command) (rest : List Command) (hrun : s.isRunning = true)
    (hc : s.commands = c :: rest) (h : Board.Obeys { s.board with commands := rest } c b) :
    BoardStep s .handle b
  | receive (payload : List UInt8) (events : Array (Event R N))
    (hp : s.handled .receive = some payload) (he : Board.Reports s.events events) :
    BoardStep s .receive
      { s.board with
        pending := s.pending.filter fun p => (response? payload).map (·.id) ≠ some p.1
        events }
  | stop {a : Action} {b : Board R N} (ha : s.TakesNothing a) (hrun : s.isRunning = true)
    (h : s.board.Stops b) : BoardStep s a b

variable {s : State R N}

theorem BoardStep.of_queues {a : Action} {b : Board R N} (ha : s.TakesNothing a)
    (h : Queues s b) : BoardStep s a b :=
  .use ha h.uses

theorem BoardStep.same {a : Action} (ha : s.TakesNothing a) : BoardStep s a s.board :=
  .use ha (.same _)

theorem boardStep_handle (s : State R N) : BoardStep s .handle (s.act .handle).board := by
  rw [act]
  split_ifs with hrun
  · unfold handleNext
    split
    · rename_i hc
      exact .same ⟨rfl, by rw [obeyed, if_pos hrun, hc]; rfl, rfl⟩
    · rename_i c rest hc
      exact .obey c rest hrun hc (board_handleCommand { s with commands := rest } c)
  · exact .same ⟨rfl, by rw [obeyed, if_neg hrun], rfl⟩

theorem boardStep_receive (s : State R N) : BoardStep s .receive (s.act .receive).board := by
  rw [act]
  split_ifs with hrun
  · have hother : (∀ payload, s.reader.next.1 ≠ .payload payload) → s.TakesNothing .receive :=
      fun h => ⟨rfl, rfl, handled_of_other h⟩
    have hstop : ∀ (s' : State R N) (reason : Stop), s'.board = s.board →
        s.board.Stops (s'.stop reason).board := fun s' reason h => h ▸ board_stop s' reason
    unfold receiveNext
    rcases hn : s.reader.next with ⟨payload | _ | cutShort | fault, reader⟩
    · obtain ⟨events, hreports, hboard⟩ := board_handlePayload { s with reader } payload
      dsimp only
      rw [hboard]
      exact .receive payload events (handled_of_payload hrun hn) hreports
    · exact .same (hother (hn ▸ fun _ => Frame.Received.noConfusion))
    · refine .stop (hother (hn ▸ fun _ => Frame.Received.noConfusion)) hrun ?_
      cases cutShort <;> exact hstop _ _ rfl
    · exact .stop (hother (hn ▸ fun _ => Frame.Received.noConfusion)) hrun (hstop _ _ rfl)
  · exact .same ⟨rfl, rfl, by rw [handled, if_neg hrun]⟩

theorem boardStep_notice (s : State R N) : BoardStep s .notice (s.act .notice).board := by
  have ha : s.TakesNothing .notice := ⟨rfl, rfl, rfl⟩
  rw [act]
  unfold noticeOutbox
  split
  · rename_i hphase _
    exact .stop ha (by rw [isRunning, hphase]) (board_stop _ _)
  · rename_i hphase _
    exact .stop ha (by rw [isRunning, hphase]) (board_stop _ _)
  · exact .same ha
  · rename_i hphase _
    have hboard : (s.conclude (.ok ())).board = s.board := by
      unfold board isRunning
      rw [hphase]
      rfl
    rw [hboard]
    exact .same ha
  · exact .same ha

/-- How an action changes the board. -/
theorem board_act (s : State R N) (a : Action) : BoardStep s a (s.act a).board := by
  cases a with
  | send m p transient =>
    rcases board_send s m p transient with ⟨ha, more, h⟩ | ⟨ha, h⟩
    · rw [act, h]
      exact .issue more ha rfl rfl
    · rw [act, h]
      exact .same ⟨ha, rfl, rfl⟩
  | notify m p => exact .of_queues ⟨rfl, rfl, rfl⟩ (board_notify s m p)
  | poll call =>
    rw [act]
    split_ifs
    · rw [board_poll]
      exact .same ⟨rfl, rfl, rfl⟩
    · exact .same ⟨rfl, rfl, rfl⟩
  | cancel call =>
    rw [act]
    split_ifs
    · exact .of_queues ⟨rfl, rfl, rfl⟩ (board_cancel s call)
    · exact .same ⟨rfl, rfl, rfl⟩
  | dropCall call =>
    rw [act]
    split_ifs
    · exact .of_queues ⟨rfl, rfl, rfl⟩ (board_dropCall s call)
    · exact .same ⟨rfl, rfl, rfl⟩
  | respond ticket outcome =>
    rw [act, board_respond]
    exact .same ⟨rfl, rfl, rfl⟩
  | dropTicket ticket =>
    rw [act, board_dropTicket]
    exact .same ⟨rfl, rfl, rfl⟩
  | takeEvents => exact .use ⟨rfl, rfl, rfl⟩ .forget
  | dropEvents =>
    rw [act, board_dropEvents]
    exact .use ⟨rfl, rfl, rfl⟩ .forget
  | countPending => exact .use ⟨rfl, rfl, rfl⟩ (board_countPending s)
  | wait => exact .use ⟨rfl, rfl, rfl⟩ (board_wait s)
  | close => exact .use ⟨rfl, rfl, rfl⟩ (board_close s)
  | pollWaiter waiter => exact .use ⟨rfl, rfl, rfl⟩ (board_pollWaiter s waiter)
  | dropWaiter waiter => exact .use ⟨rfl, rfl, rfl⟩ (.leave waiter)
  | handle => exact boardStep_handle s
  | receive => exact boardStep_receive s
  | release =>
    rw [act]
    split_ifs with h
    · simp only [Bool.and_eq_true] at h
      exact .stop ⟨rfl, rfl, rfl⟩ h.1.1 (board_stop s .closed)
    · exact .same ⟨rfl, rfl, rfl⟩
  | notice => exact boardStep_notice s
  | takeRecords | addHandle | dropHandle | arrive _ | closeSource _ | setSink _ | write =>
    exact .same ⟨rfl, rfl, rfl⟩

end State

end PeerRpc.Session
