import PeerRpc.Proofs.Session.Desk

/-!
# What a session makes of a message, and who hears of it

The *audience* of a session is the registry, which tells what a message means, whether someone
listens, and the events that wait. The registry never changes, nobody listens again who has stopped,
and unless events are taken or thrown away the ones that wait stay there, with new ones behind them
(`audience_act`).
-/

namespace PeerRpc.Session

open Rpc (Failure Id Registry)

/-- The part of a session's state that decides what its owner is told. -/
@[ext]
structure Audience (R N : Type) where
  registry : Registry R N
  listening : Bool
  events : Array (Event R N)

/-- Whether an action takes events away. -/
def Action.takesEvents : Action → Bool
  | .takeEvents | .dropEvents => true
  | _ => false

/-- Whether an action can lead to an event. -/
def Action.speaks : Action → Bool
  | .handle | .receive => true
  | _ => false

namespace Audience

variable {R N : Type}

/-- An audience is told something or nothing. -/
structure Hears (a a' : Audience R N) : Prop where
  registry : a'.registry = a.registry
  listening : a'.listening = a.listening
  events : ∃ news, a'.events.toList = a.events.toList ++ news

theorem Hears.refl (a : Audience R N) : a.Hears a :=
  ⟨rfl, rfl, [], (List.append_nil _).symm⟩

theorem Hears.of_eq {a a' : Audience R N} (h : a' = a) : a.Hears a' :=
  h ▸ .refl a

theorem Hears.push (a : Audience R N) (e : Event R N) :
    a.Hears { a with events := a.events.push e } :=
  ⟨rfl, rfl, [e], Array.toList_push⟩

end Audience

namespace State

variable {R N : Type}

/-- The part of the state that decides what the owner is told. -/
def audience (s : State R N) : Audience R N :=
  ⟨s.registry, s.listening, s.events⟩

/-! ## The owner -/

theorem audience_command (s : State R N) (c : Command) : (s.command c).audience = s.audience := by
  unfold command
  split <;> rfl

theorem audience_send (s : State R N) (m : Rpc.RequestMethod) (p : m.Params) (transient : Bool) :
    (s.send m p transient).2.audience = s.audience := by
  unfold send sendWritten
  split
  · rfl
  · dsimp only
    split
    · exact audience_command _ _
    · rfl

theorem audience_notify (s : State R N) (m : Rpc.NotificationMethod) (p : m.Params) :
    (s.notify m p).2.audience = s.audience := by
  unfold notify
  split
  · rfl
  · split
    · exact audience_command _ _
    · rfl

theorem audience_poll (s : State R N) (call : Nat) : (s.poll call).2.audience = s.audience := by
  unfold poll
  split
  · rfl
  · split
    · rfl
    · split <;> rfl

theorem audience_cancel (s : State R N) (call : Nat) : (s.cancel call).audience = s.audience := by
  unfold cancel
  split
  · rfl
  · split
    · rfl
    · exact audience_command _ _

theorem audience_dropCall (s : State R N) (call : Nat) :
    (s.dropCall call).audience = s.audience := by
  unfold dropCall
  split
  · rfl
  · dsimp only
    split
    · exact audience_command _ _
    · rfl

theorem audience_respond (s : State R N) (ticket : Nat) (outcome : Except Failure Json) :
    (s.respond ticket outcome).2.audience = s.audience := by
  unfold respond
  split
  · rfl
  · dsimp only
    split <;> rfl

theorem audience_dropTicket (s : State R N) (ticket : Nat) :
    (s.dropTicket ticket).audience = s.audience := by
  unfold dropTicket
  split <;> rfl

theorem audience_countPending (s : State R N) : s.countPending.2.audience = s.audience := by
  unfold countPending
  dsimp only
  split
  · exact audience_command _ _
  · rfl

theorem audience_pollWaiter (s : State R N) (waiter : Nat) :
    (s.pollWaiter waiter).2.audience = s.audience := by
  unfold pollWaiter
  split
  · rfl
  · rw [pollJoin]
    split_ifs
    · split <;> rfl
    · rfl
  · rfl

/-! ## The task -/

theorem audience_foldl_refuse (s : State R N) (commands : List Command) :
    (commands.foldl refuse s).audience = s.audience := by
  induction commands generalizing s with
  | nil => rfl
  | cons c rest ih =>
    rw [List.foldl_cons, ih]
    cases c <;> rfl

theorem audience_foldl_settle (s : State R N) (pending : List (Id × Nat)) :
    (pending.foldl (fun s p => s.settleCall p.2 (.error .closed)) s).audience = s.audience := by
  induction pending generalizing s with
  | nil => rfl
  | cons p rest ih => exact ih _

/-- Who stops tells nobody: what waits goes on waiting. -/
theorem audience_stop (s : State R N) (reason : Stop) : (s.stop reason).audience = s.audience := by
  have h : ((s.commands.foldl refuse s).pending.foldl
      (fun s p => s.settleCall p.2 (.error .closed)) (s.commands.foldl refuse s)).audience =
      s.audience := by rw [audience_foldl_settle, audience_foldl_refuse]
  cases reason <;> exact h

variable {s : State R N}

theorem audience_sendCancel (s : State R N) (id : Id) :
    (s.sendCancel id).audience = s.audience := by
  unfold sendCancel
  split <;> rfl

theorem hears_emit (s : State R N) (e : Event R N) : s.audience.Hears (s.emit e).audience := by
  unfold emit
  split
  · exact .push s.audience e
  · exact .refl _

/-- Only a request with an identifier that is open already leads to an event. -/
theorem audience_handleCommand {c : Command}
    (h : ∀ id method params call, c = .request id method params call → s.pendingCall? id = none) :
    (s.handleCommand c).audience = s.audience := by
  cases c with
  | request id method params call =>
    rw [handleCommand, h id method params call rfl]
    rfl
  | notify method params => rfl
  | abandon id tell =>
    rw [handleCommand]
    split
    · rfl
    · dsimp only
      split
      · exact audience_sendCancel _ id
      · rfl
  | count waiter => rfl
  | close => exact audience_stop s .closed

theorem hears_handleCommand (s : State R N) (c : Command) :
    s.audience.Hears (s.handleCommand c).audience := by
  cases c with
  | request id method params call =>
    rw [handleCommand]
    split
    · exact hears_emit (s.log _ _ |>.settleCall call _) _
    · exact .refl _
  | _ => exact .of_eq (audience_handleCommand (by simp))

theorem hears_handleNext (s : State R N) : s.audience.Hears s.handleNext.audience := by
  unfold handleNext
  rcases s.commands with _ | ⟨c, rest⟩
  · exact .refl _
  · exact hears_handleCommand { s with commands := rest } c

theorem hears_handleMessage (s : State R N) (message : Rpc.Message) :
    s.audience.Hears (s.handleMessage message).audience := by
  cases message with
  | request id method params =>
    rw [handleMessage, handleRequest]
    split
    · rw [deliverRequest]
      split
      · exact .push s.audience _
      · exact .refl _
    · exact hears_emit (s.log _ _ |>.queue _) _
  | notification method params =>
    rw [handleMessage, handleNotification]
    split
    · exact hears_emit s _
    · exact hears_emit (s.log _ _) _
  | response r =>
    rw [handleMessage, handleResponse]
    split
    · exact hears_emit (s.log _ _) _
    · dsimp only
      split
      · exact .refl _
      · exact hears_emit (s.closePending r.id |>.log _ _ |>.settleCall _ _) _

theorem hears_handlePayload (s : State R N) (payload : List UInt8) :
    s.audience.Hears (s.handlePayload payload).audience := by
  unfold handlePayload
  split
  · exact hears_handleMessage s _
  · unfold handleMalformed
    dsimp only
    split
    · exact hears_emit (s.log _ _ |>.queue _) _
    · exact hears_emit (s.log _ _) _

/-- Without a payload there is no event. -/
theorem audience_receiveNext (h : ∀ payload, s.reader.next.1 ≠ .payload payload) :
    s.receiveNext.audience = s.audience := by
  unfold receiveNext
  rcases hn : s.reader.next with ⟨payload | _ | cutShort | fault, reader⟩
  · exact absurd (congrArg Prod.fst hn) (h payload)
  · rfl
  · dsimp only
    rw [audience_stop]
    cases cutShort <;> rfl
  · dsimp only
    rw [audience_stop]
    rfl

theorem hears_receiveNext (s : State R N) : s.audience.Hears s.receiveNext.audience := by
  by_cases h : ∃ payload, s.reader.next.1 = .payload payload
  · obtain ⟨payload, h⟩ := h
    rw [receiveNext_of_payload (Prod.ext h rfl)]
    exact hears_handlePayload { s with reader := s.reader.next.2 } payload
  · exact .of_eq (audience_receiveNext fun payload hp => h ⟨payload, hp⟩)

theorem audience_noticeOutbox (s : State R N) : s.noticeOutbox.audience = s.audience := by
  unfold noticeOutbox
  split
  · exact audience_stop s _
  · exact audience_stop s _
  · rfl
  · rfl
  · rfl

/-! ## Actions -/

theorem audience_act_of_quiet (s : State R N) {a : Action} (ha : a.takesEvents = false)
    (hs : a.speaks = false) : (s.act a).audience = s.audience := by
  cases a with
  | send m p transient => exact audience_send s m p transient
  | notify m p => exact audience_notify s m p
  | countPending => exact audience_countPending s
  | close => exact audience_command s .close
  | poll call =>
    rw [act]
    split_ifs
    · exact audience_poll s call
    · rfl
  | cancel call =>
    rw [act]
    split_ifs
    · exact audience_cancel s call
    · rfl
  | dropCall call =>
    rw [act]
    split_ifs
    · exact audience_dropCall s call
    · rfl
  | respond ticket outcome => exact audience_respond s ticket outcome
  | dropTicket ticket => exact audience_dropTicket s ticket
  | pollWaiter waiter => exact audience_pollWaiter s waiter
  | release =>
    rw [act]
    split_ifs
    · exact audience_stop s .closed
    · rfl
  | notice => exact audience_noticeOutbox s
  | addHandle | dropHandle | wait | dropWaiter | takeRecords | arrive | closeSource | setSink
  | write => rfl
  | takeEvents | dropEvents => cases ha
  | handle | receive => cases hs

/-- An action that takes no events away leaves those that wait where they are. -/
theorem audience_act (s : State R N) {a : Action} (ha : a.takesEvents = false) :
    s.audience.Hears (s.act a).audience := by
  by_cases hs : a.speaks = true
  · cases a with
    | handle =>
      rw [act]
      split_ifs
      · exact hears_handleNext s
      · exact .refl _
    | receive =>
      rw [act]
      split_ifs
      · exact hears_receiveNext s
      · exact .refl _
    | _ => cases hs
  · exact .of_eq (audience_act_of_quiet s ha (Bool.eq_false_iff.2 hs))

theorem audience_dropEvents (s : State R N) :
    s.dropEvents.audience = { s.audience with listening := false, events := #[] } := by
  unfold dropEvents
  dsimp only
  rw [← Array.foldl_toList]
  refine Audience.ext ?_ rfl rfl
  refine List.foldlRecOn (motive := fun s' : State R N => s'.registry = s.registry) _ _ rfl ?_
  intro s' hs' e _
  cases e with
  | request id value ticket =>
    exact (congrArg Audience.registry (audience_dropTicket s' ticket)).trans hs'
  | _ => exact hs'

/-- The registry stays as it is. -/
theorem registry_act (s : State R N) (a : Action) : (s.act a).registry = s.registry := by
  by_cases ha : a.takesEvents = true
  · cases a with
    | takeEvents => rfl
    | dropEvents => exact congrArg Audience.registry (audience_dropEvents s)
    | _ => cases ha
  · exact (audience_act s (Bool.eq_false_iff.2 ha)).registry

/-- Nobody listens again who has stopped. -/
theorem not_listening_act {s : State R N} (h : s.listening = false) (a : Action) :
    (s.act a).listening = false := by
  by_cases ha : a.takesEvents = true
  · cases a with
    | takeEvents => exact h
    | dropEvents => exact congrArg Audience.listening (audience_dropEvents s)
    | _ => cases ha
  · exact (audience_act s (Bool.eq_false_iff.2 ha)).listening.trans h

end State

end PeerRpc.Session
