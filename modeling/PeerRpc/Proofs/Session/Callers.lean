import PeerRpc.Proofs.Session.Pending
import PeerRpc.Proofs.Session.Requests

/-!
# What callers do with their calls

A caller holds a call until it lets go of it, may cancel it, and is told how it ended;
`State.callers` is the part of a session's state that says so. Nothing but the caller changes it
(`callers_act`). A call that its caller still waits for stays one, or the task is told that it is
given up (`live_act`). `State.AsksFor` says which action asks the task for which command, and the
queue of the task grows by nothing else (`mem_commands_act`).
-/

namespace PeerRpc.Session

open Rpc (Id)

/-- A call whose caller still waits for it. -/
structure Call.Live (k : Call) : Prop where
  held : k.held = true
  unfinished : k.finished = false
  kept : k.cancelled = false

/-- A call without what the task has found out about it. -/
def Call.mark (k : Call) : Call :=
  { k with outcomes := [] }

theorem Call.Live.of_mark {k k' : Call} (h : k.Live) (hm : k'.mark = k.mark) : k'.Live :=
  ⟨(congrArg Call.held hm).trans h.held, (congrArg Call.finished hm).trans h.unfinished,
    (congrArg Call.cancelled hm).trans h.kept⟩

/-- What the callers have done with some calls. -/
def marks (calls : Array Call) : Array Call :=
  calls.map Call.mark

theorem marks_settled (calls : Array Call) (call : Nat) (outcome : Outcome) :
    marks (settled calls call outcome) = marks calls := by
  refine Array.ext_getElem? fun i => ?_
  rw [marks, marks, Array.getElem?_map, Array.getElem?_map, getElem?_settled]
  split_ifs
  · rw [Option.map_map]
    rfl
  · rfl

theorem mark_of_marks {calls calls' : Array Call} (h : marks calls' = marks calls) {i : Nat}
    {k : Call} (hk : calls[i]? = some k) : ∃ k', calls'[i]? = some k' ∧ k'.mark = k.mark := by
  have hi := congrArg (·[i]?) h
  dsimp only [marks] at hi
  rw [Array.getElem?_map, Array.getElem?_map, hk] at hi
  exact Option.map_eq_some_iff.1 hi

namespace State

variable {R N : Type}

/-- Whether the peer is told of a call that is given up, and what the callers have done with theirs.
-/
def callers (s : State R N) : Bool × Array Call :=
  (s.cancelOnAbandon, marks s.calls)

/-! ## The task and the others -/

theorem callers_emit (s : State R N) (e : Event R N) : (s.emit e).callers = s.callers := by
  unfold emit
  split <;> rfl

theorem callers_command (s : State R N) (c : Command) : (s.command c).callers = s.callers := by
  unfold command
  split <;> rfl

theorem callers_settleCall (s : State R N) (call : Nat) (outcome : Outcome) :
    (s.settleCall call outcome).callers = s.callers :=
  congrArg (Prod.mk s.cancelOnAbandon) (marks_settled s.calls call outcome)

theorem callers_sendCancel (s : State R N) (id : Id) : (s.sendCancel id).callers = s.callers := by
  unfold sendCancel
  split <;> rfl

theorem callers_stop (s : State R N) (reason : Stop) : (s.stop reason).callers = s.callers := by
  have hrefuse : ∀ (commands : List Command) (s : State R N),
      (commands.foldl refuse s).callers = s.callers := by
    intro commands
    induction commands with
    | nil => exact fun s => rfl
    | cons c rest ih =>
      intro s
      refine (ih _).trans ?_
      cases c with
      | request id method params call => exact callers_settleCall s call _
      | _ => rfl
  have hsettle : ∀ (pending : List (Id × Nat)) (s : State R N),
      (pending.foldl (fun s p => s.settleCall p.2 (.error .closed)) s).callers = s.callers := by
    intro pending
    induction pending with
    | nil => exact fun s => rfl
    | cons p rest ih => exact fun s => (ih _).trans (callers_settleCall s p.2 _)
  have h := (hsettle (s.commands.foldl refuse s).pending (s.commands.foldl refuse s)).trans
    (hrefuse s.commands s)
  cases reason <;> exact h

theorem callers_handleCommand (s : State R N) (c : Command) :
    (s.handleCommand c).callers = s.callers := by
  cases c with
  | request id method params call =>
    rw [handleCommand]
    split
    · rw [callers_emit]
      exact callers_settleCall _ _ _
    · rfl
  | notify method params => rfl
  | abandon id tell =>
    rw [handleCommand]
    split
    · rfl
    · dsimp only
      split
      · rw [callers_sendCancel]
        exact callers_settleCall _ _ _
      · exact callers_settleCall _ _ _
  | count waiter => rfl
  | close => exact callers_stop s _

theorem callers_handlePayload (s : State R N) (payload : List UInt8) :
    (s.handlePayload payload).callers = s.callers := by
  unfold handlePayload
  rcases Rpc.Message.ofPayload payload with fault | ⟨id, method, params⟩ | ⟨method, params⟩ | r
  · dsimp only [handleMalformed]
    rw [callers_emit]
    split <;> rfl
  · dsimp only [handleMessage, handleRequest]
    split
    · unfold deliverRequest
      split <;> rfl
    · rw [callers_emit]
      rfl
  · dsimp only [handleMessage, handleNotification]
    split
    · exact callers_emit _ _
    · exact callers_emit _ _
  · dsimp only [handleMessage, handleResponse]
    split
    · rw [callers_emit]
      rfl
    · split
      · exact callers_settleCall _ _ _
      · rw [callers_emit]
        exact callers_settleCall _ _ _

theorem callers_receiveNext (s : State R N) : s.receiveNext.callers = s.callers := by
  unfold receiveNext
  rcases s.reader.next with ⟨payload | _ | cutShort | fault, reader⟩
  · exact callers_handlePayload _ _
  · rfl
  · dsimp only
    rw [callers_stop]
    cases cutShort <;> rfl
  · exact callers_stop _ _

theorem callers_noticeOutbox (s : State R N) : s.noticeOutbox.callers = s.callers := by
  unfold noticeOutbox
  split
  · exact callers_stop s _
  · exact callers_stop s _
  all_goals rfl

theorem callers_dropTicket (s : State R N) (ticket : Nat) :
    (s.dropTicket ticket).callers = s.callers := by
  unfold dropTicket
  split <;> rfl

theorem callers_dropEvents (s : State R N) : s.dropEvents.callers = s.callers := by
  unfold dropEvents
  dsimp only
  rw [← Array.foldl_toList]
  generalize s.events.toList = events
  induction events generalizing s with
  | nil => rfl
  | cons e rest ih =>
    rw [List.foldl_cons]
    refine (ih _).trans ?_
    cases e with
    | request id value ticket => exact callers_dropTicket s ticket
    | _ => rfl

end State

/-- Whether an action is that of a caller who makes a call or uses it. -/
def Action.usesCall : Action → Bool
  | .send .. | .poll _ | .cancel _ | .dropCall _ => true
  | _ => false

namespace State

variable {R N : Type} {s : State R N} {a : Action} {i : Nat} {k : Call}

/-- Nothing else that happens to a session has to do with the callers. -/
theorem callers_act (ha : a.usesCall = false) (s : State R N) :
    (s.act a).callers = s.callers := by
  cases a with
  | send | poll | cancel | dropCall => cases ha
  | notify m p =>
    rw [act]
    unfold notify
    split
    · rfl
    · split
      · exact callers_command _ _
      · rfl
  | respond ticket outcome =>
    rw [act]
    unfold respond
    split
    · rfl
    · dsimp only
      split <;> rfl
  | dropTicket ticket => exact callers_dropTicket s ticket
  | dropEvents => exact callers_dropEvents s
  | countPending =>
    rw [act]
    unfold countPending
    dsimp only
    split
    · exact callers_command _ _
    · rfl
  | close => exact callers_command s .close
  | pollWaiter waiter =>
    rw [act]
    unfold pollWaiter
    split
    · rfl
    · rw [pollJoin]
      split_ifs
      · split <;> rfl
      · rfl
    · rfl
  | handle =>
    rw [act, handleNext]
    split_ifs
    · split
      · rfl
      · exact callers_handleCommand _ _
    · rfl
  | receive =>
    rw [act]
    split_ifs
    · exact callers_receiveNext s
    · rfl
  | release =>
    rw [act]
    split_ifs
    · exact callers_stop s _
    · rfl
  | notice => exact callers_noticeOutbox s
  | _ => rfl

/-! ## Callers -/

/-- A poll changes nothing, or it tells the caller how the call ended. -/
theorem poll_cases (s : State R N) (call : Nat) :
    (s.poll call).2 = s ∨ ∃ k, s.calls[call]? = some k ∧
      (k.finished = true ∨ k.cancelled = true ∨ k.outcomes ≠ []) ∧
      (s.poll call).2 = s.finishCall call := by
  unfold poll
  cases hk : s.calls[call]? with
  | none => exact .inl rfl
  | some k =>
    dsimp only
    split_ifs with h
    · rw [Bool.or_eq_true] at h
      exact .inr ⟨k, rfl, h.imp_right .inl, rfl⟩
    · cases ho : k.outcomes with
      | nil => exact .inl rfl
      | cons outcome rest => exact .inr ⟨k, rfl, .inr (.inr (ho ▸ List.cons_ne_nil _ _)), rfl⟩

/-- A call that is cancelled is given up, unless that makes no sense any more. -/
theorem cancel_cases (s : State R N) (call : Nat) :
    s.cancel call = s ∨
      ∃ k, s.calls[call]? = some k ∧ (k.finished = false ∧ k.cancelled = false) ∧ s.cancel call =
        ({ s with calls := s.calls.modify call fun c => { c with cancelled := true } } :
          State R N).abandon k := by
  unfold cancel
  cases hk : s.calls[call]? with
  | none => exact .inl rfl
  | some k =>
    dsimp only
    split_ifs with h
    · exact .inl rfl
    · rw [Bool.or_eq_true, not_or, Bool.not_eq_true, Bool.not_eq_true] at h
      exact .inr ⟨k, rfl, h, rfl⟩

/-- A call that is let go of is given up first if its caller still waits for it. -/
theorem dropCall_cases (s : State R N) (call : Nat) :
    s.dropCall call = s ∧ s.calls[call]? = none ∨ ∃ k, s.calls[call]? = some k ∧ ∃ s' : State R N,
      s.dropCall call =
        { s' with calls := s'.calls.modify call fun c => { c with held := false } } ∧
      (k.Live ∧ s' = s.abandon k ∨ ¬k.Live ∧ s' = s) := by
  unfold dropCall
  cases hk : s.calls[call]? with
  | none => exact .inl ⟨rfl, rfl⟩
  | some k =>
    refine .inr ⟨k, rfl, _, rfl, ?_⟩
    split_ifs with h
    · simp only [Bool.and_eq_true, Bool.not_eq_true'] at h
      exact .inl ⟨⟨h.1.1, h.1.2, h.2⟩, rfl⟩
    · refine .inr ⟨fun hlive => ?_, rfl⟩
      simp [hlive.held, hlive.unfinished, hlive.kept] at h

/-- A call is made by a session that is running, or else nothing is made. -/
theorem send_cases (s : State R N) (m : Rpc.RequestMethod) (p : m.Params) (transient : Bool) :
    ((s.send m p transient).2.commands = s.commands ∧ (s.send m p transient).2.calls = s.calls ∧
        (s.send m p transient).2.cancelOnAbandon = s.cancelOnAbandon) ∨
      ∃ params made, m.params.encode p = .ok params ∧ (s.send m p transient).2 = ({ s with
        nextId := s.nextId + 1, calls := s.calls.push made } : State R N).command
          (.request (.number s.nextId) m.name params s.calls.size) := by
  unfold send
  cases hp : m.params.encode p with
  | error fault => exact .inl ⟨rfl, rfl, rfl⟩
  | ok params =>
    dsimp only [sendWritten]
    split_ifs
    · exact .inr ⟨params, _, rfl, rfl⟩
    · exact .inl ⟨rfl, rfl, rfl⟩

theorem calls_command (s : State R N) (c : Command) : (s.command c).calls = s.calls := by
  unfold command
  split_ifs <;> rfl

theorem cancelOnAbandon_command (s : State R N) (c : Command) :
    (s.command c).cancelOnAbandon = s.cancelOnAbandon := by
  unfold command
  split_ifs <;> rfl

/-- Whether the peer is told does not change. -/
theorem cancelOnAbandon_act (s : State R N) (a : Action) :
    (s.act a).cancelOnAbandon = s.cancelOnAbandon := by
  by_cases ha : a.usesCall = true
  swap
  · exact congrArg Prod.fst (callers_act (Bool.eq_false_iff.2 ha) s)
  cases a with
  | send m p transient =>
    rcases send_cases s m p transient with ⟨-, -, h⟩ | ⟨params, made, -, h⟩
    · exact h
    · rw [act, h]
      exact cancelOnAbandon_command _ _
  | poll call =>
    rw [act]
    split_ifs
    · rcases poll_cases s call with h | ⟨k, -, -, h⟩
      · rw [h]
      · rw [h, finishCall]
    · rfl
  | cancel call =>
    rw [act]
    split_ifs
    · rcases cancel_cases s call with h | ⟨k, -, -, h⟩ <;> rw [h]
      exact cancelOnAbandon_command _ _
    · rfl
  | dropCall call =>
    rw [act]
    split_ifs
    · rcases dropCall_cases s call with ⟨h, -⟩ | ⟨k, -, s', h, ⟨-, rfl⟩ | ⟨-, rfl⟩⟩ <;> rw [h]
      exact cancelOnAbandon_command _ _
    · rfl
  | _ => cases ha

theorem cancelOnAbandon_run (s : State R N) (actions : List Action) :
    (s.run actions).cancelOnAbandon = s.cancelOnAbandon := by
  induction actions generalizing s with
  | nil => rfl
  | cons a actions ih => exact (ih _).trans (cancelOnAbandon_act s a)

theorem live_of_modify {calls : Array Call} {call : Nat} {f : Call → Call}
    (hk : calls[i]? = some k) (hlive : k.Live) (hne : call ≠ i) :
    ∃ k', (calls.modify call f)[i]? = some k' ∧ k'.Live :=
  ⟨k, by rw [Array.getElem?_modify, if_neg hne, hk], hlive⟩

theorem live_send (hk : s.calls[i]? = some k) (hlive : k.Live) (m : Rpc.RequestMethod)
    (p : m.Params) (transient : Bool) :
    ∃ k', (s.send m p transient).2.calls[i]? = some k' ∧ k'.Live := by
  rcases send_cases s m p transient with ⟨-, h, -⟩ | ⟨params, made, -, h⟩ <;> rw [h]
  · exact ⟨k, hk, hlive⟩
  · obtain ⟨hi, rfl⟩ := Array.getElem?_eq_some_iff.1 hk
    rw [calls_command, Array.getElem?_push_lt hi]
    exact ⟨_, rfl, hlive⟩

theorem live_poll (hk : s.calls[i]? = some k) (hlive : k.Live) (ho : k.outcomes = [])
    (call : Nat) : ∃ k', (s.poll call).2.calls[i]? = some k' ∧ k'.Live := by
  rcases poll_cases s call with h | ⟨k', hk', hended, h⟩ <;> rw [h]
  · exact ⟨k, hk, hlive⟩
  · refine live_of_modify hk hlive fun hi => ?_
    obtain rfl := Option.some.inj (hk.symm.trans (hi ▸ hk'))
    simp [hlive.unfinished, hlive.kept, ho] at hended

theorem live_cancel (hk : s.calls[i]? = some k) (hlive : k.Live) (hrun : s.isRunning = true)
    (call : Nat) :
    (∃ k', (s.cancel call).calls[i]? = some k' ∧ k'.Live) ∨
      (s.cancel call).commands = s.commands ++ [.abandon k.id s.cancelOnAbandon] := by
  rcases cancel_cases s call with h | ⟨k', hk', -, h⟩ <;> rw [h]
  · exact .inl ⟨k, hk, hlive⟩
  · by_cases hi : call = i
    · obtain rfl := Option.some.inj (hk.symm.trans (hi ▸ hk'))
      refine .inr ?_
      rw [abandon, commands_command]
      exact hrun
    · rw [abandon, calls_command]
      exact .inl (live_of_modify hk hlive hi)

theorem live_dropCall (hk : s.calls[i]? = some k) (hlive : k.Live) (hrun : s.isRunning = true)
    (call : Nat) :
    (∃ k', (s.dropCall call).calls[i]? = some k' ∧ k'.Live) ∨
      (s.dropCall call).commands = s.commands ++ [.abandon k.id s.cancelOnAbandon] := by
  rcases dropCall_cases s call with ⟨h, -⟩ | ⟨k', hk', s', h, hs'⟩ <;> rw [h]
  · exact .inl ⟨k, hk, hlive⟩
  · by_cases hi : call = i
    · obtain rfl := Option.some.inj (hk.symm.trans (hi ▸ hk'))
      obtain ⟨-, rfl⟩ := hs'.resolve_right fun hnot => hnot.1 hlive
      exact .inr (commands_command hrun _)
    · have hcalls : s'.calls = s.calls := by
        rcases hs' with ⟨-, rfl⟩ | ⟨-, rfl⟩
        · exact calls_command _ _
        · rfl
      exact .inl (hcalls ▸ live_of_modify hk hlive hi)

/-- A call without an outcome whose caller waits for it stays one, or its caller gives it up and the
task is told. -/
theorem live_act (hk : s.calls[i]? = some k) (hlive : k.Live) (ho : k.outcomes = [])
    (hrun : s.isRunning = true) (a : Action) :
    (∃ k', (s.act a).calls[i]? = some k' ∧ k'.Live) ∨
      (s.act a).commands = s.commands ++ [.abandon k.id s.cancelOnAbandon] := by
  by_cases ha : a.usesCall = true
  swap
  · obtain ⟨k', hk', hm⟩ :=
      mark_of_marks (congrArg Prod.snd (callers_act (Bool.eq_false_iff.2 ha) s)) hk
    exact .inl ⟨k', hk', hlive.of_mark hm⟩
  cases a with
  | send m p transient => exact .inl (live_send hk hlive m p transient)
  | poll call =>
    rw [act]
    split_ifs
    · exact .inl (live_poll hk hlive ho call)
    · exact .inl ⟨k, hk, hlive⟩
  | cancel call =>
    rw [act]
    split_ifs
    · exact live_cancel hk hlive hrun call
    · exact .inl ⟨k, hk, hlive⟩
  | dropCall call =>
    rw [act]
    split_ifs
    · exact live_dropCall hk hlive hrun call
    · exact .inl ⟨k, hk, hlive⟩
  | _ => cases ha

/-! ## What the task is told -/

/-- A caller leaves a call for which it waits: it cancels it, or lets go of it. -/
structure Leaves (s : State R N) (a : Action) (i : Nat) (k : Call) : Prop where
  call : s.calls[i]? = some k
  live : k.Live
  action : a = .cancel i ∨ a = .dropCall i

/-- What somebody asks the task for in an action, if it is not refused. -/
inductive AsksFor (s : State R N) : Action → Command → Prop
  | send {m : Rpc.RequestMethod} {p : m.Params} {transient : Bool} {params : Option Json}
    (hp : m.params.encode p = .ok params) :
    AsksFor s (.send m p transient) (.request (.number s.nextId) m.name params s.calls.size)
  | notify {m : Rpc.NotificationMethod} {p : m.Params} {params : Option Json}
    (hp : m.params.encode p = .ok params) : AsksFor s (.notify m p) (.notify m.name params)
  /-- A call that is left is given up as the session does it. -/
  | leave {a : Action} {i : Nat} {k : Call} (h : s.Leaves a i k) :
    AsksFor s a (.abandon k.id s.cancelOnAbandon)
  | count : AsksFor s .countPending (.count s.waiters.size)
  | close : AsksFor s .close .close

section Asking

variable {c : Command}

theorem AsksFor.of_command {s' : State R N} {c' : Command} (hc : s.AsksFor a c')
    (h : c ∈ (s'.command c').commands) (hs : s'.commands = s.commands) :
    c ∈ s.commands ∨ s.AsksFor a c := by
  unfold command at h
  split_ifs at h
  · rcases List.mem_append.1 h with hold | hnew
    · exact .inl (hs ▸ hold)
    · exact .inr (List.mem_singleton.1 hnew ▸ hc)
  · exact .inl (hs ▸ h)

theorem mem_commands_send {m : Rpc.RequestMethod} {p : m.Params} {transient : Bool}
    (h : c ∈ (s.send m p transient).2.commands) :
    c ∈ s.commands ∨ s.AsksFor (.send m p transient) c := by
  rcases send_cases s m p transient with ⟨hsame, -⟩ | ⟨params, made, hp, hs⟩
  · exact .inl (hsame ▸ h)
  · rw [hs] at h
    exact AsksFor.of_command (.send hp) h rfl

theorem mem_commands_notify {m : Rpc.NotificationMethod} {p : m.Params}
    (h : c ∈ (s.notify m p).2.commands) : c ∈ s.commands ∨ s.AsksFor (.notify m p) c := by
  unfold State.notify at h
  split at h
  · exact .inl h
  · rename_i params hp
    split_ifs at h
    · exact AsksFor.of_command (.notify hp) h rfl
    · exact .inl h

theorem mem_commands_cancel (hholds : s.holds i = true) (h : c ∈ (s.cancel i).commands) :
    c ∈ s.commands ∨ s.AsksFor (.cancel i) c := by
  obtain ⟨k, hk, hheld⟩ := holds_iff.1 hholds
  rcases cancel_cases s i with hs | ⟨k', hk', hopen, hs⟩
  · exact .inl (hs ▸ h)
  · obtain rfl := Option.some.inj (hk.symm.trans hk')
    have hleaves : s.Leaves (.cancel i) i k := ⟨hk, ⟨hheld, hopen.1, hopen.2⟩, .inl rfl⟩
    rw [hs] at h
    exact AsksFor.of_command (.leave hleaves) h rfl

theorem mem_commands_dropCall (h : c ∈ (s.dropCall i).commands) :
    c ∈ s.commands ∨ s.AsksFor (.dropCall i) c := by
  rcases dropCall_cases s i with ⟨hs, -⟩ | ⟨k, hk, s', hs, ⟨hlive, rfl⟩ | ⟨-, rfl⟩⟩ <;> rw [hs] at h
  · exact .inl h
  · exact AsksFor.of_command (.leave ⟨hk, hlive, .inr rfl⟩) h rfl
  · exact .inl h

theorem mem_commands_countPending (h : c ∈ s.countPending.2.commands) :
    c ∈ s.commands ∨ s.AsksFor .countPending c := by
  unfold countPending at h
  dsimp only at h
  split_ifs at h
  · exact AsksFor.of_command .count h rfl
  · exact .inl h

end Asking

theorem isRunning_stop_ne (s : State R N) (reason : Stop) : ¬(s.stop reason).isRunning = true := by
  rw [isRunning_stop]
  exact Bool.false_ne_true

theorem commands_receiveNext (s : State R N) :
    s.receiveNext.isRunning = true → s.receiveNext.commands = s.commands := by
  unfold receiveNext
  rcases s.reader.next with ⟨payload | _ | cutShort | fault, reader⟩
  · obtain ⟨events, -, hboard⟩ := board_handlePayload { s with reader } payload
    exact fun _ => congrArg Board.commands hboard
  · exact fun _ => rfl
  · exact fun hrun => absurd hrun (isRunning_stop_ne _ _)
  · exact fun hrun => absurd hrun (isRunning_stop_ne _ _)

theorem commands_noticeOutbox (s : State R N) :
    s.noticeOutbox.isRunning = true → s.noticeOutbox.commands = s.commands := by
  unfold noticeOutbox
  split
  · exact fun hrun => absurd hrun (isRunning_stop_ne _ _)
  · exact fun hrun => absurd hrun (isRunning_stop_ne _ _)
  all_goals exact fun _ => rfl

theorem commands_handleNext (s : State R N) :
    s.handleNext.isRunning = true → s.handleNext.commands = s.commands.tail := by
  unfold handleNext
  split
  · rename_i hc
    exact fun _ => hc ▸ rfl
  · rename_i c rest hc
    exact fun hrun => (commands_handleCommand hrun).trans (hc ▸ rfl)

end State

/-- Whether an action is that of somebody who asks the task for something. -/
def Action.asks : Action → Bool
  | .send .. | .notify .. | .cancel _ | .dropCall _ | .countPending | .close => true
  | _ => false

namespace State

variable {R N : Type} {s : State R N} {a : Action}

/-- The other actions put nothing into the queue of the task. -/
theorem commands_act_isSuffix (ha : a.asks = false) (hrun : (s.act a).isRunning = true) :
    (s.act a).commands <:+ s.commands := by
  have hsame : (s.act a).commands = s.commands → (s.act a).commands <:+ s.commands :=
    fun h => h ▸ List.suffix_rfl
  cases a with
  | send | notify | cancel | dropCall | countPending | close => cases ha
  | poll call =>
    refine hsame ?_
    rw [act]
    split_ifs
    · rcases poll_cases s call with hs | ⟨k, -, -, hs⟩ <;> rw [hs]
      rfl
    · rfl
  | respond ticket outcome => exact hsame (congrArg Core.commands (core_respond s ticket outcome))
  | dropTicket ticket => exact hsame (congrArg Core.commands (core_dropTicket s ticket))
  | dropEvents => exact hsame (congrArg Core.commands (core_dropEvents s))
  | pollWaiter waiter => exact hsame (congrArg Core.commands (core_pollWaiter s waiter))
  | handle =>
    rw [act] at hrun ⊢
    split_ifs at hrun ⊢
    · exact commands_handleNext s hrun ▸ List.tail_suffix _
    · exact List.suffix_rfl
  | receive =>
    refine hsame ?_
    rw [act] at hrun ⊢
    split_ifs at hrun ⊢
    · exact commands_receiveNext s hrun
    · rfl
  | release =>
    rw [act] at hrun ⊢
    split_ifs at hrun ⊢
    · exact absurd hrun (isRunning_stop_ne _ _)
    · exact List.suffix_rfl
  | notice => exact hsame (commands_noticeOutbox s hrun)
  | _ => exact List.suffix_rfl

/-- What the task finds in its queue after an action was there before, or somebody has asked for
it. -/
theorem mem_commands_act {c : Command} (hrun : (s.act a).isRunning = true)
    (h : c ∈ (s.act a).commands) : c ∈ s.commands ∨ s.AsksFor a c := by
  by_cases ha : a.asks = true
  swap
  · exact .inl ((commands_act_isSuffix (Bool.eq_false_iff.2 ha) hrun).subset h)
  cases a with
  | send => exact mem_commands_send h
  | notify => exact mem_commands_notify h
  | cancel call =>
    rw [act] at h
    split_ifs at h with hholds
    · exact mem_commands_cancel hholds h
    · exact .inl h
  | dropCall call =>
    rw [act] at h
    split_ifs at h
    · exact mem_commands_dropCall h
    · exact .inl h
  | countPending => exact mem_commands_countPending h
  | close => exact AsksFor.of_command .close h rfl
  | _ => cases ha

/-- Only a caller who leaves a call asks the task to give one up. -/
theorem AsksFor.leaves {id : Id} {tell : Bool} (h : s.AsksFor a (.abandon id tell)) :
    ∃ i k, s.Leaves a i k ∧ id = k.id ∧ tell = s.cancelOnAbandon := by
  cases h with
  | leave hleaves => exact ⟨_, _, hleaves, rfl, rfl⟩

/-- A call that is given up is given up as the configuration says. -/
theorem tell_run {registry : Rpc.Registry R N} {config : Config} {actions : List Action} {id : Id}
    {tell : Bool} (hrun : ((start registry config).run actions).isRunning = true)
    (h : .abandon id tell ∈ ((start registry config).run actions).commands) :
    tell = config.cancelOnAbandon := by
  induction actions using List.reverseRecOn with
  | nil => cases h
  | append_singleton actions a ih =>
    rw [run_concat] at h hrun
    rcases mem_commands_act hrun h with hmem | hasks
    · exact ih (isRunning_of_act hrun) hmem
    · obtain ⟨i, k, -, -, rfl⟩ := hasks.leaves
      exact cancelOnAbandon_run (start registry config) actions

end State

end PeerRpc.Session
