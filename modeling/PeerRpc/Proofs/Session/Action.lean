import PeerRpc.Proofs.Session.Calls
import PeerRpc.Proofs.Session.Outbox

/-!
# Runs of a session

What happens to a session is a list of *actions*: of its owner, of the world outside, and of the
two halves of its task, which handle one command, one payload or one envelope at a time. The actions
may come in any order; `settle_eq_run` says that letting everything happen that can happen is one of
these runs.
-/

namespace PeerRpc.Session

open Rpc (Failure NotificationMethod RequestMethod)

/-- Something that happens to a session. -/
inductive Action where
  -- The owner uses a handle.
  | send (m : RequestMethod) (p : m.Params) (transient : Bool)
  | notify (m : NotificationMethod) (p : m.Params)
  | addHandle
  | dropHandle
  | countPending
  | wait
  | close
  -- The holder of a call, a ticket or a waiter uses it, or lets go of it.
  | poll (call : Nat)
  | cancel (call : Nat)
  | dropCall (call : Nat)
  | respond (ticket : Nat) (outcome : Except Failure Json)
  | dropTicket (ticket : Nat)
  | pollWaiter (waiter : Nat)
  | dropWaiter (waiter : Nat)
  -- The owner takes events and records, or stops listening.
  | takeEvents
  | dropEvents
  | takeRecords
  -- The world outside: bytes arrive, the source ends or fails, the sink behaves in another way.
  | arrive (bytes : List UInt8)
  | closeSource (ending : Frame.Ending)
  | setSink (mode : Frame.SinkMode)
  /-- The task handles the oldest command. -/
  | handle
  /-- The task handles what its reader gives next. -/
  | receive
  /-- The task stops if nothing keeps the session going. -/
  | release
  /-- The outbox writes what comes next. -/
  | write
  /-- The task takes note of how the writing ended. -/
  | notice

namespace State

variable {R N : Type}

/-- Handles the oldest command. -/
def handleNext (s : State R N) : State R N :=
  match s.commands with
  | [] => s
  | c :: rest => { s with commands := rest }.handleCommand c

/-- Whether the caller still holds a call. -/
def holds (s : State R N) (call : Nat) : Bool :=
  (s.calls[call]?).any (·.held)

/-- The state after an action. Nothing happens if it is not possible: a call that nobody holds
cannot be used, and a task that has stopped does nothing. -/
def act (s : State R N) : Action → State R N
  | .send m p transient => (s.send m p transient).2
  | .notify m p => (s.notify m p).2
  | .poll call => if s.holds call then (s.poll call).2 else s
  | .cancel call => if s.holds call then s.cancel call else s
  | .dropCall call => if s.holds call then s.dropCall call else s
  | .respond ticket outcome => (s.respond ticket outcome).2
  | .dropTicket ticket => s.dropTicket ticket
  | .takeEvents => s.takeEvents.2
  | .dropEvents => s.dropEvents
  | .takeRecords => s.takeRecords.2
  | .addHandle => s.addHandle
  | .dropHandle => s.dropHandle
  | .countPending => s.countPending.2
  | .wait => s.wait.2
  | .close => s.close.2
  | .pollWaiter waiter => (s.pollWaiter waiter).2
  | .dropWaiter waiter => s.dropWaiter waiter
  | .arrive bytes => s.arrive bytes
  | .closeSource ending => s.closeSource ending
  | .setSink mode => s.setSink mode
  | .handle => if s.isRunning then s.handleNext else s
  | .receive => if s.isRunning then s.receiveNext else s
  | .release => if s.isRunning && s.commands.isEmpty && !s.isHeld then s.stop .closed else s
  | .write => { s with outbox := s.outbox.step }
  | .notice => s.noticeOutbox

/-- The state after some actions. -/
def run (s : State R N) (actions : List Action) : State R N :=
  actions.foldl act s

@[simp] theorem run_nil (s : State R N) : s.run [] = s := rfl

@[simp] theorem run_cons (s : State R N) (a : Action) (actions : List Action) :
    s.run (a :: actions) = (s.act a).run actions := rfl

theorem run_append (s : State R N) (a b : List Action) : s.run (a ++ b) = (s.run a).run b :=
  List.foldl_append

theorem run_concat (s : State R N) (actions : List Action) (a : Action) :
    s.run (actions ++ [a]) = (s.run actions).act a := by
  rw [run_append]
  rfl

theorem run_take_succ {actions : List Action} {i : Nat} {a : Action} (h : actions[i]? = some a)
    (s : State R N) : s.run (actions.take (i + 1)) = (s.run (actions.take i)).act a := by
  rw [List.take_add_one, h, Option.toList_some, run_concat]

theorem take_eq_append (actions : List Action) {m n : Nat} (h : m ≤ n) :
    actions.take n = actions.take m ++ (actions.take n).drop m := by
  have htake := List.take_append_drop m (actions.take n)
  rw [List.take_take, Nat.min_eq_left h] at htake
  exact htake.symm

theorem run_take_of_le {actions : List Action} {i j : Nat} (h : i ≤ j) (s : State R N) :
    s.run (actions.take j) = (s.run (actions.take i)).run ((actions.take j).drop i) := by
  rw [← run_append, ← take_eq_append actions h]

section Along

variable {α : Type} (f : State R N → Action → List α)

/-- What the actions of a run give one after the other. -/
def along (s : State R N) : List Action → List α
  | [] => []
  | a :: actions => f s a ++ along (s.act a) actions

theorem along_append (s : State R N) (a b : List Action) :
    s.along f (a ++ b) = s.along f a ++ (s.run a).along f b := by
  induction a generalizing s with
  | nil => rfl
  | cons a actions ih => rw [List.cons_append, along, along, ih, List.append_assoc, run_cons]

theorem along_concat (s : State R N) (actions : List Action) (a : Action) :
    s.along f (actions ++ [a]) = s.along f actions ++ f (s.run actions) a := by
  rw [along_append, along, along, List.append_nil]

theorem along_isPrefix {a b : List Action} (h : a <+: b) (s : State R N) :
    s.along f a <+: s.along f b := by
  obtain ⟨more, rfl⟩ := h
  rw [along_append]
  exact List.prefix_append _ _

/-- What an action gives comes right behind what those before it give. -/
theorem along_take_append_isPrefix {actions : List Action} {i n : Nat} {a : Action}
    (ha : actions[i]? = some a) (hn : i < n) (s : State R N) :
    s.along f (actions.take i) ++ f (s.run (actions.take i)) a <+: s.along f (actions.take n) := by
  have htake : actions.take (i + 1) = actions.take i ++ [a] := by
    rw [List.take_add_one, ha, Option.toList_some]
  rw [← along_concat, ← htake]
  exact along_isPrefix f (List.take_prefix_take_left hn) s

/-- What a run gives comes from one of its actions. -/
theorem mem_along {s : State R N} {actions : List Action} {x : α} :
    x ∈ s.along f actions ↔
      ∃ i a, actions[i]? = some a ∧ x ∈ f (s.run (actions.take i)) a := by
  induction actions generalizing s with
  | nil => simp [along]
  | cons a actions ih =>
    rw [along, List.mem_append, ih]
    constructor
    · rintro (h | ⟨i, a', ha', h⟩)
      · exact ⟨0, a, rfl, h⟩
      · exact ⟨i + 1, a', ha', h⟩
    · rintro ⟨i, a', ha', h⟩
      cases i with
      | zero => exact .inl (Option.some.inj ha' ▸ h)
      | succ i => exact .inr ⟨i, a', ha', h⟩

/-- An element of what a run gives comes from one of its actions, behind what those before it
give. -/
theorem getElem?_along {s : State R N} {actions : List Action} {k : Nat} {x : α}
    (h : (s.along f actions)[k]? = some x) :
    ∃ i a r, actions[i]? = some a ∧ (f (s.run (actions.take i)) a)[r]? = some x ∧
      k = (s.along f (actions.take i)).length + r := by
  induction actions generalizing s k with
  | nil => cases h
  | cons a actions ih =>
    rw [along, List.getElem?_append] at h
    split_ifs at h with hk
    · exact ⟨0, a, k, rfl, h, (Nat.zero_add k).symm⟩
    · obtain ⟨i, b, r, hb, hx, hlength⟩ := ih h
      refine ⟨i + 1, b, r, hb, hx, ?_⟩
      rw [List.take_succ_cons, along, List.length_append]
      omega

/-- What two actions of a run give comes in their order. -/
theorem sublist_along {s : State R N} {actions : List Action} {i j : Nat} {a b : Action} {x y : α}
    (ha : actions[i]? = some a) (hb : actions[j]? = some b)
    (hx : x ∈ f (s.run (actions.take i)) a) (hy : y ∈ f (s.run (actions.take j)) b) (hij : i < j) :
    [x, y].Sublist (s.along f actions) := by
  have hfirst : x ∈ s.along f (actions.take j) := by
    refine (mem_along f).2 ⟨i, a, ?_, ?_⟩
    · rw [List.getElem?_take_of_lt hij, ha]
    · rwa [List.take_take, Nat.min_eq_left hij.le]
  have hboth : s.along f (actions.take (j + 1)) =
      s.along f (actions.take j) ++ f (s.run (actions.take j)) b := by
    rw [List.take_add_one, hb, Option.toList_some, along_concat]
  refine List.Sublist.trans ?_ (along_isPrefix f (List.take_prefix (j + 1) actions) s).sublist
  rw [hboth]
  exact (List.singleton_sublist.2 hfirst).append (List.singleton_sublist.2 hy)

end Along

/-- The call that an action settles with a response of the peer, and its outcome. -/
def answered (s : State R N) : Action → Option (Nat × Outcome)
  | .receive => if s.isRunning then s.settledNext else none
  | _ => none

theorem holds_iff {s : State R N} {call : Nat} :
    s.holds call = true ↔ ∃ k, s.calls[call]? = some k ∧ k.held = true := by
  rw [holds, Option.any_eq_true]

/-- How an action changes what the session knows of its calls. -/
theorem core_act (s : State R N) (a : Action) : Core.Step (s.answered a) s.core (s.act a).core := by
  cases a with
  | send m p transient => exact core_send s m p transient
  | notify m p => exact core_notify s m p
  | poll call =>
    rw [act]
    split_ifs with h
    · obtain ⟨k, hk, hheld⟩ := holds_iff.1 h
      exact core_poll hk hheld
    · exact .same s.core
  | cancel call =>
    rw [act]
    split_ifs with h
    · obtain ⟨k, hk, -⟩ := holds_iff.1 h
      exact core_cancel hk
    · exact .same s.core
  | dropCall call =>
    rw [act]
    split_ifs with h
    · obtain ⟨k, hk, hheld⟩ := holds_iff.1 h
      exact core_dropCall hk hheld
    · exact .same s.core
  | respond ticket outcome =>
    rw [act, core_respond]
    exact .same s.core
  | dropTicket ticket =>
    rw [act, core_dropTicket]
    exact .same s.core
  | dropEvents =>
    rw [act, core_dropEvents]
    exact .same s.core
  | countPending => exact core_countPending s
  | close => exact core_close s
  | pollWaiter waiter =>
    rw [act, core_pollWaiter]
    exact .same s.core
  | handle =>
    rw [act, handleNext]
    split_ifs
    · split
      · exact .same s.core
      · rename_i a rest h
        exact core_handleCommand s a rest h
    · exact .same s.core
  | receive =>
    rw [act, answered]
    split_ifs
    · exact core_receiveNext s
    · exact .same s.core
  | release =>
    rw [act]
    split_ifs
    · rw [core_stop]
      exact .stop s.core
    · exact .same s.core
  | notice => exact core_noticeOutbox s
  | takeEvents | takeRecords | addHandle | dropHandle | wait | dropWaiter _ | arrive _
  | closeSource _ | setSink _ | write => exact .same s.core

/-! ## Letting everything happen -/

theorem commands_handleCommand {s : State R N} {a : Command}
    (h : (s.handleCommand a).isRunning = true) : (s.handleCommand a).commands = s.commands := by
  cases a with
  | request id method params call =>
    rw [handleCommand]
    split
    · exact congrArg Core.commands (core_emit _ _)
    · rfl
  | notify method params => rfl
  | abandon id tell =>
    rw [handleCommand]
    split
    · rfl
    · rename_i call _
      dsimp only
      split
      · exact congrArg Core.commands
          (core_sendCancel ((s.closePending id).settleCall call (.error .cancelled)) id)
      · rfl
  | count waiter => rfl
  | close =>
    have hrun := congrArg Core.running (core_stop s .closed)
    rw [handleCommand] at h
    exact absurd (h.symm.trans hrun) (by simp [Core.stop])

/-- Handling the commands is a number of actions, after which none is left if the task goes on. -/
theorem handleCommands_eq_run (s : State R N) (h : s.isRunning = true) :
    ∃ n, handleCommands s.commands s = s.run (List.replicate n .handle) ∧
      ((handleCommands s.commands s).isRunning = true →
        (handleCommands s.commands s).commands = []) := by
  induction hc : s.commands generalizing s with
  | nil => exact ⟨0, rfl, fun _ => hc⟩
  | cons a rest ih =>
    have hact : s.act .handle = { s with commands := rest }.handleCommand a := by
      rw [act, if_pos h, handleNext, hc]
    rw [handleCommands, ← hact]
    cases hrun : (s.act .handle).isRunning with
    | true =>
      have hcommands : (s.act .handle).commands = rest := by
        rw [hact] at hrun ⊢
        exact commands_handleCommand hrun
      obtain ⟨n, hn, hnil⟩ := ih (s.act .handle) hrun hcommands
      refine ⟨n + 1, ?_, hnil⟩
      rw [if_pos rfl, hn, List.replicate_succ, run_cons]
    | false =>
      refine ⟨1, rfl, ?_⟩
      rw [if_neg Bool.false_ne_true, hrun]
      exact fun h => absurd h Bool.false_ne_true

theorem receiveNext_of_payload {s : State R N} {payload : List UInt8} {reader : Frame.Reader}
    (h : s.reader.next = (.payload payload, reader)) :
    s.receiveNext = { s with reader }.handlePayload payload := by
  rw [receiveNext, h]

theorem receive_of_payload {s : State R N} {payload : List UInt8} {reader : Frame.Reader}
    (h : s.reader.next = (.payload payload, reader)) : s.receive = s.receiveNext.receive := by
  rw [receiveNext_of_payload h, receive.eq_def]
  split
  · rename_i payload' reader' h'
    obtain ⟨hp, rfl⟩ := Prod.mk.inj (h.symm.trans h')
    obtain rfl := Frame.Received.payload.inj hp
    rfl
  · rename_i hne
    exact absurd h (hne payload reader)

theorem receive_of_other {s : State R N}
    (h : ∀ payload reader, s.reader.next ≠ (.payload payload, reader)) :
    s.receive = s.receiveNext := by
  rw [receive.eq_def]
  split
  · rename_i h'
    exact absurd h' (h _ _)
  · rfl

/-- Handling the payloads that can be read is a number of actions. -/
theorem receive_eq_run (s : State R N) (h : s.isRunning = true) :
    ∃ n, s.receive = s.run (List.replicate n .receive) := by
  induction hn : s.reader.remaining using Nat.strong_induction_on generalizing s with
  | _ n ih =>
    subst hn
    have hact : s.act .receive = s.receiveNext := by rw [act, if_pos h]
    by_cases hp : ∃ payload reader, s.reader.next = (.payload payload, reader)
    · obtain ⟨payload, reader, hnext⟩ := hp
      have hkeeps := handlePayload_keeps { s with reader } payload
      have hstate := receiveNext_of_payload hnext
      have hlt : s.receiveNext.reader.remaining < s.reader.remaining := by
        rw [hstate, hkeeps.1]
        exact Frame.Reader.next_remaining hnext
      have hrun : s.receiveNext.isRunning = true := by
        rw [hstate, isRunning, hkeeps.2]
        exact h
      obtain ⟨m, hm⟩ := ih _ hlt s.receiveNext hrun rfl
      refine ⟨m + 1, ?_⟩
      rw [receive_of_payload hnext, hm, List.replicate_succ, run_cons, hact]
    · simp only [not_exists] at hp
      exact ⟨1, by rw [receive_of_other hp, ← hact]; rfl⟩

theorem work_eq_run (s : State R N) : ∃ actions, s.work = s.run actions := by
  rw [work]
  split_ifs with h
  · obtain ⟨n, hn, hnil⟩ := handleCommands_eq_run s h
    dsimp only
    split_ifs with hrun hheld
    · obtain ⟨m, hm⟩ := receive_eq_run _ hrun
      exact ⟨List.replicate n .handle ++ List.replicate m .receive, by rw [run_append, ← hn, hm]⟩
    · refine ⟨List.replicate n .handle ++ [.release], ?_⟩
      rw [run_append, ← hn, run_cons, run_nil, act, if_pos]
      simp [hrun, hheld, hnil hrun]
    · exact ⟨List.replicate n .handle, hn⟩
  · exact ⟨[], rfl⟩

theorem write_eq_run (s : State R N) : ∃ actions, s.write = s.run actions := by
  obtain ⟨n, hn⟩ := s.outbox.run_eq_steps
  have hsteps : ∀ n (o : Outbox), { s with outbox := Outbox.step^[n] o } =
      run { s with outbox := o } (List.replicate n .write) := by
    intro n
    induction n with
    | zero => exact fun o => rfl
    | succ n ih =>
      intro o
      rw [Function.iterate_succ_apply, List.replicate_succ, run_cons]
      exact ih o.step
  exact ⟨List.replicate n .write, by rw [write, hn]; exact hsteps n s.outbox⟩

/-- Letting everything happen that can happen without the world outside is a run. -/
theorem settle_eq_run (s : State R N) : ∃ actions, s.settle = s.run actions := by
  obtain ⟨worked, hworked⟩ := s.work_eq_run
  obtain ⟨written, hwritten⟩ := (s.run worked).write_eq_run
  refine ⟨worked ++ written ++ [.notice], ?_⟩
  rw [settle, hworked, hwritten, run_concat, run_append]
  rfl

end State

end PeerRpc.Session
