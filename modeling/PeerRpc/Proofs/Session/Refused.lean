import PeerRpc.Proofs.Session.Aside
import PeerRpc.Proofs.Session.Flushing
import PeerRpc.Proofs.Session.Mirror

/-!
# Sends that are refused

A request or a notification is refused if its parameters cannot be written, or if the session has
stopped. It leaves no trace: a session at work is the same afterwards, and one that has stopped has
used up an identifier that no call gets any more (`Twins`). So nobody learns of the refused sends of
a run but those who made them, and the identifiers of the calls are one, two, three and so on.
-/

namespace PeerRpc.Session

open Rpc (Envelope Id Request)

/-- What an action gives to whoever does it. -/
inductive Learned (R N : Type) where
  | nothing
  | call (answer : Except CallError Nat)
  | notified (answer : Except CallError Unit)
  | outcome (outcome : Option Outcome)
  | answered (answer : Option (Except CallError Unit))
  | news (news : Option News)
  | waiter (waiter : Nat)
  | events (events : List (Event R N))
  | records (records : List Log.Record)

/-- Whether it is that a request or a notification is refused. -/
def Learned.isRefusal {R N : Type} : Learned R N → Bool
  | .call (.error _) | .notified (.error _) => true
  | _ => false

namespace State

variable {R N : Type} {s s' s'' s₀ : State R N} {a : Action} {actions : List Action}

/-- What an action gives to whoever does it. -/
def learned (s : State R N) : Action → Learned R N
  | .send m p transient => .call (s.send m p transient).1
  | .notify m p => .notified (s.notify m p).1
  | .poll call => if s.holds call then .outcome (s.poll call).1 else .nothing
  | .respond ticket outcome => .answered (s.respond ticket outcome).1
  | .countPending => .waiter s.countPending.1
  | .wait => .waiter s.wait.1
  | .close => .waiter s.close.1
  | .pollWaiter waiter => .news (s.pollWaiter waiter).1
  | .takeEvents => .events s.takeEvents.1
  | .takeRecords => .records s.takeRecords.1
  | _ => .nothing

/-- What the actions of a run give, one after the other. -/
def learnedIn (s : State R N) (actions : List Action) : List (Learned R N) :=
  s.along (fun s a => [s.learned a]) actions

/-- Whether an action is a send that is refused. -/
def refuses (s : State R N) (a : Action) : Bool :=
  (s.learned a).isRefusal

/-- The actions of a run without the sends that are refused in it. -/
def kept (s : State R N) : List Action → List Action
  | [] => []
  | a :: actions => if s.refuses a then (s.act a).kept actions else a :: (s.act a).kept actions

/-! ## Twins -/

/-- Two sessions are the same, or they have stopped and differ in the next identifier only. -/
inductive Twins : State R N → State R N → Prop
  | same (s : State R N) : Twins s s
  | stopped {s : State R N} (hrun : s.isRunning = false) (n : Int64) :
    Twins s { s with nextId := n }

theorem Twins.trans (h : Twins s s') (h' : Twins s' s'') : Twins s s'' := by
  cases h with
  | same => exact h'
  | stopped hrun n =>
    cases h' with
    | same => exact .stopped hrun n
    | stopped _ n' => exact .stopped hrun n'

/-- A send that is refused makes a twin of the session. -/
theorem twins_of_refuses (h : s.refuses a = true) : Twins s (s.act a) := by
  cases a with
  | send m p transient =>
    change (Learned.call (s.send m p transient).1 : Learned R N).isRefusal = true at h
    change Twins s (s.send m p transient).2
    unfold send at h ⊢
    cases hp : m.params.encode p with
    | error fault => exact .same s
    | ok params =>
      rw [hp] at h
      dsimp only at h ⊢
      cases hrun : s.isRunning with
      | true =>
        have hsend : s.sendWritten m.name params transient = (.ok s.calls.size, _) := if_pos hrun
        rw [hsend] at h
        cases h
      | false =>
        rw [sendWritten_of_stopped hrun]
        exact .stopped hrun _
  | notify m p =>
    change (Learned.notified (s.notify m p).1 : Learned R N).isRefusal = true at h
    change Twins s (s.notify m p).2
    unfold notify at h ⊢
    cases hp : m.params.encode p with
    | error fault => exact .same s
    | ok params =>
      rw [hp] at h
      dsimp only at h ⊢
      split_ifs at h ⊢
      · cases h
      · exact .same s
  | poll call =>
    dsimp only [refuses, learned] at h
    split_ifs at h <;> cases h
  | _ => cases h

/-! ## What happens to both of two twins -/

theorem pollWaiter_renumbered (s : State R N) (n : Int64) (w : Nat) :
    ({ s with nextId := n } : State R N).pollWaiter w =
      ((s.pollWaiter w).1, { (s.pollWaiter w).2 with nextId := n }) := by
  unfold pollWaiter
  dsimp only
  split
  · rfl
  · unfold pollJoin
    dsimp only
    split_ifs
    · split <;> rfl
    · rfl
  · rfl

theorem send_renumbered (hrun : s.isRunning = false) (n : Int64) (m : Rpc.RequestMethod)
    (p : m.Params) (transient : Bool) :
    (({ s with nextId := n } : State R N).send m p transient).1 = (s.send m p transient).1 ∧
      ∃ n', (({ s with nextId := n } : State R N).send m p transient).2 =
        { (s.send m p transient).2 with nextId := n' } := by
  have hne := Bool.eq_false_iff.1 hrun
  unfold send
  cases m.params.encode p with
  | error fault => exact ⟨rfl, n, rfl⟩
  | ok params =>
    have hsend : s.sendWritten m.name params transient = (.error .closed, _) := if_neg hne
    have hsend' : ({ s with nextId := n } : State R N).sendWritten m.name params transient =
      (.error .closed, _) := if_neg hne
    dsimp only
    rw [hsend, hsend']
    exact ⟨rfl, n + 1, rfl⟩

/-- The next identifier of a session that has stopped makes no difference to what happens. -/
theorem act_renumbered (hrun : s.isRunning = false) (n : Int64) (a : Action) :
    ∃ n', ({ s with nextId := n } : State R N).act a = { s.act a with nextId := n' } := by
  by_cases ha : a.looksAside = false
  · refine ⟨n, (act_aside n s.report ha).trans ?_⟩
    rw [← report_act ha]
    rfl
  cases a with
  | send m p transient => exact (send_renumbered hrun n m p transient).2
  | pollWaiter w => exact ⟨n, congrArg Prod.snd (pollWaiter_renumbered s n w)⟩
  | dropWaiter w => exact ⟨n, rfl⟩
  | _ => exact absurd rfl ha

theorem learned_renumbered (hrun : s.isRunning = false) (n : Int64) (a : Action) :
    ({ s with nextId := n } : State R N).learned a = s.learned a := by
  cases a with
  | send m p transient => exact congrArg Learned.call (send_renumbered hrun n m p transient).1
  | notify m p => exact congrArg (Learned.notified ·.1) (notify_aside s n s.report m p)
  | poll call =>
    have hpoll := congrArg Prod.fst (poll_aside s n s.report call)
    change (if s.holds call then Learned.outcome ((s.aside n s.report).poll call).1 else _) = _
    rw [hpoll]
    rfl
  | respond ticket outcome =>
    exact congrArg (Learned.answered ·.1) (respond_aside s n s.report ticket outcome)
  | countPending => exact congrArg (Learned.waiter ·.1) (countPending_aside s n s.report)
  | close => exact congrArg (Learned.waiter ·.1) (close_aside s n s.report)
  | pollWaiter w => exact congrArg (Learned.news ·.1) (pollWaiter_renumbered s n w)
  | _ => rfl

theorem Twins.act (h : Twins s s') (a : Action) : Twins (s.act a) (s'.act a) := by
  cases h with
  | same => exact .same _
  | stopped hrun n =>
    obtain ⟨n', hn⟩ := act_renumbered hrun n a
    rw [hn]
    exact .stopped ((core_act s a).of_stopped hrun).1 n'

theorem Twins.learned (h : Twins s s') (a : Action) : s'.learned a = s.learned a := by
  cases h with
  | same => rfl
  | stopped hrun n => exact learned_renumbered hrun n a

theorem Twins.sentBy (h : Twins s s') (a : Action) : s'.sentBy a = s.sentBy a := by
  cases h with
  | same => rfl
  | stopped hrun n => rw [(idle_of_stopped hrun a).2, (idle_of_stopped (by exact hrun) a).2]

theorem Twins.outbox (h : Twins s s') : s'.outbox = s.outbox := by
  cases h <;> rfl

/-! ## A run without the refused sends -/

theorem kept_of_refuses (h : s.refuses a = true) (actions : List Action) :
    s.kept (a :: actions) = (s.act a).kept actions :=
  if_pos h

theorem kept_of_not_refuses (h : s.refuses a = false) (actions : List Action) :
    s.kept (a :: actions) = a :: (s.act a).kept actions :=
  if_neg (Bool.eq_false_iff.1 h)

theorem learnedIn_cons (s : State R N) (a : Action) (actions : List Action) :
    s.learnedIn (a :: actions) = s.learned a :: (s.act a).learnedIn actions := rfl

theorem sent_cons (s : State R N) (a : Action) (actions : List Action) :
    s.sent (a :: actions) = s.sentBy a ++ (s.act a).sent actions := rfl

/-- What happens to a session without its refused sends makes a twin of it, gives the same to
everybody else and sends the same. -/
theorem twins_run (h : Twins s' s) (actions : List Action) :
    Twins (s'.run (s.kept actions)) (s.run actions) ∧
      s'.learnedIn (s.kept actions) = (s.learnedIn actions).filter (!·.isRefusal) ∧
      s'.sent (s.kept actions) = s.sent actions := by
  induction actions generalizing s s' with
  | nil => exact ⟨h, rfl, rfl⟩
  | cons a actions ih =>
    rw [run_cons, learnedIn_cons, sent_cons]
    cases hr : s.refuses a with
    | true =>
      have htwins := twins_of_refuses hr
      obtain ⟨hrun, hlearned, hsent⟩ := ih (h.trans htwins)
      rw [kept_of_refuses hr, List.filter_cons_of_neg (by simpa [refuses] using hr),
        sentBy_of_outbox htwins.outbox]
      exact ⟨hrun, hlearned, hsent⟩
    | false =>
      obtain ⟨hrun, hlearned, hsent⟩ := ih (h.act a)
      rw [kept_of_not_refuses hr, List.filter_cons_of_pos (by simpa [refuses] using hr), run_cons,
        learnedIn_cons, sent_cons, hlearned, hsent, ← h.learned a, ← h.sentBy a]
      exact ⟨hrun, rfl, rfl⟩

/-! ## The requests of the others -/

/-- The request that is made with an action: the identifier of the call that its maker gets, the
method and the parameters. -/
def placed? (s : State R N) : Action → Option Request
  | .send m p transient =>
    match s.send m p transient, m.params.encode p with
    | (.ok call, s'), .ok params => s'.calls[call]?.map fun k => (k.id, m.name, params)
    | _, _ => none
  | _ => none

/-- The requests that are made in a run, the first one first. -/
def placed (s : State R N) (actions : List Action) : List Request :=
  s.along (fun s a => (s.placed? a).toList) actions

/-- A call that is made has the next identifier. -/
theorem placed?_of_ok {m : Rpc.RequestMethod} {p : m.Params} {transient : Bool} {call : Nat}
    (h : (s.send m p transient).1 = .ok call) :
    ∃ params, m.params.encode p = .ok params ∧
      s.placed? (.send m p transient) = some (.number s.nextId, m.name, params) := by
  obtain ⟨params, hp, hr, rfl, hs⟩ := send_of_ok h
  refine ⟨params, hp, ?_⟩
  have hsend : s.send m p transient = (.ok s.calls.size, (s.send m p transient).2) :=
    Prod.ext h rfl
  have hcall : (s.send m p transient).2.calls[s.calls.size]? =
      some { id := .number s.nextId, method := m.name, transient } := by
    rw [hs, calls_command]
    exact Array.getElem?_push_size
  dsimp only [placed?]
  rw [hsend, hp]
  dsimp only
  rw [hcall]
  rfl

/-- A call is made by a send that is not refused. -/
theorem send_of_size_calls (hsize : (s.act a).calls.size = s.calls.size + 1)
    (hr : s.isRunning = true) :
    ∃ m p transient call, a = .send m p transient ∧ (s.send m p transient).1 = .ok call := by
  rcases issued_act s a with ⟨-, -, hsame⟩ | ⟨hissued, -⟩
  · omega
  · cases a with
    | send m p transient =>
      refine ⟨m, p, transient, s.calls.size, rfl, ?_⟩
      dsimp only [issued] at hissued
      unfold send
      cases hp : m.params.encode p with
      | error fault =>
        rw [hp] at hissued
        cases hissued
      | ok params => exact congrArg Prod.fst (if_pos hr)
    | _ => cases hissued

/-- The requests that are queued are those that are placed. -/
theorem madeBy_eq_placed? (s : State R N) (a : Action) : s.madeBy a = (s.placed? a).toList := by
  by_cases h : ∃ m p transient call, a = .send m p transient ∧ (s.send m p transient).1 = .ok call
  · obtain ⟨m, p, transient, call, rfl, hsend⟩ := h
    obtain ⟨params, hp, -, -, hmade⟩ := madeBy_send hsend
    obtain ⟨params', hp', hplaced⟩ := placed?_of_ok hsend
    obtain rfl := Except.ok.inj (hp.symm.trans hp')
    rw [hmade, hplaced]
    rfl
  · have hplaced : s.placed? a = none := by
      cases a with
      | send m p transient =>
        dsimp only [placed?]
        split
        · rename_i call s' params hsend hp
          exact absurd ⟨m, p, transient, call, rfl, congrArg Prod.fst hsend⟩ h
        · rfl
      | _ => rfl
    rcases madeBy_cases s a with ⟨hnil, -⟩ | ⟨-, -, -, -, hsize, hr⟩
    · rw [hnil, hplaced]
      rfl
    · exact absurd (send_of_size_calls hsize hr) h

theorem made_eq_placed (s : State R N) (actions : List Action) :
    s.made actions = s.placed actions := by
  rw [made, placed]
  congr 1
  funext s a
  exact madeBy_eq_placed? s a

/-! ## The requests that are sent -/

/-- The requests that are sent in a run, the first one first. -/
def requested (s : State R N) (actions : List Action) : List Request :=
  (s.sent actions).filterMap Envelope.request?

theorem request?_ownAnswer (s : State R N) (payload : List UInt8) :
    (s.ownAnswer payload).bind Envelope.request? = none := by
  unfold ownAnswer
  split
  · cases s.refusal _ _ <;> rfl
  · rfl
  · cases Rpc.requestIdOf? payload <;> rfl

theorem request?_response (id : Id) (outcome : Except Rpc.Failure Json) :
    (Envelope.response id outcome).request? = none := by
  cases outcome <;> rfl

/-- The request that is due when a command is handled is the one that the command asks for. -/
theorem request?_due (h : s.core.Settling) (hsize : s.calls.size < 2 ^ 64) (a : Action) :
    (s.due a).bind Envelope.request? = (s.obeyed a).bind Command.request? := by
  cases a with
  | handle =>
    rw [due]
    cases ho : s.obeyed .handle with
    | none => rfl
    | some c =>
      rw [Option.bind_some]
      cases c with
      | request id method params call =>
        obtain ⟨-, rest, hc⟩ := commands_of_obeyed ho
        have hn : s.pendingCall? id = none := h.not_reject hsize hc
        rw [envelopeOf, hn]
        rfl
      | abandon id tell =>
        rw [envelopeOf]
        split_ifs <;> rfl
      | _ => rfl
  | receive =>
    rw [due]
    cases s.handled .receive with
    | none => rfl
    | some payload => exact request?_ownAnswer s payload
  | respond ticket outcome =>
    rw [due]
    split_ifs
    · cases s.ticket? ticket with
      | none => rfl
      | some t => exact request?_response t.id outcome
    · rfl
  | _ => rfl

theorem filterMap_toList {α β : Type} (f : α → Option β) (x : Option α) :
    x.toList.filterMap f = (x.bind f).toList := by
  cases x with
  | none => rfl
  | some x => cases hx : f x <;> simp [hx]

/-- The requests that an action sends. -/
theorem requestedBy_eq (h : s.core.Settling) (hsize : s.calls.size < 2 ^ 64) (a : Action) :
    (s.sentBy a).filterMap Envelope.request? =
      if s.outbox.isActive then (s.obeyed a).toList.filterMap Command.request? else [] := by
  rw [sentBy_eq_due]
  split_ifs
  · rw [filterMap_toList, filterMap_toList, request?_due h hsize]
  · rfl

/-- While the task is at work, a request leaves the queue only when it is handled. -/
theorem queued_act (hrun : (s.act a).isRunning = true) :
    (s.obeyed a).toList.filterMap Command.request? ++ (s.act a).core.requests =
      s.core.requests ++ s.madeBy a := by
  have hcommands := commands_act hrun
  have hmade : s.madeBy a = (s.askedBy a).filterMap Command.request? := by
    rw [madeBy, Core.requests, Core.requests]
    change ((s.act a).commands.filterMap _).drop (s.commands.filterMap _).length = _
    cases ho : s.obeyed a with
    | none =>
      rw [ho, Option.toList_none, List.nil_append] at hcommands
      rw [hcommands, List.filterMap_append, List.drop_left]
    | some c =>
      obtain ⟨-, rest, hc⟩ := commands_of_obeyed ho
      have hrest : (s.act a).commands = rest ++ s.askedBy a := by
        simpa [ho, hc] using hcommands
      have hasked : (s.askedBy a).length = (s.act a).commands.length - s.commands.length :=
        List.length_drop
      have hnil : s.askedBy a = [] := by
        rw [hrest, hc, List.length_append, List.length_cons] at hasked
        exact List.length_eq_zero_iff.1 (by omega)
      rw [hrest, hnil, hc, List.append_nil]
      exact List.drop_eq_nil_of_le ((List.sublist_cons_self c rest).filterMap _).length_le
  have h := congrArg (List.filterMap Command.request?) hcommands
  rwa [List.filterMap_append, List.filterMap_append, ← hmade] at h

variable {registry : Rpc.Registry R N} {config : Config}

/-- As long as envelopes are taken, the requests that have been made are those that have been sent
and those that wait. -/
theorem placed_of_isRunning (h : ((start registry config).run actions).calls.size < 2 ^ 64)
    (hrun : ((start registry config).run actions).isRunning = true)
    (hactive : ((start registry config).run actions).outbox.isActive = true) :
    (start registry config).requested actions ++ ((start registry config).run actions).core.requests =
      (start registry config).placed actions := by
  rw [← made_eq_placed]
  induction actions using List.reverseRecOn with
  | nil => rfl
  | append_singleton actions a ih =>
    rw [run_concat] at h hrun hactive ⊢
    have hsize := (size_calls_act _ a).trans_lt h
    have hbefore := ih hsize (isRunning_of_act hrun) (isActive_of_act hactive)
    rw [requested, sent_concat, List.filterMap_append, requestedBy_eq (settling_run hsize) hsize,
      if_pos (isActive_of_act hactive), List.append_assoc, queued_act hrun, ← List.append_assoc,
      made_concat, ← hbefore]
    rfl

/-- Requests are sent in the order in which they have been made. -/
theorem requested_isPrefix_placed
    (h : ((start registry config).run actions).calls.size < 2 ^ 64) :
    (start registry config).requested actions <+: (start registry config).placed actions := by
  induction actions using List.reverseRecOn with
  | nil => exact List.prefix_rfl
  | append_singleton actions a ih =>
    rw [run_concat] at h
    have hsize := (size_calls_act _ a).trans_lt h
    have hmore : (start registry config).placed actions <+:
        (start registry config).placed (actions ++ [a]) :=
      along_isPrefix _ (List.prefix_append _ _) _
    rw [requested, sent_concat, List.filterMap_append, requestedBy_eq (settling_run hsize) hsize]
    have hsame : (start registry config).requested actions ++ [] <+:
        (start registry config).placed (actions ++ [a]) := by
      rw [List.append_nil]
      exact (ih hsize).trans hmore
    split_ifs with hactive
    · cases hrun : ((start registry config).run actions).isRunning with
      | true =>
        refine List.IsPrefix.trans ?_ hmore
        rw [← placed_of_isRunning hsize hrun hactive, ← requested, List.prefix_append_right_inj]
        exact (obeyed_isPrefix _ a).filterMap _
      | false =>
        rw [obeyed_of_stopped hrun]
        exact hsame
    · exact hsame

/-- The requests that are made have the identifiers one, two, three and so on. -/
theorem id_of_placed (h : ((start registry config).run actions).calls.size < 2 ^ 63) {i : Nat}
    {r : Request} (hr : ((start registry config).placed actions)[i]? = some r) :
    ∃ n : Int64, r.1 = .number n ∧ n.toInt = i + 1 := by
  have hids := made_run (h.trans (by norm_num))
  rw [made_eq_placed] at hids
  have hi := congrArg (·[i]?) hids
  rw [List.getElem?_map, hr, List.getElem?_map] at hi
  obtain ⟨j, hj, hid⟩ := Option.map_eq_some_iff.1 hi.symm
  obtain ⟨hlt, hji⟩ := List.getElem?_eq_some_iff.1 hj
  rw [List.getElem_range] at hji
  rw [List.length_range] at hlt
  subst hji
  refine ⟨_, hid.symm, ?_⟩
  rw [Int64.toInt_ofNat_of_lt (by omega)]
  norm_num

end State

/-- In every run, a send that is refused leaves a twin of the session. Without the refused sends the
run ends with a twin, everybody else learns the same, and the same is sent. With fewer than 2⁶³
calls, the requests that are made have the identifiers one, two, three and so on; they are sent in
this order, each with its identifier, and as long as the outbox takes them, all of them are sent but
those that wait in the queue. -/
theorem refused_sends_leave_no_trace {R N : Type} (registry : Rpc.Registry R N) (config : Config)
    (actions : List Action) :
    let s₀ := State.start registry config
    let s := s₀.run actions
    (∀ i t a, s₀.Does actions i t a → t.refuses a = true → State.Twins t (t.act a)) ∧
    (State.Twins (s₀.run (s₀.kept actions)) s ∧
      s₀.learnedIn (s₀.kept actions) = (s₀.learnedIn actions).filter (!·.isRefusal) ∧
      s₀.sent (s₀.kept actions) = s₀.sent actions) ∧
    (s.calls.size < 2 ^ 63 →
      (∀ (i : Nat) r, (s₀.placed actions)[i]? = some r →
        ∃ n : Int64, r.1 = .number n ∧ n.toInt = i + 1) ∧
      s₀.requested actions <+: s₀.placed actions ∧
      (s.isRunning = true → s.outbox.isActive = true →
        s₀.requested actions ++ s.core.requests = s₀.placed actions)) := by
  intro s₀ s
  refine ⟨fun i t a _ h => State.twins_of_refuses h, State.twins_run (.same s₀) actions,
    fun hsize => ?_⟩
  have hless : s.calls.size < 2 ^ 64 := hsize.trans (by norm_num)
  exact ⟨fun i r hr => State.id_of_placed hsize hr, State.requested_isPrefix_placed hless,
    fun hrun hactive => State.placed_of_isRunning hless hrun hactive⟩

/-- A method whose parameters cannot be written. -/
def unwritable : Rpc.RequestMethod where
  name := "unwritable"
  Params := Unit
  Result := Unit
  params := ⟨fun _ => .ok (), fun _ => .error .malformed⟩
  result := inferInstance

/-- Of five requests one cannot be written, and one comes too late. The three others are made, and
the first of them is given up before the next one is made. -/
theorem three_of_five_sends :
    let s₀ := State.start (Rpc.Registry.empty : Rpc.Registry Unit Unit) {}
    let actions : List Action := [.send Rpc.Catalog.shutdown () false, .send unwritable () true,
      .handle, .cancel 0, .send Rpc.Catalog.shutdown () false, .handle, .handle,
      .send Rpc.Catalog.shutdown () true, .handle, .close, .handle,
      .send Rpc.Catalog.shutdown () false, .poll 1]
    (s₀.kept actions).length + 2 = actions.length ∧
      s₀.sent (s₀.kept actions) = s₀.sent actions ∧
      (s₀.requested actions).length = 3 ∧ ∃ r, (s₀.requested actions)[2]? = some r ∧
        ∃ n : Int64, r.1 = .number n ∧ n.toInt = 3 := by
  intro s₀ actions
  obtain ⟨-, ⟨-, -, hsent⟩, hcalls⟩ := refused_sends_leave_no_trace
    (Rpc.Registry.empty : Rpc.Registry Unit Unit) {} actions
  obtain ⟨hids, hprefix, -⟩ := hcalls (by decide +kernel)
  have hlength : (s₀.requested actions).length = 3 := by decide +kernel
  have hthird : 2 < (s₀.requested actions).length := hlength ▸ Nat.lt_succ_self 2
  exact ⟨by decide +kernel, hsent, hlength, _, List.getElem?_eq_getElem hthird,
    hids 2 _ (List.prefix_iff_getElem?.1 hprefix 2 hthird)⟩

end PeerRpc.Session
