import PeerRpc.Proofs.Session.Sending
import PeerRpc.Proofs.Session.Settlement

/-!
# The requests of a session

The owner's calls are sent as requests at most once each, with the method and the parameters of the
call (`requests_run`, `made_run`); so two requests that are sent differ in their identifiers
(`request_inj`).
-/

namespace PeerRpc

/-- A request: its identifier, its method and its parameters. -/
abbrev Rpc.Request := Rpc.Id × String × Option Json

/-- The request that an envelope is, if it is one. -/
def Rpc.Envelope.request? (e : Rpc.Envelope) : Option Rpc.Request :=
  match e.method, e.id with
  | some method, some id => some (id, method, e.params)
  | _, _ => none

namespace Session

open Rpc (Envelope Failure Id Request)

/-- The request that a command asks for, if it does. -/
def Command.request? : Command → Option Request
  | .request id method params _ => some (id, method, params)
  | _ => none

namespace Core

variable {c c' : Core} {label : Option (Nat × Outcome)}

/-- The requests that are queued as commands. -/
def requests (c : Core) : List Request :=
  c.commands.filterMap Command.request?

theorem request?_of_callOf {a : Command} (h : callOf a = none) : a.request? = none := by
  cases a <;> first | rfl | cases h

theorem requests_enqueue {a : Command} (h : a.request? = none) (c : Core) :
    (c.enqueue a).requests = c.requests := by
  unfold enqueue
  split
  · simp [requests, h]
  · rfl

theorem requests_of_tail {a : Command} {rest : List Command} (h : c.commands = a :: rest) :
    (rest.filterMap Command.request?).Sublist c.requests := by
  rw [requests, h]
  exact (List.sublist_cons_self a rest).filterMap _

/-- A step makes one call and queues its request, or queues no request. -/
theorem Step.requests (hs : Step label c c') :
    c'.requests.Sublist c.requests ∧ c'.calls.size = c.calls.size ∨
      ∃ method params, c'.requests = c.requests ++ [(.number c.nextId, method, params)] ∧
        c'.calls.size = c.calls.size + 1 ∧ c.running = true := by
  cases hs with
  | same | refuse => exact .inl ⟨.refl _, rfl⟩
  | send _ method params transient hr =>
    refine .inr ⟨method, params, ?_, ?_, hr⟩
    · rw [enqueue, if_pos hr]
      simp [Core.requests, Command.request?]
    · rw [enqueue, if_pos hr]
      exact Array.size_push _
  | ask _ a ha =>
    refine .inl ⟨?_, by unfold enqueue; split <;> rfl⟩
    rw [requests_enqueue (request?_of_callOf ha)]
  | mark => exact .inl ⟨.refl _, Array.size_modify⟩
  | giveUp _ call f k tell =>
    refine .inl ⟨?_, by unfold enqueue; split <;> exact Array.size_modify⟩
    rw [requests_enqueue (by rfl)]
    exact .refl _
  | skip _ a rest h => exact .inl ⟨requests_of_tail h, rfl⟩
  | register _ id method params call rest h => exact .inl ⟨requests_of_tail h, rfl⟩
  | reject _ id method params call other rest h =>
    exact .inl ⟨requests_of_tail h, size_settled _ _ _⟩
  | abandon _ id tell call rest h => exact .inl ⟨requests_of_tail h, size_settled _ _ _⟩
  | answer => exact .inl ⟨.refl _, size_settled _ _ _⟩
  | stop => exact .inl ⟨List.nil_sublist _, size_allClosed _ _⟩

end Core

namespace State

variable {R N : Type} {s : State R N}

/-! ## Sent once -/

/-- The requests that an action queues as commands: those behind the ones that were there. -/
def madeBy (s : State R N) (a : Action) : List Request :=
  (s.act a).core.requests.drop s.core.requests.length

/-- The requests that are queued as commands in a run. -/
def made (s : State R N) (actions : List Action) : List Request :=
  s.along madeBy actions

theorem made_concat (s : State R N) (actions : List Action) (a : Action) :
    s.made (actions ++ [a]) = s.made actions ++ (s.run actions).madeBy a :=
  along_concat _ s actions a

/-- An action makes no call, or one. -/
theorem madeBy_cases (s : State R N) (a : Action) :
    s.madeBy a = [] ∧ (s.act a).core.requests.Sublist s.core.requests ∧
        (s.act a).calls.size = s.calls.size ∨
      ∃ method params, s.madeBy a = [(.number s.nextId, method, params)] ∧
        (s.act a).core.requests = s.core.requests ++ s.madeBy a ∧
        (s.act a).calls.size = s.calls.size + 1 ∧ s.isRunning = true := by
  rcases (core_act s a).requests with ⟨hsub, hsize⟩ | ⟨method, params, he, hsize, hr⟩
  · exact .inl ⟨List.drop_eq_nil_of_le hsub.length_le, hsub, hsize⟩
  · have hmade : s.madeBy a = [(.number s.nextId, method, params)] := by
      rw [madeBy, he, List.drop_left]
      rfl
    exact .inr ⟨method, params, hmade, hmade ▸ he, hsize, hr⟩

theorem requests_act_sublist (s : State R N) (a : Action) :
    (s.act a).core.requests.Sublist (s.core.requests ++ s.madeBy a) := by
  rcases madeBy_cases s a with ⟨-, hsub, -⟩ | ⟨_, _, -, he, -⟩
  · exact hsub.trans (List.sublist_append_left _ _)
  · rw [he]

theorem commands_request {id : Id} {method : String} {params : Option Json} {call : Nat}
    (s : State R N) : (s.handleCommand (.request id method params call)).commands = s.commands := by
  rw [handleCommand]
  split
  · exact congrArg Core.commands (core_emit _ _)
  · rfl

/-- A request is sent only when it is taken from the front of the queue. -/
theorem requests_act (s : State R N) (a : Action) :
    ((s.sentBy a).filterMap Envelope.request? ++ (s.act a).core.requests).Sublist
      (s.core.requests ++ s.madeBy a) := by
  have hmore := requests_act_sublist s a
  rcases sentBy_cases s a with ⟨hnil, -⟩ | ⟨e, he, ho, -⟩
  · rw [hnil]
    exact hmore
  · rw [he]
    cases ho with
    | request id method params call rest hrun h =>
      have hcommands : (s.act .handle).commands = rest := by
        rw [act, if_pos hrun, handleNext, h]
        exact commands_request _
      have hqueued : s.core.requests = (id, method, params) :: (s.act .handle).core.requests := by
        change s.commands.filterMap _ = _ :: (s.act .handle).commands.filterMap _
        rw [hcommands, h]
        rfl
      rw [hqueued]
      exact List.sublist_append_left _ _
    | notify | refused | malformed => exact hmore
    | answer ticket t outcome => cases outcome <;> exact hmore

/-- The requests that are sent or still queued are among those made, in their order. -/
theorem requests_run (s : State R N) (actions : List Action) :
    ((s.sent actions).filterMap Envelope.request? ++ (s.run actions).core.requests).Sublist
      (s.core.requests ++ s.made actions) := by
  induction actions using List.reverseRecOn with
  | nil =>
    rw [made, along, List.append_nil]
    exact .refl _
  | append_singleton actions a ih =>
    rw [sent_concat, made_concat, run_concat, List.filterMap_append, List.append_assoc,
      ← List.append_assoc s.core.requests]
    refine ((requests_act (s.run actions) a).append_left _).trans ?_
    rw [← List.append_assoc]
    exact ih.append_right _

variable {registry : Rpc.Registry R N} {config : Config} {actions : List Action}

/-- The identifiers of the requests made are those of the calls. -/
theorem made_run (h : ((start registry config).run actions).calls.size < 2 ^ 64) :
    ((start registry config).made actions).map (·.1) =
      (List.range ((start registry config).run actions).calls.size).map idAt := by
  induction actions using List.reverseRecOn with
  | nil => rfl
  | append_singleton actions a ih =>
    rw [run_concat] at h ⊢
    have hsize := (size_calls_act _ a).trans_lt h
    rw [made_concat, List.map_append, ih hsize]
    rcases madeBy_cases ((start registry config).run actions) a with
      ⟨hnil, -, hs⟩ | ⟨method, params, hmade, -, hs, hr⟩
    · rw [hnil, hs]
      exact List.append_nil _
    · have hnext := (settling_run hsize).nextId hr
      have hid : Id.number ((start registry config).run actions).nextId =
          idAt ((start registry config).run actions).calls.size := congrArg Id.number hnext
      rw [hmade, hs, List.range_succ, List.map_append, hid]
      rfl

theorem nodup_made (h : ((start registry config).run actions).calls.size < 2 ^ 64) :
    (((start registry config).made actions).map (·.1)).Nodup := by
  rw [made_run h]
  refine List.Nodup.map_on (fun a ha b hb hab => ?_) List.nodup_range
  exact idAt_inj ((List.mem_range.1 ha).trans h) ((List.mem_range.1 hb).trans h) hab

theorem sublist_made :
    (((start registry config).sent actions).filterMap Envelope.request?).Sublist
      ((start registry config).made actions) :=
  (List.sublist_append_left _ _).trans (requests_run (start registry config) actions)

theorem commands_command {s : State R N} (hr : s.isRunning = true) (c : Command) :
    (s.command c).commands = s.commands ++ [c] := by
  rw [command, if_pos hr]

/-- A call is made only by a task that is running. -/
theorem send_of_ok {m : Rpc.RequestMethod} {p : m.Params} {transient : Bool} {call : Nat}
    (h : (s.send m p transient).1 = .ok call) :
    ∃ params, m.params.encode p = .ok params ∧ s.isRunning = true ∧ call = s.calls.size ∧
      (s.send m p transient).2 =
        { s with
          nextId := s.nextId + 1
          calls := s.calls.push { id := .number s.nextId, method := m.name, transient } }.command
            (.request (.number s.nextId) m.name params s.calls.size) := by
  unfold send at h ⊢
  cases hp : m.params.encode p with
  | error fault =>
    rw [hp] at h
    cases h
  | ok params =>
    rw [hp] at h
    dsimp only at h
    by_cases hr : s.isRunning = true
    · have hsend : s.sendWritten m.name params transient = (.ok s.calls.size, _) := if_pos hr
      rw [hsend] at h
      exact ⟨params, rfl, hr, (Except.ok.inj h).symm, congrArg Prod.snd hsend⟩
    · have hsend : s.sendWritten m.name params transient = (.error .closed, _) := if_neg hr
      rw [hsend] at h
      cases h

/-- A call that is made queues its request. -/
theorem madeBy_send {m : Rpc.RequestMethod} {p : m.Params} {transient : Bool} {call : Nat}
    (h : (s.send m p transient).1 = .ok call) :
    ∃ params, m.params.encode p = .ok params ∧ s.isRunning = true ∧ call = s.calls.size ∧
      s.madeBy (.send m p transient) = [(.number s.nextId, m.name, params)] := by
  obtain ⟨params, hp, hr, hcall, hs⟩ := send_of_ok h
  refine ⟨params, hp, hr, hcall, ?_⟩
  have hcommands : (s.act (.send m p transient)).commands =
      s.commands ++ [.request (.number s.nextId) m.name params s.calls.size] := by
    refine (congrArg commands hs).trans (commands_command ?_ _)
    exact hr
  change List.drop (s.commands.filterMap _).length
    ((s.act (.send m p transient)).commands.filterMap _) = _
  rw [hcommands, List.filterMap_append, List.drop_left]
  rfl

/-- In a run a call is made. -/
def Sends (s : State R N) (actions : List Action) (m : Rpc.RequestMethod) (p : m.Params)
    (call : Nat) : Prop :=
  ∃ i transient, actions[i]? = some (.send m p transient) ∧
    ((s.run (actions.take i)).send m p transient).1 = .ok call

theorem size_calls_take_lt {n : Nat} (h : (s.run actions).calls.size < n) (i : Nat) :
    (s.run (actions.take i)).calls.size < n := by
  have hsize := size_calls_run (s.run (actions.take i)) (actions.drop i)
  rw [← run_append, List.take_append_drop] at hsize
  exact hsize.trans_lt h

/-- The request of a call that was made. -/
theorem made_of_sends (h : ((start registry config).run actions).calls.size < 2 ^ 64)
    {m : Rpc.RequestMethod} {p : m.Params} {call : Nat}
    (hs : (start registry config).Sends actions m p call) :
    ∃ params, m.params.encode p = .ok params ∧
      (idAt call, m.name, params) ∈ (start registry config).made actions := by
  obtain ⟨i, transient, hi, hsend⟩ := hs
  have hsize := size_calls_take_lt h i
  obtain ⟨params, hp, hr, rfl, hmade⟩ := madeBy_send hsend
  refine ⟨params, hp, ?_⟩
  have hid : idAt ((start registry config).run (actions.take i)).calls.size =
      .number ((start registry config).run (actions.take i)).nextId :=
    (congrArg Id.number ((settling_run hsize).nextId hr)).symm
  refine (mem_along _).2 ⟨i, _, hi, ?_⟩
  rw [hmade, hid]
  exact List.mem_cons_self

/-- What is sent with the identifier of a call is its request. -/
theorem request_eq_of_mem_sent (h : ((start registry config).run actions).calls.size < 2 ^ 64)
    {e : Envelope} (he : e ∈ (start registry config).sent actions) {r r' : Request}
    (hr : e.request? = some r) (hr' : r' ∈ (start registry config).made actions)
    (hid : r.1 = r'.1) : r = r' := by
  have hmem := sublist_made.subset (List.mem_filterMap.2 ⟨e, he, hr⟩)
  exact List.inj_on_of_nodup_map (nodup_made h) hmem hr' hid

/-- No two requests of one identifier are sent. -/
theorem request_inj (h : ((start registry config).run actions).calls.size < 2 ^ 64)
    {e e' : Envelope} (he : [e, e'].Sublist ((start registry config).sent actions))
    {r r' : Request} (hr : e.request? = some r) (hr' : e'.request? = some r') : r.1 ≠ r'.1 := by
  have hsub := ((he.filterMap Envelope.request?).trans sublist_made).map (·.1)
  have hnodup := (nodup_made h).sublist hsub
  simp only [List.filterMap_cons, hr, hr', List.filterMap_nil, List.map_cons, List.map_nil] at hnodup
  simpa using hnodup

end State

end Session

end PeerRpc
