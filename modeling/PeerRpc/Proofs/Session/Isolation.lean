import PeerRpc.Proofs.Session.Mirror

/-!
# Payloads of no use

A payload that a session cannot use adds a protocol error to its events, perhaps an error response
to what it sends, and changes nothing else (`act_of_unusable`). So a run into which such payloads
are put goes on in step with the run without them, as long as the error responses make no write fail
(`unaffected_by_unusable`).
-/

namespace PeerRpc.Session

open Rpc (Envelope Id)

/-- The second list is the first one with some elements put in for which `p` holds. -/
inductive Interspersed {α : Type} (p : α → Prop) : List α → List α → Prop
  | nil : Interspersed p [] []
  | both {l l' : List α} (h : Interspersed p l l') (x : α) : Interspersed p (l ++ [x]) (l' ++ [x])
  | extra {l l' : List α} (h : Interspersed p l l') (x : α) (hx : p x) :
    Interspersed p l (l' ++ [x])

namespace Interspersed

variable {α : Type} {p : α → Prop} {l l' : List α}

theorem append (h : Interspersed p l l') (more : List α) :
    Interspersed p (l ++ more) (l' ++ more) := by
  induction more using List.reverseRecOn with
  | nil => simpa using h
  | append_singleton more x ih =>
    rw [← List.append_assoc, ← List.append_assoc]
    exact ih.both x

theorem append_extra (h : Interspersed p l l') {more : List α} (hmore : ∀ x ∈ more, p x) :
    Interspersed p l (l' ++ more) := by
  induction more using List.reverseRecOn with
  | nil => simpa using h
  | append_singleton more x ih =>
    rw [← List.append_assoc]
    refine (ih fun y hy => hmore y ?_).extra x (hmore x ?_) <;> simp [*]

/-- What was put in can be filtered out again. -/
theorem filter_eq {q : α → Bool} (h : Interspersed p l l') (hq : ∀ x, p x → q x = false) :
    l'.filter q = l.filter q := by
  induction h with
  | nil => rfl
  | both _ x ih => rw [List.filter_append, List.filter_append, ih]
  | extra _ x hx ih => rw [List.filter_append, ih, List.filter_singleton, hq x hx]; simp

end Interspersed

/-- Whether an action brings in bytes from outside, or their end. -/
def Action.feeds : Action → Bool
  | .arrive _ | .closeSource _ => true
  | _ => false

namespace State

variable {R N : Type}

/-- A session cannot use a payload: it holds no message, or a call that cannot be made into a value,
or a response to no open call. -/
def Unusable (s : State R N) (payload : List UInt8) : Prop :=
  match Rpc.Message.ofPayload payload with
  | .error _ => True
  | .ok (.request _ method params) => ∃ fault, s.registry.decodeRequest method params = .error fault
  | .ok (.notification method params) =>
    ∃ fault, s.registry.decodeNotification method params = .error fault
  | .ok (.response r) => s.pendingCall? r.id = none

theorem unusable_of_malformed {payload : List UInt8}
    (h : (Rpc.Message.ofPayload payload).isOk = false) (s : State R N) : s.Unusable payload := by
  unfold Unusable
  split
  · trivial
  all_goals
    rename_i hm
    rw [hm] at h
    cases h

theorem next_of_handled {s : State R N} {payload : List UInt8}
    (h : s.handled .receive = some payload) : s.reader.next.1 = .payload payload := by
  unfold handled at h
  dsimp only at h
  split_ifs at h
  split at h
  · rename_i hn
    rw [hn, Option.some.inj h]
  · cases h

variable {s s' : State R N}

/-- Of a payload that it cannot use a session makes a protocol error, and perhaps an error response.
-/
theorem handlePayload_of_unusable {payload : List UInt8} (h : s.Unusable payload) :
    ∃ (reply : Option (Id × Rpc.Failure)) (error : ProtocolError) (records : Array Log.Record),
      s.handlePayload payload = s.within
        { reader := s.reader
          outbox := reply.elim s.outbox fun r => s.outbox.put (.failure r.1 r.2)
          events := if s.listening then s.events.push (.protocolError error) else s.events
          records } := by
  unfold Unusable at h
  unfold handlePayload
  cases hp : Rpc.Message.ofPayload payload with
  | error fault =>
    dsimp only [handleMalformed]
    cases hid : Rpc.requestIdOf? payload with
    | none => exact ⟨none, _, _, emit_eq _ _⟩
    | some id => exact ⟨some (id, .invalidRequest fault.message), _, _, emit_eq _ _⟩
  | ok message =>
    rw [hp] at h
    cases message with
    | request id method params =>
      obtain ⟨fault, hd⟩ := h
      dsimp only [handleMessage, handleRequest]
      rw [hd]
      exact ⟨some (id, fault.toFailure), _, _, emit_eq _ _⟩
    | notification method params =>
      obtain ⟨fault, hd⟩ := h
      dsimp only [handleMessage, handleNotification]
      rw [hd]
      exact ⟨none, _, _, emit_eq _ _⟩
    | response r =>
      have hn : s.pendingCall? r.id = none := h
      dsimp only [handleMessage, handleResponse]
      rw [hn]
      exact ⟨none, _, _, emit_eq _ _⟩

theorem act_of_unusable {payload : List UInt8} (hp : s.handled .receive = some payload)
    (hu : s.Unusable payload) :
    ∃ (reply : Option (Id × Rpc.Failure)) (error : ProtocolError) (records : Array Log.Record),
      s.act .receive = s.within
        { reader := s.reader.next.2
          outbox := reply.elim s.outbox fun r => s.outbox.put (.failure r.1 r.2)
          events := if s.listening then s.events.push (.protocolError error) else s.events
          records } := by
  obtain ⟨reply, error, records, hstate⟩ :=
    handlePayload_of_unusable (s := { s with reader := s.reader.next.2 }) hu
  exact ⟨reply, error, records, (act_of_handled hp).2.trans hstate⟩

/-- The second session handles a payload of no use and stays in step with the first. -/
theorem Alike.insert (h : Alike s s') {payload : List UInt8}
    (hp : s'.handled .receive = some payload) (hu : s'.Unusable payload) :
    Alike s (s'.act .receive) ∧
      (∀ e ∈ s'.deliveredBy .receive, ∃ error, e = .protocolError error) ∧
      ∀ e ∈ s'.sentBy .receive, ∃ id f, e = .failure id f := by
  obtain ⟨reply, error, records, hstate⟩ := act_of_unusable hp hu
  have houtbox : (s'.act .receive).outbox =
      reply.elim s'.outbox fun r => s'.outbox.put (.failure r.1 r.2) := by
    rw [hstate]
    rfl
  have hevents : (s'.act .receive).events =
      if s'.listening then s'.events.push (.protocolError error) else s'.events := by
    rw [hstate]
    rfl
  refine ⟨⟨?_, fun hrun => ?_⟩, ?_, ?_⟩
  · rw [hstate]
    exact h.core
  · have hm := h.atWork hrun
    have hwithin : ∀ w, s'.within w = s.within w := fun w =>
      (congrArg (fun t : State R N => t.within w) hm.rest).trans (within_within s _ w)
    refine ⟨?_, ?_, ?_⟩
    · rw [hstate]
      exact hwithin _
    · rw [houtbox]
      cases reply with
      | none => exact hm.outbox
      | some r => exact hm.outbox.put_right _
    · rw [hevents, ← hm.events]
      split_ifs
      · rw [Array.toList_push, List.filter_append]
        exact List.append_nil _
      · rfl
  · rw [deliveredBy, hevents]
    split_ifs
    · rw [drop_push]
      exact fun e he => ⟨error, List.mem_singleton.1 he⟩
    · rw [drop_size]
      exact fun e he => absurd he List.not_mem_nil
  · intro e he
    cases reply with
    | none =>
      rw [sentBy_of_outbox houtbox] at he
      exact absurd he List.not_mem_nil
    | some r => exact ⟨r.1, r.2, eq_of_mem_sentBy_of_put he houtbox⟩

/-! ## Two runs in step -/

/-- The second run is the first one with payloads of no use put in, and with the writes that their
answers need; no write fails in it, while the session is at work, that does not fail in the first.
What is read in both runs is the same, whenever and in whatever pieces the bytes arrive. -/
inductive Inserted (s : State R N) : List Action → List Action → Prop
  | nil : Inserted s [] []
  /-- The same happens in both runs. -/
  | both {actions actions' : List Action} (h : Inserted s actions actions') (a : Action)
    (ha : a.takesIn = false)
    (hw : a = .write → (s.run actions').isRunning = true →
      (s.run (actions' ++ [a])).outbox.isActive = false →
        (s.run (actions ++ [a])).outbox.isActive = false) :
    Inserted s (actions ++ [a]) (actions' ++ [a])
  /-- The same is read in both runs. -/
  | read {actions actions' : List Action} (h : Inserted s actions actions')
    (hnext : (s.run actions).isRunning = true →
      (s.run actions').reader.next.1 = (s.run actions).reader.next.1) :
    Inserted s (actions ++ [.receive]) (actions' ++ [.receive])
  /-- Bytes arrive, or the source ends, in the first run. -/
  | left {actions actions' : List Action} (h : Inserted s actions actions') (a : Action)
    (ha : a.feeds = true) : Inserted s (actions ++ [a]) actions'
  /-- Bytes arrive, or the source ends, in the second run. -/
  | right {actions actions' : List Action} (h : Inserted s actions actions') (a : Action)
    (ha : a.feeds = true) : Inserted s actions (actions' ++ [a])
  /-- A payload of no use is handled in the second run. -/
  | insert {actions actions' : List Action} (h : Inserted s actions actions')
    (payload : List UInt8) (hp : (s.run actions').handled .receive = some payload)
    (hu : (s.run actions').Unusable payload) : Inserted s actions (actions' ++ [.receive])
  /-- The second run writes what it has more to write than the first. -/
  | write {actions actions' : List Action} (h : Inserted s actions actions')
    (hl : (s.run actions).outbox.load < (s.run actions').outbox.load)
    (ha : (s.run (actions' ++ [.write])).outbox.isActive = true) :
    Inserted s actions (actions' ++ [.write])

/-- Two runs know the same of their calls and deliver the same requests and notifications. The
second delivers and sends what the first does, but for additional protocol errors and error
responses. -/
structure Unaffected (s : State R N) (actions actions' : List Action) : Prop where
  isRunning_eq : (s.run actions').isRunning = (s.run actions).isRunning
  calls_eq : (s.run actions').calls = (s.run actions).calls
  pending_eq : (s.run actions').pending = (s.run actions).pending
  nextId_eq : (s.run actions').nextId = (s.run actions).nextId
  heard : (s.delivered actions').filter Event.isCall = (s.delivered actions).filter Event.isCall
  delivered : Interspersed (fun e => ∃ error, e = .protocolError error) (s.delivered actions)
    (s.delivered actions')
  sent : Interspersed (fun e => ∃ id f, e = .failure id f) (s.sent actions) (s.sent actions')

theorem alike_start (registry : Rpc.Registry R N) (config : Config) :
    Alike (start registry config) (start registry config) :=
  ⟨rfl, fun _ => ⟨rfl, ⟨⟨rfl, rfl⟩, ⟨rfl, rfl⟩, rfl, rfl, fun _ => le_rfl⟩, rfl⟩⟩

theorem act_of_feeds {a : Action} (ha : a.feeds = true) (s : State R N) :
    (∃ reader, s.act a = { s with reader }) ∧ s.deliveredBy a = [] ∧ s.sentBy a = [] := by
  cases a with
  | arrive | closeSource => exact ⟨⟨_, rfl⟩, drop_size _, drop_size _⟩
  | _ => cases ha

variable {actions actions' : List Action}

/-- After two runs the sessions are in step. What the second has delivered and sent more than the
first is protocol errors and error responses. -/
structure Parallel (s : State R N) (actions actions' : List Action) : Prop where
  alike : Alike (s.run actions) (s.run actions')
  delivered : Interspersed (fun e => ∃ error, e = .protocolError error) (s.delivered actions)
    (s.delivered actions')
  sent : Interspersed (fun e => ∃ id f, e = .failure id f) (s.sent actions) (s.sent actions')

theorem Parallel.both (h : Parallel s actions actions') {a : Action}
    (hstep : InStep (s.run actions) (s.run actions') ((s.run actions).act a)
      ((s.run actions').act a)) : Parallel s (actions ++ [a]) (actions' ++ [a]) := by
  have hdelivered : (s.run actions').deliveredBy a = (s.run actions).deliveredBy a :=
    hstep.delivered
  have hsent : (s.run actions').sentBy a = (s.run actions).sentBy a := hstep.sent
  refine ⟨?_, ?_, ?_⟩
  · rw [run_concat, run_concat]
    exact hstep.alike
  · rw [delivered_concat, delivered_concat, hdelivered]
    exact h.delivered.append _
  · rw [sent_concat, sent_concat, hsent]
    exact h.sent.append _

theorem Parallel.left (h : Parallel s actions actions') {a : Action}
    (halike : Alike ((s.run actions).act a) (s.run actions'))
    (hd : (s.run actions).deliveredBy a = []) (hs : (s.run actions).sentBy a = []) :
    Parallel s (actions ++ [a]) actions' := by
  refine ⟨?_, ?_, ?_⟩
  · rwa [run_concat]
  · rw [delivered_concat, hd, List.append_nil]
    exact h.delivered
  · rw [sent_concat, hs, List.append_nil]
    exact h.sent

theorem Parallel.right (h : Parallel s actions actions') {a : Action}
    (halike : Alike (s.run actions) ((s.run actions').act a))
    (hd : ∀ e ∈ (s.run actions').deliveredBy a, ∃ error, e = .protocolError error)
    (hs : ∀ e ∈ (s.run actions').sentBy a, ∃ id f, e = .failure id f) :
    Parallel s actions (actions' ++ [a]) := by
  refine ⟨?_, ?_, ?_⟩
  · rwa [run_concat]
  · rw [delivered_concat]
    exact h.delivered.append_extra hd
  · rw [sent_concat]
    exact h.sent.append_extra hs

/-- Runs that differ in payloads of no use stay in step. -/
theorem Inserted.parallel (hs : Alike s s) (h : Inserted s actions actions') :
    Parallel s actions actions' := by
  induction h with
  | nil => exact ⟨hs, .nil, .nil⟩
  | both _ a ha hw ih =>
    rw [run_concat, run_concat] at hw
    exact ih.both (ih.alike.act ha hw)
  | read _ hnext ih => exact ih.both (ih.alike.receive hnext)
  | left _ a ha ih =>
    obtain ⟨⟨reader, hact⟩, hd, hs⟩ := act_of_feeds ha (s.run _)
    exact ih.left (hact ▸ ih.alike.left reader) hd hs
  | right _ a ha ih =>
    obtain ⟨⟨reader, hact⟩, hd, hs⟩ := act_of_feeds ha (s.run _)
    exact ih.right (hact ▸ ih.alike.right reader) (by simp [hd]) (by simp [hs])
  | insert _ payload hp hu ih =>
    obtain ⟨halike, hd, hs⟩ := ih.alike.insert hp hu
    exact ih.right halike hd hs
  | @write _ actions' _ hl ha ih =>
    rw [run_concat] at ha
    obtain ⟨hd, hs⟩ := idle_write (s.run actions')
    exact ih.right (ih.alike.write_right hl ha) (by simp [hd]) (by simp [hs])

/-- The beginning of a run corresponds to the beginning of the other run. -/
theorem Inserted.of_isPrefix (h : Inserted s actions actions') {earlier : List Action}
    (hp : earlier <+: actions) :
    ∃ earlier', earlier' <+: actions' ∧ Inserted s earlier earlier' := by
  induction h with
  | nil =>
    obtain rfl := List.prefix_nil.1 hp
    exact ⟨[], List.prefix_rfl, .nil⟩
  | both h a ha hw ih =>
    rcases List.prefix_concat_iff.1 hp with rfl | hp
    · exact ⟨_, List.prefix_rfl, h.both a ha hw⟩
    · obtain ⟨earlier', hp', he⟩ := ih hp
      exact ⟨earlier', hp'.trans (List.prefix_append _ _), he⟩
  | read h hnext ih =>
    rcases List.prefix_concat_iff.1 hp with rfl | hp
    · exact ⟨_, List.prefix_rfl, h.read hnext⟩
    · obtain ⟨earlier', hp', he⟩ := ih hp
      exact ⟨earlier', hp'.trans (List.prefix_append _ _), he⟩
  | left h a ha ih =>
    rcases List.prefix_concat_iff.1 hp with rfl | hp
    · exact ⟨_, List.prefix_rfl, h.left a ha⟩
    · exact ih hp
  | right _ _ _ ih | insert _ _ _ _ ih | write _ _ _ ih =>
    obtain ⟨earlier', hp', he⟩ := ih hp
    exact ⟨earlier', hp'.trans (List.prefix_append _ _), he⟩

theorem Parallel.unaffected (h : Parallel s actions actions') : Unaffected s actions actions' where
  isRunning_eq := h.alike.isRunning_eq
  calls_eq := congrArg Core.calls h.alike.core
  pending_eq := congrArg Core.pending h.alike.core
  nextId_eq := congrArg Core.nextId h.alike.core
  heard := h.delivered.filter_eq fun _ ⟨_, he⟩ => he ▸ rfl
  delivered := h.delivered
  sent := h.sent

end State

open State in
/-- Payloads of no use change nothing that the callers see, in the whole run and after each of its
actions. They add protocol errors to the events and error responses to what is sent. -/
theorem unaffected_by_unusable {R N : Type} (registry : Rpc.Registry R N) (config : Config)
    {actions actions' : List Action} (h : Inserted (start registry config) actions actions') :
    Unaffected (start registry config) actions actions' ∧
      ∀ earlier, earlier <+: actions → ∃ earlier', earlier' <+: actions' ∧
        Inserted (start registry config) earlier earlier' ∧
        Unaffected (start registry config) earlier earlier' := by
  have hstart := alike_start registry config
  refine ⟨(h.parallel hstart).unaffected, fun earlier hp => ?_⟩
  obtain ⟨earlier', hp', he⟩ := h.of_isPrefix hp
  exact ⟨earlier', hp', he, (he.parallel hstart).unaffected⟩

/-- A request without a method comes before the response to a call. It is answered with an error,
and the call gets its outcome. -/
theorem unaffected_by_broken_request :
    let s₀ := State.start (Rpc.Registry.empty : Rpc.Registry Unit Unit) {}
    let broken := (Json.object [("id", .int 5), ("method", .int 3)]).bytes
    let response := (Envelope.success (.number 1) .null).bytes
    let actions : List Action := [.send Rpc.Catalog.shutdown () false, .handle, .write,
      .arrive (Frame.encode response), .receive, .poll 0]
    let actions' : List Action := [.send Rpc.Catalog.shutdown () false, .handle,
      .arrive (Frame.encode broken ++ Frame.encode response), .receive, .write, .write, .receive,
      .poll 0]
    s₀.Inserted actions actions' ∧ s₀.Unaffected actions actions' ∧
      (s₀.run actions').calls.map (·.finished) = #[true] ∧
      (s₀.sent actions').map (·.id) = [some (.number 1), some (.number 5)] := by
  intro s₀ broken response actions actions'
  -- The runs are followed once: where each payload is read, and what there is to write.
  obtain ⟨hbroken, hinsert, hactive, hload, hwritten, hfirst, hsecond, hend⟩ :
      (Rpc.Message.ofPayload broken).isOk = false ∧
      (s₀.run (actions'.take 3)).handled .receive = some broken ∧
      (s₀.run (actions'.take 5)).outbox.isActive = true ∧
      (s₀.run (actions.take 3)).outbox.load < (s₀.run (actions'.take 5)).outbox.load ∧
      (s₀.run (actions'.take 6)).outbox.isActive = true ∧
      (s₀.run (actions.take 4)).handled .receive = some response ∧
      (s₀.run (actions'.take 6)).handled .receive = some response ∧
      (s₀.run actions').calls.map (·.finished) = #[true] ∧
      (s₀.sent actions').map (·.id) = [some (.number 1), some (.number 5)] := by
    decide +kernel
  have hsent : s₀.Inserted [.send Rpc.Catalog.shutdown () false, .handle]
      [.send Rpc.Catalog.shutdown () false, .handle] :=
    (State.Inserted.nil.both (.send Rpc.Catalog.shutdown () false) rfl nofun).both .handle rfl nofun
  have hanswered : s₀.Inserted [.send Rpc.Catalog.shutdown () false, .handle, .write]
      (actions'.take 6) :=
    (((hsent.right (.arrive (Frame.encode broken ++ Frame.encode response)) rfl).insert broken
      hinsert (State.unusable_of_malformed hbroken _)).both .write rfl
        fun _ _ h => absurd (hactive.symm.trans h) (by decide)).write hload hwritten
  have hread : s₀.Inserted (actions.take 5) (actions'.take 7) :=
    (hanswered.left (.arrive (Frame.encode response)) rfl).read fun _ =>
      (State.next_of_handled hsecond).trans (State.next_of_handled hfirst).symm
  have hinserted : s₀.Inserted actions actions' := hread.both (.poll 0) rfl nofun
  exact ⟨hinserted, (unaffected_by_unusable Rpc.Registry.empty {} hinserted).1, hend⟩

/-- The answer to a request without a method is a write that fails. Without it the session goes on,
and the call stays open. -/
theorem stopped_by_broken_request :
    let s₀ := State.start (Rpc.Registry.empty : Rpc.Registry Unit Unit) {}
    let broken := (Json.object [("id", .int 5), ("method", .int 3)]).bytes
    let before : List Action := [.send Rpc.Catalog.shutdown () false, .handle, .write,
      .setSink .failingWrite]
    let after : List Action := [.write, .notice]
    let inserted : List Action := [.arrive (Frame.encode broken), .receive]
    ((s₀.run (before ++ inserted.take 1)).handled .receive = some broken ∧
      (s₀.run (before ++ inserted.take 1)).Unusable broken) ∧
    ((s₀.run (before ++ after)).isRunning = true ∧
      (s₀.run (before ++ after)).pending = [(.number 1, 0)] ∧
      ((s₀.run (before ++ after)).poll 0).1.isNone = true) ∧
    ((s₀.run (before ++ inserted ++ after)).isRunning = false ∧
      (s₀.run (before ++ inserted ++ after)).pending = [] ∧
      ((s₀.run (before ++ inserted ++ after)).poll 0).1.isSome = true) := by
  intro s₀ broken before after inserted
  have hbroken : (Rpc.Message.ofPayload broken).isOk = false := by decide +kernel
  exact ⟨⟨by decide +kernel, State.unusable_of_malformed hbroken _⟩, by decide +kernel⟩

end PeerRpc.Session
