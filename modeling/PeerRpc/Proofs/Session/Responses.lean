import PeerRpc.Proofs.Rpc.Fields
import PeerRpc.Proofs.Rpc.Payload
import PeerRpc.Proofs.Session.Table

/-!
# The order of responses does not matter

A response settles the call of its identifier and leaves everything else alone that the owner of a
session sees, except for its own protocol error; every other payload leaves the calls alone. So the
payloads that a session handles fall into two parts that do not touch each other, and responses
with different identifiers do not touch each other either.

* `handled_in_any_order`: payloads may be rearranged as long as those that are no responses keep
  their order, and every call ends with what the response of its identifier tells it.
-/

namespace PeerRpc.Session

open Rpc (EnvelopeFault Id Registry Response)

/-! ## What a response tells -/

/-- The response that a payload holds, if it holds one. -/
def response? (payload : List UInt8) : Option Response :=
  match Rpc.Message.ofPayload payload with
  | .ok (.response r) => some r
  | _ => none

theorem message_of_response? {payload : List UInt8} {r : Response}
    (h : response? payload = some r) : Rpc.Message.ofPayload payload = .ok (.response r) := by
  unfold response? at h
  split at h
  · rename_i he
    cases h
    exact he
  · cases h

theorem envelope_of_response? {payload : List UInt8} {r : Response}
    (h : response? payload = some r) : ∃ e : Rpc.Envelope,
      Rpc.Envelope.ofPayload payload = .ok e ∧ e.method = none ∧ e.id = some r.id ∧
        r = ⟨r.id, e.result, e.error⟩ := by
  obtain ⟨e, he, hm⟩ := Rpc.Message.exists_envelope (message_of_response? h)
  exact ⟨e, he, Rpc.Envelope.response_of_classify hm⟩

/-- The identifier of a response is the number or the text that stands in the payload. -/
theorem idValue?_of_response {payload : List UInt8} {r : Response} {v : Json}
    (hr : response? payload = some r) (hv : Json.parse payload = .ok v) :
    Rpc.Envelope.idValue? v = some r.id.toJson := by
  obtain ⟨e, he, -, hid, -⟩ := envelope_of_response? hr
  obtain ⟨value, hvalue, hjson⟩ := Option.bind_eq_some_iff.1
    ((Rpc.Envelope.id_of_parse he hv).symm.trans hid)
  rw [hvalue, Rpc.Id.eq_toJson_of_ofJson? hjson]

/-- What the caller learns from a response: the result or the error of the peer, or else that the
response has both or neither. -/
def told (r : Response) : Outcome :=
  match r.result, r.error with
  | some result, none => .ok result
  | none, some failure => .error (.rpc failure)
  | some _, some _ => .error (.malformedResponse (EnvelopeFault.resultAndError r.id).message)
  | none, none => .error (.malformedResponse (EnvelopeFault.noOutcome r.id).message)

theorem told_of_ok {r : Response} {outcome : Except Rpc.Failure Json}
    (h : r.outcome = .ok outcome) :
    told r = outcome.mapError .rpc := by
  obtain ⟨id, result, error⟩ := r
  cases result <;> cases error <;> cases h <;> rfl

theorem told_of_fault {r : Response} {fault : EnvelopeFault} (h : r.outcome = .error fault) :
    told r = .error (.malformedResponse fault.message) := by
  obtain ⟨id, result, error⟩ := r
  cases result <;> cases error <;> cases h <;> rfl

namespace Core

variable {c : Core} {r : Response} {rs : List Response} {id : Id} {i call : Nat} {k : Call}

/-- The core in which a response has settled the call of its identifier, if there is one. -/
def answer (c : Core) (r : Response) : Core :=
  match c.pendingCall? r.id with
  | none => c
  | some call => (c.closePending r.id).settle call (told r)

/-- The core in which some responses have settled the calls of their identifiers. -/
def answers (c : Core) (rs : List Response) : Core :=
  rs.foldl answer c

theorem answer_pending (c : Core) (r : Response) :
    (c.answer r).pending = c.pending.filter fun p => p.1 ≠ r.id := by
  unfold answer
  split
  · rename_i h
    exact congrArg Core.pending (closePending_of_none h).symm
  · rfl

theorem pendingCall?_answer (c : Core) (r : Response) (id : Id) :
    (c.answer r).pendingCall? id = if id = r.id then none else c.pendingCall? id := by
  have hpending : (c.answer r).pendingCall? id = (c.closePending r.id).pendingCall? id := by
    rw [pendingCall?, pendingCall?, answer_pending]
    rfl
  rw [hpending, pendingCall?_closePending]

theorem getElem?_answer (c : Core) (r : Response) (i : Nat) :
    (c.answer r).calls[i]? =
      if c.pendingCall? r.id = some i then
        c.calls[i]?.map fun k => { k with outcomes := k.outcomes ++ [told r] }
      else c.calls[i]? := by
  unfold answer
  split
  · rename_i h
    rw [h, if_neg nofun]
  · rename_i call h
    rw [h]
    refine (getElem?_settled c.calls call (told r) i).trans (if_congr ?_ rfl rfl)
    exact Option.some_inj.symm

theorem answers_pending (c : Core) (rs : List Response) :
    (c.answers rs).pending = c.pending.filter fun p => p.1 ∉ rs.map (·.id) := by
  induction rs generalizing c with
  | nil => exact (List.filter_eq_self.2 fun p _ => by simp).symm
  | cons r rs ih =>
    rw [answers, List.foldl_cons]
    refine (ih (c.answer r)).trans ?_
    rw [answer_pending, List.filter_filter]
    refine List.filter_congr fun p _ => ?_
    rw [Bool.eq_iff_iff]
    simp [and_comm]

theorem pendingCall?_answers (c : Core) (rs : List Response) (id : Id) :
    (c.answers rs).pendingCall? id =
      if id ∈ rs.map (·.id) then none else c.pendingCall? id := by
  induction rs generalizing c with
  | nil => rfl
  | cons r rs ih =>
    rw [answers, List.foldl_cons]
    refine (ih (c.answer r)).trans ?_
    rw [pendingCall?_answer, List.map_cons]
    by_cases hr : id = r.id
    · rw [if_pos hr, ite_self, if_pos (hr ▸ List.mem_cons_self)]
    · rw [if_neg hr]
      exact if_congr (by rw [List.mem_cons, or_iff_right hr]) rfl rfl

/-- The responses change nothing about a call under none of whose identifiers it is open. -/
theorem getElem?_answers_of_ne (h : ∀ r ∈ rs, c.pendingCall? r.id ≠ some i) :
    (c.answers rs).calls[i]? = c.calls[i]? := by
  induction rs generalizing c with
  | nil => rfl
  | cons r rs ih =>
    rw [answers, List.foldl_cons]
    refine (ih fun r' hr' => ?_).trans ?_
    · rw [pendingCall?_answer]
      split_ifs
      · exact nofun
      · exact h r' (List.mem_cons_of_mem _ hr')
    · rw [getElem?_answer, if_neg (h r List.mem_cons_self)]

/-- No call is open under two identifiers. -/
def Unshared (c : Core) : Prop :=
  ∀ {id id' call}, c.pendingCall? id = some call → c.pendingCall? id' = some call → id = id'

theorem Orderly.unshared (h : Orderly c) : c.Unshared := by
  intro id id' call hid hid'
  have hp := mem_slots_of_pending (mem_pending_of_pendingCall? hid)
  have hp' := mem_slots_of_pending (mem_pending_of_pendingCall? hid')
  exact congrArg Prod.fst (List.inj_on_of_nodup_map h.once hp hp' rfl)

/-- Of several responses with different identifiers, a call gets the outcome of its own. -/
theorem getElem?_answers_of_mem (hc : c.Unshared) (hids : (rs.map (·.id)).Nodup) (hr : r ∈ rs)
    (hn : c.pendingCall? r.id = some i) :
    (c.answers rs).calls[i]? =
      c.calls[i]?.map fun k => { k with outcomes := k.outcomes ++ [told r] } := by
  induction rs generalizing c with
  | nil => exact absurd hr List.not_mem_nil
  | cons r' rs ih =>
    rw [List.map_cons, List.nodup_cons] at hids
    rw [answers, List.foldl_cons]
    by_cases he : r' = r
    · subst he
      refine (getElem?_answers_of_ne fun r hr => ?_).trans ?_
      · rw [pendingCall?_answer]
        split_ifs with hid
        · exact nofun
        · exact fun h => hid (hc h hn)
      · rw [getElem?_answer, if_pos hn]
    · have hr := (List.mem_cons.1 hr).resolve_left (Ne.symm he)
      have hid : r.id ≠ r'.id := fun h => hids.1 (h ▸ List.mem_map_of_mem hr)
      refine (ih ?_ hids.2 hr ?_).trans ?_
      · intro id id' call h h'
        rw [pendingCall?_answer] at h h'
        split_ifs at h h'
        exact hc h h'
      · rw [pendingCall?_answer, if_neg hid, hn]
      · rw [getElem?_answer, if_neg fun h => hid (hc hn h)]

theorem answers_keeps (c : Core) (rs : List Response) :
    (c.answers rs).running = c.running ∧ (c.answers rs).nextId = c.nextId ∧
      (c.answers rs).commands = c.commands := by
  induction rs generalizing c with
  | nil => exact ⟨rfl, rfl, rfl⟩
  | cons r rs ih =>
    obtain ⟨hrunning, hnext, hcommands⟩ := ih (c.answer r)
    have hkeeps : (c.answer r).running = c.running ∧ (c.answer r).nextId = c.nextId ∧
        (c.answer r).commands = c.commands := by
      unfold answer
      split <;> exact ⟨rfl, rfl, rfl⟩
    exact ⟨hrunning.trans hkeeps.1, hnext.trans hkeeps.2.1, hcommands.trans hkeeps.2.2⟩

/-- Responses with different identifiers may come in any order. -/
theorem answers_congr (hc : c.Unshared) (hids : (rs.map (·.id)).Nodup) {rs' : List Response}
    (h : rs.Perm rs') : c.answers rs = c.answers rs' := by
  obtain ⟨hrunning, hnext, hcommands⟩ := answers_keeps c rs
  obtain ⟨hrunning', hnext', hcommands'⟩ := answers_keeps c rs'
  refine Core.ext (hrunning.trans hrunning'.symm) (hnext.trans hnext'.symm)
    (hcommands.trans hcommands'.symm) ?_ (Array.ext_getElem? fun i => ?_)
  · rw [answers_pending, answers_pending]
    refine List.filter_congr fun p _ => ?_
    rw [decide_eq_decide, (h.map (·.id)).mem_iff]
  · by_cases hopen : ∃ r ∈ rs, c.pendingCall? r.id = some i
    · obtain ⟨r, hr, hn⟩ := hopen
      rw [getElem?_answers_of_mem hc hids hr hn, getElem?_answers_of_mem hc
        ((h.map (·.id)).nodup_iff.1 hids) (h.mem_iff.1 hr) hn]
    · have hne : ∀ r ∈ rs, c.pendingCall? r.id ≠ some i := fun r hr hn => hopen ⟨r, hr, hn⟩
      rw [getElem?_answers_of_ne hne, getElem?_answers_of_ne fun r hr => hne r (h.mem_iff.2 hr)]

end Core

/-! ## What the owner sees besides -/

/-- Whether an event is a call of the peer, and not a fault of the protocol. -/
def Event.isCall {R N : Type} : Event R N → Bool
  | .protocolError _ => false
  | _ => true

/-- The part of a session's state that has to do with the calls of the peer. -/
structure Front (R N : Type) where
  registry : Registry R N
  listening : Bool
  outbox : Outbox
  tickets : Array Ticket
  /-- The requests and notifications among the events, in their order. -/
  events : List (Event R N)

/-- The front with one more envelope to write. -/
def Front.put {R N : Type} (f : Front R N) (e : Rpc.Envelope) : Front R N :=
  { f with outbox := f.outbox.put e }

namespace State

variable {R N : Type} {s s' : State R N}

/-- The part of the state that has to do with the calls of the peer. -/
def front (s : State R N) : Front R N :=
  ⟨s.registry, s.listening, s.outbox, s.tickets, s.events.toList.filter Event.isCall⟩

theorem front_emit (s : State R N) (e : Event R N) :
    (s.emit e).front =
      { s.front with
        events := s.front.events ++ if s.front.listening && e.isCall then [e] else [] } := by
  unfold emit
  cases hl : s.listening <;> cases he : e.isCall <;> simp [front, hl, he]

theorem front_log (s : State R N) (level : Log.Level) (text : String) :
    (s.log level text).front = s.front := rfl

theorem front_queue (s : State R N) (e : Rpc.Envelope) : (s.queue e).front = s.front.put e := rfl

theorem front_deliverRequest (s : State R N) (id : Id) (method : String) (value : R) :
    (s.deliverRequest id method value).front =
      if s.front.listening then
        { s.front with
          tickets := s.front.tickets.push { id, method }
          events := s.front.events ++ [.request id value s.front.tickets.size] }
      else s.front.put (.failure id (.internalError "No handler for requests")) := by
  unfold deliverRequest
  change (if s.listening then _ else _ : State R N).front = if s.listening then _ else _
  split_ifs
  · simp [front, Event.isCall]
  · rfl

theorem front_emit_protocolError (s : State R N) (error : ProtocolError) :
    (s.emit (.protocolError error)).front = s.front := by
  rw [front_emit]
  simp [Event.isCall]

theorem front_handleMessage_congr (h : s.front = s'.front) {message : Rpc.Message}
    (hm : ∀ r, message ≠ .response r) :
    (s.handleMessage message).front = (s'.handleMessage message).front := by
  have hregistry : s.registry = s'.registry := congrArg Front.registry h
  cases message with
  | request id method params =>
    rw [handleMessage, handleMessage, handleRequest, handleRequest, hregistry]
    split
    · rw [front_deliverRequest, front_deliverRequest, h]
    · rw [front_emit_protocolError, front_emit_protocolError, front_queue, front_queue, front_log,
        front_log, h]
  | notification method params =>
    rw [handleMessage, handleMessage, handleNotification, handleNotification, hregistry]
    split
    · rw [front_emit, front_emit, h]
    · rw [front_emit_protocolError, front_emit_protocolError, front_log, front_log, h]
  | response r => exact absurd rfl (hm r)

theorem front_handleMalformed_congr (h : s.front = s'.front) (payload : List UInt8)
    (fault : EnvelopeFault) :
    (s.handleMalformed payload fault).front = (s'.handleMalformed payload fault).front := by
  unfold handleMalformed
  dsimp only
  rw [front_emit_protocolError, front_emit_protocolError]
  split
  · rw [front_queue, front_queue, front_log, front_log, h]
  · rw [front_log, front_log, h]

/-- What a call of the peer, or a payload that is no message, does to the front depends on nothing
else. -/
theorem front_handlePayload_congr (h : s.front = s'.front) {payload : List UInt8}
    (hp : response? payload = none) :
    (s.handlePayload payload).front = (s'.handlePayload payload).front := by
  unfold handlePayload
  cases hm : Rpc.Message.ofPayload payload with
  | error fault => exact front_handleMalformed_congr h payload fault
  | ok message =>
    refine front_handleMessage_congr h fun r hr => ?_
    rw [response?, hm, hr] at hp
    cases hp

theorem front_handlePayload_of_response {payload : List UInt8} {r : Response}
    (hp : response? payload = some r) : (s.handlePayload payload).front = s.front := by
  rw [handlePayload, message_of_response? hp]
  dsimp only [handleMessage]
  unfold handleResponse
  split
  · exact front_emit_protocolError _ _
  · dsimp only
    split
    · rfl
    · exact front_emit_protocolError _ _

theorem core_handlePayload_of_response {payload : List UInt8} {r : Response}
    (hp : response? payload = some r) : (s.handlePayload payload).core = s.core.answer r := by
  rw [handlePayload, message_of_response? hp]
  dsimp only [handleMessage, handleResponse, Core.answer]
  change _ = match s.pendingCall? r.id with | none => _ | some call => _
  rcases s.pendingCall? r.id with _ | call
  · dsimp only
    rw [core_emit, core_log]
  · dsimp only
    rcases ho : r.outcome with fault | outcome
    · dsimp only
      rw [core_emit, told_of_fault ho]
      rfl
    · rw [told_of_ok ho]
      rfl

/-- A payload that is no response leaves the calls alone. -/
theorem core_handlePayload_of_none {payload : List UInt8} (hp : response? payload = none) :
    (s.handlePayload payload).core = s.core := by
  unfold handlePayload
  cases hm : Rpc.Message.ofPayload payload with
  | error fault =>
    dsimp only [handleMalformed]
    rw [core_emit]
    split <;> rfl
  | ok message =>
    cases message with
    | request id method params =>
      dsimp only [handleMessage, handleRequest]
      split
      · rw [deliverRequest]
        split_ifs <;> rfl
      · rw [core_emit]
        rfl
    | notification method params =>
      dsimp only [handleMessage, handleNotification]
      split
      · rw [core_emit]
      · rw [core_emit]
        rfl
    | response r =>
      rw [response?, hm] at hp
      cases hp

/-! ## Some payloads -/

/-- Handles some payloads one after the other. -/
def handlePayloads (s : State R N) (payloads : List (List UInt8)) : State R N :=
  payloads.foldl handlePayload s

theorem core_handlePayloads (s : State R N) (payloads : List (List UInt8)) :
    (s.handlePayloads payloads).core = s.core.answers (payloads.filterMap response?) := by
  induction payloads generalizing s with
  | nil => rfl
  | cons payload payloads ih =>
    rw [handlePayloads, List.foldl_cons]
    refine (ih _).trans ?_
    cases hp : response? payload with
    | none => rw [List.filterMap_cons_none hp, core_handlePayload_of_none hp]
    | some r =>
      rw [List.filterMap_cons_some hp, core_handlePayload_of_response hp]
      rfl

/-- Only the payloads that are no responses change the front. -/
theorem front_handlePayloads (h : s.front = s'.front) (payloads : List (List UInt8)) :
    (s.handlePayloads payloads).front =
      (s'.handlePayloads (payloads.filter fun p => (response? p).isNone)).front := by
  induction payloads generalizing s s' with
  | nil => exact h
  | cons payload payloads ih =>
    rw [handlePayloads, List.foldl_cons]
    cases hp : response? payload with
    | none =>
      rw [List.filter_cons_of_pos (by rw [hp]; rfl)]
      exact ih (front_handlePayload_congr h hp)
    | some r =>
      rw [List.filter_cons_of_neg (by rw [hp]; exact Bool.false_ne_true)]
      exact ih ((front_handlePayload_of_response hp).trans h)

end State

/-- The same payloads in another order, in which those that are no responses keep theirs. -/
structure Rearranged (payloads payloads' : List (List UInt8)) : Prop where
  responses : (payloads.filter fun p => (response? p).isSome).Perm
    (payloads'.filter fun p => (response? p).isSome)
  others : (payloads.filter fun p => (response? p).isNone) =
    payloads'.filter fun p => (response? p).isNone

theorem filterMap_filter_isSome (payloads : List (List UInt8)) :
    (payloads.filter fun p => (response? p).isSome).filterMap response? =
      payloads.filterMap response? := by
  rw [List.filterMap_filter]
  congr 1
  funext payload
  cases response? payload <;> rfl

theorem Rearranged.perm {payloads payloads' : List (List UInt8)}
    (h : Rearranged payloads payloads') :
    (payloads.filterMap response?).Perm (payloads'.filterMap response?) := by
  rw [← filterMap_filter_isSome payloads, ← filterMap_filter_isSome payloads']
  exact h.responses.filterMap _

/-- In every state of a session, responses with different identifiers may be handled in any order
and anywhere among the requests and notifications of the peer: every call gets the same outcomes,
the same calls stay open, and the same requests and notifications are delivered in the same order.
A call that is open under the identifier of a response is closed and gets what this response tells
it, and no other call gets anything. The identifier is the one in the payload, where a number and a
text are different values. -/
theorem handled_in_any_order {R N : Type} (registry : Registry R N) (config : Config)
    (actions : List Action) {payloads payloads' : List (List UInt8)}
    (hids : ((payloads.filterMap response?).map (·.id)).Nodup)
    (h : Rearranged payloads payloads') :
    let s := (State.start registry config).run actions
    let s₁ := s.handlePayloads payloads
    let s₂ := s.handlePayloads payloads'
    s₁.calls = s₂.calls ∧ s₁.pending = s₂.pending ∧
    s₁.events.toList.filter Event.isCall = s₂.events.toList.filter Event.isCall ∧
    (∀ id call, s.pendingCall? id = some call → ∃ k, s.calls[call]? = some k ∧ k.outcomes = [] ∧
      (∀ r ∈ payloads.filterMap response?, r.id = id →
        s₁.calls[call]? = some { k with outcomes := [told r] } ∧ s₁.pendingCall? id = none) ∧
      ((∀ r ∈ payloads.filterMap response?, r.id ≠ id) →
        s₁.calls[call]? = some k ∧ s₁.pendingCall? id = some call)) ∧
    ∀ payload ∈ payloads, ∀ r v, response? payload = some r → Json.parse payload = .ok v →
      Rpc.Envelope.idValue? v = some r.id.toJson := by
  intro s s₁ s₂
  have horderly : s.core.Orderly := State.orderly_run registry config actions
  have hunshared : s.core.Unshared := horderly.unshared
  have hcore₁ : s₁.core = s.core.answers (payloads.filterMap response?) :=
    State.core_handlePayloads s payloads
  have hcore : s₁.core = s₂.core := by
    rw [hcore₁, Core.answers_congr hunshared hids h.perm]
    exact (State.core_handlePayloads s payloads').symm
  have hfront : s₁.front = s₂.front := by
    refine (State.front_handlePayloads rfl payloads).trans ?_
    rw [h.others]
    exact (State.front_handlePayloads rfl payloads').symm
  have hcalls₁ : s₁.calls = (s.core.answers (payloads.filterMap response?)).calls :=
    congrArg Core.calls hcore₁
  have hpending₁ : ∀ id, s₁.pendingCall? id =
      (s.core.answers (payloads.filterMap response?)).pendingCall? id := by
    rw [← hcore₁]
    exact fun id => rfl
  refine ⟨congrArg Core.calls hcore, congrArg Core.pending hcore, congrArg Front.events hfront,
    fun id call hn => ?_, fun payload _ r v => idValue?_of_response⟩
  have hn : s.core.pendingCall? id = some call := hn
  have hopen := Core.mem_slots_of_pending (Core.mem_pending_of_pendingCall? hn)
  obtain ⟨k, hk⟩ : ∃ k, s.core.calls[call]? = some k :=
    ⟨_, Array.getElem?_eq_getElem (horderly.made hopen)⟩
  have hempty := horderly.unsettled hk (List.mem_map_of_mem hopen)
  refine ⟨k, hk, hempty, fun r hr hid => ?_, fun hne => ?_⟩
  · subst hid
    constructor
    · rw [hcalls₁, Core.getElem?_answers_of_mem hunshared hids hr hn]
      exact (congrArg _ hk).trans (by rw [Option.map_some, hempty, List.nil_append])
    · exact (hpending₁ r.id).trans (by
        rw [Core.pendingCall?_answers, if_pos (List.mem_map_of_mem hr)])
  · constructor
    · rw [hcalls₁, Core.getElem?_answers_of_ne fun r hr hn' => hne r hr (hunshared hn' hn)]
      exact hk
    · have hid : id ∉ (payloads.filterMap response?).map (·.id) := by
        rw [List.mem_map]
        exact fun ⟨r, hr, he⟩ => hne r hr he
      exact (hpending₁ id).trans (by rw [Core.pendingCall?_answers, if_neg hid]; exact hn)

/-- Two calls are open. In one order the response to the first comes first, which has a result and
an error, in the other order last; its identifier also comes as a text. -/
theorem handled_backwards :
    let s := (State.start (Registry.empty : Registry Unit Unit) {}).run
      [.send Rpc.Catalog.shutdown () false, .handle, .send Rpc.Catalog.shutdown () false, .handle]
    let first : Rpc.Envelope :=
      { id := some (.number 1), result := some .null, error := some .requestCancelled }
    let second := Rpc.Envelope.success (.number 2) (.bool true)
    let stray := Rpc.Envelope.success (.text "1") .null
    let asked := Rpc.Envelope.request (.number 1) "shutdown" none
    let s₁ := s.handlePayloads [first.bytes, asked.bytes, second.bytes, stray.bytes]
    let s₂ := s.handlePayloads [stray.bytes, second.bytes, asked.bytes, first.bytes]
    s₁.calls = s₂.calls ∧ s₁.pendingCall? (.number 1) = none ∧
      ∃ k, s₁.calls[0]? = some k ∧
        k.outcomes = [.error (.malformedResponse "response 1 carries both result and error")] := by
  intro s first second stray asked s₁ s₂
  have hfirst : response? first.bytes = some ⟨.number 1, some .null, some .requestCancelled⟩ := by
    rw [response?, Rpc.Message.ofPayload_bytes (by decide +kernel)]
    rfl
  obtain ⟨hcalls, -, -, hopen, -⟩ := @handled_in_any_order Unit Unit Registry.empty {}
    [.send Rpc.Catalog.shutdown () false, .handle, .send Rpc.Catalog.shutdown () false, .handle]
    [first.bytes, asked.bytes, second.bytes, stray.bytes]
    [stray.bytes, second.bytes, asked.bytes, first.bytes] (by decide +kernel)
    ⟨by decide +kernel, by decide +kernel⟩
  obtain ⟨k, -, -, hsettled, -⟩ := hopen (.number 1) 0 (by decide +kernel)
  obtain ⟨hk, hclosed⟩ := hsettled _ (List.mem_filterMap.2 ⟨_, List.mem_cons_self, hfirst⟩) rfl
  have hmessage : (EnvelopeFault.resultAndError (.number 1)).message =
      "response 1 carries both result and error" := by decide +kernel
  exact ⟨hcalls, hclosed, _, hk, hmessage ▸ rfl⟩

end PeerRpc.Session
