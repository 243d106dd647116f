import PeerRpc.Proofs.Session.Audience
import PeerRpc.Proofs.Session.Mirror
import PeerRpc.Proofs.Session.Receiving
import PeerRpc.Proofs.Session.Responses

/-!
# A consumer of events

The consumer asks for one event after the other, in turns with everything else that happens to a
session, and what it receives is what the session delivers, in the same order
(`received_append_events`). What is delivered is told by the payloads that are handled: each of them
leads to one event or settles one call (`Tells`, `tells_of_handled`).
-/

namespace PeerRpc.Session

open Rpc (CallFault Envelope EnvelopeFault Failure Id Message Registry Response)

/-- A turn: the consumer asks for the next event, or something else happens to the session. -/
inductive Turn where
  | next
  | act (a : Action)

namespace State

variable {R N : Type}

/-- The state after a turn. -/
def turn (s : State R N) : Turn → State R N
  | .next => s.nextEvent.2
  | .act a => s.act a

/-- The state after some turns. -/
def turns (s : State R N) (ts : List Turn) : State R N :=
  ts.foldl turn s

theorem turns_append (s : State R N) (ts ts' : List Turn) :
    s.turns (ts ++ ts') = (s.turns ts).turns ts' :=
  List.foldl_append

theorem turns_concat (s : State R N) (ts : List Turn) (t : Turn) :
    s.turns (ts ++ [t]) = (s.turns ts).turn t := by
  rw [turns_append]
  rfl

section InTurns

variable {α : Type} (f : State R N → Turn → List α)

/-- What some turns give one after the other. -/
def inTurns (s : State R N) : List Turn → List α
  | [] => []
  | t :: ts => f s t ++ inTurns (s.turn t) ts

theorem inTurns_append (s : State R N) (ts ts' : List Turn) :
    s.inTurns f (ts ++ ts') = s.inTurns f ts ++ (s.turns ts).inTurns f ts' := by
  induction ts generalizing s with
  | nil => rfl
  | cons t ts ih =>
    rw [List.cons_append, inTurns, inTurns, ih, List.append_assoc]
    rfl

theorem inTurns_concat (s : State R N) (ts : List Turn) (t : Turn) :
    s.inTurns f (ts ++ [t]) = s.inTurns f ts ++ f (s.turns ts) t := by
  rw [inTurns_append, inTurns, inTurns, List.append_nil]

end InTurns

/-! ## What is received and what is delivered -/

/-- The events that the consumer gets in a turn. -/
def receivedBy (s : State R N) : Turn → List (Event R N)
  | .next => s.nextEvent.1.event?.toList
  | .act .takeEvents => s.takeEvents.1
  | .act _ => []

/-- The events that the consumer gets in some turns. -/
def received (s : State R N) (ts : List Turn) : List (Event R N) :=
  s.inTurns receivedBy ts

/-- The events that the session delivers in a turn. -/
def tidingsBy (s : State R N) : Turn → List (Event R N)
  | .next => []
  | .act a => s.deliveredBy a

/-- The events that the session delivers in some turns. -/
def tidings (s : State R N) (ts : List Turn) : List (Event R N) :=
  s.inTurns tidingsBy ts

variable {s : State R N} {ts : List Turn} {t : Turn}

theorem nextEvent_of_nil (h : s.events.toList = []) :
    s.nextEvent = (if s.isRunning then .waiting else .ended, s) := by
  rw [nextEvent, h]

theorem nextEvent_of_cons {e : Event R N} {rest : List (Event R N)}
    (h : s.events.toList = e :: rest) :
    s.nextEvent = (.event e, { s with events := rest.toArray }) := by
  rw [nextEvent, h]

theorem core_nextEvent (s : State R N) : s.nextEvent.2.core = s.core := by
  unfold nextEvent
  split <;> rfl

theorem registry_nextEvent (s : State R N) : s.nextEvent.2.registry = s.registry := by
  unfold nextEvent
  split <;> rfl

theorem listening_nextEvent (s : State R N) : s.nextEvent.2.listening = s.listening := by
  unfold nextEvent
  split <;> rfl

theorem deliveredBy_of_append {a : Action} {news : List (Event R N)}
    (h : (s.act a).events.toList = s.events.toList ++ news) : s.deliveredBy a = news := by
  rw [deliveredBy, h, ← Array.length_toList, List.drop_left]

theorem deliveredBy_of_audience {a : Action} (h : (s.act a).audience = s.audience) :
    s.deliveredBy a = [] :=
  deliveredBy_of_append ((congrArg (Array.toList ∘ Audience.events) h).trans
    (List.append_nil _).symm)

/-- What waits before a turn and what is delivered in it is received in it or waits after it. -/
theorem receivedBy_append_events (ht : t ≠ .act .dropEvents) :
    s.receivedBy t ++ (s.turn t).events.toList = s.events.toList ++ s.tidingsBy t := by
  cases t with
  | next =>
    rw [receivedBy, turn, tidingsBy, List.append_nil]
    cases hevents : s.events.toList with
    | nil =>
      rw [nextEvent_of_nil hevents, hevents]
      split_ifs <;> rfl
    | cons e rest =>
      rw [nextEvent_of_cons hevents]
      rfl
  | act a =>
    by_cases ha : a.takesEvents = true
    · cases a with
      | takeEvents =>
        have hnone : s.deliveredBy .takeEvents = [] := List.drop_nil
        rw [tidingsBy, hnone]
        rfl
      | dropEvents => exact absurd rfl ht
      | _ => cases ha
    · have ha := Bool.eq_false_iff.2 ha
      obtain ⟨news, hnews⟩ := (audience_act s ha).events
      have hnone : s.receivedBy (.act a) = [] := by
        cases a <;> first | rfl | cases ha
      rw [hnone, tidingsBy, deliveredBy_of_append hnews]
      exact hnews

/-- What has been received, with what waits behind it, is what has been delivered. -/
theorem received_append_events (hlive : .act .dropEvents ∉ ts) :
    s.received ts ++ (s.turns ts).events.toList = s.events.toList ++ s.tidings ts := by
  induction ts using List.reverseRecOn with
  | nil => exact (List.append_nil _).symm
  | append_singleton ts t ih =>
    have hlive' : .act .dropEvents ∉ ts := fun h => hlive (List.mem_append_left _ h)
    have ht : t ≠ .act .dropEvents :=
      fun h => hlive (List.mem_append_right _ (h ▸ List.mem_singleton_self _))
    rw [received, tidings, inTurns_concat, inTurns_concat, turns_concat, List.append_assoc,
      receivedBy_append_events ht, ← List.append_assoc, ← received, ih hlive', List.append_assoc]
    rfl

/-! ## What a payload tells -/

/-- Handling what the reader gives next settles one call, that of an identifier which was open: it
had no outcome and gets one, and all other calls stay as they are. -/
structure Settles (s : State R N) (id : Id) (outcome : Outcome) : Prop where
  settled : ∃ call k, s.pendingCall? id = some call ∧ s.calls[call]? = some k ∧ k.outcomes = [] ∧
    (s.act .receive).core = (s.core.closePending id).settle call outcome

/-- What the owner is told when a payload is handled: one event, or one call's outcome if the
payload is a response that can be used. Only a response settles a call. -/
inductive Tells (registry : Registry R N) (s : State R N) (payload : List UInt8) :
    List (Event R N) → Prop
  /-- A request, with a ticket to answer it. -/
  | request (id : Id) (method : String) (params : Option Json) (value : R)
    (hm : Message.ofPayload payload = .ok (.request id method params))
    (hd : registry.decodeRequest method params = .ok value)
    (ht : (s.act .receive).tickets = s.tickets.push { id, method })
    (hc : (s.act .receive).core = s.core) :
    Tells registry s payload [.request id value s.tickets.size]
  | badRequest (id : Id) (method : String) (params : Option Json) (fault : CallFault)
    (hm : Message.ofPayload payload = .ok (.request id method params))
    (hd : registry.decodeRequest method params = .error fault)
    (hc : (s.act .receive).core = s.core) :
    Tells registry s payload [.protocolError (.decode (some id) fault)]
  | notification (method : String) (params : Option Json) (value : N)
    (hm : Message.ofPayload payload = .ok (.notification method params))
    (hd : registry.decodeNotification method params = .ok value)
    (hc : (s.act .receive).core = s.core) :
    Tells registry s payload [.notification value]
  | badNotification (method : String) (params : Option Json) (fault : CallFault)
    (hm : Message.ofPayload payload = .ok (.notification method params))
    (hd : registry.decodeNotification method params = .error fault)
    (hc : (s.act .receive).core = s.core) :
    Tells registry s payload [.protocolError (.decode none fault)]
  /-- A response to no open call. -/
  | unknownResponse (r : Response) (hm : Message.ofPayload payload = .ok (.response r))
    (hn : s.pendingCall? r.id = none) (hc : (s.act .receive).core = s.core) :
    Tells registry s payload [.protocolError (.unknownResponse r.id)]
  /-- A response to an open call with exactly one of result and error. -/
  | response (r : Response) (outcome : Except Failure Json)
    (hm : Message.ofPayload payload = .ok (.response r)) (ho : r.outcome = .ok outcome)
    (hs : s.Settles r.id (outcome.mapError .rpc)) : Tells registry s payload []
  /-- A response to an open call with both or neither of them. -/
  | malformedResponse (r : Response) (fault : EnvelopeFault)
    (hm : Message.ofPayload payload = .ok (.response r)) (ho : r.outcome = .error fault)
    (hs : s.Settles r.id (.error (.malformedResponse fault.message))) :
    Tells registry s payload [.protocolError (.malformedResponse fault)]
  | malformed (fault : EnvelopeFault) (hm : Message.ofPayload payload = .error fault)
    (hc : (s.act .receive).core = s.core) :
    Tells registry s payload [.protocolError (.malformedEnvelope fault)]

theorem events_emit {s' : State R N} (hl : s'.listening = true) (he : s'.events = s.events)
    (e : Event R N) : (s'.emit e).events = s.events.push e := by
  rw [emit, if_pos hl, he]

theorem deliveredBy_of_push {a : Action} {e : Event R N}
    (h : (s.act a).events = s.events.push e) : s.deliveredBy a = [e] :=
  deliveredBy_of_append (by rw [h, Array.toList_push])

/-- A response to an open call settles it. -/
theorem settles_of_pending {payload : List UInt8} {r : Response} {call : Nat} {outcome : Outcome}
    (hp : s.handled .receive = some payload)
    (hm : Message.ofPayload payload = .ok (.response r)) (hn : s.pendingCall? r.id = some call)
    (ho : told r = outcome) (hc : s.core.Settling) : s.Settles r.id outcome := by
  have hmem := Core.mem_slots_of_pending (Core.mem_pending_of_pendingCall? (c := s.core) hn)
  obtain ⟨k, hk⟩ : ∃ k, s.calls[call]? = some k :=
    ⟨_, Array.getElem?_eq_getElem (hc.slots hmem).2⟩
  have hempty : k.outcomes = [] := hc.unsettled hk (List.mem_map_of_mem (f := (·.2)) hmem)
  have hresponse : response? payload = some r := by rw [response?, hm]
  refine ⟨call, k, hn, hk, hempty, ?_⟩
  have hpending : s.core.pendingCall? r.id = some call := hn
  rw [(act_of_handled hp).2, core_handlePayload_of_response hresponse]
  change s.core.answer r = _
  rw [Core.answer, hpending, ho]

theorem tells_response {payload : List UInt8} {r : Response}
    (hp : s.handled .receive = some payload)
    (hm : Message.ofPayload payload = .ok (.response r)) (hl : s.listening = true)
    (hc : s.core.Settling) : Tells s.registry s payload (s.deliveredBy .receive) := by
  have hact : s.act .receive =
      ({ s with reader := s.reader.next.2 } : State R N).handleResponse r := by
    rw [(act_of_handled hp).2, handlePayload, hm]
    rfl
  have hresponse : response? payload = some r := by rw [response?, hm]
  unfold handleResponse at hact
  cases hn : ({ s with reader := s.reader.next.2 } : State R N).pendingCall? r.id with
  | none =>
    rw [hn] at hact
    dsimp only at hact
    have hevents : (s.act .receive).events = s.events.push (.protocolError (.unknownResponse r.id)) := by
      rw [hact]
      exact events_emit (by exact hl) rfl _
    have hcore : (s.act .receive).core = s.core := by
      rw [hact, core_emit]
      rfl
    rw [deliveredBy_of_push hevents]
    exact .unknownResponse r hm hn hcore
  | some call =>
    rw [hn] at hact
    dsimp only at hact
    cases ho : r.outcome with
    | ok outcome =>
      rw [ho] at hact
      dsimp only at hact
      have hnone : s.deliveredBy .receive = [] :=
        deliveredBy_of_append (by rw [hact]; exact (List.append_nil _).symm)
      rw [hnone]
      exact .response r outcome hm ho (settles_of_pending hp hm hn (told_of_ok ho) hc)
    | error fault =>
      rw [ho] at hact
      dsimp only at hact
      have hevents : (s.act .receive).events =
          s.events.push (.protocolError (.malformedResponse fault)) := by
        rw [hact]
        exact events_emit (by exact hl) rfl _
      rw [deliveredBy_of_push hevents]
      exact .malformedResponse r fault hm ho (settles_of_pending hp hm hn (told_of_fault ho) hc)

theorem core_receive_of_no_response {payload : List UInt8} (hp : s.handled .receive = some payload)
    (h : response? payload = none) : (s.act .receive).core = s.core := by
  rw [(act_of_handled hp).2, core_handlePayload_of_none h]
  rfl

theorem tells_malformed {payload : List UInt8} {fault : EnvelopeFault}
    (hp : s.handled .receive = some payload) (hm : Message.ofPayload payload = .error fault)
    (hl : s.listening = true) : Tells s.registry s payload (s.deliveredBy .receive) := by
  have hcore := core_receive_of_no_response hp (by rw [response?, hm])
  have hevents : (s.act .receive).events =
      s.events.push (.protocolError (.malformedEnvelope fault)) := by
    rw [(act_of_handled hp).2, handlePayload, hm]
    dsimp only [handleMalformed]
    split <;> exact events_emit (by exact hl) rfl _
  rw [deliveredBy_of_push hevents]
  exact .malformed fault hm hcore

theorem tells_request {payload : List UInt8} {id : Id} {method : String} {params : Option Json}
    (hp : s.handled .receive = some payload)
    (hm : Message.ofPayload payload = .ok (.request id method params))
    (hl : s.listening = true) : Tells s.registry s payload (s.deliveredBy .receive) := by
  have hcore := core_receive_of_no_response hp (by rw [response?, hm])
  have hact := act_of_handled_request hp hm
  rw [handleRequest] at hact
  cases hd : s.registry.decodeRequest method params with
  | ok value =>
    rw [hd] at hact
    dsimp only [deliverRequest] at hact
    rw [if_pos hl] at hact
    have hevents : (s.act .receive).events =
        s.events.push (.request id value s.tickets.size) := by rw [hact]
    rw [deliveredBy_of_push hevents]
    exact .request id method params value hm hd (by rw [hact]) hcore
  | error fault =>
    rw [hd] at hact
    dsimp only at hact
    have hevents : (s.act .receive).events =
        s.events.push (.protocolError (.decode (some id) fault)) := by
      rw [hact]
      exact events_emit (by exact hl) rfl _
    rw [deliveredBy_of_push hevents]
    exact .badRequest id method params fault hm hd hcore

theorem tells_notification {payload : List UInt8} {method : String} {params : Option Json}
    (hp : s.handled .receive = some payload)
    (hm : Message.ofPayload payload = .ok (.notification method params))
    (hl : s.listening = true) : Tells s.registry s payload (s.deliveredBy .receive) := by
  have hcore := core_receive_of_no_response hp (by rw [response?, hm])
  have hact : s.act .receive =
      ({ s with reader := s.reader.next.2 } : State R N).handleNotification method params := by
    rw [(act_of_handled hp).2, handlePayload, hm]
    rfl
  rw [handleNotification] at hact
  cases hd : s.registry.decodeNotification method params with
  | ok value =>
    rw [hd] at hact
    dsimp only at hact
    have hevents : (s.act .receive).events = s.events.push (.notification value) := by
      rw [hact]
      exact events_emit (by exact hl) rfl _
    rw [deliveredBy_of_push hevents]
    exact .notification method params value hm hd hcore
  | error fault =>
    rw [hd] at hact
    dsimp only at hact
    have hevents : (s.act .receive).events =
        s.events.push (.protocolError (.decode none fault)) := by
      rw [hact]
      exact events_emit (by exact hl) rfl _
    rw [deliveredBy_of_push hevents]
    exact .badNotification method params fault hm hd hcore

/-- What is delivered when a payload is handled is what the payload tells. -/
theorem tells_of_handled {payload : List UInt8} (hp : s.handled .receive = some payload)
    (hl : s.listening = true) (hc : s.core.Settling) :
    Tells s.registry s payload (s.deliveredBy .receive) := by
  cases hm : Message.ofPayload payload with
  | error fault => exact tells_malformed hp hm hl
  | ok message =>
    cases message with
    | request id method params => exact tells_request hp hm hl
    | notification method params => exact tells_notification hp hm hl
    | response r => exact tells_response hp hm hl hc

end State

end PeerRpc.Session
