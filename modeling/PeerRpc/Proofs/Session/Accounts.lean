import PeerRpc.Proofs.Session.Replies
import PeerRpc.Proofs.Session.Unreadable

/-!
# What becomes of a request

An object with a method and an identifier is meant as a request. It is delivered, with a ticket to
answer it, or it is answered at once with an error, and never both (`request_accounted`). The typed
reading of its bytes and the search for an identifier in what is no message find the same
identifier, so the answer reaches whoever asked. The calls of the session itself have nothing to do
with it, even if one of them has the same identifier.

An object is what `Json.parse` reads as one: no more than 127 arrays and objects are open at once,
numbers are finite, and texts have no half of a character without the other one; of the members with
one name the last counts. A payload that breaks one of these rules may still look like a request. If
it is no envelope either, the session only takes note of it (`reported_if_unreadable`).
-/

namespace PeerRpc.Session

open Json (member?)
open Rpc (Code Failure Id Message Registry)

variable {R N : Type} {s s' : State R N} {payload : List UInt8} {members : List (String × Json)}
  {id : Id} {method : Json}

/-- A payload has been delivered as a request: the value that the registry makes of it is the next
event, and it can be answered with a new ticket of its identifier and method. Nothing has been put
into the outbox. -/
structure Delivered (s s' : State R N) (payload : List UInt8) (id : Id) (method : String) :
    Prop where
  event : ∃ params value, Message.ofPayload payload = .ok (.request id method params) ∧
    s.registry.decodeRequest method params = .ok value ∧
    s'.events = s.events.push (.request id value s.tickets.size)
  ticket : s'.tickets = s.tickets.push { id, method }
  outbox : s'.outbox = s.outbox

/-- Why a request is answered with an error at once. -/
inductive Reason (s : State R N) : Failure → Prop
  | malformed (fault : Rpc.EnvelopeFault) : Reason s (.invalidRequest fault.message)
  | unknownMethod (method : String) : Reason s (.methodNotFound method)
  | badParams (message : String) : Reason s (.invalidParams message)
  | unheard (h : s.listening = false) : Reason s (.internalError "No handler for requests")

/-- A request has been answered with an error, which is put into the outbox. There is no new
ticket, and the owner is at most told that something is wrong. -/
structure Refused (s s' : State R N) (id : Id) : Prop where
  answer : ∃ f, Reason s f ∧
    s'.outbox = { s.outbox with queue := s.outbox.queue.push (.failure id f) }
  tickets : s'.tickets = s.tickets
  event : s'.events = s.events ∨ ∃ error, s'.events = s.events.push (.protocolError error)

theorem Refused.not_delivered (h : Refused s s' id) (method : String) :
    ¬Delivered s s' payload id method := by
  intro hdelivered
  have hsize := congrArg Array.size (h.tickets.symm.trans hdelivered.ticket)
  rw [Array.size_push] at hsize
  omega

/-- A payload has only been reported: the owner is told why it is no envelope, if it listens, and
nobody is answered. -/
structure OnlyReported (s s' : State R N) (fault : Json.Fault) : Prop where
  event : s'.events =
    if s.listening then s.events.push (.protocolError (.malformedEnvelope (.unreadable fault)))
    else s.events
  tickets : s'.tickets = s.tickets
  outbox : s'.outbox = s.outbox
  pending : s'.pending = s.pending
  calls : s'.calls = s.calls

/-! ## Reading -/

theorem requestIdOf?_of_unreadable (hp : ∀ v, Json.parse payload ≠ .ok v) :
    Rpc.requestIdOf? payload = none := by
  rw [Rpc.requestIdOf?]
  split
  · rename_i h
    exact absurd h (hp _)
  · rfl

theorem requestIdOf?_of_members (hp : Json.parse payload = .ok (.object members))
    (hmethod : member? "method" members = some method)
    (hid : member? "id" members = some id.toJson) : Rpc.requestIdOf? payload = some id := by
  rw [Rpc.requestIdOf?, hp]
  dsimp only
  rw [hmethod, hid]
  exact id.ofJson?_toJson

/-- If the object can be read as an envelope, it is a request with the same identifier and
method. -/
theorem message_of_members {e : Rpc.Envelope} (he : Rpc.Envelope.ofPayload payload = .ok e)
    (hp : Json.parse payload = .ok (.object members))
    (hmethod : member? "method" members = some method) (hnull : method ≠ .null)
    (hid : member? "id" members = some id.toJson) :
    ∃ name, method = .string name ∧
      Message.ofPayload payload = .ok (.request id name e.params) := by
  have hid' : e.id = some id := Rpc.Envelope.id_of_object he hp hid
  have hmethod' : method = Shape.encode e.method := by
    rcases Rpc.Envelope.member?_method_of_parse he hp with ⟨hnone, -⟩ | hsome
    · cases hmethod.symm.trans hnone
    · exact Option.some.inj (hmethod.symm.trans hsome)
  cases hname : e.method with
  | none =>
    rw [hname] at hmethod'
    exact absurd hmethod' hnull
  | some name =>
    rw [hname] at hmethod'
    refine ⟨name, hmethod', ?_⟩
    rw [Message.ofPayload_of_envelope he, Rpc.Envelope.classify, hname, hid']

/-! ## Handling -/

theorem Reason.of_refusal {name : String} {params : Option Json} {f : Failure}
    (h : s.refusal name params = some f) : Reason s f := by
  unfold State.refusal at h
  split at h
  · rename_i fault _
    cases h
    cases fault with
    | unknownMethod name => exact .unknownMethod name
    | badParams name fault => exact .badParams _
  · split_ifs at h with hl
    cases h
    exact .unheard (Bool.eq_false_iff.2 hl)

theorem response?_of_message {m : Message} (h : Message.ofPayload payload = .ok m)
    (hm : ∀ r, m ≠ .response r) : response? payload = none := by
  rw [response?, h]
  cases m with
  | response r => exact absurd rfl (hm r)
  | _ => rfl

namespace State

theorem events_emit_protocolError (s : State R N) (error : ProtocolError) :
    (s.emit (.protocolError error)).events = s.events ∨
      (s.emit (.protocolError error)).events = s.events.push (.protocolError error) := by
  unfold emit
  split
  · exact .inr rfl
  · exact .inl rfl

/-- An error is put into the outbox, and the owner is told that something is wrong. -/
theorem refused_of_emit {f : Failure} (hactive : s.outbox.isActive = true) (hf : Reason s f)
    (records : Array Log.Record) (error : ProtocolError) :
    Refused s (({ s with records }.queue (.failure id f)).emit (.protocolError error)) id := by
  refine ⟨⟨f, hf, ?_⟩, ?_, ?_⟩
  · rw [outbox_emit]
    exact if_pos hactive
  · exact congrArg Desk.tickets (desk_emit _ _)
  · exact (events_emit_protocolError _ error).imp_right fun h => ⟨error, h⟩

theorem reported_of_emit (s : State R N) (records : Array Log.Record) (fault : Json.Fault) :
    OnlyReported s
      ({ s with records }.emit (.protocolError (.malformedEnvelope (.unreadable fault)))) fault := by
  unfold emit
  dsimp only
  split_ifs with hl
  · exact ⟨(if_pos hl).symm, rfl, rfl, rfl, rfl⟩
  · exact ⟨(if_neg hl).symm, rfl, rfl, rfl, rfl⟩

theorem refused_of_malformed {fault : Rpc.EnvelopeFault} (hactive : s.outbox.isActive = true)
    (hm : Message.ofPayload payload = .error fault) (hid : Rpc.requestIdOf? payload = some id) :
    Refused s (s.handlePayload payload) id := by
  rw [handlePayload, hm]
  dsimp only [handleMalformed]
  rw [hid]
  exact refused_of_emit hactive (.malformed fault) _ _

theorem accounted_of_request {name : String} {params : Option Json}
    (hactive : s.outbox.isActive = true)
    (hm : Message.ofPayload payload = .ok (.request id name params)) :
    Delivered s (s.handlePayload payload) payload id name ∨
      Refused s (s.handlePayload payload) id := by
  rw [handlePayload, hm]
  dsimp only [handleMessage, handleRequest]
  cases hd : s.registry.decodeRequest name params with
  | error fault =>
    exact .inr (refused_of_emit hactive (.of_refusal (refusal_of_fault hd)) _ _)
  | ok value =>
    dsimp only [deliverRequest]
    split_ifs with hl
    · exact .inl ⟨⟨params, value, hm, hd, rfl⟩, rfl, rfl⟩
    · exact .inr ⟨⟨_, .unheard (Bool.eq_false_iff.2 hl), if_pos hactive⟩, rfl, .inl rfl⟩

end State

/-- An object with an identifier and a method is no response, and it is delivered or refused. -/
theorem delivered_or_refused (hactive : s.outbox.isActive = true)
    (hp : Json.parse payload = .ok (.object members))
    (hmethod : member? "method" members = some method) (hnull : method ≠ .null)
    (hid : member? "id" members = some id.toJson) :
    response? payload = none ∧
      ((∃ name, method = .string name ∧
          Delivered s (s.handlePayload payload) payload id name) ∨
        Refused s (s.handlePayload payload) id) := by
  cases he : Rpc.Envelope.ofPayload payload with
  | error fault =>
    have hm := Message.ofPayload_of_fault he
    have hrequest := requestIdOf?_of_members hp hmethod hid
    exact ⟨by rw [response?, hm], .inr (State.refused_of_malformed hactive hm hrequest)⟩
  | ok e =>
    obtain ⟨name, hname, hm⟩ := message_of_members he hp hmethod hnull hid
    refine ⟨response?_of_message hm (by simp), ?_⟩
    exact (State.accounted_of_request hactive hm).imp_left fun h => ⟨name, hname, h⟩

/-- An object, as `Json.parse` reads it, with an identifier and a method other than null is accounted
for while envelopes can be put into the outbox: either it is delivered as a request, with a ticket,
or an error with its identifier is put into the outbox, but not both. The open calls and what has
been found out about calls are the same as before. -/
theorem request_accounted (s : State R N) (hp : Json.parse payload = .ok (.object members))
    (hmethod : member? "method" members = some method) (hnull : method ≠ .null)
    (hid : member? "id" members = some id.toJson) (hactive : s.outbox.isActive = true) :
    Xor (∃ name, method = .string name ∧ Delivered s (s.handlePayload payload) payload id name)
        (Refused s (s.handlePayload payload) id) ∧
      (s.handlePayload payload).pending = s.pending ∧
      (s.handlePayload payload).calls = s.calls := by
  obtain ⟨hresponse, hor⟩ := delivered_or_refused hactive hp hmethod hnull hid
  have hcore := State.core_handlePayload_of_none (s := s) hresponse
  refine ⟨?_, congrArg Core.pending hcore, congrArg Core.calls hcore⟩
  rcases hor with ⟨name, hname, hdelivered⟩ | hrefused
  · exact .inl ⟨⟨name, hname, hdelivered⟩, fun h => h.not_delivered name hdelivered⟩
  · exact .inr ⟨hrefused, fun ⟨name, _, h⟩ => hrefused.not_delivered name h⟩

/-- A request for an unknown method has the identifier of an open call. It is refused, and the call
stays open. -/
theorem refused_beside_open_call :
    let s := (State.start (Registry.empty : Registry Unit Unit) {}).run
      [.send Rpc.Catalog.shutdown () false, .handle]
    let payload := (Json.object [("id", .int 1), ("method", .string "status")]).bytes
    s.pendingCall? (.number 1) = some 0 ∧ Refused s (s.handlePayload payload) (.number 1) ∧
      (s.handlePayload payload).pending = s.pending := by
  intro s payload
  have hparse : Json.parse payload =
      .ok (.object [("id", .int 1), ("method", .string "status")]) :=
    Json.parse_bytes (by decide) (by decide)
  have hid : member? "id" [("id", .int 1), ("method", .string "status")] =
      some (Id.number 1).toJson := rfl
  obtain ⟨hxor, hpending, -⟩ := request_accounted s hparse rfl nofun hid (by decide +kernel)
  have hsize : (s.handlePayload payload).tickets.size = s.tickets.size := by decide +kernel
  refine ⟨by decide +kernel, (Xor.or hxor).resolve_left ?_, hpending⟩
  rintro ⟨name, -, hdelivered⟩
  rw [hdelivered.ticket, Array.size_push] at hsize
  omega

/-- What can be read neither as an envelope nor as a value is only reported, whatever it looks like:
its identifier is looked for in the value. -/
theorem reported_if_unreadable (s : State R N) {fault : Json.Fault}
    (he : Rpc.Envelope.ofPayload payload = .error fault) (hp : ∀ v, Json.parse payload ≠ .ok v) :
    OnlyReported s (s.handlePayload payload) fault := by
  rw [State.handlePayload_of_unreadable he (requestIdOf?_of_unreadable hp)]
  exact State.reported_of_emit s _ fault

/-- What looks like a request has a parameter that is too large for a number. -/
example :
    let payload := Text.utf8 "\x7b\"id\":1,\"method\":\"shutdown\",\"params\":[1e999]\x7d"
    Rpc.Envelope.ofPayload payload = .error .malformed ∧
      Json.parse payload = .error .malformed := by
  exact ⟨by rfl, by rfl⟩

end PeerRpc.Session
