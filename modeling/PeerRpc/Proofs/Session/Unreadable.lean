import PeerRpc.Proofs.Session.Responses

/-!
# Responses that cannot be read

An object without a method that names an open call is meant as the response to this call. If it can
be read as an envelope, it settles the call, even if it has both a result and an error or neither.
If it cannot, because its error is not one or a field is repeated, it is reported and the call
stays open: the session looks for an identifier only in what could have been a request.

* `settled_if_readable`: what becomes of the call in either case.
-/

namespace PeerRpc.Session

open Json (member?)
open Rpc (EnvelopeFault Id Registry)

variable {payload : List UInt8} {members : List (String × Json)} {id : Id}

/-- What could not have been a request is not answered. -/
theorem requestIdOf?_of_no_method (hp : Json.parse payload = .ok (.object members))
    (hmethod : member? "method" members = none) : Rpc.requestIdOf? payload = none := by
  rw [Rpc.requestIdOf?, hp]
  dsimp only
  rw [hmethod]
  rfl

theorem response?_of_readable {e : Rpc.Envelope} (he : Rpc.Envelope.ofPayload payload = .ok e)
    (hp : Json.parse payload = .ok (.object members)) (hmethod : member? "method" members = none)
    (hid : member? "id" members = some id.toJson) :
    response? payload = some ⟨id, e.result, e.error⟩ := by
  rw [response?, Rpc.Message.ofPayload_of_envelope he,
    Rpc.Envelope.classify_of_id (Rpc.Envelope.method_of_parse he hp hmethod)
      (Rpc.Envelope.id_of_object he hp hid)]

namespace State

variable {R N : Type} {s : State R N}

theorem handlePayload_of_unreadable {fault : Json.Fault}
    (he : Rpc.Envelope.ofPayload payload = .error fault) (hid : Rpc.requestIdOf? payload = none) :
    s.handlePayload payload =
      (s.log .warn ("Malformed message: " ++ (EnvelopeFault.unreadable fault).message)).emit
        (.protocolError (.malformedEnvelope (.unreadable fault))) := by
  rw [handlePayload, Rpc.Message.ofPayload_of_fault he]
  dsimp only
  rw [handleMalformed, hid]

end State

/-- An object without a method that names an open call settles the call if it can be read as an
envelope. Otherwise the session only takes note of it. -/
theorem settled_if_readable {R N : Type} (s : State R N) {call : Nat}
    (hp : Json.parse payload = .ok (.object members)) (hmethod : member? "method" members = none)
    (hid : member? "id" members = some id.toJson) (hcall : s.pendingCall? id = some call) :
    (∀ e, Rpc.Envelope.ofPayload payload = .ok e →
      (s.handlePayload payload).pendingCall? id = none ∧
      (s.handlePayload payload).calls[call]? = s.calls[call]?.map fun k =>
        { k with outcomes := k.outcomes ++ [told ⟨id, e.result, e.error⟩] }) ∧
    ∀ fault, Rpc.Envelope.ofPayload payload = .error fault →
      s.handlePayload payload =
        (s.log .warn ("Malformed message: " ++ (EnvelopeFault.unreadable fault).message)).emit
          (.protocolError (.malformedEnvelope (.unreadable fault))) := by
  refine ⟨fun e he => ?_, fun fault he => ?_⟩
  · have hresponse := response?_of_readable he hp hmethod hid
    have hcore := State.core_handlePayload_of_response (s := s) hresponse
    constructor
    · have hpending : (s.handlePayload payload).pendingCall? id =
          (s.core.answer ⟨id, e.result, e.error⟩).pendingCall? id := by
        rw [← hcore]
        rfl
      rw [hpending, Core.pendingCall?_answer, if_pos rfl]
    · refine (congrArg (fun c : Core => c.calls[call]?) hcore).trans ?_
      exact (Core.getElem?_answer _ _ _).trans (if_pos hcall)
  · exact State.handlePayload_of_unreadable he (requestIdOf?_of_no_method hp hmethod)

/-- The response to an open call has neither a result nor an error. -/
theorem settled_without_outcome :
    let s := (State.start (Registry.empty : Registry Unit Unit) {}).run
      [.send Rpc.Catalog.shutdown () false, .handle]
    let payload := (Json.object [("id", .int 1)]).bytes
    s.pendingCall? (.number 1) = some 0 ∧
      (s.handlePayload payload).pendingCall? (.number 1) = none := by
  intro s payload
  have hopen : s.pendingCall? (.number 1) = some 0 := by decide +kernel
  have hread : (Rpc.Envelope.ofPayload payload).isOk = true := by decide +kernel
  have hparse : Json.parse payload = .ok (.object [("id", .int 1)]) :=
    Json.parse_bytes (by decide) (by decide)
  have hsettled := settled_if_readable s hparse rfl rfl hopen
  cases he : Rpc.Envelope.ofPayload payload with
  | error fault =>
    rw [he] at hread
    cases hread
  | ok e => exact ⟨hopen, (hsettled.1 e he).1⟩

/-- The response to an open call has an error that is none, and the call stays open. -/
theorem not_settled_by_broken_error :
    ¬∀ (s : State Unit Unit) (payload : List UInt8) (members : List (String × Json)) (id : Id)
        (call : Nat), Json.parse payload = .ok (.object members) →
      member? "method" members = none → member? "id" members = some id.toJson →
      s.pendingCall? id = some call → (s.handlePayload payload).pendingCall? id = none := by
  intro h
  let v : Json := .object [("error", .int 5), ("id", .int 1)]
  let s := (State.start (Registry.empty : Registry Unit Unit) {}).run
    [.send Rpc.Catalog.shutdown () false, .handle]
  have hopen : (s.handlePayload v.bytes).pendingCall? (.number 1) = some 0 := by decide +kernel
  have hclosed := h s v.bytes [("error", .int 5), ("id", .int 1)] (.number 1) 0
    (Json.parse_bytes (by decide) (by decide)) rfl rfl (by decide +kernel)
  exact absurd (hopen.symm.trans hclosed) nofun

end PeerRpc.Session
