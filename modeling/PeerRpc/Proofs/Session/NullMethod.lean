import PeerRpc.Proofs.Session.Accounts
import PeerRpc.Proofs.Session.Echoes

/-!
# Payloads without a method

What has no method is no request, so nobody waits for an answer to it, and an answer could be taken
for that to some other call. A session keeps to this as long as the method is not named at all, or
the payload is an envelope. But the search for an identifier in what is no envelope takes a method
that is null for one, while a reader of envelopes takes it for none, so a response that cannot be
read and has such a method is answered (`broken_response_answered`).

* `answered_without_method`: which payloads without a method are answered, and how.
-/

namespace PeerRpc.Session

open Json (member?)
open Rpc (Envelope EnvelopeFault Id Message Registry)

variable {payload : List UInt8} {members : List (String × Json)} {id : Id}

/-- A payload has no method: an envelope that is read from it has none, and an object that is read
from it does not name one, or names null. -/
structure WithoutMethod (payload : List UInt8) : Prop where
  envelope : ∀ e, Envelope.ofPayload payload = .ok e → e.method = none
  object : ∀ members, Json.parse payload = .ok (.object members) →
    member? "method" members = none ∨ member? "method" members = some .null

/-- A payload is taken for a request with an identifier although its method is null: it is an object
that names both, but no envelope. -/
structure TakenForRequest (payload : List UInt8) (id : Id) : Prop where
  unreadable : ∃ fault, Envelope.ofPayload payload = .error fault
  object : ∃ members, Json.parse payload = .ok (.object members) ∧
    member? "method" members = some .null ∧ member? "id" members = some id.toJson

/-- It is enough to look at the members of an object. -/
theorem withoutMethod_of_object (hp : Json.parse payload = .ok (.object members))
    (hmethod : member? "method" members = none ∨ member? "method" members = some .null) :
    WithoutMethod payload := by
  refine ⟨fun e he => ?_, fun members' hp' => ?_⟩
  · rcases Envelope.member?_method_of_parse he hp with ⟨-, hnone⟩ | hsome
    · exact hnone
    · rw [hsome] at hmethod
      cases hm : e.method with
      | none => rfl
      | some method =>
        rw [hm] at hmethod
        rcases hmethod with h | h <;> cases h
  · cases hp.symm.trans hp'
    exact hmethod

theorem object_of_requestIdOf? (h : Rpc.requestIdOf? payload = some id) :
    ∃ members method, Json.parse payload = .ok (.object members) ∧
      member? "method" members = some method ∧ member? "id" members = some id.toJson := by
  unfold Rpc.requestIdOf? at h
  split at h
  · rename_i members hp
    obtain ⟨method, hmethod, h⟩ := Option.bind_eq_some_iff.1 h
    obtain ⟨v, hv, hid⟩ := Option.bind_eq_some_iff.1 h
    rw [Id.eq_toJson_of_ofJson? hid] at hv
    exact ⟨members, method, hp, hmethod, hv⟩
  · cases h

/-- A payload without a method is no request. -/
theorem WithoutMethod.not_request (h : WithoutMethod payload) (method : String)
    (params : Option Json) : Message.ofPayload payload ≠ .ok (.request id method params) := by
  intro hm
  obtain ⟨e, he, hclassify⟩ := Message.exists_envelope hm
  have hrequest := request?_of_classify hclassify
  rw [Envelope.request?, h.envelope e he] at hrequest
  cases hrequest

/-- If a payload without a method asks for an answer, this is because its method is null. -/
theorem WithoutMethod.takenForRequest (h : WithoutMethod payload) (hasks : Asks payload id) :
    TakenForRequest payload id := by
  rcases hasks with ⟨method, params, hm⟩ | ⟨⟨fault, hm⟩, hid⟩
  · exact absurd hm (h.not_request method params)
  · obtain ⟨members, method, hp, hmethod, hid'⟩ := object_of_requestIdOf? hid
    refine ⟨?_, members, hp, ?_, hid'⟩
    · cases he : Envelope.ofPayload payload with
      | error fault => exact ⟨fault, rfl⟩
      | ok e =>
        -- The identifier that has been found is that of the envelope, so it would be a response.
        have hresponse := Envelope.classify_of_id (h.envelope e he)
          (Envelope.id_of_object he hp hid')
        rw [Message.ofPayload_of_envelope he, hresponse] at hm
        cases hm
    · rcases h.object members hp with hnone | hnull
      · cases hnone.symm.trans hmethod
      · exact hnull

/-! ## Handling -/

section Handling

variable {R N : Type}

/-- A payload that is taken for a request is answered with the fault that makes it no envelope. -/
theorem TakenForRequest.answer (s : State R N) (h : TakenForRequest payload id) :
    ∃ fault, Envelope.ofPayload payload = .error fault ∧
      (s.handlePayload payload).outbox =
        s.outbox.put (.failure id (.invalidRequest (EnvelopeFault.unreadable fault).message)) := by
  obtain ⟨⟨fault, hfault⟩, members, hp, hmethod, hid⟩ := h
  refine ⟨fault, hfault, ?_⟩
  rw [State.handlePayload, Message.ofPayload_of_fault hfault]
  dsimp only [State.handleMalformed]
  rw [requestIdOf?_of_members hp hmethod hid]
  exact State.outbox_emit _ _

theorem WithoutMethod.unanswered (s : State R N) (h : WithoutMethod payload)
    (htaken : ∀ id, ¬TakenForRequest payload id) : (s.handlePayload payload).outbox = s.outbox := by
  rcases s.outbox_handlePayload payload with hsame | ⟨id, f, hasks, -⟩
  · exact hsame
  · exact absurd (h.takenForRequest hasks) (htaken id)

/-- In every state of a session, handling a payload without a method leaves the outbox as it is,
unless the payload is taken for a request; then an error with its identifier is put into the
outbox. Neither an envelope nor a payload that does not name null as its method is taken for a
request, whatever else is wrong with it. -/
theorem answered_without_method (s : State R N) (h : WithoutMethod payload) :
    ((∀ id, ¬TakenForRequest payload id) → (s.handlePayload payload).outbox = s.outbox) ∧
    (∀ id, TakenForRequest payload id → ∃ fault, Envelope.ofPayload payload = .error fault ∧
      (s.handlePayload payload).outbox =
        s.outbox.put (.failure id (.invalidRequest (EnvelopeFault.unreadable fault).message))) ∧
    (∀ e, Envelope.ofPayload payload = .ok e → (s.handlePayload payload).outbox = s.outbox) ∧
    ((∀ members, Json.parse payload = .ok (.object members) →
        member? "method" members ≠ some .null) →
      (s.handlePayload payload).outbox = s.outbox) := by
  refine ⟨h.unanswered s, fun id htaken => htaken.answer s, fun e he => ?_, fun hnull => ?_⟩
  · apply h.unanswered s
    rintro id ⟨⟨fault, hfault⟩, -⟩
    cases hfault.symm.trans he
  · apply h.unanswered s
    rintro id ⟨-, members, hp, hmethod, -⟩
    exact hnull members hp hmethod

end Handling

/-- A response whose method is null can be read, and it is not answered. -/
theorem response_with_null_method_unanswered :
    let s := State.start (Registry.empty : Registry Unit Unit) {}
    let payload := (Json.object [("id", .int 1), ("method", .null), ("result", .int 5)]).bytes
    WithoutMethod payload ∧ (s.handlePayload payload).outbox = s.outbox := by
  intro s payload
  have hparse : Json.parse payload =
      .ok (.object [("id", .int 1), ("method", .null), ("result", .int 5)]) :=
    Json.parse_bytes (by decide) (by decide)
  have hwithout : WithoutMethod payload := withoutMethod_of_object hparse (.inr rfl)
  obtain ⟨-, -, henvelope, -⟩ := answered_without_method s hwithout
  have hread : (Envelope.ofPayload payload).isOk = true := by decide +kernel
  refine ⟨hwithout, ?_⟩
  cases he : Envelope.ofPayload payload with
  | error fault =>
    rw [he] at hread
    cases hread
  | ok e => exact henvelope e he

/-- A response whose error cannot be read, and whose method is null, is answered. -/
theorem broken_response_answered :
    ¬∀ (s : State Unit Unit) (payload : List UInt8) (members : List (String × Json)),
      Json.parse payload = .ok (.object members) →
      (member? "method" members = none ∨ member? "method" members = some .null) →
      (s.handlePayload payload).outbox = s.outbox := by
  intro hclaim
  have hsame := hclaim (State.start Registry.empty {})
    (Json.object [("error", .int 5), ("id", .int 1), ("method", .null)]).bytes
    [("error", .int 5), ("id", .int 1), ("method", .null)]
    (Json.parse_bytes (by decide) (by decide)) (.inr rfl)
  have hsize : ((State.start (Registry.empty : Registry Unit Unit) {}).handlePayload
      (Json.object [("error", .int 5), ("id", .int 1), ("method", .null)]).bytes).outbox.queue.size =
      1 := by decide +kernel
  rw [hsame] at hsize
  cases hsize

end PeerRpc.Session
