import PeerRpc.Proofs.Rpc.Kept
import PeerRpc.Proofs.Session.Peers
import PeerRpc.Proofs.Session.Replies

/-!
# What a session sends of its own accord

While it handles a payload, a session answers it at once if it is a request that it refuses, or no
message that looks like a request all the same (`Echoes`). Of what a session sends, only requests
are ever answered in this way, whatever values they carry and whether or not they can be read back
(`of_asks_bytes`). Since the answers are no requests, two sessions never keep each other busy.

* `answers_die_out`: what becomes of each kind of envelope at any session, and between two of them.
-/

namespace PeerRpc.Session

open Rpc (Envelope Failure Id Message)

/-! ## Payloads that are answered -/

/-- What an envelope's bytes ask for is a response to the envelope, which is a request. -/
theorem of_asks_bytes {e : Envelope} {id : Id} (h : Asks e.bytes id) :
    e.id = some id ∧ e.method ≠ none := by
  rcases h with ⟨method, params, hm⟩ | ⟨-, hid⟩
  · obtain ⟨e', hread, hclassify⟩ := Message.exists_envelope hm
    have hid := Envelope.id_of_ofPayload_bytes hread
    have hmethod := Envelope.method_of_ofPayload_bytes hread
    obtain ⟨hid', hmethod', -⟩ := Envelope.request_of_classify hclassify
    exact ⟨hid.symm.trans hid', fun hnone => nomatch hmethod'.symm.trans (hmethod hnone)⟩
  · exact Envelope.of_requestIdOf?_bytes hid

namespace State

variable {R N : Type}

/-- Handling a payload puts nothing into the outbox, or the error that the payload asks for. -/
theorem outbox_handlePayload (s : State R N) (payload : List UInt8) :
    (s.handlePayload payload).outbox = s.outbox ∨
      ∃ id f, Asks payload id ∧ (s.handlePayload payload).outbox = s.outbox.put (.failure id f) := by
  unfold handlePayload
  cases hm : Message.ofPayload payload with
  | error fault =>
    refine (outbox_handleMalformed s payload fault).imp_right ?_
    rintro ⟨id, f, hid, hput⟩
    exact ⟨id, f, .inr ⟨⟨fault, hm⟩, hid⟩, hput⟩
  | ok message =>
    cases message with
    | request id method params =>
      rcases handleRequest_cases s id method params with ⟨f, -, hdesk⟩ | ⟨value, -, hdesk, -⟩
      · exact .inr ⟨id, f, .inl ⟨method, params, hm⟩, congrArg Desk.outbox hdesk⟩
      · exact .inl (congrArg Desk.outbox hdesk)
    | notification method params =>
      dsimp only [handleMessage, handleNotification]
      split <;> exact .inl (outbox_emit _ _)
    | response r =>
      dsimp only [handleMessage, handleResponse]
      split
      · exact .inl (outbox_emit _ _)
      · split
        · exact .inl rfl
        · exact .inl (outbox_emit _ _)

/-- Handling the bytes of an envelope puts nothing into the outbox, or an error with its identifier
if it is a request. -/
theorem outbox_handlePayload_bytes (s : State R N) (e : Envelope) :
    (s.handlePayload e.bytes).outbox = s.outbox ∨
      ∃ id f, e.id = some id ∧ e.method ≠ none ∧
        (s.handlePayload e.bytes).outbox = s.outbox.put (.failure id f) := by
  rcases outbox_handlePayload s e.bytes with hsame | ⟨id, f, hasks, hput⟩
  · exact .inl hsame
  · obtain ⟨hid, hmethod⟩ := of_asks_bytes hasks
    exact .inr ⟨id, f, hid, hmethod, hput⟩

/-! ## Runs -/

/-- While it handles the payload at place `i` of those that it handles, a session puts the envelope
at place `k` of those that it sends into the outbox. -/
def Echoes (s : State R N) (actions : List Action) (i k : Nat) : Prop :=
  ∃ j payload e, actions[j]? = some .receive ∧
    (s.run (actions.take j)).handled .receive = some payload ∧
    (s.got (actions.take j)).length = i ∧ e ∈ (s.run (actions.take j)).sentBy .receive ∧
    (s.sent (actions.take j)).length = k

variable {s : State R N} {actions : List Action} {i k : Nat}

theorem getElem?_sent {j : Nat} {a : Action} {e : Envelope} (ha : actions[j]? = some a)
    (he : e ∈ (s.run (actions.take j)).sentBy a) :
    (s.sent actions)[(s.sent (actions.take j)).length]? = some e := by
  have hone : (s.run (actions.take j)).sentBy a = [e] := by
    rcases sentBy_cases (s.run (actions.take j)) a with ⟨hnil, -⟩ | ⟨e', he', -⟩
    · rw [hnil] at he
      cases he
    · rw [he'] at he
      rw [he', List.mem_singleton.1 he]
  obtain ⟨more, hmore⟩ := along_take_append_isPrefix sentBy ha
    (List.getElem?_eq_some_iff.1 ha).1 s
  rw [List.take_length, hone, List.append_assoc] at hmore
  rw [sent, sent, ← hmore, List.getElem?_append_right le_rfl, Nat.sub_self]
  rfl

/-- A session answers a payload once. -/
theorem Echoes.unique {k' : Nat} (h : s.Echoes actions i k) (h' : s.Echoes actions i k') : k = k' := by
  obtain ⟨j, payload, e, hj, hp, hi, -, rfl⟩ := h
  obtain ⟨j', payload', e', hj', hp', hi', -, rfl⟩ := h'
  rw [length_got_inj hj hp hj' hp' (hi.trans hi'.symm)]

/-- What a session sends while it handles the bytes of an envelope is an error with its identifier,
and the envelope is a request. -/
theorem Echoes.failure (h : s.Echoes actions i k) {e : Envelope}
    (he : (s.got actions)[i]? = some e.bytes) :
    ∃ id f, e.id = some id ∧ e.method ≠ none ∧ (s.sent actions)[k]? = some (.failure id f) := by
  obtain ⟨j, payload, e', hj, hp, rfl, he', rfl⟩ := h
  obtain rfl := Option.some.inj ((getElem?_got hj hp).symm.trans he)
  rcases outbox_handlePayload_bytes
      { s.run (actions.take j) with reader := (s.run (actions.take j)).reader.next.2 } e with
    hsame | ⟨id, f, hid, hmethod, hput⟩ <;>
    rw [← (act_of_handled hp).2] at *
  · rw [sentBy_of_outbox hsame] at he'
    cases he'
  · obtain rfl := eq_of_mem_sentBy_of_put he' hput
    exact ⟨id, f, hid, hmethod, getElem?_sent hj he'⟩

/-- What a session sends is a request, a notification or a response. -/
theorem kinds_of_mem_sentBy {a : Action} {e : Envelope} (h : e ∈ s.sentBy a) :
    (∃ id method params, e = .request id method params) ∨
      (∃ method params, e = .notification method params) ∨
      ∃ id outcome, e = .response id outcome := by
  cases origin_of_mem_sentBy h with
  | request id method params => exact .inl ⟨id, method, params, rfl⟩
  | notify method params => exact .inr (.inl ⟨method, params, rfl⟩)
  | refused payload id method params f => exact .inr (.inr ⟨id, .error f, rfl⟩)
  | malformed payload id f => exact .inr (.inr ⟨id, .error f, rfl⟩)
  | answer ticket t outcome => exact .inr (.inr ⟨t.id, outcome, rfl⟩)

/-- A request is sent only by a command of the owner. -/
theorem request_of_sent {e : Envelope} {id : Id} (he : (s.sent actions)[i]? = some e)
    (hid : e.id = some id) (hmethod : e.method ≠ none) :
    ∃ j method params, actions[j]? = some .handle ∧ (s.sent (actions.take j)).length = i ∧
      e = .request id method params := by
  obtain ⟨j, a, ha, hmem, hlength⟩ := position_of_sent he
  cases origin_of_mem_sentBy hmem with
  | request id' method params =>
    obtain rfl := Option.some.inj hid
    exact ⟨j, method, params, ha, hlength, rfl⟩
  | notify => cases hid
  | refused | malformed => exact absurd rfl hmethod
  | answer ticket t outcome => cases outcome <;> exact absurd rfl hmethod

end State

/-! ## Two sessions -/

/-- What the second of two joined sessions sends of its own accord while it handles what the first
one has sent. -/
structure Calm {R N R' N' : Type} (s : State R N) (as : List Action) (s' : State R' N')
    (bs : List Action) : Prop where
  /-- It is an error with the identifier of a request that the first one has sent on a command of
  its owner. -/
  answers : ∀ {i k}, s'.Echoes bs i k → ∃ j id method params f, as[j]? = some .handle ∧
    (s.sent (as.take j)).length = i ∧ (s.sent as)[i]? = some (.request id method params) ∧
    (s'.sent bs)[k]? = some (.failure id f)
  /-- There is no more than one for an envelope. -/
  once : ∀ {i k k'}, s'.Echoes bs i k → s'.Echoes bs i k' → k = k'
  /-- The first one does not answer it in the same way. -/
  unanswered : ∀ {i k}, s'.Echoes bs i k → ∀ k', ¬s.Echoes as k k'

section Calm

variable {R N R' N' : Type} {registry : Rpc.Registry R N} {registry' : Rpc.Registry R' N'}
  {config config' : Config} {as bs : List Action}

theorem Joined.answers
    (h : Joined (State.start registry config) (State.start registry' config') as bs)
    (hl : config'.maxMessageSize < UInt64.size) {i k : Nat}
    (he : (State.start registry' config').Echoes bs i k) :
    ∃ j id method params f, as[j]? = some .handle ∧
      ((State.start registry config).sent (as.take j)).length = i ∧
      ((State.start registry config).sent as)[i]? = some (.request id method params) ∧
      ((State.start registry' config').sent bs)[k]? = some (.failure id f) := by
  obtain ⟨j', payload, hj', hp, hi⟩ : ∃ j payload, bs[j]? = some .receive ∧
      ((State.start registry' config').run (bs.take j)).handled .receive = some payload ∧
      ((State.start registry' config').got (bs.take j)).length = i := by
    obtain ⟨j, payload, -, hj, hp, hi, -⟩ := he
    exact ⟨j, payload, hj, hp, hi⟩
  have hgot := hi ▸ State.getElem?_got hj' hp
  -- The payload has been sent by the other session.
  have hsent : (((State.start registry config).sent as).map Envelope.bytes)[i]? = some payload := by
    obtain ⟨more, hmore⟩ := h.got_isPrefix hl
    rw [← hmore, List.getElem?_append_left (List.getElem?_eq_some_iff.1 hgot).1, hgot]
  rw [List.getElem?_map] at hsent
  obtain ⟨e, hplace, rfl⟩ := Option.map_eq_some_iff.1 hsent
  obtain ⟨id, f, hid, hmethod, hfailure⟩ := he.failure hgot
  obtain ⟨j, method, params, hj, hlength, rfl⟩ := State.request_of_sent hplace hid hmethod
  exact ⟨j, id, method, params, f, hj, hlength, hplace, hfailure⟩

theorem Joined.calm
    (h : Joined (State.start registry config) (State.start registry' config') as bs)
    (hl : config.maxMessageSize < UInt64.size) (hl' : config'.maxMessageSize < UInt64.size) :
    Calm (State.start registry config) as (State.start registry' config') bs where
  answers := h.answers hl'
  once := State.Echoes.unique
  unanswered := by
    intro i k he k' he'
    obtain ⟨_, id, _, _, f, -, -, -, hfailure⟩ := h.answers hl' he
    obtain ⟨_, id', method, params, _, -, -, hrequest, -⟩ := h.symm.answers hl he'
    cases hfailure.symm.trans hrequest

end Calm

/-- Whatever a session sends is a request, a notification or a response. Handling the bytes of a
notification or of a response queues nothing, in any state of a session and whatever values they
carry; handling those of a request queues nothing or an error with its identifier. What either of
two joined sessions sends of its own accord is therefore such an error, no more than one for a
request that the other one's owner has sent, and it is not answered in the same way. -/
theorem answers_die_out {R N R' N' : Type} {registry : Rpc.Registry R N}
    {registry' : Rpc.Registry R' N'} {config config' : Config} {as bs : List Action}
    (h : Joined (State.start registry config) (State.start registry' config') as bs)
    (hl : config.maxMessageSize < UInt64.size) (hl' : config'.maxMessageSize < UInt64.size) :
    (∀ (s : State R N) (a : Action), ∀ e ∈ s.sentBy a,
      (∃ id method params, e = .request id method params) ∨
        (∃ method params, e = .notification method params) ∨
        ∃ id outcome, e = .response id outcome) ∧
    (∀ (s : State R N) (method : String) (params : Option Json),
      (s.handlePayload (Envelope.notification method params).bytes).outbox = s.outbox) ∧
    (∀ (s : State R N) (id : Id) (outcome : Except Failure Json),
      (s.handlePayload (Envelope.response id outcome).bytes).outbox = s.outbox) ∧
    (∀ (s : State R N) (id : Id) (method : String) (params : Option Json),
      (s.handlePayload (Envelope.request id method params).bytes).outbox = s.outbox ∨
        ∃ f, (s.handlePayload (Envelope.request id method params).bytes).outbox =
          s.outbox.put (.failure id f)) ∧
    Calm (State.start registry config) as (State.start registry' config') bs ∧
    Calm (State.start registry' config') bs (State.start registry config) as := by
  refine ⟨fun s a e => State.kinds_of_mem_sentBy, fun s method params => ?_,
    fun s id outcome => ?_, fun s id method params => ?_, h.calm hl hl', h.symm.calm hl' hl⟩
  · rcases s.outbox_handlePayload_bytes (.notification method params) with
      hsame | ⟨id, f, hid, -⟩
    · exact hsame
    · cases hid
  · have hnone : (Envelope.response id outcome).method = none := by cases outcome <;> rfl
    rcases s.outbox_handlePayload_bytes (.response id outcome) with
      hsame | ⟨id', f, -, hmethod, -⟩
    · exact hsame
    · exact absurd hnone hmethod
  · rcases s.outbox_handlePayload_bytes (.request id method params) with
      hsame | ⟨id', f, hid, -, hput⟩
    · exact .inl hsame
    · obtain rfl := Option.some.inj hid
      exact .inr ⟨f, hput⟩

/-- A request whose method the peer does not know is answered with an error, which is not. -/
theorem unknown_method_answered_once :
    ∃ as bs,
      Joined (State.start (Rpc.Registry.empty : Rpc.Registry Unit Unit) {})
        (State.start (Rpc.Registry.empty : Rpc.Registry Unit Unit) {}) as bs ∧
      (State.start (Rpc.Registry.empty : Rpc.Registry Unit Unit) {}).Echoes bs 0 0 ∧
      ((State.start (Rpc.Registry.empty : Rpc.Registry Unit Unit) {}).got as).length = 1 ∧
      ∀ k, ¬(State.start (Rpc.Registry.empty : Rpc.Registry Unit Unit) {}).Echoes as 0 k := by
  let s : State Unit Unit := State.start Rpc.Registry.empty {}
  let asked := (s.run [.send Rpc.Catalog.shutdown () false, .handle, .write]).outbox.sink.bytes
  let bs : List Action := [.arrive asked, .receive, .write]
  let told := (s.run bs).outbox.sink.bytes
  let as : List Action :=
    [.send Rpc.Catalog.shutdown () false, .handle, .write, .arrive told, .receive]
  have hjoined : Joined s s as bs := by
    have hstart : Joined s s [] [] := .start
    have hwritten := ((hstart.left (.send Rpc.Catalog.shutdown () false) (by simp)).left .handle
      (by simp)).left .write (by simp)
    have hanswered := ((hwritten.toRight asked List.prefix_rfl).right .receive
      (by simp)).right .write (by simp)
    exact (hanswered.toLeft told List.prefix_rfl).left .receive (by simp)
  obtain ⟨hhandled, hsent, hgot⟩ : ((s.run (bs.take 1)).handled .receive).isSome = true ∧
      ((s.run (bs.take 1)).sentBy .receive).length = 1 ∧ (s.got as).length = 1 := by decide +kernel
  obtain ⟨payload, hp⟩ := Option.isSome_iff_exists.1 hhandled
  obtain ⟨e, he⟩ := List.length_eq_one_iff.1 hsent
  have hechoes : s.Echoes bs 0 0 :=
    ⟨1, payload, e, rfl, hp, by decide +kernel, he ▸ List.mem_singleton_self e, by decide +kernel⟩
  obtain ⟨-, -, -, -, hcalm, -⟩ := answers_die_out hjoined (by decide) (by decide)
  exact ⟨as, bs, hjoined, hechoes, hgot, fun k => hcalm.unanswered hechoes k⟩

end PeerRpc.Session
