import PeerRpc.Proofs.Rpc.Payload
import PeerRpc.Proofs.Session.Requests
import PeerRpc.Proofs.Session.Tickets

/-!
# Two sessions

Two sessions are joined by two pipes (`Joined`): what arrives at one of them is what the other one
has written, in pieces of any size and as late as it may be.

* `answer_of_joined`: a call that ends with a result or with an error of the peer has the answer to
  its own request, which the peer has handled exactly once.
-/

namespace PeerRpc.Session

open Rpc (Envelope Failure Id Message)
open PeerRpc.Frame (stream)

/-- What two sessions do that are joined by two pipes. Only what one has written can arrive at the
other. -/
inductive Joined {R N R' N' : Type} (s : State R N) (s' : State R' N') :
    List Action → List Action → Prop
  /-- Nothing has happened yet. -/
  | start : Joined s s' [] []
  /-- The left session does something. -/
  | left {as bs : List Action} (h : Joined s s' as bs) (a : Action) (ha : ∀ bytes, a ≠ .arrive bytes) :
    Joined s s' (as ++ [a]) bs
  /-- The right session does something. -/
  | right {as bs : List Action} (h : Joined s s' as bs) (b : Action)
    (hb : ∀ bytes, b ≠ .arrive bytes) : Joined s s' as (bs ++ [b])
  /-- Bytes of the right session arrive at the left one. -/
  | toLeft {as bs : List Action} (h : Joined s s' as bs) (bytes : List UInt8)
    (hb : arrived as ++ bytes <+: (s'.run bs).outbox.sink.bytes) :
    Joined s s' (as ++ [.arrive bytes]) bs
  /-- Bytes of the left session arrive at the right one. -/
  | toRight {as bs : List Action} (h : Joined s s' as bs) (bytes : List UInt8)
    (hb : arrived bs ++ bytes <+: (s.run as).outbox.sink.bytes) :
    Joined s s' as (bs ++ [.arrive bytes])

/-- Envelopes that a reader with the given limit can take. -/
def Fits (limit : Nat) (envelopes : List Envelope) : Prop :=
  ∀ e ∈ envelopes, e.Travels ∧ e.bytes.length ≤ limit

section Joined

variable {R N R' N' : Type} {s : State R N} {s' : State R' N'} {as bs : List Action}

/-- The bytes that have arrived are the first ones that were written. -/
theorem Joined.pipes (h : Joined s s' as bs) :
    arrived as <+: (s'.run bs).outbox.sink.bytes ∧ arrived bs <+: (s.run as).outbox.sink.bytes := by
  induction h with
  | start => exact ⟨List.nil_prefix, List.nil_prefix⟩
  | @left as bs _ a ha ih =>
    rw [arrived_concat ha, State.run_concat]
    exact ⟨ih.1, ih.2.trans (State.bytes_isPrefix_act _ a)⟩
  | @right as bs _ b hb ih =>
    rw [arrived_concat hb, State.run_concat]
    exact ⟨ih.1.trans (State.bytes_isPrefix_act _ b), ih.2⟩
  | @toLeft as bs _ bytes hb ih =>
    rw [arrived_concat_arrive, State.run_concat]
    exact ⟨hb, ih.2⟩
  | @toRight as bs _ bytes hb ih =>
    rw [arrived_concat_arrive, State.run_concat]
    exact ⟨ih.1, hb⟩

/-- The same with the sides exchanged. -/
theorem Joined.symm (h : Joined s s' as bs) : Joined s' s bs as := by
  induction h with
  | start => exact .start
  | left _ a ha ih => exact .right ih a ha
  | right _ b hb ih => exact .left ih b hb
  | toLeft _ bytes hb ih => exact .toRight ih bytes hb
  | toRight _ bytes hb ih => exact .toLeft ih bytes hb

/-- What a session has written arrives in two pieces. -/
theorem Joined.inTwoPieces (h : Joined s s' as bs) (hnone : arrived bs = []) (n : Nat) :
    Joined s s' as (bs ++ [.arrive ((s.run as).outbox.sink.bytes.take n)] ++
      [.arrive ((s.run as).outbox.sink.bytes.drop n)]) := by
  refine (h.toRight _ ?_).toRight _ ?_
  · rw [hnone]
    exact List.take_prefix n _
  · rw [arrived_concat_arrive, hnone, List.nil_append, List.take_append_drop]

end Joined

/-! ## Messages -/

theorem request?_of_classify {e : Envelope} {id : Id} {method : String} {params : Option Json}
    (h : e.classify = .ok (.request id method params)) :
    e.request? = some (id, method, params) := by
  obtain ⟨hid, hmethod, rfl⟩ := Envelope.request_of_classify h
  rw [Envelope.request?, hmethod, hid]

namespace State

variable {R N : Type} {s : State R N}

/-- Whatever is sent is a message. -/
theorem classify_of_origin {a : Action} {e : Envelope} (h : Origin s a e)
    (fault : Rpc.EnvelopeFault) : e.classify ≠ .error fault := by
  intro he
  cases h with
  | answer ticket t outcome => cases outcome <;> cases he
  | _ => cases he

variable {actions : List Action} {i j : Nat} {message message' : Message}

/-- Two payloads that are handled one after the other are handled in this order. -/
theorem Handles.sublist_got (h : s.Handles actions i message) (h' : s.Handles actions j message')
    (hij : i < j) :
    ∃ payload payload', [payload, payload'].Sublist (s.got actions) ∧
      Message.ofPayload payload = .ok message ∧ Message.ofPayload payload' = .ok message' := by
  obtain ⟨ha, payload, hp, hm⟩ := h
  obtain ⟨ha', payload', hp', hm'⟩ := h'
  exact ⟨payload, payload', sublist_along _ ha ha' (by simp [hp]) (by simp [hp']) hij, hm, hm'⟩

theorem mapError_rpc_inj {outcome outcome' : Except Failure Json}
    (h : outcome.mapError CallError.rpc = outcome'.mapError CallError.rpc) : outcome = outcome' := by
  cases outcome <;> cases outcome' <;> cases h <;> rfl

/-- A call that is settled is the open one of the response's identifier. -/
theorem response_of_answered {a : Action} {call : Nat} {outcome : Except Failure Json}
    (h : s.answered a = some (call, outcome.mapError .rpc)) :
    a = .receive ∧ ∃ payload r, s.handled .receive = some payload ∧
      Message.ofPayload payload = .ok (.response r) ∧ s.pendingCall? r.id = some call ∧
      r.outcome = .ok outcome := by
  cases a with
  | receive =>
    rw [answered] at h
    split_ifs at h with hrun
    unfold settledNext at h
    split at h
    · rename_i payload reader hn
      unfold settledBy at h
      split at h
      · rename_i r hm
        obtain ⟨call', hcall, he⟩ := Option.map_eq_some_iff.1 h
        obtain ⟨rfl, ho⟩ := Prod.mk.inj he
        refine ⟨rfl, payload, r, handled_of_payload hrun hn, hm, hcall, ?_⟩
        split at ho
        · rename_i outcome' hr
          rw [hr, mapError_rpc_inj ho]
        · cases outcome <;> cases ho
      · cases h
    · cases h
  | _ => cases h

end State

/-! ## Answers -/

section Answers

variable {R N R' N' : Type} {registry : Rpc.Registry R N} {registry' : Rpc.Registry R' N'}
  {config config' : Config} {as bs : List Action}

section Pipe

variable (h : Joined (State.start registry config) (State.start registry' config') as bs)
  (hl : config'.maxMessageSize < UInt64.size)

include h hl

/-- The payloads that one session handles are the first ones of those that the other has sent. -/
theorem Joined.got_isPrefix :
    (State.start registry' config').got bs <+:
      ((State.start registry config).sent as).map Envelope.bytes :=
  State.got_isPrefix hl (h.pipes.2.trans (State.bytes_isPrefix_sent _ _ _))

variable (hf : Fits config'.maxMessageSize ((State.start registry config).sent as))

include hf

/-- A message that one session handles is one that the other has sent. -/
theorem Joined.sent_of_handles {i : Nat} {message : Message}
    (hh : (State.start registry' config').Handles bs i message) :
    ∃ e ∈ (State.start registry config).sent as, e.classify = .ok message := by
  obtain ⟨ha, payload, hp, hm⟩ := hh
  obtain ⟨e, he, rfl⟩ := List.mem_map.1 ((h.got_isPrefix hl).subset (State.mem_got ha hp))
  exact ⟨e, he, (Message.ofPayload_bytes (hf e he).1).symm.trans hm⟩

/-- Every payload that one session handles is a message. -/
theorem Joined.message_of_handled {payload : List UInt8}
    (hp : payload ∈ (State.start registry' config').got bs) (fault : Rpc.EnvelopeFault) :
    Message.ofPayload payload ≠ .error fault := by
  obtain ⟨e, he, rfl⟩ := List.mem_map.1 ((h.got_isPrefix hl).subset hp)
  obtain ⟨i, a, -, ho⟩ := State.origin_of_mem_sent he
  rw [Message.ofPayload_bytes (hf e he).1]
  exact State.classify_of_origin ho fault

/-- Of the requests of one identifier no more than one is handled. -/
theorem Joined.handles_inj
    (hsize : ((State.start registry config).run as).calls.size < 2 ^ 64) {i j : Nat} {id : Id}
    {method method' : String} {params params' : Option Json}
    (hi : (State.start registry' config').Handles bs i (.request id method params))
    (hj : (State.start registry' config').Handles bs j (.request id method' params')) : ¬i < j := by
  intro hij
  obtain ⟨payload, payload', hsub, hm, hm'⟩ := hi.sublist_got hj hij
  obtain ⟨es, hes, hmap⟩ := List.sublist_map_iff.1 (hsub.trans (h.got_isPrefix hl).sublist)
  obtain ⟨e, _, rfl, rfl, hrest⟩ := List.map_eq_cons_iff.1 hmap.symm
  obtain ⟨e', _, rfl, rfl, hnil⟩ := List.map_eq_cons_iff.1 hrest
  obtain rfl := List.map_eq_nil_iff.1 hnil
  rw [Message.ofPayload_bytes (hf e (hes.subset (by simp))).1] at hm
  rw [Message.ofPayload_bytes (hf e' (hes.subset (by simp))).1] at hm'
  exact State.request_inj hsize hes (request?_of_classify hm) (request?_of_classify hm') rfl

end Pipe

/-- A response that settles a call carries the answer to a request which the peer has handled. -/
theorem Joined.answers_of_answered
    (h : Joined (State.start registry config) (State.start registry' config') as bs)
    (hl : config.maxMessageSize < UInt64.size) (hl' : config'.maxMessageSize < UInt64.size)
    (hf : Fits config'.maxMessageSize ((State.start registry config).sent as))
    (hf' : Fits config.maxMessageSize ((State.start registry' config').sent bs))
    (hsize : ((State.start registry config).run as).calls.size < 2 ^ 64) {call : Nat}
    {outcome : Except Failure Json}
    (ha : (State.start registry config).Answered as call (outcome.mapError .rpc)) :
    ∃ i method params,
      (State.start registry' config').Handles bs i (.request (idAt call) method params) ∧
      (State.start registry' config').Answers bs i (idAt call) method params outcome := by
  obtain ⟨before, a, after, rfl, ha⟩ := ha
  obtain ⟨rfl, payload, r, hp, hm, hcall, hr⟩ := State.response_of_answered ha
  have htake : (before ++ .receive :: after).take before.length = before := List.take_left
  -- The response is that of an open call, and its identifier is the call's.
  have hid : r.id = idAt call := by
    have hsize' : ((State.start registry config).run before).calls.size < 2 ^ 64 :=
      htake ▸ State.size_calls_take_lt hsize before.length
    exact ((State.settling_run hsize').slots
      (Core.mem_slots_of_pending (Core.mem_pending_of_pendingCall? hcall))).1
  -- The peer has sent it, so it is an answer.
  obtain ⟨e, he, hc⟩ := h.symm.sent_of_handles hl hf' (i := before.length)
    ⟨by simp, payload, by rwa [htake], hm⟩
  obtain ⟨hmethod, heid, hresponse⟩ := Envelope.response_of_classify hc
  obtain ⟨j, b, hj, ho⟩ := State.origin_of_mem_sent he
  obtain ⟨i, id, method, params, outcome', rfl, hh, hanswers⟩ :=
    State.answers_of_origin hj ho hmethod fun payload fault hp hb =>
      h.message_of_handled hl' hf (State.mem_got (hb ▸ hj) hp) fault
  have hid' : id = r.id := by
    cases outcome' <;> exact Option.some.inj heid
  have houtcome : outcome' = outcome := by
    rw [hresponse] at hr
    cases outcome' <;> exact Except.ok.inj hr
  obtain rfl : id = idAt call := hid'.trans hid
  obtain rfl := houtcome
  exact ⟨i, method, params, hh, hanswers⟩

theorem answered_of_poll {call : Nat} {outcome : Except Failure Json} {earlier : List Action}
    (hsize : ((State.start registry config).run earlier).calls.size < 2 ^ 64)
    (hp : (((State.start registry config).run earlier).poll call).1 =
      some (outcome.mapError .rpc)) :
    (State.start registry config).Answered earlier call (outcome.mapError .rpc) := by
  have hne : ∀ e, (∀ f, e ≠ CallError.rpc f) → outcome.mapError CallError.rpc ≠ .error e := by
    intro e he h
    cases outcome with
    | ok v => cases h
    | error f => exact he f (Except.error.inj h).symm
  unfold State.poll at hp
  split at hp
  · cases hp
  · rename_i k hk
    split_ifs at hp
    · exact absurd (Option.some.inj hp).symm (hne _ (by simp))
    · rcases State.outcomes_run hsize hk with ho | ⟨o, ho, hcause⟩
      · rw [ho] at hp
        cases hp
      · rw [ho] at hp
        obtain rfl := Option.some.inj hp
        rcases hcause with ha | ⟨hc, -⟩ | ⟨hc, -⟩
        · exact ha
        · exact absurd hc (hne _ (by simp))
        · exact absurd hc (hne _ (by simp))

end Answers

/-- Two sessions are joined by two pipes, and both make calls, with the same identifiers. All that
they send can be read by the other one, and the left one makes fewer than 2⁶⁴ calls. If one of these
ends with a result or with an error of the right session, then the right one has handled exactly one
request for it, with its method and its parameters, and this outcome is the one answer to that
request. No other call has its identifier, and no request of the right session makes any difference
to the calls of the left one. -/
theorem answer_of_joined {R N R' N' : Type} {registry : Rpc.Registry R N}
    {registry' : Rpc.Registry R' N'} {config config' : Config} {as bs : List Action}
    (h : Joined (State.start registry config) (State.start registry' config') as bs)
    (hl : config.maxMessageSize < UInt64.size) (hl' : config'.maxMessageSize < UInt64.size)
    (hf : Fits config'.maxMessageSize ((State.start registry config).sent as))
    (hf' : Fits config.maxMessageSize ((State.start registry' config').sent bs))
    (hsize : ((State.start registry config).run as).calls.size < 2 ^ 64)
    (m : Rpc.RequestMethod) (p : m.Params) (call : Nat) (outcome : Except Failure Json)
    (hs : (State.start registry config).Sends as m p call) {earlier : List Action}
    (he : earlier <+: as)
    (hp : (((State.start registry config).run earlier).poll call).1 =
      some (outcome.mapError .rpc)) :
    ∃ i params, m.params.encode p = .ok params ∧
      (State.start registry' config').Handles bs i (.request (idAt call) m.name params) ∧
      (State.start registry' config').Answers bs i (idAt call) m.name params outcome ∧
      (∀ outcome', (State.start registry' config').Answers bs i (idAt call) m.name params outcome' →
        outcome' = outcome) ∧
      (∀ j method params', (State.start registry' config').Handles bs j
        (.request (idAt call) method params') → j = i) ∧
      (∀ (other : Nat) c, ((State.start registry config).run as).calls[other]? = some c →
        c.id = idAt call → other = call) ∧
      ∀ j id method params', (State.start registry config).Handles as j
          (.request id method params') →
        ((State.start registry config).run (as.take (j + 1))).core =
          ((State.start registry config).run (as.take j)).core := by
  obtain ⟨later, hlater⟩ := he
  have hearlier : ((State.start registry config).run earlier).calls.size < 2 ^ 64 := by
    have := State.size_calls_run ((State.start registry config).run earlier) later
    rw [← State.run_append, hlater] at this
    exact this.trans_lt hsize
  have ha : (State.start registry config).Answered as call (outcome.mapError .rpc) :=
    hlater ▸ (answered_of_poll hearlier hp).append later
  obtain ⟨i, method, params, hh, hanswers⟩ := h.answers_of_answered hl hl' hf hf' hsize ha
  -- What the peer has handled is the request of this call.
  obtain ⟨params', hparams, hmade⟩ := State.made_of_sends hsize hs
  obtain ⟨e, hmem, hc⟩ := h.sent_of_handles hl' hf hh
  have hrequest := State.request_eq_of_mem_sent hsize hmem (request?_of_classify hc) hmade rfl
  obtain ⟨-, hrequest⟩ := Prod.mk.inj hrequest
  obtain ⟨rfl, rfl⟩ := Prod.mk.inj hrequest
  refine ⟨i, params, hparams, hh, hanswers, fun _ => hanswers.unique, ?_, ?_, ?_⟩
  · intro j method' params' hj
    have hle := h.handles_inj hl' hf hsize hh hj
    have hge := h.handles_inj hl' hf hsize hj hh
    omega
  · intro other c hc hid
    have hother := (State.settling_run hsize).ids hc
    have hlt := (Array.getElem?_eq_some_iff.1 hc).1
    obtain ⟨k, hk, -⟩ := State.outcomes_of_answered hsize ha
    have hlt' := (Array.getElem?_eq_some_iff.1 hk).1
    exact idAt_inj (hlt.trans hsize) (hlt'.trans hsize) (hother.symm.trans hid)
  · intro j id method' params' hj
    exact State.calls_of_handles hj

theorem eq_null_of_isNull {o : Option Outcome}
    (h : (match o with | some (.ok .null) => true | _ => false) = true) : o = some (.ok .null) := by
  split at h
  · rfl
  · cases h

/-- The request and the response each arrive in two pieces. -/
theorem answer_of_shutdown :
    ∃ as bs,
      Joined (State.start (Rpc.Registry.empty : Rpc.Registry Unit Unit) {})
        (State.start ((Rpc.Registry.empty : Rpc.Registry Unit Unit).registerRequest
          Rpc.Catalog.shutdown id) {}) as bs ∧
      (((State.start (Rpc.Registry.empty : Rpc.Registry Unit Unit) {}).run as).poll 0).1 =
        some (.ok .null) ∧
      ∃ i, (State.start ((Rpc.Registry.empty : Rpc.Registry Unit Unit).registerRequest
          Rpc.Catalog.shutdown id) {}).Handles bs i (.request (.number 1) "shutdown" none) ∧
        (State.start ((Rpc.Registry.empty : Rpc.Registry Unit Unit).registerRequest
          Rpc.Catalog.shutdown id) {}).Answers bs i (.number 1) "shutdown" none (.ok .null) := by
  let s : State Unit Unit := State.start Rpc.Registry.empty {}
  let s' : State Unit Unit :=
    State.start (Rpc.Registry.empty.registerRequest Rpc.Catalog.shutdown id) {}
  let asked := (s.run [.send Rpc.Catalog.shutdown () false, .handle, .write]).outbox.sink.bytes
  let bs : List Action :=
    [.arrive (asked.take 20), .arrive (asked.drop 20), .receive, .respond 0 (.ok .null), .write]
  let told := (s'.run bs).outbox.sink.bytes
  let as : List Action :=
    [.send Rpc.Catalog.shutdown () false, .handle, .write, .arrive (told.take 7),
      .arrive (told.drop 7), .receive]
  have hjoined : Joined s s' as bs := by
    have hstart : Joined s s' [] [] := .start
    have hasked := (hstart.left (.send Rpc.Catalog.shutdown () false) (by simp)).left .handle
      (by simp)
    have harrived := (hasked.left .write (by simp)).inTwoPieces rfl 20
    have htold := ((harrived.right .receive (by simp)).right (.respond 0 (.ok .null))
      (by simp)).right .write (by simp)
    exact (htold.symm.inTwoPieces rfl 7).symm.left .receive (by simp)
  obtain ⟨hsent, hsent', hsize⟩ : Fits Frame.defaultLimit (s.sent as) ∧
      Fits Frame.defaultLimit (s'.sent bs) ∧ (s.run as).calls.size < 2 ^ 64 := by
    unfold Fits
    decide +kernel
  have hp : ((s.run as).poll 0).1 = some (.ok .null) := eq_null_of_isNull (by decide +kernel)
  obtain ⟨i, params, hparams, hh, hanswers, -⟩ :=
    answer_of_joined hjoined (by decide) (by decide) hsent hsent' hsize Rpc.Catalog.shutdown () 0
      (.ok .null) ⟨0, false, rfl, rfl⟩ List.prefix_rfl hp
  obtain rfl : none = params := Except.ok.inj hparams
  exact ⟨as, bs, hjoined, hp, i, hh, hanswers⟩

end PeerRpc.Session
