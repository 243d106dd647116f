import PeerRpc.Proofs.Session.Tickets

/-!
# What responses are for

Every response that a session sends has its own payload, handled before and asking for a response
with the same identifier (`responses_matched`). The session answers while it handles the payload, or
the owner answers later with the ticket that was made then; either way the payload has no other
response (`Prompts.unique`).
-/

namespace PeerRpc.Session

open Rpc (Envelope Failure Id Message)

/-- A payload asks for a response with an identifier: it is a request, or it is no message but looks
like a request. -/
def Asks (payload : List UInt8) (id : Id) : Prop :=
  (∃ method params, Message.ofPayload payload = .ok (.request id method params)) ∨
    (∃ fault, Message.ofPayload payload = .error fault) ∧ Rpc.requestIdOf? payload = some id

namespace State

variable {R N : Type} {s : State R N}

/-- What is sent at a position of a run answers the payload that is handled at another one: the
session's own answer is sent at once; otherwise nothing is sent while the payload is handled, and
its ticket is used later. -/
def Prompts (s : State R N) (actions : List Action) (i j : Nat) : Prop :=
  i = j ∨ i < j ∧ (s.run (actions.take i)).sentBy .receive = [] ∧
    ∃ outcome, s.Responds actions j (s.run (actions.take i)).tickets.size outcome

/-- There is only one place where a payload is answered. -/
theorem Prompts.unique {actions : List Action} {i j j' : Nat} {a a' : Action} {e e' : Envelope}
    (h : s.Prompts actions i j) (h' : s.Prompts actions i j')
    (ha : actions[j]? = some a) (he : e ∈ (s.run (actions.take j)).sentBy a)
    (ha' : actions[j']? = some a') (he' : e' ∈ (s.run (actions.take j')).sentBy a')
    (hi : actions[i]? = some .receive) : j = j' := by
  rcases h with rfl | ⟨hij, hnone, outcome, hj⟩ <;>
    rcases h' with rfl | ⟨hij', hnone', outcome', hj'⟩
  · rfl
  · obtain rfl := Option.some.inj (ha.symm.trans hi)
    rw [hnone'] at he
    cases he
  · obtain rfl := Option.some.inj (ha'.symm.trans hi)
    rw [hnone] at he'
    cases he'
  · rcases Nat.lt_trichotomy j j' with hlt | heq | hgt
    · exact absurd hj' (respond_once hj hlt)
    · exact heq
    · exact absurd hj (respond_once hj' hgt)

/-! ## Payloads that are no messages -/

theorem outbox_emit (s : State R N) (e : Event R N) : (s.emit e).outbox = s.outbox :=
  congrArg Desk.outbox (desk_emit s e)

theorem outbox_handleMalformed (s : State R N) (payload : List UInt8) (fault : Rpc.EnvelopeFault) :
    (s.handleMalformed payload fault).outbox = s.outbox ∨
      ∃ id f, Rpc.requestIdOf? payload = some id ∧
        (s.handleMalformed payload fault).outbox = s.outbox.put (.failure id f) := by
  dsimp only [handleMalformed]
  rw [outbox_emit]
  split
  · rename_i id hid
    exact .inr ⟨id, _, hid, rfl⟩
  · exact .inl rfl

/-- A payload that is no message is answered if it looks like a request. -/
theorem id_of_malformed {payload : List UInt8} {fault : Rpc.EnvelopeFault} {e : Envelope}
    (hp : s.handled .receive = some payload) (hm : Message.ofPayload payload = .error fault)
    (he : e ∈ s.sentBy .receive) : ∃ id, Rpc.requestIdOf? payload = some id ∧ e.id = some id := by
  have hact : s.act .receive =
      ({ s with reader := s.reader.next.2 } : State R N).handleMalformed payload fault := by
    rw [(act_of_handled hp).2, handlePayload, hm]
  rcases outbox_handleMalformed { s with reader := s.reader.next.2 } payload fault with
    hsame | ⟨id, f, hid, hput⟩
  · rw [sentBy_of_outbox (hact ▸ hsame)] at he
    cases he
  · obtain rfl := eq_of_mem_sentBy_of_put he (hact ▸ hput)
    exact ⟨id, hid, rfl⟩

theorem sentBy_of_delivered {payload : List UInt8} {id : Id} {method : String}
    {params : Option Json} (hp : s.handled .receive = some payload)
    (hm : Message.ofPayload payload = .ok (.request id method params))
    (hf : s.refusal method params = none) : s.sentBy .receive = [] := by
  refine sentBy_of_outbox ?_
  rw [act_of_handled_request hp hm]
  rcases handleRequest_cases { s with reader := s.reader.next.2 } id method params with
    ⟨f, hf', -⟩ | ⟨value, -, hdesk, -⟩
  · cases hf.symm.trans hf'
  · exact congrArg Desk.outbox hdesk

/-! ## Runs -/

variable {registry : Rpc.Registry R N} {config : Config} {actions : List Action}

/-- A response that is sent answers a payload that has been handled. -/
theorem prompts_of_mem_sentBy {a : Action} {e : Envelope} {j : Nat} (hj : actions[j]? = some a)
    (he : e ∈ ((start registry config).run (actions.take j)).sentBy a) (hm : e.method = none) :
    ∃ i payload id, i ≤ j ∧ actions[i]? = some .receive ∧
      ((start registry config).run (actions.take i)).handled .receive = some payload ∧
      e.id = some id ∧ Asks payload id ∧ (start registry config).Prompts actions i j := by
  cases origin_of_mem_sentBy he with
  | request | notify => cases hm
  | refused payload id method params f hp hmessage hf =>
    exact ⟨j, payload, id, le_rfl, hj, hp, rfl, .inl ⟨method, params, hmessage⟩, .inl rfl⟩
  | malformed payload id f fault hp hmessage =>
    obtain ⟨id', hid, he'⟩ := id_of_malformed hp hmessage he
    exact ⟨j, payload, id', le_rfl, hj, hp, he', .inr ⟨⟨fault, hmessage⟩, hid⟩, .inl rfl⟩
  | answer ticket t outcome ht hok =>
    obtain ⟨i, params, hi, ⟨ha, payload, hp, hmessage⟩, hf, hsize⟩ :=
      tickets_run (ticket?_eq_some ht).1
    rw [List.length_take] at hi
    have hij : i < j := by omega
    rw [List.take_take, Nat.min_eq_left hij.le] at hp hf hsize
    rw [List.getElem?_take_of_lt hij] at ha
    refine ⟨i, payload, t.id, hij.le, ha, hp, ?_, .inl ⟨t.method, params, hmessage⟩,
      .inr ⟨hij, sentBy_of_delivered hp hmessage hf, outcome, ?_⟩⟩
    · cases outcome <;> rfl
    · rw [hsize]
      exact ⟨hj, hok⟩

/-- A payload that is handled stands behind those that were handled before. -/
theorem got_take_append_isPrefix {i n : Nat} {payload : List UInt8}
    (hi : actions[i]? = some .receive)
    (hp : (s.run (actions.take i)).handled .receive = some payload) (hn : i < n) :
    s.got (actions.take i) ++ [payload] <+: s.got (actions.take n) := by
  have h := along_take_append_isPrefix (fun s a => (State.handled s a).toList) hi hn s
  rwa [hp, Option.toList_some] at h

theorem length_got_lt {i n : Nat} {payload : List UInt8} (hi : actions[i]? = some .receive)
    (hp : (s.run (actions.take i)).handled .receive = some payload) (hn : i < n) :
    (s.got (actions.take i)).length < (s.got (actions.take n)).length := by
  have h := (got_take_append_isPrefix hi hp hn).length_le
  rwa [List.length_append, List.length_singleton] at h

theorem getElem?_got {i : Nat} {payload : List UInt8} (hi : actions[i]? = some .receive)
    (hp : (s.run (actions.take i)).handled .receive = some payload) :
    (s.got actions)[(s.got (actions.take i)).length]? = some payload := by
  have hlt := (List.getElem?_eq_some_iff.1 hi).1
  obtain ⟨more, hmore⟩ := got_take_append_isPrefix hi hp hlt
  rw [List.take_length] at hmore
  rw [← hmore, List.append_assoc, List.getElem?_append_right le_rfl, Nat.sub_self]
  rfl

/-- The place of a payload among those that are handled tells when it is handled. -/
theorem length_got_inj {i i' : Nat} {payload payload' : List UInt8}
    (hi : actions[i]? = some .receive)
    (hp : (s.run (actions.take i)).handled .receive = some payload)
    (hi' : actions[i']? = some .receive)
    (hp' : (s.run (actions.take i')).handled .receive = some payload')
    (h : (s.got (actions.take i)).length = (s.got (actions.take i')).length) : i = i' := by
  rcases Nat.lt_trichotomy i i' with hlt | heq | hgt
  · exact absurd h (length_got_lt hi hp hlt).ne
  · exact heq
  · exact absurd h.symm (length_got_lt hi' hp' hgt).ne

/-- The place of an envelope among those that are sent is that of its action. -/
theorem position_of_sent {k : Nat} {e : Envelope} (h : (s.sent actions)[k]? = some e) :
    ∃ j a, actions[j]? = some a ∧ e ∈ (s.run (actions.take j)).sentBy a ∧
      (s.sent (actions.take j)).length = k := by
  obtain ⟨j, a, r, ha, he, hk⟩ := getElem?_along sentBy h
  rcases sentBy_cases (s.run (actions.take j)) a with ⟨hnil, -⟩ | ⟨e', he', -⟩
  · rw [hnil] at he
    cases he
  · rw [he'] at he
    obtain ⟨hr, -⟩ := List.getElem?_eq_some_iff.1 he
    obtain rfl : r = 0 := Nat.lt_one_iff.1 hr
    exact ⟨j, a, ha, he' ▸ List.mem_of_getElem? he, hk.symm⟩

/-- A payload that is handled in a run, and the response to it. -/
structure Exchange (s : State R N) (actions : List Action) where
  /-- Where the payload is handled. -/
  receipt : Nat
  /-- Where the response is sent. -/
  reply : Nat
  action : Action
  payload : List UInt8
  response : Envelope
  receive : actions[receipt]? = some .receive
  handled : (s.run (actions.take receipt)).handled .receive = some payload
  act : actions[reply]? = some action
  sent : response ∈ (s.run (actions.take reply)).sentBy action
  le : receipt ≤ reply
  prompts : s.Prompts actions receipt reply
  asks : ∃ id, response.id = some id ∧ Asks payload id

namespace Exchange

variable (x x' : Exchange s actions)

/-- The place of the payload among those that are handled. -/
def gotAt : Nat :=
  (s.got (actions.take x.receipt)).length

/-- The place of the response among the envelopes that are sent. -/
def sentAt : Nat :=
  (s.sent (actions.take x.reply)).length

theorem getElem?_gotAt : (s.got actions)[x.gotAt]? = some x.payload :=
  getElem?_got x.receive x.handled

/-- The payload is handled before the response has been sent. -/
theorem gotAt_lt {n : Nat} (h : x.sentAt < (s.sent (actions.take n)).length) :
    x.gotAt < (s.got (actions.take n)).length := by
  have hreply : x.reply < n := by
    by_contra hle
    have hprefix := along_isPrefix sentBy (List.take_prefix_take_left (l := actions) (not_lt.1 hle)) s
    exact absurd h (not_lt.2 hprefix.length_le)
  exact length_got_lt x.receive x.handled (x.le.trans_lt hreply)

/-- A payload has one response. -/
theorem sentAt_eq (h : x.gotAt = x'.gotAt) : x.sentAt = x'.sentAt := by
  have hreceipt := length_got_inj x.receive x.handled x'.receive x'.handled h
  have hreply := x.prompts.unique (hreceipt ▸ x'.prompts) x.act x.sent x'.act x'.sent x.receive
  rw [sentAt, sentAt, hreply]

end Exchange

/-- A response that is sent in a run is that of an exchange. -/
theorem exchange_of_sent {k : Nat} {e : Envelope}
    (h : ((start registry config).sent actions)[k]? = some e) (hm : e.method = none) :
    ∃ x : Exchange (start registry config) actions, x.response = e ∧ x.sentAt = k := by
  obtain ⟨j, a, ha, hmem, hlength⟩ := position_of_sent h
  obtain ⟨i, payload, id, hij, hi, hp, hid, hasks, hprompts⟩ := prompts_of_mem_sentBy ha hmem hm
  exact ⟨⟨i, j, a, payload, e, hi, hp, ha, hmem, hij, hprompts, id, hid, hasks⟩, rfl, hlength⟩

/-- Every response that is sent in a run is for a payload that is handled in it and asks for a
response with its identifier, and no two of them are for the same one. A response has not been sent
before its payload is handled. -/
theorem responses_matched (registry : Rpc.Registry R N) (config : Config)
    (actions : List Action) :
    ∃ source : Nat → Nat,
      (∀ k e, ((start registry config).sent actions)[k]? = some e → e.method = none →
        ∃ payload id, ((start registry config).got actions)[source k]? = some payload ∧
          e.id = some id ∧ Asks payload id ∧
          ∀ n, k < ((start registry config).sent (actions.take n)).length →
            source k < ((start registry config).got (actions.take n)).length) ∧
      ∀ k k' e e', ((start registry config).sent actions)[k]? = some e → e.method = none →
        ((start registry config).sent actions)[k']? = some e' → e'.method = none →
        source k = source k' → k = k' := by
  have hsource : ∀ k, ∃ place, ∀ e, ((start registry config).sent actions)[k]? = some e →
      e.method = none → ∃ x : Exchange (start registry config) actions,
        x.response = e ∧ x.sentAt = k ∧ x.gotAt = place := by
    intro k
    by_cases hk : ∃ e, ((start registry config).sent actions)[k]? = some e ∧ e.method = none
    · obtain ⟨e, he, hm⟩ := hk
      obtain ⟨x, hx, hat⟩ := exchange_of_sent he hm
      refine ⟨x.gotAt, fun e' he' _ => ⟨x, ?_, hat, rfl⟩⟩
      exact hx.trans (Option.some.inj (he.symm.trans he'))
    · exact ⟨0, fun e he hm => absurd ⟨e, he, hm⟩ hk⟩
  choose source hsource using hsource
  refine ⟨source, fun k e he hm => ?_, fun k k' e e' he hm he' hm' heq => ?_⟩
  · obtain ⟨x, rfl, rfl, hx⟩ := hsource k e he hm
    obtain ⟨id, hid, hasks⟩ := x.asks
    exact ⟨x.payload, id, hx ▸ x.getElem?_gotAt, hid, hasks, fun n hn => hx ▸ x.gotAt_lt hn⟩
  · obtain ⟨x, -, rfl, hx⟩ := hsource k e he hm
    obtain ⟨x', -, rfl, hx'⟩ := hsource k' e' he' hm'
    exact x.sentAt_eq x' (hx.trans (heq.trans hx'.symm))

end State

end PeerRpc.Session
