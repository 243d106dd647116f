import PeerRpc.Proofs.Session.Sending
import PeerRpc.Proofs.Session.Receiving

/-!
# How requests are answered

A request of the peer is answered at once, or with the ticket that was made when it was delivered
(`Answers`). A ticket is always that of a delivered request (`tickets_run`) and is good for one
answer (`respond_once`); so a request has no more than one answer (`Answers.unique`).
-/

namespace PeerRpc.Session

open Rpc (Envelope Failure Id Message)

namespace State

variable {R N : Type} {s : State R N}

/-- At a position of a run the session handles a payload that holds a message. -/
def Handles (s : State R N) (actions : List Action) (i : Nat) (message : Message) : Prop :=
  actions[i]? = some .receive ∧
    ∃ payload, (s.run (actions.take i)).handled .receive = some payload ∧
      Message.ofPayload payload = .ok message

/-- At a position of a run a ticket is used for an answer. -/
def Responds (s : State R N) (actions : List Action) (i ticket : Nat)
    (outcome : Except Failure Json) : Prop :=
  actions[i]? = some (.respond ticket outcome) ∧
    ((s.run (actions.take i)).respond ticket outcome).1 = some (.ok ())

/-- The answer to the request that is handled at a position of a run: the session's own if there is
one; otherwise the one that is given later with the ticket of the request's event. -/
def Answers (s : State R N) (actions : List Action) (i : Nat) (id : Id) (method : String)
    (params : Option Json) (outcome : Except Failure Json) : Prop :=
  let s' := s.run (actions.take i)
  (∃ f, s'.refusal method params = some f ∧ outcome = .error f) ∨
    s'.refusal method params = none ∧
      (∃ value, (s'.act .receive).events = s'.events.push (.request id value s'.tickets.size)) ∧
      ∃ j, i < j ∧ s.Responds actions j s'.tickets.size outcome

/-! ## Spent tickets -/

theorem ticket?_eq_some {ticket : Nat} {t : Ticket} (h : s.ticket? ticket = some t) :
    s.tickets[ticket]? = some t ∧ t.spent = false := by
  unfold ticket? at h
  split at h
  · rename_i t' ht'
    split_ifs at h with hs
    exact ⟨Option.some.inj h ▸ ht', Option.some.inj h ▸ Bool.eq_false_iff.2 hs⟩
  · cases h

theorem respond_of_none {ticket : Nat} (h : s.ticket? ticket = none)
    (outcome : Except Failure Json) : s.respond ticket outcome = (none, s) := by
  rw [respond, h]

/-- A ticket that has been used for an answer is spent. -/
theorem spent_of_respond {ticket : Nat} {outcome : Except Failure Json}
    (h : (s.respond ticket outcome).1 = some (.ok ())) :
    ∃ t, (s.respond ticket outcome).2.tickets[ticket]? = some t ∧ t.spent = true := by
  cases ht : s.ticket? ticket with
  | none =>
    rw [respond_of_none ht] at h
    cases h
  | some t =>
    have htickets : (s.respond ticket outcome).2.tickets = (s.spend ticket).tickets := by
      rw [respond, ht]
      dsimp only
      split_ifs <;> rfl
    rw [htickets, spend, Array.getElem?_modify, if_pos rfl, (ticket?_eq_some ht).1]
    exact ⟨_, rfl, rfl⟩

theorem spent_act {ticket : Nat} {t : Ticket} (ht : s.tickets[ticket]? = some t)
    (hs : t.spent = true) (a : Action) :
    ∃ t', (s.act a).tickets[ticket]? = some t' ∧ t'.spent = true := by
  have hlt := (Array.getElem?_eq_some_iff.1 ht).1
  rcases (desk_act s a).tickets with hkeep | ⟨_, _, _, _, -, -, -, -, hpush⟩
  · have ht' := Array.getElem?_eq_getElem (hkeep.size ▸ hlt)
    obtain ⟨t₀, ht₀, hk⟩ := hkeep.keeps ticket _ ht'
    obtain rfl := Option.some.inj (ht₀.symm.trans ht)
    exact ⟨_, ht', hk.spent hs⟩
  · have hpush : (s.act a).tickets = _ := hpush
    rw [hpush, Array.getElem?_push_lt hlt]
    exact ⟨_, rfl, (Option.some.inj ((Array.getElem?_eq_getElem hlt).symm.trans ht)) ▸ hs⟩

/-- A spent ticket stays spent. -/
theorem spent_run {ticket : Nat} {t : Ticket} (ht : s.tickets[ticket]? = some t)
    (hs : t.spent = true) (actions : List Action) :
    ∃ t', (s.run actions).tickets[ticket]? = some t' ∧ t'.spent = true := by
  induction actions generalizing s t with
  | nil => exact ⟨t, ht, hs⟩
  | cons a actions ih =>
    obtain ⟨t', ht', hs'⟩ := spent_act ht hs a
    exact ih ht' hs'

/-- Of two answers with one ticket the second is refused. -/
theorem respond_once {actions : List Action} {i j ticket : Nat}
    {outcome outcome' : Except Failure Json} (h : s.Responds actions i ticket outcome)
    (hij : i < j) : ¬s.Responds actions j ticket outcome' := by
  rintro ⟨-, hj⟩
  obtain ⟨t, ht, hs⟩ := spent_of_respond h.2
  have hafter : s.run (actions.take (i + 1)) =
      ((s.run (actions.take i)).respond ticket outcome).2 := run_take_succ h.1 s
  obtain ⟨t', ht', hs'⟩ := spent_run (hafter ▸ ht) hs ((actions.take j).drop (i + 1))
  rw [← run_take_of_le hij] at ht'
  have hnone : (s.run (actions.take j)).ticket? ticket = none := by
    rw [ticket?, ht']
    exact if_pos hs'
  rw [respond_of_none hnone] at hj
  cases hj

theorem Responds.unique {actions : List Action} {i j ticket : Nat}
    {outcome outcome' : Except Failure Json} (h : s.Responds actions i ticket outcome)
    (h' : s.Responds actions j ticket outcome') : outcome' = outcome := by
  rcases Nat.lt_trichotomy i j with hij | rfl | hij
  · exact absurd h' (respond_once h hij)
  · have := Option.some.inj (h'.1.symm.trans h.1)
    exact (Action.respond.inj this).2
  · exact absurd h (respond_once h' hij)

/-- A request has no more than one answer. -/
theorem Answers.unique {actions : List Action} {i : Nat} {id : Id} {method : String}
    {params : Option Json} {outcome outcome' : Except Failure Json}
    (h : s.Answers actions i id method params outcome)
    (h' : s.Answers actions i id method params outcome') : outcome' = outcome := by
  rcases h with ⟨f, hf, rfl⟩ | ⟨hf, -, j, -, hj⟩ <;>
    rcases h' with ⟨f', hf', rfl⟩ | ⟨hf', -, j', -, hj'⟩
  · rw [Option.some.inj (hf'.symm.trans hf)]
  · cases hf'.symm.trans hf
  · cases hf'.symm.trans hf
  · exact hj.unique hj'

/-! ## Where answers come from -/

variable {registry : Rpc.Registry R N} {config : Config} {actions : List Action}

/-- A ticket is that of a request which was handled earlier and delivered with it. -/
theorem tickets_run {ticket : Nat} {t : Ticket}
    (h : ((start registry config).run actions).tickets[ticket]? = some t) :
    ∃ i params, i < actions.length ∧
      (start registry config).Handles actions i (.request t.id t.method params) ∧
      ((start registry config).run (actions.take i)).refusal t.method params = none ∧
      ((start registry config).run (actions.take i)).tickets.size = ticket := by
  induction actions using List.reverseRecOn generalizing t with
  | nil => simp [start, log] at h
  | append_singleton actions a ih =>
    rw [run_concat] at h
    have hearlier : ∀ t₀, ((start registry config).run actions).tickets[ticket]? = some t₀ →
        ∃ i params, i < (actions ++ [a]).length ∧
          (start registry config).Handles (actions ++ [a]) i (.request t₀.id t₀.method params) ∧
          ((start registry config).run ((actions ++ [a]).take i)).refusal t₀.method params = none ∧
          ((start registry config).run ((actions ++ [a]).take i)).tickets.size = ticket := by
      intro t₀ ht₀
      obtain ⟨i, params, hi, ⟨ha, hh⟩, hf, hsize⟩ := ih ht₀
      have htake : (actions ++ [a]).take i = actions.take i :=
        List.take_append_of_le_length hi.le
      refine ⟨i, params, ?_, ⟨?_, ?_⟩, ?_, ?_⟩
      · rw [List.length_append]
        omega
      · rw [List.getElem?_append_left hi, ha]
      · rwa [htake]
      · rwa [htake]
      · rwa [htake]
    rcases (desk_act ((start registry config).run actions) a).tickets with
      hkeep | ⟨payload, id, method, params, rfl, hp, hm, hf, hpush⟩
    · obtain ⟨t₀, ht₀, hk⟩ := hkeep.keeps ticket t h
      rw [hk.id, hk.method]
      exact hearlier t₀ ht₀
    · have hpush : (((start registry config).run actions).act .receive).tickets = _ := hpush
      rw [hpush, Array.getElem?_push] at h
      split_ifs at h with hlast
      · obtain rfl := Option.some.inj h
        refine ⟨actions.length, params, by simp, ⟨by simp, ?_⟩, ?_, ?_⟩
        · rw [List.take_left]
          exact ⟨payload, hp, hm⟩
        · rwa [List.take_left]
        · rw [List.take_left, hlast]
      · exact hearlier t h

theorem act_of_handled {payload : List UInt8} (h : s.handled .receive = some payload) :
    s.isRunning = true ∧
      s.act .receive = ({ s with reader := s.reader.next.2 } : State R N).handlePayload payload := by
  unfold handled at h
  dsimp only at h
  split_ifs at h with hrun
  refine ⟨hrun, ?_⟩
  split at h
  · rename_i payload' reader hn
    obtain rfl := Option.some.inj h
    rw [act, if_pos hrun, receiveNext_of_payload hn, hn]
  · cases h

theorem act_of_handled_request {payload : List UInt8} {id : Id} {method : String}
    {params : Option Json} (h : s.handled .receive = some payload)
    (hm : Message.ofPayload payload = .ok (.request id method params)) :
    s.act .receive =
      ({ s with reader := s.reader.next.2 } : State R N).handleRequest id method params := by
  rw [(act_of_handled h).2, handlePayload, hm]
  rfl

/-- A response that is sent carries the answer to a request that was handled, as long as every
payload is a message. -/
theorem answers_of_origin {a : Action} {e : Envelope} {j : Nat} (hj : actions[j]? = some a)
    (ho : Origin ((start registry config).run (actions.take j)) a e) (he : e.method = none)
    (hwell : ∀ payload fault,
      ((start registry config).run (actions.take j)).handled .receive = some payload →
        a = .receive → Message.ofPayload payload ≠ .error fault) :
    ∃ i id method params outcome, e = .response id outcome ∧
      (start registry config).Handles actions i (.request id method params) ∧
      (start registry config).Answers actions i id method params outcome := by
  cases ho with
  | request | notify => cases he
  | refused payload id method params f hp hm hf =>
    exact ⟨j, id, method, params, .error f, rfl, ⟨hj, payload, hp, hm⟩, .inl ⟨f, hf, rfl⟩⟩
  | malformed payload id f fault hp hm => exact absurd hm (hwell payload fault hp rfl)
  | answer ticket t outcome ht hok =>
    obtain ⟨i, params, hi, ⟨ha, payload, hp, hm⟩, hf, hsize⟩ := tickets_run (ticket?_eq_some ht).1
    rw [List.length_take] at hi
    have hij : i < j := by omega
    rw [List.take_take, Nat.min_eq_left hij.le] at hp hf hsize
    rw [List.getElem?_take_of_lt hij] at ha
    refine ⟨i, t.id, t.method, params, outcome, rfl, ⟨ha, payload, hp, hm⟩, .inr ⟨hf, ?_, j, hij, ?_⟩⟩
    · rcases handleRequest_cases { (start registry config).run (actions.take i) with
          reader := ((start registry config).run (actions.take i)).reader.next.2 } t.id t.method
          params with ⟨f, hf', -⟩ | ⟨value, -, -, hevents⟩
      · cases hf.symm.trans hf'
      · exact ⟨value, by rw [act_of_handled_request hp hm, hevents]⟩
    · rw [hsize]
      exact ⟨hj, hok⟩

/-- A request of the peer makes no difference to the calls. -/
theorem calls_of_handles {i : Nat} {id : Id} {method : String} {params : Option Json}
    (h : s.Handles actions i (.request id method params)) :
    (s.run (actions.take (i + 1))).core = (s.run (actions.take i)).core := by
  obtain ⟨ha, payload, hp, hm⟩ := h
  rw [run_take_succ ha, act_of_handled_request hp hm]
  unfold handleRequest
  split
  · unfold deliverRequest
    split_ifs <;> rfl
  · rw [core_emit]
    rfl

end State

end PeerRpc.Session
