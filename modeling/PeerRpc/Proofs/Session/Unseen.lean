import PeerRpc.Proofs.Session.Conservation

/-!
# Requests that nobody sees

Once the consumer has dropped its events, the session itself answers every request that it could
deliver otherwise. A request whose event still waits when the events are dropped is not answered: the
ticket goes with the event, a record is written, and nothing can be sent for the request any more
(`unseen_requests`).
-/

namespace PeerRpc.Session

open Rpc (Envelope Failure Id Message Registry)

namespace State

variable {R N : Type} {registry : Registry R N} {config : Config} {s : State R N} {ts : List Turn}
  {ticket : Nat} {t : Ticket}

/-- The answer to a request that could be delivered if someone listened. -/
def unheard : Failure :=
  .internalError "No handler for requests"

/-! ## After the events have been dropped -/

theorem not_listening_turns (hdropped : .act .dropEvents ∈ ts) :
    (s.turns ts).listening = false := by
  induction ts using List.reverseRecOn with
  | nil => cases hdropped
  | append_singleton ts t ih =>
    rw [turns_concat]
    rcases List.mem_append.1 hdropped with hearlier | hnow
    · cases t with
      | next => exact (listening_nextEvent _).trans (ih hearlier)
      | act a => exact not_listening_act (ih hearlier) a
    · obtain rfl := List.mem_singleton.1 hnow
      exact congrArg Audience.listening (audience_dropEvents (s.turns ts))

/-- A request that nobody hears of is answered at once, and there is neither an event nor a
ticket. -/
theorem act_of_unheard {payload : List UInt8} {id : Id} {method : String} {params : Option Json}
    {value : R} (hp : s.handled .receive = some payload)
    (hm : Message.ofPayload payload = .ok (.request id method params))
    (hd : s.registry.decodeRequest method params = .ok value) (hl : s.listening = false) :
    s.act .receive = { s with
      reader := s.reader.next.2
      outbox := s.outbox.put (.failure id unheard) } := by
  have hdecode :
      ({ s with reader := s.reader.next.2 } : State R N).registry.decodeRequest method params =
        .ok value := hd
  rw [act_of_handled_request hp hm, handleRequest, hdecode]
  dsimp only [deliverRequest]
  rw [if_neg (by simp [hl])]
  rfl

/-- A request that someone may hear of waits with a new ticket, and nothing is sent. -/
theorem act_of_heard {payload : List UInt8} {id : Id} {method : String} {params : Option Json}
    {value : R} (hp : s.handled .receive = some payload)
    (hm : Message.ofPayload payload = .ok (.request id method params))
    (hd : s.registry.decodeRequest method params = .ok value) (hl : s.listening = true) :
    s.act .receive = { s with
      reader := s.reader.next.2
      tickets := s.tickets.push { id, method }
      events := s.events.push (.request id value s.tickets.size) } := by
  have hdecode :
      ({ s with reader := s.reader.next.2 } : State R N).registry.decodeRequest method params =
        .ok value := hd
  rw [act_of_handled_request hp hm, handleRequest, hdecode]
  dsimp only [deliverRequest]
  rw [if_pos hl]

/-! ## Tickets that are dropped with their events -/

/-- The record of a ticket that is thrown away. -/
def droppedRecord (id : Id) (method : String) : Log.Record :=
  ⟨.warn, Log.sessionTarget,
    "Request " ++ id.describe ++ " (" ++ method ++ ") dropped without a response"⟩

theorem ticket?_spend_of_ne {other : Nat} (hne : other ≠ ticket) :
    (s.spend other).ticket? ticket = s.ticket? ticket := by
  rw [ticket?, ticket?, spend, Array.getElem?_modify, if_neg hne]

theorem ticket?_spend (s : State R N) (ticket : Nat) : (s.spend ticket).ticket? ticket = none := by
  rw [ticket?, spend, Array.getElem?_modify, if_pos rfl]
  cases s.tickets[ticket]? <;> rfl

theorem ticket?_dropTicket (s : State R N) (ticket : Nat) :
    (s.dropTicket ticket).ticket? ticket = none := by
  cases ht : s.ticket? ticket with
  | none => rw [dropTicket, ht, ht]
  | some t =>
    rw [dropTicket_of_ticket ht]
    exact ticket?_spend s ticket

theorem ticket?_dropTicket_of_ne {other : Nat} (hne : other ≠ ticket) :
    (s.dropTicket other).ticket? ticket = s.ticket? ticket := by
  cases ht : s.ticket? other with
  | none => rw [dropTicket, ht]
  | some t =>
    rw [dropTicket_of_ticket ht]
    exact ticket?_spend_of_ne hne

theorem mem_records_dropTicket {record : Log.Record} (h : record ∈ s.records) (ticket : Nat) :
    record ∈ (s.dropTicket ticket).records := by
  cases ht : s.ticket? ticket with
  | none => rwa [dropTicket, ht]
  | some t =>
    rw [dropTicket_of_ticket ht]
    exact Array.mem_push_of_mem _ h

theorem mem_records_discard {record : Log.Record} (events : List (Event R N))
    (h : record ∈ s.records) : record ∈ (events.foldl discard s).records := by
  induction events generalizing s with
  | nil => exact h
  | cons e events ih =>
    cases e with
    | request id value ticket => exact ih (mem_records_dropTicket h ticket)
    | _ => exact ih h

theorem ticket?_discard_of_none (events : List (Event R N)) (h : s.ticket? ticket = none) :
    (events.foldl discard s).ticket? ticket = none := by
  induction events generalizing s with
  | nil => exact h
  | cons e events ih =>
    cases e with
    | request id value other =>
      refine ih ?_
      by_cases hne : other = ticket
      · exact hne ▸ ticket?_dropTicket s other
      · exact (ticket?_dropTicket_of_ne hne).trans h
    | _ => exact ih h

/-- Of the events that are thrown away, the first with a ticket takes the ticket with it. -/
theorem discard_of_mem {events : List (Event R N)} {id : Id} {value : R}
    (hmem : .request id value ticket ∈ events) (ht : s.ticket? ticket = some t) :
    droppedRecord t.id t.method ∈ (events.foldl discard s).records ∧
      (events.foldl discard s).ticket? ticket = none := by
  induction events generalizing s with
  | nil => cases hmem
  | cons e events ih =>
    rw [List.foldl_cons]
    by_cases hsame : ∃ id value, e = .request id value ticket
    · obtain ⟨id, value, rfl⟩ := hsame
      have hrecord : droppedRecord t.id t.method ∈ (s.dropTicket ticket).records := by
        rw [dropTicket_of_ticket ht]
        exact Array.mem_push_self
      exact ⟨mem_records_discard events hrecord,
        ticket?_discard_of_none events (ticket?_dropTicket s ticket)⟩
    · have hrest : .request id value ticket ∈ events :=
        (List.mem_cons.1 hmem).resolve_left fun h => hsame ⟨id, value, h.symm⟩
      refine ih hrest ?_
      cases e with
      | request id value other =>
        have hne : other ≠ ticket := by
          rintro rfl
          exact hsame ⟨id, value, rfl⟩
        exact (ticket?_dropTicket_of_ne hne).trans ht
      | _ => exact ht

theorem mem_records_dropEvents {id : Id} {value : R}
    (hmem : .request id value ticket ∈ s.events.toList) (ht : s.ticket? ticket = some t) :
    droppedRecord t.id t.method ∈ s.dropEvents.records ∧ s.dropEvents.ticket? ticket = none := by
  rw [dropEvents_eq]
  exact discard_of_mem hmem ht

/-! ## Tickets in turns -/

theorem tickets_nextEvent (s : State R N) : s.nextEvent.2.tickets = s.tickets := by
  unfold nextEvent
  split <;> rfl

/-- A ticket that is spent stays spent. -/
theorem spent_turns (ht : s.tickets[ticket]? = some t) (hs : t.spent = true) (ts : List Turn) :
    ∃ t', (s.turns ts).tickets[ticket]? = some t' ∧ t'.spent = true := by
  induction ts generalizing s t with
  | nil => exact ⟨t, ht, hs⟩
  | cons turn ts ih =>
    cases turn with
    | next => exact ih (s := s.nextEvent.2) (by rwa [tickets_nextEvent]) hs
    | act a =>
      obtain ⟨t', ht', hs'⟩ := spent_act ht hs a
      exact ih (s := s.act a) ht' hs'

/-- A ticket that is there and cannot be used is of no use later either. -/
theorem respond_turns_of_none (hlt : ticket < s.tickets.size) (h : s.ticket? ticket = none)
    (ts : List Turn) (outcome : Except Failure Json) :
    ((s.turns ts).respond ticket outcome).1 = none := by
  have ht := Array.getElem?_eq_getElem hlt
  have hs : s.tickets[ticket].spent = true := by
    rw [ticket?, ht] at h
    by_contra hne
    exact absurd h (by simp [hne])
  obtain ⟨t', ht', hs'⟩ := spent_turns ht hs ts
  have hnone : (s.turns ts).ticket? ticket = none := by
    rw [ticket?, ht']
    exact if_pos hs'
  rw [respond_of_none hnone]

theorem size_tickets_dropEvents (s : State R N) : s.dropEvents.tickets.size = s.tickets.size := by
  obtain ⟨tickets, htickets, hdesk⟩ := dropEvents_cases s
  have hsame : s.dropEvents.tickets = tickets := congrArg Desk.tickets hdesk
  rw [hsame, htickets.size]

end State

open State in
/-- A request whose parameters can be read comes to a session. If the events have been dropped
before, a session that is still writing queues one answer, an internal error with the identifier of
the request, and makes neither an event nor a ticket. If the events are dropped later, while the
request's event waits and its ticket is good, the session sends nothing, neither for the request nor
for the drop; the drop is recorded, and the ticket can never be used again. -/
theorem unseen_requests {R N : Type} (registry : Registry R N) (config : Config)
    (before : List Turn) (payload : List UInt8) (id : Id) (method : String) (params : Option Json)
    (value : R)
    (hp : ((start registry config).turns before).handled .receive = some payload)
    (hm : Message.ofPayload payload = .ok (.request id method params))
    (hd : registry.decodeRequest method params = .ok value) :
    let s := (start registry config).turns before
    (.act .dropEvents ∈ before → s.outbox.isActive = true →
      s.sentBy .receive = [.failure id (.internalError "No handler for requests")] ∧
      (s.act .receive).events = s.events ∧ (s.act .receive).tickets = s.tickets) ∧
    (.act .dropEvents ∉ before →
      s.sentBy .receive = [] ∧
      (s.act .receive).events = s.events.push (.request id value s.tickets.size) ∧
      (s.act .receive).tickets = s.tickets.push { id, method } ∧
      ∀ between, let s' := (s.act .receive).turns between
        .request id value s.tickets.size ∈ s'.events.toList →
        s'.ticket? s.tickets.size = some { id, method } →
          s'.sentBy .dropEvents = [] ∧ droppedRecord id method ∈ s'.dropEvents.records ∧
          ∀ after outcome, ((s'.dropEvents.turns after).respond s.tickets.size outcome).1 = none) := by
  intro s
  have hd' : s.registry.decodeRequest method params = .ok value := by rwa [registry_turns]
  refine ⟨fun hdropped hactive => ?_, fun hlive => ?_⟩
  · have hact := act_of_unheard hp hm hd' (not_listening_turns hdropped)
    exact ⟨sentBy_of_put hactive (by rw [hact]; rfl), by rw [hact], by rw [hact]⟩
  · have hl : s.listening = true := listening_turns (s := start registry config) hlive
    have hact := act_of_heard hp hm hd' hl
    refine ⟨sentBy_of_outbox (by rw [hact]), by rw [hact], by rw [hact], ?_⟩
    intro between s' hmem ht
    obtain ⟨hrecord, hnone⟩ := mem_records_dropEvents hmem ht
    have hlt : s.tickets.size < s'.dropEvents.tickets.size := by
      rw [size_tickets_dropEvents]
      exact (Array.getElem?_eq_some_iff.1 (ticket?_eq_some ht).1).1
    exact ⟨sentBy_of_outbox (outbox_dropEvents s'), hrecord, respond_turns_of_none hlt hnone⟩

/-- The registry of a session that knows how to shut down. -/
def shutdownRegistry : Registry Unit Unit :=
  Registry.empty.registerRequest Rpc.Catalog.shutdown id

/-- A peer that asks a session to shut down. -/
def shutdownRequest : Envelope :=
  .request (.number 9) Rpc.Catalog.shutdown.name none

theorem ofPayload_shutdownRequest : Message.ofPayload shutdownRequest.bytes =
    .ok (.request (.number 9) Rpc.Catalog.shutdown.name none) :=
  Message.ofPayload_bytes (by decide)

open State in
/-- The two orders of the request and the drop. -/
theorem shutdown_unseen :
    let s := start shutdownRegistry {}
    let arrival : Turn := .act (.arrive (Frame.encode shutdownRequest.bytes))
    let early := s.turns [.act .dropEvents, arrival]
    let late := s.turns [arrival]
    (early.handled .receive = some shutdownRequest.bytes ∧ early.outbox.isActive = true ∧
      early.sentBy .receive =
        [.failure (.number 9) (.internalError "No handler for requests")]) ∧
    late.handled .receive = some shutdownRequest.bytes ∧ late.sentBy .receive = [] ∧
      (late.act .receive).sentBy .dropEvents = [] := by
  intro s arrival early late
  obtain ⟨hearly, hactive, hlate⟩ : early.handled .receive = some shutdownRequest.bytes ∧
      early.outbox.isActive = true ∧ late.handled .receive = some shutdownRequest.bytes := by
    decide +kernel
  have hdropped := (unseen_requests shutdownRegistry {} [.act .dropEvents, arrival] _ _ _ _ ()
    hearly ofPayload_shutdownRequest rfl).1 List.mem_cons_self hactive
  obtain ⟨hsent, hevents, htickets, hdrop⟩ := (unseen_requests shutdownRegistry {} [arrival] _ _ _ _ ()
    hlate ofPayload_shutdownRequest rfl).2 (by simp [arrival])
  have hmem : .request (.number 9) () late.tickets.size ∈ (late.act .receive).events.toList := by
    rw [hevents]
    exact Array.mem_toList_iff.2 Array.mem_push_self
  have hticket : (late.act .receive).ticket? late.tickets.size =
      some { id := .number 9, method := Rpc.Catalog.shutdown.name } := by
    rw [ticket?, htickets, Array.getElem?_push_size]
    rfl
  exact ⟨⟨hearly, hactive, hdropped.1⟩, hlate, hsent, (hdrop [] hmem hticket).1⟩

open State in
/-- The event of a request that could be read waits when the events are dropped. The session is
running and its outbox takes envelopes, but none is put into it, nothing is written when everything
has happened that can happen, and the ticket of the request is of no use any more: the request is
never answered. -/
theorem waiting_request_unanswered :
    let s := start shutdownRegistry {}
    let actions : List Action := [.arrive (Frame.encode shutdownRequest.bytes), .receive, .dropEvents]
    let last := s.run actions
    (s.run (actions.take 1)).handled .receive = some shutdownRequest.bytes ∧
    Message.ofPayload shutdownRequest.bytes =
      .ok (.request (.number 9) Rpc.Catalog.shutdown.name none) ∧
    shutdownRegistry.decodeRequest Rpc.Catalog.shutdown.name none = .ok () ∧
    (s.run (actions.take 2)).events.size = 1 ∧
    last.isRunning = true ∧ last.outbox.isActive = true ∧
    (s.sent actions).length = 0 ∧
    last.settle.isRunning = true ∧ last.settle.outbox.sink.bytes = [] ∧
    ∀ ts outcome, ((last.turns ts).respond 0 outcome).1 = none := by
  intro s actions last
  obtain ⟨hhandled, hevents, hrun, hactive, hsent, hstill, hbytes, hsize, hnone⟩ :
      (s.run (actions.take 1)).handled .receive = some shutdownRequest.bytes ∧
      (s.run (actions.take 2)).events.size = 1 ∧ last.isRunning = true ∧
      last.outbox.isActive = true ∧ (s.sent actions).length = 0 ∧ last.settle.isRunning = true ∧
      last.settle.outbox.sink.bytes = [] ∧ 0 < last.tickets.size ∧
      (last.ticket? 0).isNone = true := by
    decide +kernel
  exact ⟨hhandled, ofPayload_shutdownRequest, rfl, hevents, hrun, hactive, hsent, hstill, hbytes,
    respond_turns_of_none hsize (Option.isNone_iff_eq_none.1 hnone)⟩

end PeerRpc.Session
