import PeerRpc.Proofs.Session.Consumer

/-!
# No message is lost on the way to the consumer

Every payload that a session handles leads to exactly one event, or it is a response that can be
used and settles exactly one call; nothing else leads to events as long as no more than 2^64
requests are sent. The consumer receives the events in the order of the payloads, those that wait
when the session stops included, before it learns that there are no more (`events_conserved`).
-/

namespace PeerRpc.Session

open Rpc (Registry)
open PeerRpc.Frame (stream)

/-- The action of a turn. -/
def Turn.action? : Turn → Option Action
  | .next => none
  | .act a => some a

/-- The actions of some turns. -/
def actionsOf (ts : List Turn) : List Action :=
  ts.filterMap Turn.action?

theorem actionsOf_concat (ts : List Turn) (t : Turn) :
    actionsOf (ts ++ [t]) = actionsOf ts ++ t.action?.toList := by
  rw [actionsOf, List.filterMap_append]
  cases t <;> rfl

/-- A payload and the session that comes to handle it. -/
structure Receipt (R N : Type) where
  state : State R N
  payload : List UInt8

namespace State

variable {R N : Type}

/-- The payload that is handled in a turn. -/
def receiptsBy (s : State R N) : Turn → List (Receipt R N)
  | .next => []
  | .act a => (s.handled a).toList.map fun payload => ⟨s, payload⟩

/-- The payloads that are handled in some turns. -/
def receipts (s : State R N) (ts : List Turn) : List (Receipt R N) :=
  s.inTurns receiptsBy ts

/-! ## What holds after every turn -/

theorem core_turn (s : State R N) (t : Turn) :
    ∃ label, Core.Step label s.core (s.turn t).core := by
  cases t with
  | next =>
    rw [turn, core_nextEvent]
    exact ⟨none, .same s.core⟩
  | act a => exact ⟨_, core_act s a⟩

variable {registry : Registry R N} {config : Config} {ts : List Turn} {s : State R N}

theorem settling_turns (h : ((start registry config).turns ts).calls.size < 2 ^ 64) :
    ((start registry config).turns ts).core.Settling := by
  induction ts using List.reverseRecOn with
  | nil => exact Core.Settling.start registry config
  | append_singleton ts t ih =>
    rw [turns_concat] at h ⊢
    obtain ⟨label, hstep⟩ := core_turn ((start registry config).turns ts) t
    have hsize := hstep.size_le.trans_lt h
    exact Core.Settling.step hstep (ih hsize) hsize

theorem registry_turns (s : State R N) (ts : List Turn) : (s.turns ts).registry = s.registry := by
  induction ts using List.reverseRecOn with
  | nil => rfl
  | append_singleton ts t ih =>
    rw [turns_concat, ← ih]
    cases t with
    | next => exact registry_nextEvent _
    | act a => exact registry_act _ a

theorem listening_turns (hlive : .act .dropEvents ∉ ts) :
    (s.turns ts).listening = s.listening := by
  induction ts using List.reverseRecOn with
  | nil => rfl
  | append_singleton ts t ih =>
    have hkeep := ih fun h => hlive (List.mem_append_left _ h)
    have ht : t ≠ .act .dropEvents :=
      fun h => hlive (List.mem_append_right _ (h ▸ List.mem_singleton_self _))
    rw [turns_concat, ← hkeep]
    cases t with
    | next => exact listening_nextEvent _
    | act a =>
      by_cases ha : a.takesEvents = true
      · cases a with
        | takeEvents => rfl
        | dropEvents => exact absurd rfl ht
        | _ => cases ha
      · exact (audience_act _ (Bool.eq_false_iff.2 ha)).listening

/-! ## Nothing else is delivered -/

/-- An action that handles no payload delivers nothing. -/
theorem deliveredBy_of_not_handled {a : Action} (hp : s.handled a = none) (hc : s.core.Settling)
    (hsize : s.calls.size < 2 ^ 64) : s.deliveredBy a = [] := by
  by_cases ha : a.takesEvents = true
  · cases a with
    | takeEvents => exact List.drop_nil
    | dropEvents =>
      have hevents : (s.act .dropEvents).events = #[] :=
        congrArg Audience.events (audience_dropEvents s)
      rw [deliveredBy, hevents]
      exact List.drop_nil
    | _ => cases ha
  · have ha := Bool.eq_false_iff.2 ha
    refine deliveredBy_of_audience ?_
    by_cases hs : a.speaks = true
    · cases a with
      | handle =>
        rw [act]
        split_ifs
        · unfold handleNext
          rcases hcommands : s.commands with _ | ⟨c, rest⟩
          · rfl
          · refine audience_handleCommand fun id method params call hrequest => ?_
            exact hc.not_reject hsize (hcommands.trans (by rw [hrequest]))
        · rfl
      | receive =>
        rw [act]
        split_ifs with hrun
        · refine audience_receiveNext fun payload hpayload => ?_
          rw [handled_of_payload hrun (Prod.ext hpayload rfl)] at hp
          cases hp
        · rfl
      | _ => cases hs
    · exact audience_act_of_quiet s ha (Bool.eq_false_iff.2 hs)

/-- What is delivered in some turns is what the payloads tell that are handled in them. -/
theorem tidings_eq_flatten (registry : Registry R N) (config : Config)
    (hlive : .act .dropEvents ∉ ts)
    (hfew : ((start registry config).turns ts).calls.size < 2 ^ 64) :
    ∃ told, List.Forall₂ (fun r es => Tells registry r.state r.payload es)
        ((start registry config).receipts ts) told ∧
      (start registry config).tidings ts = told.flatten := by
  induction ts using List.reverseRecOn with
  | nil => exact ⟨[], .nil, rfl⟩
  | append_singleton ts t ih =>
    have hlive' : .act .dropEvents ∉ ts := fun h => hlive (List.mem_append_left _ h)
    rw [turns_concat] at hfew
    obtain ⟨label, hstep⟩ := core_turn ((start registry config).turns ts) t
    have hsize := hstep.size_le.trans_lt hfew
    have hsettling := settling_turns hsize
    obtain ⟨told, htold, hflatten⟩ := ih hlive' hsize
    rw [receipts, tidings, inTurns_concat, inTurns_concat, ← receipts, ← tidings, hflatten]
    cases t with
    | next => exact ⟨told, by rwa [receiptsBy, List.append_nil], List.append_nil _⟩
    | act a =>
      rw [receiptsBy, tidingsBy]
      cases hp : ((start registry config).turns ts).handled a with
      | none =>
        rw [deliveredBy_of_not_handled hp hsettling hsize]
        exact ⟨told, by rwa [Option.toList_none, List.map_nil, List.append_nil], List.append_nil _⟩
      | some payload =>
        obtain rfl : a = .receive := by
          by_contra hne
          rw [handled_of_ne hne] at hp
          cases hp
        have hlistening := listening_turns (s := start registry config) hlive'
        have htells := tells_of_handled hp hlistening hsettling
        rw [registry_turns] at htells
        refine ⟨told ++ [((start registry config).turns ts).deliveredBy .receive],
          List.rel_append htold (.cons htells .nil), ?_⟩
        rw [List.flatten_append, List.flatten_singleton]

/-! ## The end of the events -/

theorem isRunning_nextEvent (s : State R N) : s.nextEvent.2.isRunning = s.isRunning :=
  congrArg Core.running (core_nextEvent s)

/-- A consumer that asks often enough receives all events that wait, and nothing else happens. -/
theorem receive_waiting (s : State R N) :
    ∃ n, s.received (List.replicate n .next) = s.events.toList ∧
      (s.turns (List.replicate n .next)).events.toList = [] ∧
      (s.turns (List.replicate n .next)).isRunning = s.isRunning := by
  induction hevents : s.events.toList generalizing s with
  | nil => exact ⟨0, rfl, hevents, rfl⟩
  | cons e rest ih =>
    have hnext := nextEvent_of_cons hevents
    obtain ⟨n, hreceived, hnone, hrun⟩ := ih s.nextEvent.2 (by rw [hnext])
    refine ⟨n + 1, ?_, hnone, hrun.trans (isRunning_nextEvent s)⟩
    have hfirst : s.receivedBy .next = [e] := by
      rw [receivedBy, hnext]
      rfl
    have hall : s.received (List.replicate (n + 1) .next) =
        s.receivedBy .next ++ s.nextEvent.2.received (List.replicate n .next) := rfl
    rw [hall, hfirst, hreceived]
    rfl

theorem waiting_of_ended (h : s.nextEvent.1 = .ended) : s.events.toList = [] := by
  cases hevents : s.events.toList with
  | nil => rfl
  | cons e rest =>
    rw [nextEvent_of_cons hevents] at h
    cases h

theorem ended_of_stopped (hrun : s.isRunning = false) (h : s.events.toList = []) :
    s.nextEvent.1 = .ended := by
  rw [nextEvent_of_nil h, hrun]
  rfl

/-! ## The order on the wire -/

theorem reads_turns {payloads : List (List UInt8)} (hl : config.maxMessageSize < UInt64.size)
    (hb : arrived (actionsOf ts) <+: stream payloads) :
    ((start registry config).turns ts).Reads config.maxMessageSize payloads
      (arrived (actionsOf ts)) (((start registry config).receipts ts).map Receipt.payload) := by
  induction ts using List.reverseRecOn with
  | nil => exact ⟨List.nil_prefix, fun _ => Frame.Reader.ready_start _ _, fun _ => rfl⟩
  | append_singleton ts t ih =>
    rw [actionsOf_concat] at hb ⊢
    have hb' : arrived (actionsOf ts) <+: stream payloads := by
      rw [arrived_append] at hb
      exact (List.prefix_append _ _).trans hb
    rw [turns_concat, receipts, inTurns_concat, List.map_append]
    cases t with
    | next =>
      have hreader : ∀ s : State R N, s.nextEvent.2.reader = s.reader := by
        intro s
        unfold nextEvent
        split <;> rfl
      rw [Turn.action?, Option.toList_none, List.append_nil, receiptsBy, List.map_nil,
        List.append_nil]
      exact (ih hb').of_reader (fun h => (isRunning_nextEvent _).symm.trans h) (hreader _)
    | act a =>
      have hpayloads : (((start registry config).turns ts).receiptsBy (.act a)).map
          Receipt.payload = (((start registry config).turns ts).handled a).toList := by
        rw [receiptsBy, List.map_map]
        exact List.map_id _
      rw [hpayloads]
      exact (ih hb').act hl hb

end State

open State in
/-- Of a session whose owner keeps listening and sends fewer than 2^64 requests, the consumer
receives what the handled payloads tell, in their order, and what it has not received yet waits.
Each payload tells one event, or it is a response that can be used and settles one call. Once the
consumer learns that there are no more events it has received all of them, and after the session has
stopped it learns so as soon as it has taken those that wait. If the bytes that arrive are the
beginning of a stream of frames, the payloads are handled in their order in the stream. -/
theorem events_conserved {R N : Type} (registry : Registry R N) (config : Config) (ts : List Turn)
    (hlive : .act .dropEvents ∉ ts)
    (hfew : ((start registry config).turns ts).calls.size < 2 ^ 64) :
    let s := start registry config
    ∃ told, List.Forall₂ (fun r es => Tells registry r.state r.payload es) (s.receipts ts) told ∧
      s.received ts ++ (s.turns ts).events.toList = told.flatten ∧
      ((s.turns ts).nextEvent.1 = .ended → s.received ts = told.flatten) ∧
      ((s.turns ts).isRunning = false → ∃ n,
        s.received (ts ++ List.replicate n .next) = told.flatten ∧
        (s.turns (ts ++ List.replicate n .next)).nextEvent.1 = .ended) ∧
      ∀ payloads, config.maxMessageSize < UInt64.size →
        arrived (actionsOf ts) <+: stream payloads →
        (s.receipts ts).map Receipt.payload <+: payloads := by
  intro s
  obtain ⟨told, htold, hflatten⟩ := tidings_eq_flatten registry config hlive hfew
  have hall : s.received ts ++ (s.turns ts).events.toList = told.flatten :=
    (received_append_events hlive).trans hflatten
  refine ⟨told, htold, hall, fun hended => ?_, fun hrun => ?_, fun payloads hl hb =>
    (reads_turns hl hb).done⟩
  · rw [← hall, waiting_of_ended hended, List.append_nil]
  · obtain ⟨n, hreceived, hnone, hstill⟩ := receive_waiting (s.turns ts)
    refine ⟨n, ?_, ?_⟩
    · rw [received, inTurns_append, ← received, ← received, hreceived, hall]
    · rw [turns_append]
      exact ended_of_stopped (hstill.trans hrun) hnone

open State in
/-- A response, a request and a payload that is no message are handled, and the peer leaves before
the consumer has asked twice: it receives two events and learns that there are no more. -/
theorem two_events_of_three_payloads :
    let registry : Registry Unit Unit := Registry.empty.registerRequest Rpc.Catalog.shutdown id
    let s := start registry {}
    let frames := [Rpc.Envelope.success (.number 1) .null,
      .request (.text "7") Rpc.Catalog.shutdown.name none].flatMap fun e => Frame.encode e.bytes
    let ts : List Turn := [.act (.send Rpc.Catalog.shutdown () false), .act .handle,
      .act (.arrive (frames ++ Frame.encode [0x7b])), .act .receive, .act .receive, .next,
      .act .receive, .act (.closeSource .ended), .act .receive, .next]
    .act .dropEvents ∉ ts ∧ (s.turns ts).calls.size = 1 ∧ (s.receipts ts).length = 3 ∧
      (s.received ts).length = 2 ∧
      ∃ told, List.Forall₂ (fun r es => Tells registry r.state r.payload es) (s.receipts ts) told ∧
        s.received ts = told.flatten := by
  intro registry s frames ts
  have hlive : .act .dropEvents ∉ ts := by simp [ts]
  obtain ⟨hcalls, hended, hreceipts, hreceived⟩ : (s.turns ts).calls.size = 1 ∧
      ((s.turns ts).nextEvent.1 matches .ended) = true ∧ (s.receipts ts).length = 3 ∧
      (s.received ts).length = 2 := by decide +kernel
  obtain ⟨told, htold, -, hall, -⟩ := events_conserved registry {} ts hlive (by rw [hcalls]; decide)
  refine ⟨hlive, hcalls, hreceipts, hreceived, told, htold, hall ?_⟩
  cases hnext : (s.turns ts).nextEvent.1 with
  | ended => rfl
  | event | waiting =>
    rw [hnext] at hended
    cases hended

end PeerRpc.Session
