import PeerRpc.Proofs.Session.Stage
import PeerRpc.Proofs.Session.Surroundings

/-!
# When the peer is told that a call is given up

A caller leaves a call when it cancels it or lets go of it while it waits for it, and the task is
told. The session tells the peer exactly if it is configured to do so and the call is still open
when the task handles this command; a response that has been handled before makes it keep quiet, and
a response that comes later is reported as one that answers nothing (`peer_told_of_leaving`).

What the session tells the peer is put into its outbox. An outbox whose sink has failed takes nothing
any more, so what the session has to say is looked at before that, as what it offers to the outbox
(`offered`).
-/

namespace PeerRpc.Session

open Rpc (Envelope Id Message Response)

namespace State

variable {R N : Type} {s s₀ : State R N} {a : Action} {id : Id}

/-! ## What is offered to the outbox -/

/-- The envelopes that an action offers to the outbox, whether it still takes them or not. -/
def offered (s : State R N) (a : Action) : List Envelope :=
  ({ s with outbox := {} } : State R N).sentBy a

theorem cancelNotice_inj {id id' : Id} (h : cancelNotice id = cancelNotice id') : id = id' := by
  have hparams := congrArg Envelope.params h
  simp only [cancelNotice, Envelope.notification, Option.some.injEq, Json.object.injEq,
    List.cons.injEq, Prod.mk.injEq, true_and, and_true] at hparams
  have hid := congrArg Id.ofJson? hparams
  rw [id.ofJson?_toJson, id'.ofJson?_toJson] at hid
  exact Option.some.inj hid

/-- A request that is sent is one that the task is asked to send. -/
theorem obeyed_of_request {method : String} {params : Option Json}
    (h : .request id method params ∈ s.sentBy a) :
    ∃ call, s.obeyed a = some (.request id method params call) := by
  generalize he : Envelope.request id method params = e at h
  cases origin_of_mem_sentBy h with
  | request id' method' params' call rest hrun hc =>
    cases he
    exact ⟨call, obeyed_handle hrun hc⟩
  | notify | refused | malformed => cases he
  | answer ticket t outcome => cases outcome <;> cases he

theorem handle_of_notification {method : String} {params : Option Json}
    (h : .notification method params ∈ s.sentBy a) : a = .handle := by
  generalize he : Envelope.notification method params = e at h
  cases origin_of_mem_sentBy h with
  | notify => rfl
  | request | refused | malformed => cases he
  | answer ticket t outcome => cases outcome <;> cases he

theorem due_of_mem_sentBy {e : Envelope} (h : e ∈ s.sentBy a) : s.due a = some e := by
  rw [sentBy_eq_due] at h
  split_ifs at h
  · exact Option.mem_toList.1 h
  · cases h

/-- A notification is sent because the owner has asked for it, or because an open call is given
up. -/
theorem obeyed_of_notification {method : String} {params : Option Json}
    (h : .notification method params ∈ s.sentBy a) :
    s.obeyed a = some (.notify method params) ∨
      ∃ id, s.obeyed a = some (.abandon id true) ∧ id ∈ s.core.keys ∧
        Envelope.notification method params = cancelNotice id := by
  obtain rfl := handle_of_notification h
  obtain ⟨c, ho, hc⟩ := Option.bind_eq_some_iff.1 (due_of_mem_sentBy h)
  cases c with
  | request id method' params' call =>
    rw [envelopeOf] at hc
    split_ifs at hc
    cases hc
  | notify method' params' =>
    cases hc
    exact .inl ho
  | abandon id tell =>
    rw [envelopeOf] at hc
    split_ifs at hc with hopen
    rw [Bool.and_eq_true] at hopen
    obtain ⟨rfl, hopen⟩ := hopen
    exact .inr ⟨id, ho, Core.mem_keys_iff.2 (Option.isSome_iff_exists.1 hopen),
      (Option.some.inj hc).symm⟩
  | count | close => cases hc

/-! ## Requests that are sent once -/

variable {registry : Rpc.Registry R N} {config : Config} {actions : List Action} {i j : Nat}

theorem mem_requests_act (h : s.core.Settling)
    (hid : id ∈ (s.act a).core.requests.map (·.1)) :
    id ∈ s.core.requests.map (·.1) ∨ id = idAt s.calls.size := by
  rcases madeBy_cases s a with ⟨-, hsub, -⟩ | ⟨method, params, hmade, he, -, hrun⟩
  · exact .inl ((hsub.map _).subset hid)
  · rw [he, hmade, List.map_append, List.mem_append] at hid
    refine hid.imp_right fun hlast => (List.mem_singleton.1 hlast).trans ?_
    exact congrArg Id.number (h.nextId hrun)

/-- A call whose request has left the queue is never queued again. -/
theorem notMem_requests_run {before : List Action} (more : List Action)
    (h : ((start registry config).run (before ++ more)).calls.size < 2 ^ 64)
    (hi : i < ((start registry config).run before).calls.size)
    (hnot : idAt i ∉ ((start registry config).run before).core.requests.map (·.1)) :
    idAt i ∉ ((start registry config).run (before ++ more)).core.requests.map (·.1) := by
  induction more using List.reverseRecOn with
  | nil => rwa [List.append_nil]
  | append_singleton more a ih =>
    rw [← List.append_assoc, run_concat] at h ⊢
    have hsize := (size_calls_act _ a).trans_lt h
    intro hmem
    rcases mem_requests_act (settling_run hsize) hmem with hold | hnew
    · exact ih hsize hold
    · have hle : i < ((start registry config).run (before ++ more)).calls.size := by
        rw [run_append]
        exact hi.trans_le (size_calls_run _ _)
      exact hle.ne (idAt_inj (hle.trans hsize) hsize hnew)

theorem nodup_requests (h : ((start registry config).run actions).calls.size < 2 ^ 64) :
    (((start registry config).run actions).core.requests.map (·.1)).Nodup := by
  have hsub := (List.sublist_append_right _ _).trans (requests_run (start registry config) actions)
  exact (nodup_made h).sublist (hsub.map _)

/-- A request that is taken from the queue is not there any more. -/
theorem notMem_requests_of_registers
    (h : ((start registry config).run actions).calls.size < 2 ^ 64)
    (hin : ((start registry config).run actions).Registers a id) :
    id ∉ (((start registry config).run actions).act a).core.requests.map (·.1) := by
  obtain ⟨method, params, call, ho⟩ := hin
  obtain ⟨rest, hc, hact⟩ := act_of_obeyed ho
  have hnodup := nodup_requests h
  have hqueued : ((start registry config).run actions).core.requests =
      (id, method, params) :: (((start registry config).run actions).act a).core.requests := by
    have hcommands : (((start registry config).run actions).act a).commands = rest := by
      rw [hact]
      exact commands_request _
    change ((start registry config).run actions).commands.filterMap _ =
      _ :: (((start registry config).run actions).act a).commands.filterMap _
    rw [hc, hcommands]
    rfl
  rw [hqueued, List.map_cons, List.nodup_cons] at hnodup
  exact hnodup.1

theorem Registers.not_before {j' : Nat} {s' : State R N} {a' : Action}
    (h : ((start registry config).run actions).calls.size < 2 ^ 64)
    (hj : (start registry config).Does actions j s a) (hin : s.Registers a id)
    (hj' : (start registry config).Does actions j' s' a') (hin' : s'.Registers a' id) :
    ¬j < j' := by
  intro hlt
  obtain ⟨ha, rfl⟩ := hj
  obtain ⟨-, rfl⟩ := hj'
  have hsize := size_calls_take_lt h j
  have hafter := notMem_requests_of_registers hsize hin
  obtain ⟨method, params, call, ho⟩ := hin
  obtain ⟨-, rest, hc⟩ := commands_of_obeyed ho
  have hslot : (id, call) ∈ ((start registry config).run (actions.take j)).core.slots :=
    Core.mem_slots_of_request (hc ▸ List.mem_cons_self)
  obtain ⟨hid, hcall⟩ := (settling_run hsize).slots hslot
  have hid : id = idAt call := hid
  subst hid
  rw [← run_take_succ ha] at hafter
  have hcall' : call < ((start registry config).run (actions.take (j + 1))).calls.size := by
    rw [run_take_succ ha]
    exact hcall.trans_le (size_calls_act _ a)
  have hsplit := take_eq_append actions hlt
  have hlater := notMem_requests_run ((actions.take j').drop (j + 1))
    (hsplit ▸ size_calls_take_lt h j') hcall' hafter
  rw [← hsplit] at hlater
  obtain ⟨method', params', call', ho'⟩ := hin'
  obtain ⟨-, rest', hc'⟩ := commands_of_obeyed ho'
  refine hlater (List.mem_map.2 ⟨(idAt call, method', params'), ?_, rfl⟩)
  exact List.mem_filterMap.2 ⟨_, hc' ▸ List.mem_cons_self, rfl⟩

/-! ## Leaving a call -/

/-- At a position of a run a caller leaves a call for which it waits. -/
def Left (s₀ : State R N) (actions : List Action) (j i : Nat) : Prop :=
  ∃ s a k, s₀.Does actions j s a ∧ s.Leaves a i k

/-- The task is told to give up only calls that their callers have left. -/
theorem left_run {tell : Bool} (h : ((start registry config).run actions).calls.size < 2 ^ 64)
    (hrun : ((start registry config).run actions).isRunning = true)
    (hmem : .abandon id tell ∈ ((start registry config).run actions).commands) :
    ∃ j i, id = idAt i ∧ i < 2 ^ 64 ∧ (start registry config).Left actions j i := by
  induction actions using List.reverseRecOn with
  | nil => cases hmem
  | append_singleton actions a ih =>
    rw [run_concat] at h hrun hmem
    have hsize := (size_calls_act _ a).trans_lt h
    rcases mem_commands_act hrun hmem with hold | hasks
    · obtain ⟨j, i, hid, hi, s, b, k, hdoes, hleaves⟩ := ih hsize (isRunning_of_act hrun) hold
      exact ⟨j, i, hid, hi, s, b, k, does_concat.2 (.inl hdoes), hleaves⟩
    · obtain ⟨i, k, hleaves, rfl, -⟩ := hasks.leaves
      refine ⟨actions.length, i, (settling_run hsize).ids hleaves.call, ?_, _, a, k,
        does_last _ actions a, hleaves⟩
      exact (Array.getElem?_eq_some_iff.1 hleaves.call).1.trans hsize

/-- A call that is given up was left before. -/
theorem GivesUp.left {tell : Bool}
    (h : ((start registry config).run actions).calls.size < 2 ^ 64) (hi : i < 2 ^ 64)
    (hj : (start registry config).GivesUp actions j (idAt i) tell) :
    ∃ p, p < j ∧ (start registry config).Left actions p i := by
  obtain ⟨s, a, ⟨-, rfl⟩, ho, -⟩ := hj
  obtain ⟨hrun, rest, hc⟩ := commands_of_obeyed ho
  obtain ⟨p, i', hid, hi', s, b, k, hdoes, hleaves⟩ :=
    left_run (size_calls_take_lt h j) hrun (hc ▸ List.mem_cons_self)
  obtain rfl := idAt_inj hi hi' hid
  obtain ⟨hp, hdoes⟩ := hdoes.of_take
  exact ⟨p, hp, s, b, k, hdoes, hleaves⟩

/-! ## What the session offers -/

/-- At a position of a run the session offers the request of an identifier to the outbox. -/
def OffersRequest (s₀ : State R N) (actions : List Action) (j : Nat) (id : Id) : Prop :=
  ∃ s a method params, s₀.Does actions j s a ∧ .request id method params ∈ s.offered a

/-- At a position of a run the session itself, and not its owner, offers to the outbox the
notification that the request of an identifier is given up. -/
def OffersNotice (s₀ : State R N) (actions : List Action) (j : Nat) (id : Id) : Prop :=
  ∃ s a, s₀.Does actions j s a ∧ cancelNotice id ∈ s.offered a ∧
    ∀ method params, s.obeyed a ≠ some (.notify method params)

theorem obeyed_without_outbox (s : State R N) (a : Action) :
    ({ s with outbox := {} } : State R N).obeyed a = s.obeyed a := by
  cases a <;> rfl

theorem registers_of_offered {method : String} {params : Option Json}
    (h : .request id method params ∈ s.offered a) : s.Registers a id := by
  obtain ⟨call, ho⟩ := obeyed_of_request h
  exact ⟨method, params, call, (obeyed_without_outbox s a).symm.trans ho⟩

/-- The session tells the peer of a call if it is configured to do so and gives up the call. -/
theorem offersNotice_iff : (start registry config).OffersNotice actions j id ↔
    config.cancelOnAbandon = true ∧ ∃ tell, (start registry config).GivesUp actions j id tell := by
  have htell : ∀ {s : State R N} {a tell}, (start registry config).Does actions j s a →
      s.obeyed a = some (.abandon id tell) → tell = config.cancelOnAbandon := by
    rintro s a tell ⟨-, rfl⟩ ho
    obtain ⟨hrun, rest, hc⟩ := commands_of_obeyed ho
    exact tell_run hrun (hc ▸ List.mem_cons_self)
  constructor
  · rintro ⟨s, a, hdoes, hmem, hown⟩
    rcases obeyed_of_notification hmem with ho | ⟨id', ho, hopen, hid⟩
    · exact absurd ((obeyed_without_outbox s a).symm.trans ho) (hown _ _)
    · rw [obeyed_without_outbox] at ho
      obtain rfl := cancelNotice_inj hid
      exact ⟨(htell hdoes ho).symm, true, s, a, hdoes, ho, hopen⟩
  · rintro ⟨hpolicy, tell, s, a, hdoes, ho, hopen⟩
    obtain rfl : tell = true := (htell hdoes ho).trans hpolicy
    have hoffered : s.offered a = [cancelNotice id] :=
      sentBy_of_abandon ((obeyed_without_outbox s a).trans ho) hopen rfl
    refine ⟨s, a, hdoes, hoffered ▸ List.mem_singleton_self _, fun method params ho' => ?_⟩
    exact nomatch ho.symm.trans ho'

/-- What is offered to the outbox when the peer is told is sent if the outbox takes envelopes. -/
theorem OffersNotice.sentBy (hj : s₀.OffersNotice actions j id) (hdoes : s₀.Does actions j s a) :
    s.sentBy a = if s.outbox.isActive then [cancelNotice id] else [] := by
  obtain ⟨s', a', ⟨ha', rfl⟩, hmem, -⟩ := hj
  obtain ⟨ha, rfl⟩ := hdoes
  obtain rfl := Option.some.inj (ha.symm.trans ha')
  obtain rfl := handle_of_notification hmem
  have hdue : (s₀.run (actions.take j)).due .handle = some (cancelNotice id) :=
    due_of_mem_sentBy (s := { s₀.run (actions.take j) with outbox := {} }) hmem
  rw [sentBy_eq_due, hdue, Option.toList_some]

/-- The request of a call of which the peer is told has been offered before, and is not offered
again. -/
theorem GivesUp.offered_before {tell : Bool}
    (h : ((start registry config).run actions).calls.size < 2 ^ 64)
    (hj : (start registry config).GivesUp actions j id tell) :
    (∃ p, p < j ∧ (start registry config).OffersRequest actions p id) ∧
      ∀ p, (start registry config).OffersRequest actions p id → p < j := by
  obtain ⟨s, a, ⟨-, rfl⟩, -, hmem⟩ := hj
  obtain ⟨p, s, b, hp, hdoes, hin⟩ := registers_before hmem
  refine ⟨⟨p, hp, s, b, ?_⟩, fun p' hp' => ?_⟩
  · obtain ⟨ha, rfl⟩ := hdoes
    have hsize := size_calls_take_lt h p
    have hn := not_open_of_registers (settling_run hsize) hsize hin
    obtain ⟨method, params, call, ho⟩ := hin
    have hoffered : ((start registry config).run (actions.take p)).offered b =
        [.request id method params] :=
      sentBy_of_request ((obeyed_without_outbox _ b).trans ho) hn rfl
    exact ⟨method, params, ⟨ha, rfl⟩, hoffered ▸ List.mem_singleton_self _⟩
  · obtain ⟨s', b', method, params, hdoes', hmem'⟩ := hp'
    have hle := Registers.not_before h hdoes hin hdoes' (registers_of_offered hmem')
    omega

/-! ## Responses that come late -/

/-- A response that answers no open call is reported. -/
theorem handlePayload_of_unknown {payload : List UInt8} {r : Response}
    (hm : Message.ofPayload payload = .ok (.response r)) (hn : s.pendingCall? r.id = none) :
    s.handlePayload payload =
      (s.log .warn ("Response for unknown request id " ++ r.id.describe)).emit
        (.protocolError (.unknownResponse r.id)) := by
  rw [handlePayload, hm]
  dsimp only [handleMessage]
  rw [handleResponse, hn]

/-- A response to a call that has been given up is reported and changes nothing else. -/
theorem GivesUp.unknown {tell : Bool} {k : Nat} {r : Response}
    (h : ((start registry config).run actions).calls.size < 2 ^ 64) (hi : i < 2 ^ 64)
    (hj : (start registry config).GivesUp actions j (idAt i) tell) (hjk : j < k)
    (hk : (start registry config).Handles actions k (.response r)) (hr : r.id = idAt i) :
    let s := (start registry config).run (actions.take k)
    (s.act .receive).core = s.core ∧ (s.act .receive).outbox = s.outbox ∧
      (s.act .receive).events =
        if s.listening then s.events.push (.protocolError (.unknownResponse (idAt i)))
        else s.events := by
  intro s
  obtain ⟨-, payload, hp, hm⟩ := hk
  have hn : s.pendingCall? r.id = none := hr ▸ Core.pendingCall?_eq_none.2 (hj.notMem_keys h hi hjk)
  obtain ⟨-, hact⟩ := act_of_handled hp
  have hn : ({ s with reader := s.reader.next.2 } : State R N).pendingCall? r.id = none := hn
  rw [hact, handlePayload_of_unknown hm hn, hr]
  exact ⟨core_emit _ _, congrArg Desk.outbox (desk_emit _ _), congrArg events (emit_eq _ _)⟩

/-- A response makes no difference to the calls of other identifiers. -/
theorem calls_of_response {k c : Nat} {r : Response}
    (h : ((start registry config).run actions).calls.size < 2 ^ 64) (hi : i < 2 ^ 64)
    (hk : (start registry config).Handles actions k (.response r)) (hr : r.id = idAt i)
    (hc : c ≠ i) :
    let s := (start registry config).run (actions.take k)
    (s.act .receive).calls[c]? = s.calls[c]? := by
  intro s
  obtain ⟨-, payload, hp, hm⟩ := hk
  have hresponse : response? payload = some r := by rw [response?, hm]
  obtain ⟨-, hact⟩ := act_of_handled hp
  have hcore : (s.act .receive).core = s.core.answer r := by
    rw [hact]
    exact core_handlePayload_of_response hresponse
  refine (congrArg (fun c' : Core => c'.calls[c]?) hcore).trans ?_
  rw [Core.getElem?_answer, if_neg]
  · rfl
  intro hopen
  have hsize := size_calls_take_lt h k
  obtain ⟨hid, hlt⟩ := (settling_run hsize).slots
    (Core.mem_slots_of_pending (Core.mem_pending_of_pendingCall? hopen))
  exact hc (idAt_inj (hlt.trans hsize) hi (hid.symm.trans hr))

theorem GivesUp.not_answered {tell : Bool} {o : Outcome}
    (h : ((start registry config).run actions).calls.size < 2 ^ 64) (hi : i < 2 ^ 64)
    (hj : (start registry config).GivesUp actions j (idAt i) tell) :
    ¬(start registry config).Answered (actions.take j) i o := by
  obtain ⟨s, a, ⟨-, rfl⟩, -, hmem⟩ := hj
  intro hanswered
  have hsize := size_calls_take_lt h j
  obtain ⟨k, hk, ho⟩ := outcomes_of_mem_keys (settling_run hsize) hsize hi hmem
  obtain ⟨k', hk', ho'⟩ := outcomes_of_answered hsize hanswered
  obtain rfl := Option.some.inj (hk.symm.trans hk')
  exact nomatch ho.symm.trans ho'

end State

/-- In every run of a session with fewer than 2⁶⁴ calls, the session tells the peer that a call is
given up exactly if it is configured to do so, the caller has left the call, and the call is still
open when the task learns of it. It tells the peer no more than once, after the request of the call,
and not if a response has settled the call before; what it has to tell is sent as long as the outbox
takes envelopes. A response to the call makes no difference to other calls; after the call has been
given up it makes none to this one either, and is reported as one that answers no open call. -/
theorem peer_told_of_leaving {R N : Type} (registry : Rpc.Registry R N) (config : Config)
    (actions : List Action)
    (h : ((State.start registry config).run actions).calls.size < 2 ^ 64) (i : Nat)
    (hi : i < ((State.start registry config).run actions).calls.size) :
    let s₀ := State.start registry config
    (∀ j, s₀.OffersNotice actions j (idAt i) ↔ config.cancelOnAbandon = true ∧
      (∃ p, p < j ∧ s₀.Left actions p i) ∧ ∃ tell, s₀.GivesUp actions j (idAt i) tell) ∧
    (∀ j, s₀.OffersNotice actions j (idAt i) →
      (∀ j', s₀.OffersNotice actions j' (idAt i) → j' = j) ∧
      (∃ p, p < j ∧ s₀.OffersRequest actions p (idAt i)) ∧
      (∀ p, s₀.OffersRequest actions p (idAt i) → p < j) ∧
      (∀ o, ¬s₀.Answered (actions.take j) i o) ∧
      ∀ s a, s₀.Does actions j s a →
        s.sentBy a = if s.outbox.isActive then [State.cancelNotice (idAt i)] else []) ∧
    ∀ k r, s₀.Handles actions k (.response r) → r.id = idAt i →
      let s := s₀.run (actions.take k)
      (∀ c, c ≠ i → (s.act .receive).calls[c]? = s.calls[c]?) ∧
      ∀ j tell, j < k → s₀.GivesUp actions j (idAt i) tell →
        (s.act .receive).core = s.core ∧ (s.act .receive).outbox = s.outbox ∧
          (s.act .receive).events =
            if s.listening then s.events.push (.protocolError (.unknownResponse (idAt i)))
            else s.events := by
  intro s₀
  have hi := hi.trans h
  refine ⟨fun j => ⟨fun hj => ?_, fun ⟨hpolicy, _, hgiven⟩ => ?_⟩, fun j hj => ?_,
    fun k r hk hr => ⟨fun c hc => State.calls_of_response h hi hk hr hc, fun j tell hjk hgiven => ?_⟩⟩
  · obtain ⟨hpolicy, tell, hgiven⟩ := State.offersNotice_iff.1 hj
    exact ⟨hpolicy, hgiven.left h hi, tell, hgiven⟩
  · exact State.offersNotice_iff.2 ⟨hpolicy, hgiven⟩
  · obtain ⟨-, tell, hgiven⟩ := State.offersNotice_iff.1 hj
    obtain ⟨hbefore, hlast⟩ := hgiven.offered_before h
    refine ⟨fun j' hj' => ?_, hbefore, hlast, fun o => hgiven.not_answered h hi,
      fun _ _ => hj.sentBy⟩
    obtain ⟨-, tell', hgiven'⟩ := State.offersNotice_iff.1 hj'
    exact Nat.le_antisymm (not_lt.1 (hgiven.not_before h hi hgiven'))
      (not_lt.1 (hgiven'.not_before h hi hgiven))
  · exact hgiven.unknown h hi hjk hk hr

/-- A call is cancelled, then let go of, and answered after that: the peer is told once, and the
response is reported. -/
theorem told_of_cancelled_call :
    let s₀ := State.start (Rpc.Registry.empty : Rpc.Registry Unit Unit) {}
    let response := Envelope.success (.number 1) .null
    let actions : List Action := [.send Rpc.Catalog.shutdown () false, .handle, .cancel 0,
      .dropCall 0, .handle, .arrive (Frame.encode response.bytes), .receive]
    (s₀.OffersNotice actions 4 (.number 1) ∧
      ∀ j, s₀.OffersNotice actions j (.number 1) → j = 4) ∧
      (s₀.run actions).events = #[.protocolError (.unknownResponse (.number 1))] := by
  intro s₀ response actions
  obtain ⟨hiff, honce, hresponses⟩ :=
    peer_told_of_leaving (Rpc.Registry.empty : Rpc.Registry Unit Unit) {} actions
      (by decide +kernel) 0 (by decide +kernel)
  have hgiven : s₀.GivesUp actions 4 (idAt 0) true :=
    ⟨_, .handle, ⟨rfl, rfl⟩, by rfl, by decide +kernel⟩
  have hleft : s₀.Left actions 2 0 :=
    ⟨_, .cancel 0, _, ⟨rfl, rfl⟩, ⟨rfl, ⟨rfl, rfl, rfl⟩, .inl rfl⟩⟩
  have hnotice := (hiff 4).2 ⟨rfl, ⟨2, by decide, hleft⟩, true, hgiven⟩
  refine ⟨⟨hnotice, (honce 4 hnotice).1⟩, ?_⟩
  have hm : Message.ofPayload response.bytes = .ok (.response ⟨.number 1, some .null, none⟩) :=
    Message.ofPayload_bytes (e := response) (by decide)
  have hhandles : s₀.Handles actions 6 (.response ⟨.number 1, some .null, none⟩) :=
    ⟨rfl, _, by decide +kernel, hm⟩
  obtain ⟨-, hlate⟩ := hresponses 6 _ hhandles rfl
  obtain ⟨-, -, hevents⟩ := hlate 4 true (by decide) hgiven
  have hlast : s₀.run actions = (s₀.run (actions.take 6)).act .receive :=
    State.run_concat s₀ (actions.take 6) .receive
  rw [hlast, hevents]
  rfl

end PeerRpc.Session
