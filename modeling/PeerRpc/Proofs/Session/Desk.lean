import PeerRpc.Proofs.Session.Action

/-!
# What a session takes in and gives out

The desk of a session is where messages come in, where they go out, and the tickets of those that
wait for an answer. An action puts at most one envelope into the outbox, and `Origin` tells where it
comes from; the lemmas `desk_…` say what each function of a session does to the desk.
-/

namespace PeerRpc.Session

open Rpc (Envelope Failure Id)

/-- Whether an action has to do with what comes in. -/
def Action.takesIn : Action → Bool
  | .arrive _ | .closeSource _ | .receive => true
  | _ => false

/-- The part of a session's state that has to do with its messages. -/
structure Desk where
  reader : Frame.Reader
  outbox : Outbox
  tickets : Array Ticket

namespace State

variable {R N : Type}

/-- The part of the state that has to do with messages. -/
def desk (s : State R N) : Desk :=
  ⟨s.reader, s.outbox, s.tickets⟩

/-- The payload that an action handles. -/
def handled (s : State R N) : Action → Option (List UInt8)
  | .receive =>
    if s.isRunning then
      match s.reader.next with
      | (.payload payload, _) => some payload
      | _ => none
    else none
  | _ => none

/-- The error with which a request is answered at once, if it is: the call cannot be made into a
value, or nobody listens. -/
def refusal (s : State R N) (method : String) (params : Option Json) : Option Failure :=
  match s.registry.decodeRequest method params with
  | .error fault => some fault.toFailure
  | .ok _ => if s.listening then none else some (.internalError "No handler for requests")

/-- Where an envelope comes from that an action puts into the outbox. -/
inductive Origin (s : State R N) : Action → Envelope → Prop
  | request (id : Id) (method : String) (params : Option Json) (call : Nat) (rest : List Command)
    (hrun : s.isRunning = true) (h : s.commands = .request id method params call :: rest) :
    Origin s .handle (.request id method params)
  | notify (method : String) (params : Option Json) :
    Origin s .handle (.notification method params)
  | refused (payload : List UInt8) (id : Id) (method : String) (params : Option Json) (f : Failure)
    (hp : s.handled .receive = some payload)
    (hm : Rpc.Message.ofPayload payload = .ok (.request id method params))
    (h : s.refusal method params = some f) : Origin s .receive (.failure id f)
  | malformed (payload : List UInt8) (id : Id) (f : Failure) (fault : Rpc.EnvelopeFault)
    (hp : s.handled .receive = some payload) (hm : Rpc.Message.ofPayload payload = .error fault) :
    Origin s .receive (.failure id f)
  | answer (ticket : Nat) (t : Ticket) (outcome : Except Failure Json)
    (ht : s.ticket? ticket = some t) (h : (s.respond ticket outcome).1 = some (.ok ())) :
    Origin s (.respond ticket outcome) (.response t.id outcome)

/-- An action puts no envelope into the outbox, or one. -/
def Puts (s : State R N) (a : Action) (o' : Outbox) : Prop :=
  Outbox.Quiet s.outbox o' ∨
    ∃ e, Origin s a e ∧ s.outbox.isActive = true ∧ o' = s.outbox.put e

theorem Puts.of_origin {s : State R N} {a : Action} {e : Envelope} (h : Origin s a e) :
    Puts s a (s.outbox.put e) := by
  by_cases ha : s.outbox.isActive = true
  · exact .inr ⟨e, h, ha, rfl⟩
  · rw [Outbox.put, if_neg ha]
    exact .inl (.same _)

/-! ## The owner -/

theorem desk_command (s : State R N) (c : Command) : (s.command c).desk = s.desk := by
  unfold command
  split <;> rfl

theorem desk_send (s : State R N) (m : Rpc.RequestMethod) (p : m.Params) (transient : Bool) :
    (s.send m p transient).2.desk = s.desk := by
  unfold send sendWritten
  split
  · rfl
  · dsimp only
    split
    · exact desk_command _ _
    · rfl

theorem desk_notify (s : State R N) (m : Rpc.NotificationMethod) (p : m.Params) :
    (s.notify m p).2.desk = s.desk := by
  unfold notify
  split
  · rfl
  · split
    · exact desk_command _ _
    · rfl

theorem desk_poll (s : State R N) (call : Nat) : (s.poll call).2.desk = s.desk := by
  unfold poll
  split
  · rfl
  · split
    · rfl
    · split <;> rfl

theorem desk_cancel (s : State R N) (call : Nat) : (s.cancel call).desk = s.desk := by
  unfold cancel
  split
  · rfl
  · split
    · rfl
    · exact desk_command _ _

theorem desk_dropCall (s : State R N) (call : Nat) : (s.dropCall call).desk = s.desk := by
  unfold dropCall
  split
  · rfl
  · dsimp only
    split
    · exact desk_command _ _
    · rfl

theorem desk_countPending (s : State R N) : s.countPending.2.desk = s.desk := by
  unfold countPending
  dsimp only
  split
  · exact desk_command _ _
  · rfl

theorem desk_close (s : State R N) : s.close.2.desk = s.desk :=
  desk_command s .close

theorem desk_pollWaiter (s : State R N) (waiter : Nat) :
    (s.pollWaiter waiter).2.desk = s.desk := by
  unfold pollWaiter
  split
  · rfl
  · rw [pollJoin]
    split_ifs
    · split <;> rfl
    · rfl
  · rfl

/-! ## The task -/

/-- The desks that differ from that of the state by what an action does to the outbox. -/
def Writes (s : State R N) (a : Action) (d : Desk) : Prop :=
  ∃ o', Puts s a o' ∧ d = { s.desk with outbox := o' }

theorem Writes.quiet {s : State R N} {o' : Outbox} (h : Outbox.Quiet s.outbox o') (a : Action) :
    Writes s a { s.desk with outbox := o' } :=
  ⟨o', .inl h, rfl⟩

theorem Writes.same (s : State R N) (a : Action) : Writes s a s.desk :=
  .quiet (.same _) a

theorem Writes.of_origin {s : State R N} {a : Action} {e : Envelope} (h : Origin s a e) :
    Writes s a { s.desk with outbox := s.outbox.put e } :=
  ⟨_, .of_origin h, rfl⟩

theorem desk_emit (s : State R N) (e : Event R N) : (s.emit e).desk = s.desk := by
  unfold emit
  split <;> rfl

theorem desk_foldl_refuse (s : State R N) (commands : List Command) :
    (commands.foldl refuse s).desk = s.desk := by
  induction commands generalizing s with
  | nil => rfl
  | cons c rest ih =>
    rw [List.foldl_cons, ih]
    cases c <;> rfl

theorem desk_foldl_settle (s : State R N) (pending : List (Id × Nat)) :
    (pending.foldl (fun s p => s.settleCall p.2 (.error .closed)) s).desk = s.desk := by
  induction pending generalizing s with
  | nil => rfl
  | cons p rest ih => exact ih _

theorem desk_stop (s : State R N) (reason : Stop) :
    ∃ o', Outbox.Quiet s.outbox o' ∧ (s.stop reason).desk = { s.desk with outbox := o' } := by
  have h : ((s.commands.foldl refuse s).pending.foldl
      (fun s p => s.settleCall p.2 (.error .closed)) (s.commands.foldl refuse s)).desk =
      s.desk := by rw [desk_foldl_settle, desk_foldl_refuse]
  have hreader := congrArg Desk.reader h
  have houtbox := congrArg Desk.outbox h
  have htickets := congrArg Desk.tickets h
  dsimp only [desk] at hreader houtbox htickets
  cases reason <;> unfold stop desk <;> dsimp only [conclude, log] <;>
    rw [hreader, houtbox, htickets]
  · exact ⟨_, .closeOff _, rfl⟩
  · exact ⟨_, .abandon _, rfl⟩
  · exact ⟨_, .abandon _, rfl⟩

theorem Writes.stop (s : State R N) (a : Action) (reason : Stop) :
    Writes s a (s.stop reason).desk := by
  obtain ⟨o', hq, he⟩ := desk_stop s reason
  exact ⟨o', .inl hq, he⟩

variable {s : State R N}

theorem writes_handleNext (hrun : s.isRunning = true) : Writes s .handle s.handleNext.desk := by
  unfold handleNext
  cases hc : s.commands with
  | nil => exact .same s _
  | cons c rest =>
    dsimp only
    cases c with
    | request id method params call =>
      rw [handleCommand]
      split
      · rw [desk_emit]
        exact .same s _
      · exact .of_origin (.request id method params call rest hrun hc)
    | notify method params => exact .of_origin (.notify method params)
    | abandon id tell =>
      rw [handleCommand]
      split
      · exact .same s _
      · split
        · unfold sendCancel
          split
          · exact .of_origin (.notify _ _)
          · exact .same s _
        · exact .same s _
    | count waiter => exact .same s _
    | close =>
      obtain ⟨o', hq, he⟩ := desk_stop { s with commands := rest } .closed
      exact ⟨o', .inl hq, he⟩

theorem writes_noticeOutbox (s : State R N) : Writes s .notice s.noticeOutbox.desk := by
  unfold noticeOutbox
  split
  · exact .stop s _ _
  · exact .stop s _ _
  · exact .same s _
  · exact .same s _
  · exact .same s _

theorem refusal_of_fault {method : String} {params : Option Json} {fault : Rpc.CallFault}
    (h : s.registry.decodeRequest method params = .error fault) :
    s.refusal method params = some fault.toFailure := by
  rw [refusal, h]

theorem refusal_of_unheard {method : String} {params : Option Json} {value : R}
    (h : s.registry.decodeRequest method params = .ok value) (hl : s.listening = false) :
    s.refusal method params = some (.internalError "No handler for requests") := by
  rw [refusal, h]
  exact if_neg (by simp [hl])

/-- A request is answered at once, or it is delivered with a new ticket. -/
theorem handleRequest_cases (s : State R N) (id : Id) (method : String) (params : Option Json) :
    (∃ f, s.refusal method params = some f ∧
      (s.handleRequest id method params).desk =
        { s.desk with outbox := s.outbox.put (.failure id f) }) ∨
    ∃ value, s.refusal method params = none ∧
      (s.handleRequest id method params).desk =
        { s.desk with tickets := s.tickets.push { id, method } } ∧
      (s.handleRequest id method params).events =
        s.events.push (.request id value s.tickets.size) := by
  unfold handleRequest
  cases hd : s.registry.decodeRequest method params with
  | error fault =>
    refine .inl ⟨_, refusal_of_fault hd, ?_⟩
    dsimp only
    rw [desk_emit]
    rfl
  | ok value =>
    dsimp only [deliverRequest]
    by_cases hl : s.listening = true
    · refine .inr ⟨value, ?_, ?_⟩
      · rw [refusal, hd]
        exact if_pos hl
      · rw [if_pos hl]
        exact ⟨rfl, rfl⟩
    · refine .inl ⟨_, refusal_of_unheard hd (Bool.eq_false_iff.2 hl), ?_⟩
      rw [if_neg hl]
      rfl

/-! ## Tickets -/

end State

/-- A ticket before and after something that can only spend it. -/
structure Ticket.Keeps (t t' : Ticket) : Prop where
  id : t'.id = t.id
  method : t'.method = t.method
  spent : t.spent = true → t'.spent = true

theorem Ticket.Keeps.refl (t : Ticket) : t.Keeps t :=
  ⟨rfl, rfl, fun h => h⟩

theorem Ticket.Keeps.trans {t t' t'' : Ticket} (h : t.Keeps t') (h' : t'.Keeps t'') :
    t.Keeps t'' :=
  ⟨h'.id.trans h.id, h'.method.trans h.method, fun hs => h'.spent (h.spent hs)⟩

/-- Some tickets before and after something that can only spend them. -/
structure OnlySpent (ts ts' : Array Ticket) : Prop where
  size : ts'.size = ts.size
  keeps : ∀ (i : Nat) t', ts'[i]? = some t' → ∃ t, ts[i]? = some t ∧ t.Keeps t'

theorem OnlySpent.refl (ts : Array Ticket) : OnlySpent ts ts :=
  ⟨rfl, fun _ t' h => ⟨t', h, .refl t'⟩⟩

theorem OnlySpent.trans {ts ts' ts'' : Array Ticket} (h : OnlySpent ts ts')
    (h' : OnlySpent ts' ts'') : OnlySpent ts ts'' := by
  refine ⟨h'.size.trans h.size, fun i t'' ht'' => ?_⟩
  obtain ⟨t', ht', hk'⟩ := h'.keeps i t'' ht''
  obtain ⟨t, ht, hk⟩ := h.keeps i t' ht'
  exact ⟨t, ht, hk.trans hk'⟩

namespace State

variable {R N : Type} {s : State R N}

theorem onlySpent_spend (s : State R N) (ticket : Nat) :
    OnlySpent s.tickets (s.spend ticket).tickets := by
  refine ⟨Array.size_modify, fun i t' h => ?_⟩
  rw [spend, Array.getElem?_modify] at h
  split_ifs at h with hi
  · obtain ⟨t, ht, rfl⟩ := Option.map_eq_some_iff.1 h
    exact ⟨t, ht, rfl, rfl, fun _ => rfl⟩
  · exact ⟨t', h, .refl t'⟩

/-- Throwing a ticket away can only spend tickets. -/
theorem dropTicket_cases (s : State R N) (ticket : Nat) :
    ∃ tickets', OnlySpent s.tickets tickets' ∧
      (s.dropTicket ticket).desk = { s.desk with tickets := tickets' } := by
  unfold dropTicket
  split
  · exact ⟨_, .refl _, rfl⟩
  · exact ⟨_, onlySpent_spend s ticket, rfl⟩

theorem dropEvents_cases (s : State R N) :
    ∃ tickets', OnlySpent s.tickets tickets' ∧
      s.dropEvents.desk = { s.desk with tickets := tickets' } := by
  unfold dropEvents
  dsimp only
  rw [← Array.foldl_toList]
  generalize s.events.toList = events
  induction events generalizing s with
  | nil => exact ⟨_, .refl _, rfl⟩
  | cons e rest ih =>
    cases e with
    | request id value ticket =>
      obtain ⟨ts, hts, he⟩ := dropTicket_cases s ticket
      obtain ⟨ts', hts', he'⟩ := ih (s.dropTicket ticket)
      have htickets : (s.dropTicket ticket).tickets = ts := congrArg Desk.tickets he
      refine ⟨ts', hts.trans (htickets ▸ hts'), ?_⟩
      rw [List.foldl_cons]
      exact he'.trans (by rw [he])
    | _ => exact ih s

/-! ## Actions -/

/-- How the desk can change with an action. -/
inductive DeskStep (s : State R N) : Action → Desk → Prop
  /-- Nothing comes in. -/
  | turn {a : Action} {o' : Outbox} {tickets' : Array Ticket}
    (ha : a.takesIn = false) (h : Puts s a o')
    (ht : OnlySpent s.tickets tickets') : DeskStep s a ⟨s.reader, o', tickets'⟩
  | arrive (bytes : List UInt8) :
    DeskStep s (.arrive bytes) ⟨s.reader.push bytes, s.outbox, s.tickets⟩
  | closeSource (ending : Frame.Ending) :
    DeskStep s (.closeSource ending) ⟨s.reader.close ending, s.outbox, s.tickets⟩
  /-- The task has stopped and reads nothing. -/
  | idle (hrun : s.isRunning = false) : DeskStep s .receive s.desk
  /-- The task reads, and no request is delivered. -/
  | receive {o' : Outbox} (hrun : s.isRunning = true) (h : Puts s .receive o') :
    DeskStep s .receive ⟨s.reader.next.2, o', s.tickets⟩
  /-- The task reads and delivers a request. -/
  | deliver {payload : List UInt8} {id : Id} {method : String} {params : Option Json}
    (hrun : s.isRunning = true) (hp : s.handled .receive = some payload)
    (hm : Rpc.Message.ofPayload payload = .ok (.request id method params))
    (hf : s.refusal method params = none) :
    DeskStep s .receive ⟨s.reader.next.2, s.outbox, s.tickets.push { id, method }⟩

namespace DeskStep

variable {a : Action} {d : Desk}

/-- Only the outbox can get an envelope, and no more than one. -/
theorem outbox (h : DeskStep s a d) : Puts s a d.outbox := by
  cases h with
  | turn _ h => exact h
  | receive _ h => exact h
  | arrive | closeSource | idle | deliver => exact .inl (.same _)

theorem reader_of_takesIn (h : DeskStep s a d) (ha : a.takesIn = false) : d.reader = s.reader := by
  cases h with
  | turn => rfl
  | _ => cases ha

theorem reader_receive (h : DeskStep s .receive d) (hrun : s.isRunning = true) :
    d.reader = s.reader.next.2 := by
  cases h with
  | turn ha => cases ha
  | idle hidle => exact absurd (hidle.symm.trans hrun) Bool.false_ne_true
  | receive | deliver => rfl

/-- The tickets are kept or spent. Another one may be made for the request that is delivered. -/
theorem tickets (h : DeskStep s a d) :
    OnlySpent s.tickets d.tickets ∨
      ∃ payload id method params, a = .receive ∧ s.handled .receive = some payload ∧
        Rpc.Message.ofPayload payload = .ok (.request id method params) ∧
        s.refusal method params = none ∧ d.tickets = s.tickets.push { id, method } := by
  cases h with
  | turn _ _ ht => exact .inl ht
  | arrive | closeSource | idle | receive => exact .inl (.refl _)
  | deliver _ hp hm hf => exact .inr ⟨_, _, _, _, rfl, hp, hm, hf, rfl⟩

end DeskStep

theorem DeskStep.of_writes {a : Action} {d : Desk} (ha : a.takesIn = false)
    (h : Writes s a d) : DeskStep s a d := by
  obtain ⟨o', hp, rfl⟩ := h
  exact .turn ha hp (.refl _)

theorem DeskStep.of_tickets {a : Action} {d : Desk} (ha : a.takesIn = false)
    (h : ∃ tickets', OnlySpent s.tickets tickets' ∧ d = { s.desk with tickets := tickets' }) :
    DeskStep s a d := by
  obtain ⟨tickets', ht, rfl⟩ := h
  exact .turn ha (.inl (.same _)) ht

theorem desk_respond (s : State R N) (ticket : Nat) (outcome : Except Failure Json) :
    DeskStep s (.respond ticket outcome) (s.respond ticket outcome).2.desk := by
  cases ht : s.ticket? ticket with
  | none =>
    rw [respond, ht]
    exact .of_writes rfl (.same s _)
  | some t =>
    by_cases hr : (s.isRunning && s.outbox.isActive) = true
    · have hok : s.respond ticket outcome =
          (some (.ok ()), (s.spend ticket).queue (.response t.id outcome)) := by
        rw [respond, ht]
        exact if_pos hr
      have hputs := Puts.of_origin (Origin.answer ticket t outcome ht (by rw [hok]))
      rw [hok]
      exact .turn rfl hputs (onlySpent_spend s ticket)
    · have hclosed : s.respond ticket outcome = (some (.error .closed), s.spend ticket) := by
        rw [respond, ht]
        exact if_neg hr
      rw [hclosed]
      exact .turn rfl (.inl (.same _)) (onlySpent_spend s ticket)

theorem desk_handlePayload {payload : List UInt8} {reader : Frame.Reader}
    (hrun : s.isRunning = true) (hn : s.reader.next = (.payload payload, reader)) :
    DeskStep s .receive (({ s with reader } : State R N).handlePayload payload).desk := by
  have hp : s.handled .receive = some payload := by rw [handled, if_pos hrun, hn]
  have hreader : reader = s.reader.next.2 := by rw [hn]
  have hkeep : DeskStep s .receive ⟨reader, s.outbox, s.tickets⟩ :=
    hreader ▸ .receive hrun (.inl (.same _))
  have hput : ∀ e, Origin s .receive e →
      DeskStep s .receive ⟨reader, s.outbox.put e, s.tickets⟩ :=
    fun e he => hreader ▸ .receive hrun (.of_origin he)
  unfold handlePayload
  cases hm : Rpc.Message.ofPayload payload with
  | error fault =>
    dsimp only [handleMalformed]
    rw [desk_emit]
    split
    · exact hput _ (.malformed payload _ _ fault hp hm)
    · exact hkeep
  | ok message =>
    cases message with
    | request id method params =>
      rcases handleRequest_cases { s with reader } id method params with
        ⟨f, hf, he⟩ | ⟨value, hf, he, -⟩
      · exact he ▸ hput _ (.refused payload id method params f hp hm hf)
      · exact he ▸ hreader ▸ .deliver hrun hp hm hf
    | notification method params =>
      dsimp only [handleMessage, handleNotification]
      split <;> rw [desk_emit] <;> exact hkeep
    | response r =>
      dsimp only [handleMessage, handleResponse]
      split
      · rw [desk_emit]
        exact hkeep
      · split
        · exact hkeep
        · rw [desk_emit]
          exact hkeep

theorem desk_receiveNext (hrun : s.isRunning = true) :
    DeskStep s .receive s.receiveNext.desk := by
  have hstop : ∀ (s' : State R N) (reason : Stop),
      s'.desk = { s.desk with reader := s.reader.next.2 } →
      DeskStep s .receive (s'.stop reason).desk := by
    intro s' reason hs'
    obtain ⟨o', hq, he⟩ := desk_stop s' reason
    rw [he, hs']
    have houtbox : s'.outbox = s.outbox := congrArg Desk.outbox hs'
    exact .receive hrun (.inl (houtbox ▸ hq))
  unfold receiveNext
  rcases hn : s.reader.next with ⟨payload | _ | cutShort | fault, reader⟩
  · exact desk_handlePayload hrun hn
  · have hreader : reader = s.reader.next.2 := by rw [hn]
    exact hreader ▸ .receive hrun (.inl (.same _))
  · cases cutShort <;> exact hstop _ _ (by rw [hn]; rfl)
  · exact hstop _ _ (by rw [hn]; rfl)

/-- How an action changes the desk. -/
theorem desk_act (s : State R N) (a : Action) : DeskStep s a (s.act a).desk := by
  cases a with
  | arrive bytes => exact .arrive bytes
  | closeSource ending => exact .closeSource ending
  | receive =>
    rw [act]
    split_ifs with h
    · exact desk_receiveNext h
    · exact .idle (Bool.eq_false_iff.2 h)
  | respond ticket outcome => exact desk_respond s ticket outcome
  | dropTicket ticket =>
    exact .of_tickets rfl (dropTicket_cases s ticket)
  | dropEvents => exact .of_tickets rfl (dropEvents_cases s)
  | handle =>
    refine .of_writes rfl ?_
    rw [act]
    split_ifs with h
    · exact writes_handleNext h
    · exact .same s _
  | release =>
    refine .of_writes rfl ?_
    rw [act]
    split_ifs
    · exact .stop s _ .closed
    · exact .same s _
  | notice => exact .of_writes rfl (writes_noticeOutbox s)
  | write => exact .of_writes rfl (.quiet (.step _) _)
  | setSink mode => exact .of_writes rfl (.quiet (.setMode _ mode) _)
  | send m p transient =>
    refine .of_writes rfl ?_
    rw [act, desk_send]
    exact .same s _
  | notify m p =>
    refine .of_writes rfl ?_
    rw [act, desk_notify]
    exact .same s _
  | poll call =>
    refine .of_writes rfl ?_
    rw [act]
    split_ifs
    · exact desk_poll s call ▸ .same s _
    · exact .same s _
  | cancel call =>
    refine .of_writes rfl ?_
    rw [act]
    split_ifs
    · exact desk_cancel s call ▸ .same s _
    · exact .same s _
  | dropCall call =>
    refine .of_writes rfl ?_
    rw [act]
    split_ifs
    · exact desk_dropCall s call ▸ .same s _
    · exact .same s _
  | countPending =>
    refine .of_writes rfl ?_
    rw [act, desk_countPending]
    exact .same s _
  | close =>
    refine .of_writes rfl ?_
    rw [act, desk_close]
    exact .same s _
  | pollWaiter waiter =>
    refine .of_writes rfl ?_
    rw [act, desk_pollWaiter]
    exact .same s _
  | takeEvents | takeRecords | addHandle | dropHandle | wait | dropWaiter _ =>
    exact .of_writes rfl (.same s _)

end State

end PeerRpc.Session
