import PeerRpc.Proofs.Session.Stage
import PeerRpc.Proofs.Session.Tickets
import PeerRpc.Proofs.Session.Willing

/-!
# Everything is written in order

Before a sink that takes everything, an outbox gets whatever is due as long as the task is at work,
and only then is anything due; so the bytes that are written are always the beginning of the frames
of what has been due (`Streams`). The commands are handled in the order in which they are queued
(`obeyedIn_isPrefix_asked`). A task that stops because it is asked to, or because nobody holds the
session, has handled all commands up to that one, and is over only when everything is written
(`written_in_order_and_flushed`).
-/

namespace PeerRpc.Session

open Rpc (Envelope Failure)
open PeerRpc.Frame (Sink SinkMode stream)

/-- The commands up to the first one to stop, which is among them. -/
def upToClose : List Command → List Command
  | [] => []
  | .close :: _ => [.close]
  | c :: rest => c :: upToClose rest

/-- The request or the notification that a command asks for. -/
def Command.envelope? : Command → Option Envelope
  | .request id method params _ => some (.request id method params)
  | .notify method params => some (.notification method params)
  | .abandon _ _ | .count _ | .close => none

/-- Whether a command is the one to stop. -/
def Command.isClose : Command → Bool
  | .close => true
  | _ => false

theorem Command.isClose_iff {c : Command} : c.isClose = true ↔ c = .close := by
  cases c <;> simp [Command.isClose]

/-- Whether the session is over. -/
def Phase.isStopped : Phase → Bool
  | .stopped _ => true
  | _ => false

theorem Phase.isStopped_iff {p : Phase} : p.isStopped = true ↔ ∃ result, p = .stopped result := by
  cases p <;> simp [Phase.isStopped]

theorem upToClose_cons {c : Command} (hc : c ≠ .close) (rest : List Command) :
    upToClose (c :: rest) = c :: upToClose rest := by
  cases c with
  | close => exact absurd rfl hc
  | _ => rfl

theorem upToClose_append {cs : List Command} (h : .close ∉ cs) (rest : List Command) :
    upToClose (cs ++ rest) = cs ++ upToClose rest := by
  induction cs with
  | nil => rfl
  | cons c cs ih =>
    obtain ⟨hc, hcs⟩ := not_or.1 (mt List.mem_cons.2 h)
    rw [List.cons_append, upToClose_cons (Ne.symm hc), ih hcs, List.cons_append]

/-- No command is queued in a step after which the task is not at work. -/
theorem Core.Step.length_commands_le {label : Option (Nat × Outcome)} {c c' : Core}
    (hs : Step label c c') (hr : c'.running = false) : c'.commands.length ≤ c.commands.length := by
  have htail : ∀ {a : Command} {rest : List Command}, c.commands = a :: rest →
      rest.length ≤ c.commands.length := by
    intro a rest hc
    rw [hc]
    exact Nat.le_succ _
  cases hs with
  | same | refuse | mark | answer => exact le_rfl
  | send _ method params transient h =>
    rw [enqueue, if_pos h] at hr
    cases h.symm.trans hr
  | ask | giveUp =>
    unfold enqueue at hr ⊢
    split_ifs at hr ⊢ with h
    · cases h.symm.trans hr
    · exact le_rfl
  | skip _ a rest hc => exact htail hc
  | register _ id method params call rest hc => exact htail hc
  | reject _ id method params call other rest hc => exact htail hc
  | abandon _ id tell call rest hc => exact htail hc
  | stop => exact Nat.zero_le _

namespace Outbox

theorem expecting_put (o : Outbox) (e : Envelope) : (o.put e).expecting = o.expecting := by
  unfold put
  split <;> rfl

theorem isActive_put (o : Outbox) (e : Envelope) : (o.put e).isActive = o.isActive := by
  unfold put
  split <;> rfl

theorem isActive_abandon (o : Outbox) : o.abandon.isActive = false := by
  unfold abandon
  split_ifs with h
  · rfl
  · exact Bool.eq_false_iff.2 h

/-- A write goes on or breaks the outbox. -/
theorem send_keeps (o : Outbox) (bytes : List UInt8) :
    (o.send bytes).expecting = o.expecting ∧
      ((o.send bytes).writing = o.writing ∨ ∃ fault, (o.send bytes).writing = .broken fault) := by
  obtain ⟨_, _, _, _, _, h | ⟨fault, h⟩⟩ := o.send_cases bytes <;> rw [h]
  · exact ⟨rfl, .inl rfl⟩
  · exact ⟨rfl, .inr ⟨fault, rfl⟩⟩

/-- A step goes on, finishes the outbox or breaks it. -/
theorem step_keeps (o : Outbox) :
    o.step.expecting = o.expecting ∧
      (o.step.writing = o.writing ∨ o.step.writing = .complete ∨
        ∃ fault, o.step.writing = .broken fault) := by
  have hsend : ∀ (o' : Outbox) bytes, o'.expecting = o.expecting → o'.writing = o.writing →
      (o'.send bytes).expecting = o.expecting ∧
        ((o'.send bytes).writing = o.writing ∨ (o'.send bytes).writing = .complete ∨
          ∃ fault, (o'.send bytes).writing = .broken fault) := by
    intro o' bytes he hw
    obtain ⟨hexpecting, hwriting⟩ := o'.send_keeps bytes
    exact ⟨hexpecting.trans he, (hw ▸ hwriting).imp_right .inr⟩
  unfold step
  split
  · split
    · split
      · unfold finish
        split
        · exact ⟨rfl, .inr (.inl rfl)⟩
        · exact ⟨rfl, .inl rfl⟩
      · exact hsend _ _ rfl rfl
    · exact hsend _ _ rfl rfl
  · exact ⟨rfl, .inl rfl⟩

end Outbox

namespace State

variable {R N : Type} {s s₀ : State R N} {a : Action} {actions : List Action}

/-! ## Commands are handled in order -/

/-- The commands that an action queues: those behind the ones that were there. -/
def askedBy (s : State R N) (a : Action) : List Command :=
  (s.act a).commands.drop s.commands.length

/-- The commands that are queued in a run. -/
def asked (s : State R N) (actions : List Action) : List Command :=
  s.along askedBy actions

/-- The commands that are handled in a run. -/
def obeyedIn (s : State R N) (actions : List Action) : List Command :=
  s.along (fun s a => (s.obeyed a).toList) actions

/-- What the owner asks for with a handle, if it is not refused. -/
inductive Accepts (s : State R N) : Action → Command → Prop
  | send {m : Rpc.RequestMethod} {p : m.Params} {params : Option Json} {transient : Bool}
    {call : Nat} (hp : m.params.encode p = .ok params)
    (h : (s.send m p transient).1 = .ok call) :
    Accepts s (.send m p transient) (.request (.number s.nextId) m.name params call)
  | notify {m : Rpc.NotificationMethod} {p : m.Params} {params : Option Json}
    (hp : m.params.encode p = .ok params) (h : (s.notify m p).1 = .ok ()) :
    Accepts s (.notify m p) (.notify m.name params)
  | close (h : s.isRunning = true) : Accepts s .close .close

theorem askedBy_of_commands {more : List Command} (h : (s.act a).commands = s.commands ++ more) :
    s.askedBy a = more := by
  rw [askedBy, h, List.drop_left]

theorem Accepts.askedBy {c : Command} (h : s.Accepts a c) : s.askedBy a = [c] := by
  refine askedBy_of_commands ?_
  cases h with
  | send hp h =>
    obtain ⟨params, hp', hr, rfl, hs⟩ := send_of_ok h
    obtain rfl := Except.ok.inj (hp.symm.trans hp')
    refine (congrArg commands hs).trans (commands_command ?_ _)
    exact hr
  | @notify m p params hp h =>
    have hnotify : s.notify m p =
        if s.isRunning then (.ok (), s.command (.notify m.name params)) else (.error .closed, s) := by
      rw [State.notify, hp]
    rw [hnotify] at h
    split_ifs at h with hr
    rw [act, hnotify, if_pos hr]
    exact commands_command hr _
  | close h => exact commands_command h _

theorem askedBy_of_stopped (h : (s.act a).isRunning = false) : s.askedBy a = [] :=
  List.drop_eq_nil_of_le ((core_act s a).length_commands_le h)

theorem obeyed_of_stopped (h : s.isRunning = false) : s.obeyed a = none := by
  by_contra hne
  obtain ⟨c, hc⟩ := Option.ne_none_iff_exists'.1 hne
  exact nomatch h.symm.trans (commands_of_obeyed hc).1

theorem obeyed_isPrefix (s : State R N) (a : Action) : (s.obeyed a).toList <+: s.commands := by
  cases ho : s.obeyed a with
  | none => exact List.nil_prefix
  | some c =>
    obtain ⟨-, rest, hc⟩ := commands_of_obeyed ho
    exact ⟨rest, hc.symm⟩

/-- While the task is at work, a command leaves the queue only when it is handled. -/
theorem commands_act (hrun : (s.act a).isRunning = true) :
    (s.obeyed a).toList ++ (s.act a).commands = s.commands ++ s.askedBy a := by
  cases ho : s.obeyed a with
  | some c =>
    obtain ⟨rest, hc, hact⟩ := act_of_obeyed ho
    have hrest : (s.act a).commands = rest := by
      rw [hact] at hrun ⊢
      exact commands_handleCommand hrun
    have hasked : s.askedBy a = [] := by
      rw [askedBy, hrest, hc]
      exact List.drop_eq_nil_of_le (Nat.le_succ _)
    rw [hasked, hrest, hc, List.append_nil]
    rfl
  | none =>
    have hmore : ∀ more, (s.act a).commands = s.commands ++ more →
        [] ++ (s.act a).commands = s.commands ++ s.askedBy a := by
      intro more h
      rw [askedBy_of_commands h, h, List.nil_append]
    generalize hb : (s.act a).board = b
    have hcommands : (s.act a).commands = b.commands := congrArg Board.commands hb
    have hrunning : (s.act a).isRunning = b.running := congrArg Board.running hb
    cases hb ▸ board_act s a with
    | use _ h =>
      obtain ⟨more, he⟩ := h.commands
      exact hmore more (hcommands.trans he)
    | issue more => exact hmore more hcommands
    | receive => exact hmore [] (hcommands.trans (List.append_nil _).symm)
    | stop _ _ h =>
      cases h
      exact nomatch hrun.symm.trans hrunning
    | obey c rest hr hc => exact nomatch ho.symm.trans (obeyed_handle hr hc)

theorem asked_concat (s : State R N) (actions : List Action) (a : Action) :
    s.asked (actions ++ [a]) = s.asked actions ++ (s.run actions).askedBy a :=
  along_concat _ s actions a

theorem obeyedIn_concat (s : State R N) (actions : List Action) (a : Action) :
    s.obeyedIn (actions ++ [a]) = s.obeyedIn actions ++ ((s.run actions).obeyed a).toList :=
  along_concat _ s actions a

/-- While the task is at work, the commands that have been queued are those that have been handled
and those that wait. -/
theorem asked_of_isRunning (h₀ : s₀.commands = []) (hrun : (s₀.run actions).isRunning = true) :
    s₀.asked actions = s₀.obeyedIn actions ++ (s₀.run actions).commands := by
  induction actions using List.reverseRecOn with
  | nil => exact h₀.symm
  | append_singleton actions a ih =>
    rw [run_concat] at hrun ⊢
    rw [asked_concat, obeyedIn_concat, ih (isRunning_of_act hrun), List.append_assoc,
      List.append_assoc, commands_act hrun]

/-- The commands are handled in the order in which they have been queued. -/
theorem obeyedIn_isPrefix_asked (h₀ : s₀.commands = []) (actions : List Action) :
    s₀.obeyedIn actions <+: s₀.asked actions := by
  induction actions using List.reverseRecOn with
  | nil => exact List.prefix_rfl
  | append_singleton actions a ih =>
    rw [asked_concat, obeyedIn_concat]
    cases hrun : (s₀.run actions).isRunning with
    | true =>
      rw [asked_of_isRunning h₀ hrun, List.append_assoc, List.prefix_append_right_inj]
      exact (obeyed_isPrefix _ a).trans (List.prefix_append _ _)
    | false =>
      rw [obeyed_of_stopped hrun, Option.toList_none, List.append_nil]
      exact ih.trans (List.prefix_append _ _)

/-- A task that is at work has not been told to stop. -/
theorem close_notMem_obeyedIn (hrun : (s₀.run actions).isRunning = true) :
    .close ∉ s₀.obeyedIn actions := by
  induction actions using List.reverseRecOn with
  | nil => exact List.not_mem_nil
  | append_singleton actions a ih =>
    rw [run_concat] at hrun
    rw [obeyedIn_concat, List.mem_append]
    rintro (hold | hnew)
    · exact ih (isRunning_of_act hrun) hold
    · obtain ⟨rest, -, hact⟩ := act_of_obeyed (Option.mem_toList.1 hnew)
      rw [hact] at hrun
      exact nomatch hrun.symm.trans (isRunning_stop _ .closed)

/-! ## What is due is written -/

/-- The envelopes that the actions of a run have to put into the outbox. -/
def dueIn (s : State R N) (actions : List Action) : List Envelope :=
  s.along (fun s a => (s.due a).toList) actions

theorem dueIn_concat (s : State R N) (actions : List Action) (a : Action) :
    s.dueIn (actions ++ [a]) = s.dueIn actions ++ ((s.run actions).due a).toList :=
  along_concat _ s actions a

/-- Something is due only as long as the task is at work. -/
theorem isRunning_of_due {e : Envelope} (h : s.due a = some e) : s.isRunning = true := by
  cases a with
  | handle =>
    obtain ⟨c, hc, -⟩ := Option.bind_eq_some_iff.1 h
    exact (commands_of_obeyed hc).1
  | receive =>
    obtain ⟨payload, hp, -⟩ := Option.bind_eq_some_iff.1 h
    exact (act_of_handled hp).1
  | respond ticket outcome =>
    rw [due] at h
    split_ifs at h with hr
    exact (Bool.and_eq_true _ _ ▸ hr).1
  | _ => cases h

/-- The state of a session whose sink takes everything: the outbox has got some frames, it is at work
as long as the task is, and only then can more come. -/
structure Streams (p : Phase × Outbox) (frames : List UInt8) : Prop where
  flows : p.2.Flows frames
  running : p.1 = .running → p.2.isActive = true ∧ p.2.expecting = true
  flushing : p.1 = .flushing → p.2.expecting = false
  stopped : ∀ result, p.1 = .stopped result → p.2.isActive = false

/-- Everything that is due comes into the outbox. -/
theorem Streams.act {frames : List UInt8} (h : Streams s.stage frames)
    (hmode : ∀ mode, a = .setSink mode → mode.takes = true) :
    Streams (s.act a).stage (frames ++ stream ((s.due a).toList.map Envelope.bytes)) := by
  have hstep := stage_act s a
  generalize (s.act a).stage = p at hstep ⊢
  have hnone : s.due a = none → Streams p frames →
      Streams p (frames ++ stream ((s.due a).toList.map Envelope.bytes)) := by
    intro hdue hp
    rwa [hdue, Option.toList_none, List.map_nil, Frame.stream_nil, List.append_nil]
  cases hstep with
  | put =>
    cases hdue : s.due a with
    | none =>
      refine hdue ▸ hnone hdue ?_
      rw [hdue]
      exact h
    | some e =>
      -- The task is at work, so the outbox takes what is due.
      have hphase := phase_of_isRunning (isRunning_of_due hdue)
      obtain ⟨hactive, hexpecting⟩ := h.running hphase
      rw [Option.elim_some, Option.toList_some, List.map_singleton, Frame.stream_cons,
        Frame.stream_nil, List.append_nil]
      refine ⟨h.flows.put hactive e, fun _ => ⟨?_, ?_⟩, fun hp => ?_, fun result hp => ?_⟩
      · exact (Outbox.isActive_put _ e).trans hactive
      · exact (Outbox.expecting_put _ e).trans hexpecting
      · exact nomatch hphase.symm.trans hp
      · exact nomatch hphase.symm.trans hp
  | setMode mode ha =>
    exact hnone (ha ▸ rfl) ⟨h.flows.setMode (hmode mode ha), h.running, h.flushing, h.stopped⟩
  | write ha =>
    refine hnone (ha ▸ rfl) ⟨h.flows.step, fun hp => ?_, fun hp => ?_, fun result hp => ?_⟩
    · obtain ⟨hactive, hexpecting⟩ := h.running hp
      obtain ⟨-, hkeep, hactive' | ⟨-, hoff, -⟩⟩ :=
        Outbox.step_of_willing h.flows.willing hactive
      · exact ⟨hactive', hkeep.trans hexpecting⟩
      · exact nomatch hexpecting.symm.trans hoff
    · exact (Outbox.step_keeps _).1.trans (h.flushing hp)
    · refine Bool.eq_false_iff.2 fun hactive => ?_
      exact nomatch (h.stopped result hp).symm.trans ((Outbox.Quiet.step _).isActive_of hactive)
  | close _ _ hdue => exact hnone hdue ⟨h.flows.closeOff, nofun, fun _ => rfl, nofun⟩
  | fail result _ _ hdue =>
    exact hnone hdue ⟨h.flows.abandon, nofun, nofun, fun _ _ => Outbox.isActive_abandon _⟩
  | conclude ha _ hactive =>
    exact hnone (ha ▸ rfl) ⟨h.flows, nofun, nofun, fun _ _ => hactive⟩

theorem Streams.sentBy_eq {frames : List UInt8} (h : Streams s.stage frames) (a : Action) :
    s.sentBy a = (s.due a).toList := by
  rw [sentBy_eq_due]
  cases hdue : s.due a with
  | none => exact ite_self _
  | some e => exact if_pos (h.running (phase_of_isRunning (isRunning_of_due hdue))).1

theorem streams_run (h₀ : Streams s₀.stage [])
    (hmodes : ∀ mode, .setSink mode ∈ actions → mode.takes = true) :
    s₀.sent actions = s₀.dueIn actions ∧
      Streams (s₀.run actions).stage (stream ((s₀.dueIn actions).map Envelope.bytes)) := by
  induction actions using List.reverseRecOn with
  | nil => exact ⟨rfl, h₀⟩
  | append_singleton actions a ih =>
    obtain ⟨hsent, hstreams⟩ := ih fun mode hmem => hmodes mode (List.mem_append_left _ hmem)
    rw [sent_concat, dueIn_concat, run_concat, List.map_append, Frame.stream_append, hsent,
      hstreams.sentBy_eq]
    refine ⟨rfl, hstreams.act fun mode ha => hmodes mode ?_⟩
    exact ha ▸ List.mem_append_right _ List.mem_cons_self

/-! ## A task that stops in good order -/

/-- The action stops the task because it is asked to, or because nobody holds the session. -/
def Closes (s : State R N) (a : Action) : Prop :=
  s.obeyed a = some .close ∨
    a = .release ∧ s.isRunning = true ∧ (s.act a).isRunning = false

/-- Then the task has handled all commands up to that one, and lets the outbox finish. -/
theorem Closes.stage_act (h : s.Closes a) :
    s.isRunning = true ∧ (s.obeyed a).toList = upToClose s.commands ∧
      (s.act a).stage = (.flushing, s.outbox.closeOff) := by
  rcases h with ho | ⟨rfl, hrun, hstop⟩
  · obtain ⟨rest, hc, hact⟩ := act_of_obeyed ho
    refine ⟨(commands_of_obeyed ho).1, by rw [ho, hc]; rfl, ?_⟩
    rw [hact]
    exact stage_stop _ .closed
  · rw [act] at hstop ⊢
    split_ifs at hstop ⊢ with hfree
    · simp only [Bool.and_eq_true, List.isEmpty_iff] at hfree
      exact ⟨hrun, by rw [hfree.1.2]; rfl, stage_stop s .closed⟩
    · cases hrun.symm.trans hstop

/-- The task has stopped in good order: the outbox is not stopped before it has finished. -/
structure Finishing (p : Phase × Outbox) : Prop where
  stopped : p.1 ≠ .running
  kept : p.2.writing ≠ .abandoned
  result : ∀ result, p.1 = .stopped result → result = .ok ()

theorem Finishing.act (h : Finishing s.stage) (a : Action) : Finishing (s.act a).stage := by
  have hrun : ¬s.isRunning = true := fun hrun => h.stopped (phase_of_isRunning hrun)
  have hstep := State.stage_act s a
  generalize (s.act a).stage = p at hstep ⊢
  cases hstep with
  | put =>
    cases hdue : s.due a with
    | none => exact h
    | some e => exact absurd (isRunning_of_due hdue) hrun
  | setMode => exact ⟨h.stopped, h.kept, h.result⟩
  | write =>
    refine ⟨h.stopped, fun hw => ?_, h.result⟩
    have hw : s.outbox.step.writing = .abandoned := hw
    rcases s.outbox.step_keeps.2 with hsame | hcomplete | ⟨fault, hbroken⟩
    · exact h.kept (hsame.symm.trans hw)
    · exact nomatch hcomplete.symm.trans hw
    · exact nomatch hbroken.symm.trans hw
  | close hrun' => exact absurd hrun' hrun
  | fail _ hrun' => exact absurd hrun' hrun
  | conclude => exact ⟨nofun, h.kept, fun _ he => (Phase.stopped.inj he).symm⟩

theorem Finishing.run (h : Finishing s.stage) (actions : List Action) :
    Finishing (s.run actions).stage := by
  induction actions generalizing s with
  | nil => exact h
  | cons a actions ih => exact ih (h.act a)

/-- When the outbox has finished, everything is written. -/
theorem Finishing.bytes {frames : List UInt8} (h : Finishing s.stage) (hs : Streams s.stage frames)
    {result : Except Error Unit} (hp : s.phase = .stopped result) :
    s.outbox.sink.bytes = frames := by
  have hinactive : s.outbox.isActive = false := hs.stopped result hp
  exact hs.flows.complete (hs.flows.complete_of_stopped h.kept hinactive)

/-- If the sink does not hold it up, the outbox finishes. -/
theorem Finishing.complete_run {frames : List UInt8} (h : Finishing s.stage)
    (hs : Streams s.stage frames) (hm : s.outbox.sink.mode ≠ .blocking) :
    s.outbox.run.writing = .complete := by
  cases ha : s.outbox.isActive with
  | true =>
    refine Outbox.run_of_willing hs.flows.willing hm ha ?_
    cases hp : s.phase with
    | running => exact absurd hp h.stopped
    | flushing => exact hs.flushing hp
    | stopped result => exact nomatch ha.symm.trans (hs.stopped result hp)
  | false =>
    rw [Outbox.run, if_neg (Bool.eq_false_iff.1 ha)]
    exact hs.flows.complete_of_stopped h.kept ha

/-- Then the task is over. -/
theorem Finishing.stage_settle (h : Finishing s.stage)
    (hcomplete : s.outbox.run.writing = .complete) :
    s.settle.stage = (.stopped (.ok ()), s.outbox.run) := by
  have hwork : s.work = s := by
    rw [work, if_neg fun hrun => h.stopped (phase_of_isRunning hrun)]
  have hwriting : s.write.outbox.writing = .complete := hcomplete
  rw [settle, hwork]
  cases hp : s.phase with
  | running => exact absurd hp h.stopped
  | flushing =>
    have hphase : s.write.phase = .flushing := hp
    rw [noticeOutbox, hphase, hwriting]
    rfl
  | stopped result =>
    obtain rfl := h.result result hp
    have hphase : s.write.phase = .stopped (.ok ()) := hp
    rw [noticeOutbox, hphase]
    exact Prod.ext hp rfl

/-- A task that has stopped gets no commands and handles none. -/
theorem asked_of_stopped (h : s.isRunning = false) (actions : List Action) :
    s.asked actions = [] ∧ s.obeyedIn actions = [] := by
  induction actions generalizing s with
  | nil => exact ⟨rfl, rfl⟩
  | cons a actions ih =>
    have hact := ((core_act s a).of_stopped h).1
    obtain ⟨hasked, hobeyed⟩ := ih hact
    constructor
    · rw [asked, along, askedBy_of_stopped hact]
      exact hasked
    · rw [obeyedIn, along, obeyed_of_stopped h]
      exact hobeyed

/-- At a position of a run the task stops because it is asked to, or because nobody holds the
session. -/
def ClosesAt (s₀ : State R N) (actions : List Action) (j : Nat) : Prop :=
  ∃ s a, s₀.Does actions j s a ∧ s.Closes a

theorem ClosesAt.finishing {j : Nat} (h₀ : Streams s₀.stage [])
    (hmodes : ∀ mode, .setSink mode ∈ actions → mode.takes = true)
    (h : s₀.ClosesAt actions j) : Finishing (s₀.run actions).stage := by
  obtain ⟨s, a, ⟨ha, rfl⟩, hcloses⟩ := h
  obtain ⟨hrun, -, hstage⟩ := hcloses.stage_act
  obtain ⟨-, hstreams⟩ := streams_run h₀ fun mode (hmem : .setSink mode ∈ actions.take j) =>
    hmodes mode (List.mem_of_mem_take hmem)
  have hactive := (hstreams.running (phase_of_isRunning hrun)).1
  have hfinishing : Finishing ((s₀.run (actions.take j)).act a).stage := by
    rw [hstage]
    refine ⟨nofun, fun hw => ?_, nofun⟩
    have hw : (s₀.run (actions.take j)).outbox.writing = .abandoned := hw
    exact nomatch (Outbox.isActive_iff.1 hactive).symm.trans hw
  rw [← List.take_append_drop (j + 1) actions, run_append, run_take_succ ha]
  exact hfinishing.run _

/-- A task that stops in good order has handled the commands up to the first one to stop. -/
theorem obeyedIn_of_closes {before : List Action} (h₀ : s₀.commands = [])
    (h : (s₀.run before).Closes a) (more : List Action) :
    s₀.obeyedIn (before ++ [a] ++ more) = upToClose (s₀.asked (before ++ [a] ++ more)) := by
  obtain ⟨hrun, hobeyed, hstage⟩ := h.stage_act
  have hphase : ((s₀.run before).act a).phase = .flushing := congrArg Prod.fst hstage
  have hstop : ((s₀.run before).act a).isRunning = false := by rw [isRunning, hphase]
  obtain ⟨hasked, hnone⟩ := asked_of_stopped hstop more
  rw [asked, along_append, along_concat, obeyedIn, along_append, along_concat, run_concat]
  change s₀.obeyedIn before ++ _ ++ State.obeyedIn _ more =
    upToClose (s₀.asked before ++ _ ++ State.asked _ more)
  rw [hasked, hnone, hobeyed, askedBy_of_stopped hstop, asked_of_isRunning h₀ hrun,
    List.append_nil, List.append_nil, List.append_nil, upToClose_append (close_notMem_obeyedIn hrun)]

theorem ClosesAt.obeyedIn_eq {j : Nat} (h₀ : s₀.commands = []) (h : s₀.ClosesAt actions j) :
    s₀.obeyedIn actions = upToClose (s₀.asked actions) := by
  obtain ⟨s, a, ⟨ha, rfl⟩, hcloses⟩ := h
  have hsplit : actions = actions.take j ++ [a] ++ actions.drop (j + 1) := by
    have htake := List.take_append_drop (j + 1) actions
    rwa [List.take_add_one, ha, Option.toList_some, eq_comm] at htake
  have hobeyed := obeyedIn_of_closes h₀ hcloses (actions.drop (j + 1))
  rwa [← hsplit] at hobeyed

/-! ## Sessions before a sink -/

/-- A session that has just been started before a sink. -/
def startWith (registry : Rpc.Registry R N) (config : Config) (sink : Sink) : State R N :=
  { start registry config with outbox := { sink } }

example (registry : Rpc.Registry R N) (config : Config) :
    startWith registry config {} = start registry config := rfl

variable {registry : Rpc.Registry R N} {config : Config} {sink : Sink}

theorem Streams.startWith (h : sink.Willing) (hnew : sink.bytes = []) :
    Streams (startWith registry config sink).stage [] where
  flows :=
    { willing := h
      carries := ⟨hnew ▸ List.prefix_rfl, fun _ => (List.append_nil _).trans
        ((List.append_nil _).trans hnew)⟩
      unbroken := nofun
      complete := nofun }
  running _ := ⟨rfl, rfl⟩
  flushing := nofun
  stopped := nofun

/-- What the owner asks for with a command that is handled is due: no identifier is open already. -/
theorem due_of_obeyed {c : Command} {e : Envelope} (h : s.core.Settling)
    (hsize : s.calls.size < 2 ^ 64) (ho : s.obeyed a = some c) (he : c.envelope? = some e) :
    s.due a = some e := by
  obtain rfl := handle_of_obeyed ho
  rw [due, ho, Option.bind_some]
  cases c with
  | request id method params call =>
    rw [envelopeOf, not_open_of_registers h hsize ⟨method, params, call, ho⟩]
    exact he
  | notify method params => exact he
  | abandon | count | close => cases he

theorem envelopes_sublist (h₀ : s₀.core.Settling) (h : (s₀.run actions).calls.size < 2 ^ 64) :
    ((s₀.obeyedIn actions).filterMap Command.envelope?).Sublist (s₀.dueIn actions) := by
  induction actions using List.reverseRecOn with
  | nil => exact .slnil
  | append_singleton actions a ih =>
    rw [run_concat] at h
    have hsize := (size_calls_act _ a).trans_lt h
    rw [obeyedIn_concat, dueIn_concat, List.filterMap_append]
    refine (ih hsize).append ?_
    cases ho : (s₀.run actions).obeyed a with
    | none => exact List.nil_sublist _
    | some c =>
      cases he : c.envelope? with
      | none =>
        rw [Option.toList_some, List.filterMap_cons_none he]
        exact List.nil_sublist _
      | some e =>
        rw [Option.toList_some, List.filterMap_cons_some he, List.filterMap_nil,
          due_of_obeyed (settling_run_of h₀ hsize) hsize ho he]
        exact .refl _

/-- An answer that is accepted is due. -/
theorem due_of_respond {ticket : Nat} {outcome : Except Failure Json}
    (h : (s.respond ticket outcome).1 = some (.ok ())) :
    ∃ t, s.ticket? ticket = some t ∧
      s.due (.respond ticket outcome) = some (.response t.id outcome) := by
  cases ht : s.ticket? ticket with
  | none =>
    rw [respond_of_none ht] at h
    cases h
  | some t =>
    rw [respond, ht] at h
    dsimp only at h
    split_ifs at h with htakes
    · exact ⟨t, rfl, by rw [due, ht]; exact if_pos htakes⟩
    · cases h

end State

/-- In every run of a session whose sink takes everything, what has been written is the beginning of
the frames of the envelopes that have been due, in the order in which they became due; each of them
has been put into the outbox once, and nothing else. The commands are handled in the order in which
they were queued, which is that in which the owner asked for them. With fewer than 2⁶⁴ calls, the
request or the notification of each command that is handled is due, and so is each answer that is
accepted.

If the task stops because it is asked to, or because nobody holds the session, it has handled all
commands up to the first one to stop, and it is over only when everything that has been due is
written. It gets there if the sink does not hold it up. -/
theorem written_in_order_and_flushed {R N : Type} (registry : Rpc.Registry R N) (config : Config)
    (sink : Sink) (hsink : sink.Willing) (hnew : sink.bytes = []) (actions : List Action)
    (hmodes : ∀ mode, .setSink mode ∈ actions → mode.takes = true) :
    let s₀ := State.startWith registry config sink
    let s := s₀.run actions
    (s.outbox.sink.bytes <+: stream ((s₀.dueIn actions).map Envelope.bytes) ∧
      s₀.sent actions = s₀.dueIn actions) ∧
    (s₀.obeyedIn actions <+: s₀.asked actions ∧
      ∀ j s a c, s₀.Does actions j s a → s.Accepts a c → s.askedBy a = [c]) ∧
    (s.calls.size < 2 ^ 64 →
      ((s₀.obeyedIn actions).filterMap Command.envelope?).Sublist (s₀.dueIn actions)) ∧
    (∀ j ticket outcome, s₀.Responds actions j ticket outcome →
      let s' := s₀.run (actions.take j)
      ∃ t, s'.ticket? ticket = some t ∧
        s'.due (.respond ticket outcome) = some (.response t.id outcome)) ∧
    ∀ j, s₀.ClosesAt actions j →
      s₀.obeyedIn actions = upToClose (s₀.asked actions) ∧
      (∀ result, s.phase = .stopped result → result = .ok () ∧
        s.outbox.sink.bytes = stream ((s₀.dueIn actions).map Envelope.bytes)) ∧
      (s.outbox.sink.mode ≠ .blocking → s.settle.phase = .stopped (.ok ()) ∧
        s.settle.outbox.sink.bytes = stream ((s₀.dueIn actions).map Envelope.bytes)) := by
  intro s₀ s
  have h₀ : State.Streams s₀.stage [] := .startWith hsink hnew
  obtain ⟨hsent, hstreams⟩ := State.streams_run h₀ hmodes
  refine ⟨⟨hstreams.flows.carries.written, hsent⟩,
    ⟨State.obeyedIn_isPrefix_asked rfl actions, fun j s' a c _ h => h.askedBy⟩,
    State.envelopes_sublist (Core.Settling.start registry config),
    fun j ticket outcome h => State.due_of_respond h.2, fun j hj => ?_⟩
  have hfinishing := hj.finishing h₀ hmodes
  refine ⟨hj.obeyedIn_eq rfl, fun result hp => ?_, fun hm => ?_⟩
  · exact ⟨hfinishing.result result hp, hfinishing.bytes hstreams hp⟩
  · have hcomplete := hfinishing.complete_run hstreams hm
    have hsettle := hfinishing.stage_settle hcomplete
    have houtbox : s.settle.outbox = s.outbox.run := congrArg Prod.snd hsettle
    exact ⟨congrArg Prod.fst hsettle, houtbox ▸ hstreams.flows.run.complete hcomplete⟩

/-- A request of the peer is answered before the owner's request is sent. Then the session is closed
while the sink, which takes five bytes at a time, holds up what is written. -/
theorem written_when_closed :
    let registry := (Rpc.Registry.empty : Rpc.Registry Unit Unit).registerRequest
      Rpc.Catalog.shutdown fun _ => ()
    let s₀ := State.startWith registry {} { piece := some 5 }
    let request := Envelope.request (.number 1) Rpc.Catalog.shutdown.name none
    let incoming := Envelope.request (.number 7) Rpc.Catalog.shutdown.name none
    let actions : List Action := [.send Rpc.Catalog.shutdown () false,
      .arrive (Frame.encode incoming.bytes), .receive, .respond 0 (.ok .null), .handle,
      .setSink .blocking, .write, .close, .handle, .setSink .accepting, .write, .write, .write,
      .notice]
    (s₀.run actions).outbox.sink.bytes =
      stream ([Envelope.response (.number 7) (.ok .null), request].map Envelope.bytes) := by
  intro registry s₀ request incoming actions
  have hmodes : ∀ mode, .setSink mode ∈ actions → mode.takes = true := by
    simp [actions, Frame.SinkMode.takes]
  obtain ⟨-, -, -, -, hcloses⟩ := written_in_order_and_flushed registry {} { piece := some 5 }
    ⟨rfl, by decide⟩ rfl actions hmodes
  have hobeyed : (s₀.run (actions.take 8)).obeyed .handle = some .close := by
    have hany : ((s₀.run (actions.take 8)).obeyed .handle).any Command.isClose = true := by
      decide +kernel
    obtain ⟨c, hc, hclose⟩ := (Option.any_eq_true _ _).1 hany
    exact hc.trans (congrArg some (Command.isClose_iff.1 hclose))
  have hstopped : ∃ result, (s₀.run actions).phase = .stopped result :=
    Phase.isStopped_iff.1 (by decide +kernel)
  obtain ⟨-, hwritten, -⟩ := hcloses 8 ⟨_, .handle, ⟨rfl, rfl⟩, .inl hobeyed⟩
  obtain ⟨result, hp⟩ := hstopped
  have hdue : (s₀.dueIn actions).map Envelope.bytes =
      [Envelope.response (.number 7) (.ok .null), request].map Envelope.bytes := by decide +kernel
  exact hdue ▸ (hwritten result hp).2

end PeerRpc.Session
