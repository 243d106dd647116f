import PeerRpc.Proofs.Session.Callers

/-!
# Calls that are given up

As long as the task is at work, a call that is open is waited for by its caller, or the command with
which it is given up is in the queue (`Core.Attended`). So nothing is open when the queue is empty
and nobody holds a call.

* `nothing_left_behind`: then every call that no response has settled has had its request, and after
  it one notification of the session that it is given up.
-/

namespace PeerRpc.Session

open Rpc (Envelope Id)

namespace Core

variable {c c' : Core} {label : Option (Nat × Outcome)} {id : Id} {call i : Nat} {k k' : Call}

/-- The caller of a call still waits for it. -/
def Waited (c : Core) (call : Nat) : Prop :=
  ∃ k, c.calls[call]? = some k ∧ k.Live

/-- A call that is open is waited for, or the task is going to be told that it is given up. A call
that is still queued is waited for, or the task is going to be told so after it has sent the
request. -/
structure Attended (c : Core) : Prop where
  opened : ∀ {id call}, (id, call) ∈ c.pending →
    c.Waited call ∨ ∃ tell, .abandon id tell ∈ c.commands
  queued : ∀ {id method params call}, .request id method params call ∈ c.commands →
    c.Waited call ∨
      ∃ tell, [.request id method params call, .abandon id tell].Sublist c.commands

theorem mem_slots_of_request {method : String} {params : Option Json}
    (h : .request id method params call ∈ c.commands) : (id, call) ∈ c.slots :=
  List.mem_append_left _ (List.mem_filterMap.2 ⟨_, h, rfl⟩)

/-- More commands come behind the others. -/
theorem Attended.of_more {more : List Command} (h : Attended c)
    (hcommands : c'.commands = c.commands ++ more) (hpending : ∀ p ∈ c'.pending, p ∈ c.pending)
    (hkeep : ∀ {id call}, (id, call) ∈ c.slots → c.Waited call →
      c'.Waited call ∨ ∃ tell, more = [.abandon id tell])
    (hnew : ∀ {id method params call}, .request id method params call ∈ more →
      c'.Waited call) : Attended c' where
  opened hp := by
    rw [hcommands]
    have hp := hpending _ hp
    rcases h.opened hp with hwaited | ⟨tell, hmem⟩
    · refine (hkeep (mem_slots_of_pending hp) hwaited).imp_right ?_
      rintro ⟨tell, rfl⟩
      exact ⟨tell, List.mem_append_right _ List.mem_cons_self⟩
    · exact .inr ⟨tell, List.mem_append_left _ hmem⟩
  queued {id method params call} hq := by
    rw [hcommands] at hq ⊢
    rcases List.mem_append.1 hq with hold | hmore
    · rcases h.queued hold with hwaited | ⟨tell, hsub⟩
      · refine (hkeep (mem_slots_of_request hold) hwaited).imp_right ?_
        rintro ⟨tell, rfl⟩
        exact ⟨tell, (List.singleton_sublist.2 hold).append_right _⟩
      · exact .inr ⟨tell, hsub.trans (List.sublist_append_left _ _)⟩
    · exact .inl (hnew hmore)

/-- The first command is taken from the queue. -/
theorem Attended.of_rest {a : Command} {rest : List Command} (h : Attended c)
    (hnodup : (c.slots.map (·.2)).Nodup) (hc : c.commands = a :: rest)
    (hcommands : c'.commands = rest)
    (hpending : ∀ {id call}, (id, call) ∈ c'.pending →
      (id, call) ∈ c.pending ∧ (∀ tell, a ≠ .abandon id tell) ∨
        ∃ method params, a = .request id method params call)
    (hkeep : ∀ {id call}, (id, call) ∈ c.slots → c.Waited call → c'.Waited call) :
    Attended c' where
  opened {id call} hp := by
    rw [hcommands]
    rcases hpending hp with ⟨hp, hne⟩ | ⟨method, params, rfl⟩
    · refine (h.opened hp).imp (hkeep (mem_slots_of_pending hp)) ?_
      rintro ⟨tell, hmem⟩
      rw [hc] at hmem
      exact ⟨tell, List.mem_of_ne_of_mem (hne tell).symm hmem⟩
    · have hq : Command.request id method params call ∈ c.commands := hc ▸ List.mem_cons_self
      refine (h.queued hq).imp (hkeep (mem_slots_of_request hq)) ?_
      rintro ⟨tell, hsub⟩
      rw [hc, List.cons_sublist_cons, List.singleton_sublist] at hsub
      exact ⟨tell, hsub⟩
  queued {id method params call} hq := by
    rw [hcommands] at hq ⊢
    have hq' : Command.request id method params call ∈ c.commands :=
      hc ▸ List.mem_cons_of_mem _ hq
    rcases h.queued hq' with hwaited | ⟨tell, hsub⟩
    · exact .inl (hkeep (mem_slots_of_request hq') hwaited)
    · refine .inr ⟨tell, ?_⟩
      rw [hc] at hsub
      cases hsub with
      | cons _ hsub => exact hsub
      | cons_cons _ hsub =>
        rw [slots_of_request hc, List.map_cons, List.nodup_cons] at hnodup
        have hmem : (id, call) ∈ ({ c with commands := rest } : Core).slots := mem_slots_of_request hq
        exact absurd (List.mem_map_of_mem (f := (·.2)) hmem) hnodup.1

/-- Every step keeps the callers attended if a call whose caller waits for it is not left alone, and
if giving a call up closes it. -/
theorem Attended.step (hs : Step label c c') (h : Attended c) (hsettling : Settling c)
    (hsize : c.calls.size < 2 ^ 64) (hrun : c'.running = true)
    (hlive : ∀ (i : Nat) k, c.calls[i]? = some k → k.Live → k.outcomes = [] →
      c'.Waited i ∨ ∃ tell, c'.commands = c.commands ++ [.abandon k.id tell])
    (hclose : ∀ id tell rest, c.commands = .abandon id tell :: rest → c'.commands = rest →
      id ∉ c'.keys) : Attended c' := by
  have hkeep : ∀ {id call}, (id, call) ∈ c.slots → c.Waited call →
      c'.Waited call ∨ ∃ tell, c'.commands = c.commands ++ [.abandon id tell] := by
    rintro id call hslot ⟨k, hk, hwaits⟩
    have hid : k.id = id := (hsettling.ids hk).trans (hsettling.slots hslot).1.symm
    exact hid ▸ hlive call k hk hwaits (hsettling.unsettled hk (List.mem_map_of_mem hslot))
  have hmore : ∀ more, c'.commands = c.commands ++ more → ∀ {id call}, (id, call) ∈ c.slots →
      c.Waited call → c'.Waited call ∨ ∃ tell, more = [.abandon id tell] := by
    intro more hcommands id call hslot hwaited
    refine (hkeep hslot hwaited).imp_right fun hgiven => hgiven.imp fun tell he => ?_
    exact List.append_cancel_left (hcommands.symm.trans he)
  have hsame : c'.commands = c.commands → (∀ p ∈ c'.pending, p ∈ c.pending) → Attended c' := by
    intro hcommands hpending
    have hcommands : c'.commands = c.commands ++ [] := by rw [hcommands, List.append_nil]
    exact h.of_more hcommands hpending (hmore _ hcommands) (by simp)
  have hrest : ∀ {a rest}, c.commands = a :: rest → c'.commands = rest →
      (∀ {id call}, (id, call) ∈ c'.pending → (id, call) ∈ c.pending ∨
        ∃ method params, a = .request id method params call) → Attended c' := by
    intro a rest hc hcommands hpending
    refine h.of_rest hsettling.nodup hc hcommands (fun {id call} hp => ?_) fun hslot hwaited => ?_
    · refine (hpending hp).imp_left fun hmem => ⟨hmem, ?_⟩
      rintro tell rfl
      exact hclose id tell rest hc hcommands (List.mem_map_of_mem hp)
    · refine (hkeep hslot hwaited).resolve_right ?_
      rintro ⟨tell, he⟩
      have := congrArg List.length (hcommands.symm.trans (he.trans (by rw [hc])))
      simp only [List.length_append, List.length_cons] at this
      omega
  cases hs with
  | same => exact hsame rfl fun p hp => hp
  | refuse => exact hsame rfl fun p hp => hp
  | mark => exact hsame rfl fun p hp => hp
  | answer => exact hsame rfl fun p hp => List.mem_of_mem_filter hp
  | stop => cases hrun
  | send _ method params transient hr =>
    rw [enqueue, if_pos hr] at hmore ⊢
    refine h.of_more rfl (fun p hp => hp) (hmore _ rfl) fun hq => ?_
    obtain ⟨-, -, -, rfl⟩ := Command.request.inj (List.mem_singleton.1 hq)
    exact ⟨_, Array.getElem?_push_size, rfl, rfl, rfl⟩
  | ask _ a ha =>
    unfold enqueue at hmore hsame ⊢
    split_ifs at hmore hsame ⊢
    · refine h.of_more rfl (fun p hp => hp) (hmore _ rfl) fun hq => ?_
      rw [← List.mem_singleton.1 hq] at ha
      cases ha
    · exact hsame rfl fun p hp => hp
  | giveUp _ call f k tell =>
    unfold enqueue at hmore hsame ⊢
    split_ifs at hmore hsame ⊢
    · refine h.of_more rfl (fun p hp => hp) (hmore _ rfl) fun hq => ?_
      cases List.mem_singleton.1 hq
    · exact hsame rfl fun p hp => hp
  | skip _ a rest hc => exact hrest hc rfl .inl
  | abandon _ id tell call rest hc =>
    exact hrest hc rfl fun hp => .inl (List.mem_of_mem_filter hp)
  | reject _ id method params call other rest hc hn =>
    cases hn.symm.trans (hsettling.not_reject hsize hc)
  | register _ id method params call rest hc =>
    refine hrest hc rfl fun hp => (List.mem_append.1 hp).imp_right fun he => ?_
    obtain ⟨rfl, rfl⟩ := Prod.mk.inj (List.mem_singleton.1 he)
    exact ⟨method, params, rfl⟩

/-- A call that gets an outcome other than by a response while the task stays at work has been given
up. -/
theorem Step.abandon_of_outcomes (hs : Step label c c') (h : Settling c)
    (hsize : c.calls.size < 2 ^ 64) (hk : c.calls[i]? = some k) (ho : k.outcomes = [])
    (hk' : c'.calls[i]? = some k') (ho' : k'.outcomes ≠ []) (hlabel : ∀ o, label ≠ some (i, o))
    (hrun : c'.running = true) :
    ∃ tell rest, c.commands = .abandon (idAt i) tell :: rest ∧ c'.commands = rest ∧
      c.pendingCall? (idAt i) = some i := by
  have hcalls : ∀ {P : Prop}, c'.calls = c.calls → P := by
    intro P he
    rw [he, hk] at hk'
    obtain rfl := Option.some.inj hk'
    exact absurd ho ho'
  have hmark : ∀ {P : Prop} {call : Nat} {f : Call → Call} {k₀ : Call}, c.calls[call]? = some k₀ →
      (f k₀).outcomes = k₀.outcomes → c'.calls = c.calls.modify call f → P := by
    intro P call f k₀ hk₀ hf he
    rw [he, Array.getElem?_modify] at hk'
    split_ifs at hk' with hi
    · subst hi
      rw [hk₀] at hk hk'
      obtain rfl := Option.some.inj hk
      obtain rfl := Option.some.inj hk'
      exact absurd (hf.trans ho) ho'
    · rw [hk] at hk'
      obtain rfl := Option.some.inj hk'
      exact absurd ho ho'
  have hsettled : ∀ {call : Nat} {o : Outcome}, c'.calls = settled c.calls call o → call = i := by
    intro call o he
    by_contra hi
    rw [he, getElem?_settled, if_neg hi, hk] at hk'
    obtain rfl := Option.some.inj hk'
    exact ho' ho
  cases hs with
  | same | refuse | skip | register => exact hcalls rfl
  | ask => exact hcalls (by unfold enqueue; split <;> rfl)
  | send _ method params transient hr =>
    rw [enqueue, if_pos hr, Array.getElem?_push_lt (Array.getElem?_eq_some_iff.1 hk).1] at hk'
    obtain ⟨hi, rfl⟩ := Array.getElem?_eq_some_iff.1 hk
    obtain rfl := Option.some.inj hk'
    exact absurd ho ho'
  | mark _ call f k₀ hk₀ _ hf => exact hmark hk₀ hf rfl
  | giveUp _ call f k₀ tell hk₀ _ hf =>
    exact hmark hk₀ hf (by unfold enqueue; split <;> rfl)
  | reject _ id method params call other rest hc hn =>
    cases hn.symm.trans (h.not_reject hsize hc)
  | answer _ id call o => exact absurd (hsettled rfl ▸ rfl) (hlabel o)
  | stop => cases hrun
  | abandon _ id tell call rest hc hn =>
    obtain rfl := hsettled rfl
    have hid : id = idAt call := (h.slots (mem_slots_of_pending (mem_pending_of_pendingCall? hn))).1
    rw [← hid]
    exact ⟨tell, rest, hc, rfl, hn⟩

end Core

namespace Board

variable {R N : Type} {b b' : Board R N}

theorem Uses.commands (h : b.Uses b') : ∃ more, b'.commands = b.commands ++ more := by
  cases h with
  | queue more => exact ⟨more, rfl⟩
  | wait more => exact ⟨more, rfl⟩
  | ask => exact ⟨_, rfl⟩
  | forget | askStopped | leave => exact ⟨[], (List.append_nil _).symm⟩

end Board

namespace State

variable {R N : Type} {s s₀ : State R N} {a : Action} {id : Id}

/-- The first command leaves the queue only when it is handled, or the task stops. -/
theorem obeyed_of_commands {c : Command} {rest : List Command} (hc : s.commands = c :: rest)
    (hrest : (s.act a).commands = rest) (hrun : (s.act a).isRunning = true) :
    s.obeyed a = some c := by
  have hmore : ∀ more, (s.act a).commands ≠ s.commands ++ more := by
    intro more he
    have := congrArg List.length (hrest.symm.trans (he.trans (by rw [hc])))
    simp only [List.length_append, List.length_cons] at this
    omega
  generalize hb : (s.act a).board = b
  have hcommands : (s.act a).commands = b.commands := congrArg Board.commands hb
  have hrunning : (s.act a).isRunning = b.running := congrArg Board.running hb
  rw [hrunning] at hrun
  rw [hcommands] at hmore
  cases hb ▸ board_act s a with
  | use _ h =>
    obtain ⟨more, he⟩ := h.commands
    exact absurd he (hmore more)
  | issue more => exact absurd rfl (hmore more)
  | receive => exact absurd (List.append_nil _).symm (hmore [])
  | stop _ _ h =>
    cases h
    cases hrun
  | obey c' rest' hr hc' h =>
    obtain ⟨rfl, -⟩ := List.cons.inj (hc.symm.trans hc')
    exact obeyed_handle hr hc

/-- A call that is given up is not open any more. -/
theorem notMem_keys_of_obeyed {tell : Bool} (ho : s.obeyed a = some (.abandon id tell)) :
    id ∉ (s.act a).core.keys := by
  have hmem := (board_act s a).mem_keys rfl id
  refine fun h => (hmem.1 h).elim ?_ fun hn => hn.2 (.inr (.inl ⟨tell, ho⟩))
  rintro ⟨method, params, call, ho'⟩
  exact nomatch ho.symm.trans ho'

theorem attended_act (h : s.core.Attended) (hsettling : s.core.Settling)
    (hsize : s.calls.size < 2 ^ 64) (hrun : (s.act a).isRunning = true) :
    (s.act a).core.Attended := by
  refine h.step (core_act s a) hsettling hsize hrun (fun i k hk hlive ho => ?_)
    fun id tell rest hc hrest => ?_
  · exact (live_act hk hlive ho (isRunning_of_act hrun) a).imp_right fun he => ⟨_, he⟩
  · exact notMem_keys_of_obeyed (obeyed_of_commands hc hrest hrun)

/-! ## Runs -/

variable {registry : Rpc.Registry R N} {config : Config} {actions : List Action} {i j : Nat}
  {k : Call}

theorem attended_run (h : ((start registry config).run actions).calls.size < 2 ^ 64)
    (hrun : ((start registry config).run actions).isRunning = true) :
    ((start registry config).run actions).core.Attended := by
  induction actions using List.reverseRecOn with
  | nil => exact ⟨nofun, nofun⟩
  | append_singleton actions a ih =>
    rw [run_concat] at h hrun ⊢
    have hsize := (size_calls_act _ a).trans_lt h
    exact attended_act (ih hsize (isRunning_of_act hrun)) (settling_run hsize) hsize hrun

/-- At a position of a run the task handles the command with which an open call is given up. -/
def GivesUp (s₀ : State R N) (actions : List Action) (j : Nat) (id : Id) (tell : Bool) : Prop :=
  ∃ s a, s₀.Does actions j s a ∧ s.obeyed a = some (.abandon id tell) ∧ id ∈ s.core.keys

/-- A call that no response has settled has been given up if it has an outcome while the task is at
work. -/
theorem gives_up_run (h : ((start registry config).run actions).calls.size < 2 ^ 64)
    (hrun : ((start registry config).run actions).isRunning = true)
    (hk : ((start registry config).run actions).calls[i]? = some k) (ho : k.outcomes ≠ [])
    (hanswered : ∀ o, ¬(start registry config).Answered actions i o) :
    ∃ j tell, (start registry config).GivesUp actions j (idAt i) tell := by
  induction actions using List.reverseRecOn generalizing k with
  | nil => simp [start, log] at hk
  | append_singleton actions a ih =>
    rw [run_concat] at h hrun hk
    have hsize := (size_calls_act _ a).trans_lt h
    have hsettling := settling_run hsize
    have hstep := core_act ((start registry config).run actions) a
    rcases hstep.outcomes hsettling hsize hk with ⟨-, hnil⟩ | ⟨k₀, hk₀, -, hsame⟩
    · exact absurd hnil ho
    · by_cases hnil : k₀.outcomes = []
      · have hlabel : ∀ o, ((start registry config).run actions).answered a ≠ some (i, o) :=
          fun o hl => hanswered o ⟨actions, a, [], rfl, hl⟩
        obtain ⟨tell, rest, hc, hrest, hn⟩ :=
          hstep.abandon_of_outcomes hsettling hsize hk₀ hnil hk ho hlabel hrun
        exact ⟨_, tell, _, a, does_last _ actions a, obeyed_of_commands hc hrest hrun,
          Core.mem_keys_iff.2 ⟨i, hn⟩⟩
      · obtain ⟨j, tell, s, b, hb, hgiven⟩ := ih hsize (isRunning_of_act hrun) hk₀ hnil
          fun o ha => hanswered o (ha.append [a])
        exact ⟨j, tell, s, b, does_concat.2 (.inl hb), hgiven⟩

/-- An open call has no outcome. -/
theorem outcomes_of_mem_keys (h : s.core.Settling) (hsize : s.calls.size < 2 ^ 64)
    (hi : i < 2 ^ 64) (hmem : idAt i ∈ s.core.keys) :
    ∃ k, s.calls[i]? = some k ∧ k.outcomes = [] := by
  obtain ⟨call, hn⟩ := Core.mem_keys_iff.1 hmem
  have hslot := Core.mem_slots_of_pending (Core.mem_pending_of_pendingCall? hn)
  obtain ⟨hid, hlt⟩ := h.slots hslot
  obtain rfl := idAt_inj hi (hlt.trans hsize) hid
  exact ⟨_, Array.getElem?_eq_getElem hlt,
    h.unsettled (Array.getElem?_eq_getElem hlt) (List.mem_map_of_mem (f := (·.2)) hslot)⟩

theorem handle_of_obeyed {c : Command} (ho : s.obeyed a = some c) : a = .handle := by
  unfold obeyed at ho
  split at ho
  · rfl
  · cases ho

theorem act_of_obeyed {c : Command} (ho : s.obeyed a = some c) :
    ∃ rest, s.commands = c :: rest ∧ s.act a = { s with commands := rest }.handleCommand c := by
  obtain ⟨hrun, rest, hc⟩ := commands_of_obeyed ho
  refine ⟨rest, hc, ?_⟩
  rw [handle_of_obeyed ho, act, if_pos hrun, handleNext, hc]

theorem act_of_abandon {tell : Bool} {call : Nat} (ho : s.obeyed a = some (.abandon id tell))
    (hn : s.pendingCall? id = some call) :
    ∃ rest, s.act a =
      if tell then ((({ s with commands := rest } : State R N).closePending id).settleCall call
        (.error .cancelled)).sendCancel id
      else (({ s with commands := rest } : State R N).closePending id).settleCall call
        (.error .cancelled) := by
  obtain ⟨rest, -, hact⟩ := act_of_obeyed ho
  have hn : ({ s with commands := rest } : State R N).pendingCall? id = some call := hn
  refine ⟨rest, ?_⟩
  rw [hact, handleCommand, hn]

theorem calls_of_abandon {tell : Bool} {call : Nat} (ho : s.obeyed a = some (.abandon id tell))
    (hn : s.pendingCall? id = some call) :
    (s.act a).calls = settled s.calls call (.error .cancelled) := by
  obtain ⟨rest, hact⟩ := act_of_abandon ho hn
  rw [hact]
  split_ifs
  · have hcore := core_sendCancel
      ((({ s with commands := rest } : State R N).closePending id).settleCall call
        (.error .cancelled)) id
    exact congrArg Core.calls hcore
  · rfl

/-- A call that has been given up is not open any more. -/
theorem GivesUp.notMem_keys {tell : Bool}
    (h : ((start registry config).run actions).calls.size < 2 ^ 64) (hi : i < 2 ^ 64)
    (hj : (start registry config).GivesUp actions j (idAt i) tell) {n : Nat} (hn : j < n) :
    idAt i ∉ ((start registry config).run (actions.take n)).core.keys := by
  obtain ⟨s, a, ⟨ha, rfl⟩, ho, hmem⟩ := hj
  intro hmem'
  have hsettling := fun n => settling_run (size_calls_take_lt h n)
  -- The call has an outcome from then on, but none when it is open.
  obtain ⟨k, hk, ho₀⟩ :=
    outcomes_of_mem_keys (hsettling j) (size_calls_take_lt h j) hi hmem
  obtain ⟨k', hk', ho'⟩ :=
    outcomes_of_mem_keys (hsettling n) (size_calls_take_lt h n) hi hmem'
  obtain ⟨call, hcall⟩ := Core.mem_keys_iff.1 hmem
  obtain ⟨hid, hlt⟩ :=
    (hsettling j).slots (Core.mem_slots_of_pending (Core.mem_pending_of_pendingCall? hcall))
  obtain rfl := idAt_inj hi (hlt.trans (size_calls_take_lt h j)) hid
  have hafter : ((start registry config).run (actions.take (j + 1))).calls[i]? =
      some { k with outcomes := k.outcomes ++ [.error .cancelled] } := by
    rw [run_take_succ ha, calls_of_abandon ho hcall, getElem?_settled, if_pos rfl, hk]
    rfl
  have hsplit := take_eq_append actions hn
  obtain ⟨k'', hk'', ho''⟩ := outcomes_run_of_settled ((actions.take n).drop (j + 1))
    (hsplit ▸ size_calls_take_lt h n) hafter (by simp)
  rw [← hsplit, hk'] at hk''
  obtain rfl := Option.some.inj hk''
  rw [ho', ho₀] at ho''
  cases ho''

/-- A call is given up only once. -/
theorem GivesUp.not_before {j' : Nat} {tell tell' : Bool}
    (h : ((start registry config).run actions).calls.size < 2 ^ 64) (hi : i < 2 ^ 64)
    (hj : (start registry config).GivesUp actions j (idAt i) tell)
    (hj' : (start registry config).GivesUp actions j' (idAt i) tell') : ¬j < j' := by
  obtain ⟨s', a', ⟨-, rfl⟩, -, hmem'⟩ := hj'
  exact fun hlt => hj.notMem_keys h hi hlt hmem'

/-! ## What the peer is told -/

/-- The notification that the request of an identifier is given up. -/
def cancelNotice (id : Id) : Envelope :=
  .notification Rpc.Catalog.cancel.name (some (.object [("id", id.toJson)]))

/-- At a position of a run the session sends the request of an identifier. -/
def Requested (s₀ : State R N) (actions : List Action) (j : Nat) (id : Id) : Prop :=
  ∃ s a method params call, s₀.Does actions j s a ∧
    s.obeyed a = some (.request id method params call) ∧ s.sentBy a = [.request id method params]

/-- At a position of a run the session itself, and not its owner, tells the peer that the request of
an identifier is given up. -/
def Withdrawn (s₀ : State R N) (actions : List Action) (j : Nat) (id : Id) : Prop :=
  ∃ s a tell, s₀.Does actions j s a ∧ s.obeyed a = some (.abandon id tell) ∧
    s.sentBy a = [cancelNotice id]

theorem encode_cancel (id : Id) :
    Rpc.Catalog.cancel.params.encode ⟨id⟩ = .ok (some (.object [("id", id.toJson)])) := by
  cases id <;> rfl

theorem outbox_sendCancel (s : State R N) (id : Id) :
    (s.sendCancel id).outbox = s.outbox.put (cancelNotice id) := by
  have h := encode_cancel id
  unfold sendCancel
  split
  · rename_i params hp
    obtain rfl := Except.ok.inj (hp.symm.trans h)
    rfl
  · rename_i fault hp
    cases hp.symm.trans h

theorem sentBy_of_abandon (ho : s.obeyed a = some (.abandon id true)) (hmem : id ∈ s.core.keys)
    (hactive : s.outbox.isActive = true) : s.sentBy a = [cancelNotice id] := by
  obtain ⟨call, hn⟩ := Core.mem_keys_iff.1 hmem
  obtain ⟨rest, hact⟩ := act_of_abandon ho hn
  refine sentBy_of_put hactive ?_
  rw [hact, if_pos rfl, outbox_sendCancel]
  rfl

/-- Nothing is sent for a call that is not open any more. -/
theorem mem_keys_of_sentBy {tell : Bool} (ho : s.obeyed a = some (.abandon id tell))
    (hsent : s.sentBy a ≠ []) : id ∈ s.core.keys := by
  by_contra hmem
  have hn : s.pendingCall? id = none := Core.pendingCall?_eq_none.2 hmem
  obtain ⟨rest, -, hact⟩ := act_of_obeyed ho
  have hn : ({ s with commands := rest } : State R N).pendingCall? id = none := hn
  refine hsent (sentBy_of_outbox ?_)
  rw [hact, handleCommand, hn]

theorem sentBy_of_request {method : String} {params : Option Json} {call : Nat}
    (ho : s.obeyed a = some (.request id method params call)) (hn : s.pendingCall? id = none)
    (hactive : s.outbox.isActive = true) : s.sentBy a = [.request id method params] := by
  obtain ⟨rest, -, hact⟩ := act_of_obeyed ho
  have hn : ({ s with commands := rest } : State R N).pendingCall? id = none := hn
  refine sentBy_of_put hactive ?_
  rw [hact, handleCommand, hn]
  rfl

theorem isActive_of_act (h : (s.act a).outbox.isActive = true) : s.outbox.isActive = true := by
  rcases puts_act s a with hq | ⟨e, -, hactive, -⟩
  · exact hq.isActive_of h
  · exact hactive

theorem isActive_of_run (h : (s.run actions).outbox.isActive = true) :
    s.outbox.isActive = true := by
  induction actions generalizing s with
  | nil => exact h
  | cons a actions ih => exact isActive_of_act (ih h)

theorem isActive_take (h : (s.run actions).outbox.isActive = true) (j : Nat) :
    (s.run (actions.take j)).outbox.isActive = true := by
  rw [← List.take_append_drop j actions, run_append] at h
  exact isActive_of_run h

theorem Does.of_take {n : Nat} (h : s₀.Does (actions.take n) i s a) :
    i < n ∧ s₀.Does actions i s a := by
  obtain ⟨ha, rfl⟩ := h
  have hi : i < n := by
    have := (List.getElem?_eq_some_iff.1 ha).1
    rw [List.length_take] at this
    omega
  rw [List.getElem?_take_of_lt hi] at ha
  rw [List.take_take, Nat.min_eq_left hi.le]
  exact ⟨hi, ha, rfl⟩

/-- The command that sends the request of an open call has been handled before. -/
theorem registers_before {n : Nat}
    (hmem : id ∈ ((start registry config).run (actions.take n)).core.keys) :
    ∃ i s b, i < n ∧ (start registry config).Does actions i s b ∧ s.Registers b id := by
  obtain ⟨i, s, b, hdoes, hin, -⟩ := (mem_keys_run _ _).1 hmem
  obtain ⟨hi, hdoes⟩ := hdoes.of_take
  exact ⟨i, s, b, hi, hdoes, hin⟩

/-- The request of a call that is given up was sent before. -/
theorem GivesUp.requested {tell : Bool}
    (h : ((start registry config).run actions).calls.size < 2 ^ 64)
    (hactive : ((start registry config).run actions).outbox.isActive = true)
    (hj : (start registry config).GivesUp actions j id tell) :
    ∃ i, i < j ∧ (start registry config).Requested actions i id := by
  obtain ⟨s, a, ⟨-, rfl⟩, -, hmem⟩ := hj
  obtain ⟨i, s, b, hi, ⟨hb, rfl⟩, method, params, call, ho⟩ := registers_before hmem
  have hsize := size_calls_take_lt h i
  have hn := not_open_of_registers (settling_run hsize) hsize ⟨method, params, call, ho⟩
  exact ⟨i, hi, _, b, method, params, call, ⟨hb, rfl⟩, ho,
    sentBy_of_request ho hn (isActive_take hactive i)⟩

/-- A call that is given up is withdrawn then, and only then. -/
theorem GivesUp.withdrawn {tell : Bool}
    (h : ((start registry config).run actions).calls.size < 2 ^ 64) (hi : i < 2 ^ 64)
    (hactive : ((start registry config).run actions).outbox.isActive = true)
    (hpolicy : config.cancelOnAbandon = true)
    (hj : (start registry config).GivesUp actions j (idAt i) tell) :
    (start registry config).Withdrawn actions j (idAt i) ∧
      ∀ j', (start registry config).Withdrawn actions j' (idAt i) → j' = j := by
  have hgiven := hj
  obtain ⟨s, a, ⟨ha, rfl⟩, ho, hmem⟩ := hj
  obtain ⟨hrun, rest, hc⟩ := commands_of_obeyed ho
  obtain rfl : tell = true := (tell_run hrun (hc ▸ List.mem_cons_self)).trans hpolicy
  refine ⟨⟨_, a, true, ⟨ha, rfl⟩, ho, sentBy_of_abandon ho hmem (isActive_take hactive j)⟩, ?_⟩
  rintro j' ⟨s', a', tell', hdoes, ho', hsent⟩
  have hgiven' : (start registry config).GivesUp actions j' (idAt i) tell' :=
    ⟨s', a', hdoes, ho', mem_keys_of_sentBy ho' (hsent ▸ List.cons_ne_nil _ _)⟩
  exact Nat.le_antisymm (not_lt.1 (hgiven.not_before h hi hgiven'))
    (not_lt.1 (hgiven'.not_before h hi hgiven))

end State

/-- In every run of a session with fewer than 2⁶⁴ calls, each call that is open is held by a caller
who has neither cancelled it nor been told how it ended, or the command with which it is given up is
in the queue. So when a task that is at work finds that nobody holds the session and its queue is
empty, no call is open. If the peer is to be told of calls that are given up and no write has
failed, then each call that no response has settled has had its request, and after it exactly one
notification of the session's own that it is given up; the sink has not been shut down yet. -/
theorem nothing_left_behind {R N : Type} (registry : Rpc.Registry R N) (config : Config)
    (actions : List Action)
    (h : ((State.start registry config).run actions).calls.size < 2 ^ 64) :
    let s₀ := State.start registry config
    let s := s₀.run actions
    (∀ id call, (id, call) ∈ s.pending → ∃ k, s.calls[call]? = some k ∧ k.id = id ∧
      (k.Live ∨ ∃ tell, .abandon id tell ∈ s.commands)) ∧
    (s.isRunning = true → s.commands = [] → s.isHeld = false →
      s.pending = [] ∧
      (config.cancelOnAbandon = true → s.outbox.isActive = true →
        ∀ (i : Nat) k, s.calls[i]? = some k → (∀ o, ¬s₀.Answered actions i o) →
          ∃ p q, p < q ∧ s₀.Requested actions p k.id ∧ s₀.Withdrawn actions q k.id ∧
            ∀ q', s₀.Withdrawn actions q' k.id → q' = q)) := by
  intro s₀ s
  have hsettling : s.core.Settling := State.settling_run h
  constructor
  · intro id call hp
    have hrun : s.isRunning = true := by
      by_contra hr
      have hnone : s.pending = [] := (hsettling.stopped (Bool.eq_false_iff.2 hr)).2
      exact absurd (hnone ▸ hp) List.not_mem_nil
    obtain ⟨hid, hlt⟩ := hsettling.slots (Core.mem_slots_of_pending hp)
    have hk : s.calls[call]? = some s.calls[call] := Array.getElem?_eq_getElem hlt
    refine ⟨_, hk, (hsettling.ids hk).trans hid.symm, ?_⟩
    refine ((State.attended_run h hrun).opened hp).imp_left ?_
    rintro ⟨k, hk', hlive⟩
    exact Option.some.inj (hk'.symm.trans hk) ▸ hlive
  · intro hrun hcommands hheld
    have hattended := State.attended_run h hrun
    have hpending : s.pending = [] := by
      refine List.eq_nil_iff_forall_not_mem.2 fun p hp => ?_
      rcases hattended.opened hp with ⟨k, hk, hlive⟩ | ⟨tell, hmem⟩
      · have hany : s.calls.any (·.held) = true :=
          Array.any_eq_true'.2 ⟨k, Array.mem_of_getElem? hk, hlive.held⟩
        simp [State.isHeld, hany] at hheld
      · have hmem : Command.abandon p.1 tell ∈ s.commands := hmem
        rw [hcommands] at hmem
        cases hmem
    refine ⟨hpending, fun hpolicy hactive i k hk hanswered => ?_⟩
    have hslots : s.core.slots = [] := by
      change s.commands.filterMap Core.callOf ++ s.pending = []
      rw [hcommands, hpending]
      rfl
    obtain ⟨o, ho⟩ := hsettling.settled hk (by simp [hslots])
    obtain ⟨q, tell, hgiven⟩ := State.gives_up_run h hrun hk (ho ▸ List.cons_ne_nil _ _) hanswered
    obtain ⟨p, hpq, hrequested⟩ := hgiven.requested h hactive
    have hi : i < 2 ^ 64 := (Array.getElem?_eq_some_iff.1 hk).1.trans h
    obtain ⟨hwithdrawn, hunique⟩ := hgiven.withdrawn h hi hactive hpolicy
    rw [hsettling.ids hk]
    exact ⟨p, q, hpq, hrequested, hwithdrawn, hunique⟩

/-- A call is let go of while it is open. -/
theorem withdrawn_when_dropped :
    let s₀ := State.start (Rpc.Registry.empty : Rpc.Registry Unit Unit) {}
    let actions : List Action := [.send Rpc.Catalog.shutdown () false, .handle, .dropHandle,
      .dropCall 0, .handle]
    (s₀.run actions).pending = [] ∧ ∃ p q, p < q ∧ s₀.Requested actions p (.number 1) ∧
      s₀.Withdrawn actions q (.number 1) ∧ ∀ q', s₀.Withdrawn actions q' (.number 1) → q' = q := by
  intro s₀ actions
  obtain ⟨-, hdrained⟩ := nothing_left_behind (Rpc.Registry.empty : Rpc.Registry Unit Unit) {}
    actions (by decide +kernel)
  obtain ⟨hpending, hwithdrawn⟩ := hdrained (by decide +kernel) (by rfl) (by decide +kernel)
  refine ⟨hpending, hwithdrawn rfl (by decide +kernel) 0 _ rfl ?_⟩
  rintro o ⟨before, a, after, hsplit, ha⟩
  have hmem : a ∈ actions := hsplit ▸ List.mem_append_right _ List.mem_cons_self
  simp only [actions, List.mem_cons, List.not_mem_nil, or_false] at hmem
  rcases hmem with rfl | rfl | rfl | rfl | rfl <;> cases ha

/-- A call is let go of while it is open. If the owner has told the peer already, the peer is told
twice; if the response comes before the task learns of it, the peer is not told. -/
theorem told_twice_or_never :
    let s₀ := State.start (Rpc.Registry.empty : Rpc.Registry Unit Unit) {}
    let owner : List Action := [.send Rpc.Catalog.shutdown () false, .handle,
      .notify Rpc.Catalog.cancel ⟨.number 1⟩, .handle, .dropHandle, .dropCall 0, .handle]
    let race : List Action := [.send Rpc.Catalog.shutdown () false, .handle,
      .arrive (Frame.encode (Rpc.Envelope.success (.number 1) .null).bytes), .dropHandle,
      .dropCall 0, .receive, .handle]
    let request := Rpc.Envelope.request (.number 1) Rpc.Catalog.shutdown.name none
    let notice := State.cancelNotice (.number 1)
    ((s₀.run (owner.take 5)).pending = [(.number 1, 0)] ∧ (s₀.run owner).isRunning = true ∧
      (s₀.run owner).commands = [] ∧ (s₀.run owner).isHeld = false ∧
      (s₀.run owner).outbox.isActive = true ∧
      (s₀.sent owner).map Envelope.bytes = [request.bytes, notice.bytes, notice.bytes]) ∧
    ((s₀.run (race.take 4)).pending = [(.number 1, 0)] ∧ (s₀.run race).isRunning = true ∧
      (s₀.run race).commands = [] ∧ (s₀.run race).isHeld = false ∧
      (s₀.run race).outbox.isActive = true ∧
      (s₀.sent race).map Envelope.bytes = [request.bytes]) := by
  intro s₀ owner race request notice
  -- Whether two lists of commands are equal cannot be decided, but whether one is empty can.
  rw [← List.isEmpty_iff, ← List.isEmpty_iff]
  decide +kernel

end PeerRpc.Session
