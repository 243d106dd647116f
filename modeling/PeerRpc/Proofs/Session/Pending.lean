import PeerRpc.Proofs.Session.Board

/-!
# The identifiers of a session and its open calls

A session numbers its requests, and keeps the identifiers of the calls that are open in a table. An
identifier comes into the table when the command is handled that sends its request, and leaves it
with a response, when the call is given up, or when the task stops.

* `open_calls_run`: as long as the numbers do not come round again, all identifiers differ, the
  table holds those that have come and have not left, whoever asks for their number learns it, and
  no request is ever refused because its identifier is open.
-/

namespace PeerRpc.Session

open Rpc (Id)

theorem Waiter.told_eq_some {x : Waiter} {n m : Nat} (h : x.told n = .counting (some m)) :
    m = n := by
  cases x with
  | counting answer => exact (Option.some.inj (Waiter.counting.inj h)).symm
  | joining => cases h
  | gone => cases h

theorem Waiter.told_ne_none (x : Waiter) (n : Nat) : x.told n ≠ .counting none := by
  cases x <;> simp [Waiter.told]

namespace Board

variable {R N : Type} {b b' : Board R N} {w n : Nat}

theorem Uses.keeps (h : b.Uses b') :
    b'.running = b.running ∧ b'.nextId = b.nextId ∧ b'.pending = b.pending := by
  cases h <;> exact ⟨rfl, rfl, rfl⟩

theorem Obeys.nextId_eq {c : Command} (h : b.Obeys c b') : b'.nextId = b.nextId := by
  cases h with
  | close _ h =>
    cases h
    rfl
  | _ => rfl

/-- What a command does to the table. -/
theorem Obeys.mem_keys {c : Command} (h : b.Obeys c b') (hrun : b.running = true) (id : Id) :
    id ∈ b'.keys ↔ (∃ method params call, c = .request id method params call) ∨
      id ∈ b.keys ∧ (∀ tell, c ≠ .abandon id tell) ∧ b'.running = true := by
  have hrequest : ∀ id' method params call, (∃ method' params' call',
      Command.request id' method params call = .request id method' params' call') ↔ id' = id := by
    simp
  cases h with
  | register id' method params call hn =>
    rw [hrequest]
    simp [keys, hrun, or_comm, @eq_comm _ id' id]
  | reject id' method params call hn events =>
    rw [hrequest]
    exact ⟨fun h => .inr ⟨h, nofun, hrun⟩, fun h => h.elim (fun he => he ▸ hn) (·.1)⟩
  | notify method params => simp [hrun]
  | abandon id' tell =>
    have hfilter : keys { b with pending := b.pending.filter fun p => p.1 ≠ id' } =
        b.keys.filter (· ≠ id') := map_fst_filter b.pending fun key => key ≠ id'
    rw [hfilter, List.mem_filter]
    simp [hrun, @eq_comm _ id' id]
  | count waiter => simp [keys, hrun]
  | close _ h =>
    obtain ⟨waiters, -⟩ := h
    simp [keys]

/-! ## Those who ask for the number of open calls -/

theorem Uses.answer (h : b.Uses b') (hw : b'.waiters[w]? = some (.counting (some n))) :
    b.waiters[w]? = some (.counting (some n)) ∨ n = 0 ∧ b'.running = false := by
  cases h with
  | queue | forget => exact .inl hw
  | wait | ask =>
    rw [Array.getElem?_push] at hw
    split_ifs at hw
    · cases hw
    · exact .inl hw
  | askStopped hr =>
    rw [Array.getElem?_push] at hw
    split_ifs at hw
    · obtain rfl := Option.some.inj (Waiter.counting.inj (Option.some.inj hw))
      exact .inr ⟨rfl, hr⟩
    · exact .inl hw
  | leave waiter =>
    rw [Array.getElem?_modify] at hw
    split_ifs at hw
    · obtain ⟨x, -, hx⟩ := Option.map_eq_some_iff.1 hw
      cases hx
    · exact .inl hw

theorem Stops.answer (h : b.Stops b') (hw : b'.waiters[w]? = some (.counting (some n))) :
    b.waiters[w]? = some (.counting (some n)) ∨ n = 0 ∧ b'.running = false := by
  obtain ⟨waiters, h⟩ := h
  rcases h w _ hw with he | ⟨hw, -⟩
  · obtain rfl := Option.some.inj (Waiter.counting.inj he)
    exact .inr ⟨rfl, rfl⟩
  · exact .inl hw

/-- A waiter that knows no number yet has its command in the queue of a task that is at work. -/
def Waits (b : Board R N) : Prop :=
  ∀ w : Nat, b.waiters[w]? = some (.counting none) → b.running = true ∧ .count w ∈ b.commands

theorem Uses.waits (h : b.Uses b') (hb : b.Waits) : b'.Waits := by
  intro w hw
  have hmore : ∀ more, b.waiters[w]? = some (.counting none) →
      b.running = true ∧ Command.count w ∈ b.commands ++ more :=
    fun more hw => (hb w hw).imp_right (List.mem_append_left _)
  cases h with
  | queue more => exact hmore more hw
  | forget => exact hb w hw
  | wait more =>
    rw [Array.getElem?_push] at hw
    split_ifs at hw
    · cases hw
    · exact hmore more hw
  | ask hr =>
    rw [Array.getElem?_push] at hw
    split_ifs at hw with he
    · exact ⟨hr, List.mem_append_right _ (he ▸ List.mem_cons_self)⟩
    · exact hmore _ hw
  | askStopped =>
    rw [Array.getElem?_push] at hw
    split_ifs at hw
    · cases hw
    · exact hb w hw
  | leave waiter =>
    rw [Array.getElem?_modify] at hw
    split_ifs at hw
    · obtain ⟨x, -, hx⟩ := Option.map_eq_some_iff.1 hw
      cases hx
    · exact hb w hw

/-- Nobody waits for a task that has stopped. -/
theorem Stops.waits (h : b.Stops b')
    (hb : ∀ w : Nat, b.waiters[w]? = some (.counting none) → .count w ∈ b.commands) :
    b'.Waits := by
  intro w hw
  obtain ⟨waiters, h⟩ := h
  rcases h w _ hw with he | ⟨hw, hrefused⟩
  · cases he
  · exact absurd (hb w hw) (hrefused rfl)

theorem Obeys.waits {c : Command} (h : b.Obeys c b')
    (hb : ∀ w : Nat, b.waiters[w]? = some (.counting none) →
      b.running = true ∧ (c = .count w ∨ .count w ∈ b.commands)) : b'.Waits := by
  have hother : (∀ w, c ≠ .count w) → b.Waits :=
    fun hc w hw => (hb w hw).imp_right fun h => h.resolve_left (hc w)
  cases h with
  | register | reject | notify | abandon => exact fun w => hother nofun w
  | close _ h => exact h.waits fun w hw => (hother nofun w hw).2
  | count waiter =>
    intro w hw
    rw [Array.getElem?_modify] at hw
    split_ifs at hw with he
    · obtain ⟨x, -, hx⟩ := Option.map_eq_some_iff.1 hw
      exact absurd hx (x.told_ne_none _)
    · refine (hb w hw).imp_right fun h => h.resolve_left fun hc => ?_
      exact he (Command.count.inj hc)

end Board

namespace Core

variable {c c' : Core} {label : Option (Nat × Outcome)}

/-- A step that makes a call takes an identifier. -/
theorem Step.size_calls (hs : Step label c c') :
    c'.calls.size = c.calls.size ∨
      c'.calls.size = c.calls.size + 1 ∧ c'.nextId = c.nextId + 1 := by
  cases hs with
  | send _ method params transient hr =>
    rw [enqueue, if_pos hr]
    exact .inr ⟨Array.size_push _, rfl⟩
  | ask => exact .inl (by unfold enqueue; split <;> rfl)
  | mark => exact .inl Array.size_modify
  | giveUp => exact .inl (by unfold enqueue; split <;> exact Array.size_modify)
  | stop => exact .inl (size_allClosed _ _)
  | reject | abandon | answer => exact .inl (size_settled _ _ _)
  | same | refuse | skip | register => exact .inl rfl

end Core

namespace State

variable {R N : Type} {s s₀ : State R N} {a : Action} {actions : List Action} {id : Id}
  {b : Board R N} {w n : Nat}

/-! ## Positions of a run -/

/-- At a position of a run, an action happens to a state. -/
def Does (s₀ : State R N) (actions : List Action) (i : Nat) (s : State R N) (a : Action) : Prop :=
  actions[i]? = some a ∧ s = s₀.run (actions.take i)

theorem Does.lt {i : Nat} (h : s₀.Does actions i s a) : i < actions.length :=
  (List.getElem?_eq_some_iff.1 h.1).1

theorem does_concat {i : Nat} {last : Action} :
    s₀.Does (actions ++ [last]) i s a ↔
      s₀.Does actions i s a ∨ i = actions.length ∧ s = s₀.run actions ∧ a = last := by
  unfold Does
  rcases Nat.lt_trichotomy i actions.length with hi | rfl | hi
  · rw [List.getElem?_append_left hi, List.take_append_of_le_length hi.le]
    simp [hi.ne]
  · simp [eq_comm, and_comm]
  · rw [List.getElem?_eq_none (by simp; omega), List.getElem?_eq_none hi.le]
    simp [hi.ne']

theorem does_last (s₀ : State R N) (actions : List Action) (a : Action) :
    s₀.Does (actions ++ [a]) actions.length (s₀.run actions) a :=
  does_concat.2 (.inr ⟨rfl, rfl, rfl⟩)

/-! ## What comes into the table and leaves it -/

/-- The action handles the command that sends the request of an identifier. -/
def Registers (s : State R N) (a : Action) (id : Id) : Prop :=
  ∃ method params call, s.obeyed a = some (.request id method params call)

/-- The action takes an identifier out of the table, if it is there: it handles a response, or the
command with which the call is given up, or the task stops. -/
def Removes (s : State R N) (a : Action) (id : Id) : Prop :=
  (∃ payload r, s.handled a = some payload ∧ response? payload = some r ∧ r.id = id) ∨
    (∃ tell, s.obeyed a = some (.abandon id tell)) ∨
    s.isRunning = true ∧ (s.act a).isRunning = false

theorem obeyed_handle {c : Command} {rest : List Command} (hrun : s.isRunning = true)
    (hc : s.commands = c :: rest) : s.obeyed .handle = some c := by
  rw [obeyed, if_pos hrun, hc, List.head?_cons]

theorem commands_of_obeyed {c : Command} (h : s.obeyed a = some c) :
    s.isRunning = true ∧ ∃ rest, s.commands = c :: rest := by
  unfold obeyed at h
  split at h
  · split_ifs at h with hrun
    exact ⟨hrun, List.head?_eq_some_iff.1 h⟩
  · cases h

theorem not_registers (h : ∀ c, s.obeyed a ≠ some c) : ¬s.Registers a id :=
  fun ⟨_, _, _, ho⟩ => h _ ho

theorem not_removes (ho : ∀ c, s.obeyed a ≠ some c) (hp : s.handled a = none)
    (hr : (s.act a).isRunning = s.isRunning) : ¬s.Removes a id := by
  rintro (⟨payload, r, h, -⟩ | ⟨tell, h⟩ | ⟨hrun, hstop⟩)
  · exact nomatch hp.symm.trans h
  · exact ho _ h
  · exact nomatch (hr.trans hrun).symm.trans hstop

/-- An identifier is in the table after an action if the action brings it in, or if it was there and
the action does not take it out. -/
theorem BoardStep.mem_keys (h : BoardStep s a b) (hb : (s.act a).isRunning = b.running) (id : Id) :
    id ∈ b.keys ↔ s.Registers a id ∨ id ∈ s.board.keys ∧ ¬s.Removes a id := by
  have hidle : (∀ c, s.obeyed a ≠ some c) → s.handled a = none → b.pending = s.pending →
      b.running = s.isRunning →
      (id ∈ b.keys ↔ s.Registers a id ∨ id ∈ s.board.keys ∧ ¬s.Removes a id) := by
    intro ho hp hpending hr
    rw [or_iff_right (not_registers ho), and_iff_left (not_removes ho hp (hb.trans hr)),
      Board.keys, hpending]
    rfl
  cases h with
  | use ha h =>
    obtain ⟨hr, -, hpending⟩ := h.keeps
    exact hidle (by simp [ha.obeyed]) ha.handled hpending hr
  | issue more ha ho hp => exact hidle (by simp [ho]) hp rfl rfl
  | obey c rest hrun hc h =>
    have ho := obeyed_handle hrun hc
    have hp : s.handled .handle = none := rfl
    rw [h.mem_keys hrun]
    simp [Registers, Removes, ho, hp, hb, hrun, Board.keys, board]
  | receive payload events hp he =>
    have ho : ∀ c, s.obeyed .receive ≠ some c := nofun
    have hfilter : Board.keys { s.board with
        pending := s.pending.filter fun p => (response? payload).map (·.id) ≠ some p.1, events } =
        s.board.keys.filter fun key => (response? payload).map (·.id) ≠ some key :=
      map_fst_filter s.pending fun key => (response? payload).map (·.id) ≠ some key
    rw [hfilter, List.mem_filter, or_iff_right (not_registers ho)]
    simp [Removes, ho, hp, hb, board]
  | stop ha hrun h =>
    obtain ⟨waiters, -⟩ := h
    refine iff_of_false (by simp [Board.keys]) ?_
    rintro (⟨method, params, call, ho⟩ | ⟨-, hr⟩)
    · exact nomatch ha.obeyed.symm.trans ho
    · exact hr (.inr (.inr ⟨hrun, hb⟩))

/-- In a run, the command has been handled that sends the request of an identifier, and nothing has
taken the identifier out of the table since. -/
def Opened (s₀ : State R N) (actions : List Action) (id : Id) : Prop :=
  ∃ i s a, s₀.Does actions i s a ∧ s.Registers a id ∧
    ∀ j s' b, i < j → s₀.Does actions j s' b → ¬s'.Removes b id

theorem opened_concat (s₀ : State R N) (actions : List Action) (a : Action) (id : Id) :
    s₀.Opened (actions ++ [a]) id ↔ (s₀.run actions).Registers a id ∨
      s₀.Opened actions id ∧ ¬(s₀.run actions).Removes a id := by
  constructor
  · rintro ⟨i, s, b, hb, hin, hout⟩
    rcases does_concat.1 hb with hb | ⟨-, rfl, rfl⟩
    · refine .inr ⟨⟨i, s, b, hb, hin, fun j s' c hj hc => ?_⟩, ?_⟩
      · exact hout j s' c hj (does_concat.2 (.inl hc))
      · exact hout actions.length _ a hb.lt (does_last s₀ actions a)
    · exact .inl hin
  · rintro (hin | ⟨⟨i, s, b, hb, hin, hout⟩, hlast⟩)
    · refine ⟨actions.length, _, a, does_last s₀ actions a, hin, fun j s' b hj hb => ?_⟩
      rcases does_concat.1 hb with hb | ⟨rfl, -, -⟩
      · exact absurd hb.lt hj.not_gt
      · exact absurd hj (lt_irrefl _)
    · refine ⟨i, s, b, does_concat.2 (.inl hb), hin, fun j s' c hj hc => ?_⟩
      rcases does_concat.1 hc with hc | ⟨-, rfl, rfl⟩
      · exact hout j s' c hj hc
      · exact hlast

variable {registry : Rpc.Registry R N} {config : Config}

/-- The identifiers in the table are those that have come and have not left. -/
theorem mem_keys_run (actions : List Action) (id : Id) :
    id ∈ ((start registry config).run actions).core.keys ↔
      (start registry config).Opened actions id := by
  induction actions using List.reverseRecOn with
  | nil =>
    exact iff_of_false List.not_mem_nil fun ⟨i, s, a, h, _⟩ => absurd h.lt (Nat.not_lt_zero i)
  | append_singleton actions a ih =>
    rw [run_concat, opened_concat, ← ih]
    exact (board_act _ a).mem_keys rfl id

/-! ## Whoever asks -/

/-- In a run, the task tells a waiter the number of open calls. -/
def Counted (s₀ : State R N) (actions : List Action) (w n : Nat) : Prop :=
  ∃ i s a, s₀.Does actions i s a ∧ s.obeyed a = some (.count w) ∧ n = s.core.keys.length

theorem Counted.concat (h : s₀.Counted actions w n) (a : Action) :
    s₀.Counted (actions ++ [a]) w n := by
  obtain ⟨i, s, b, hb, hc⟩ := h
  exact ⟨i, s, b, does_concat.2 (.inl hb), hc⟩

/-- A waiter that knows a number has known it before, or is told it, or has been refused because
the task has stopped. -/
theorem BoardStep.answer (h : BoardStep s a b)
    (hw : b.waiters[w]? = some (.counting (some n))) :
    s.waiters[w]? = some (.counting (some n)) ∨
      s.obeyed a = some (.count w) ∧ n = s.core.keys.length ∨ n = 0 ∧ b.running = false := by
  cases h with
  | use _ h => exact (h.answer hw).imp_right .inr
  | issue | receive => exact .inl hw
  | stop _ _ h => exact (h.answer hw).imp_right .inr
  | obey c rest hrun hc h =>
    cases h with
    | register | reject | notify | abandon => exact .inl hw
    | close _ h => exact (h.answer hw).imp_right .inr
    | count waiter =>
      rw [Array.getElem?_modify] at hw
      split_ifs at hw with he
      · subst he
        obtain ⟨x, -, hx⟩ := Option.map_eq_some_iff.1 hw
        refine .inr (.inl ⟨obeyed_handle hrun hc, (Waiter.told_eq_some hx).trans ?_⟩)
        rw [Core.keys, List.length_map]
        rfl
      · exact .inl hw

theorem BoardStep.waits (h : BoardStep s a b) (hs : s.board.Waits) : b.Waits := by
  cases h with
  | use _ h => exact h.waits hs
  | issue more => exact fun w hw => (hs w hw).imp_right (List.mem_append_left _)
  | receive => exact hs
  | stop _ _ h => exact h.waits fun w hw => (hs w hw).2
  | obey c rest hrun hc h =>
    refine h.waits fun w hw => (hs w hw).imp_right fun hmem => ?_
    have hmem : Command.count w ∈ s.commands := hmem
    rw [hc, List.mem_cons] at hmem
    exact hmem.imp_left Eq.symm

theorem answer_run {actions : List Action}
    (hw : ((start registry config).run actions).waiters[w]? = some (.counting (some n))) :
    (start registry config).Counted actions w n ∨
      n = 0 ∧ ((start registry config).run actions).isRunning = false := by
  induction actions using List.reverseRecOn with
  | nil => simp [start, log] at hw
  | append_singleton actions a ih =>
    rw [run_concat] at hw ⊢
    rcases (board_act _ a).answer hw with hw | ⟨ho, hn⟩ | ⟨hn, hr⟩
    · rcases ih hw with h | ⟨hn, hr⟩
      · exact .inl (h.concat a)
      · exact .inr ⟨hn, ((core_act _ a).of_stopped hr).1⟩
    · exact .inl ⟨_, _, a, does_last _ actions a, ho, hn⟩
    · exact .inr ⟨hn, hr⟩

theorem waits_run (actions : List Action) :
    ((start registry config).run actions).board.Waits := by
  induction actions using List.reverseRecOn with
  | nil => exact fun w hw => by simp [start, log, board] at hw
  | append_singleton actions a ih =>
    rw [run_concat]
    exact (board_act _ a).waits ih

theorem waiter_of_pollWaiter (h : (s.pollWaiter w).1 = some (.count n)) :
    s.waiters[w]? = some (.counting (some n)) := by
  unfold pollWaiter at h
  split at h
  · rename_i hw
    cases h
    exact hw
  · unfold pollJoin at h
    split at h
    · split at h <;> cases h
    · cases h
  · cases h

/-- A waiter that knows no number yet learns it when its command is handled. -/
theorem pollWaiter_of_count (ho : s.obeyed .handle = some (.count w))
    (hw : s.waiters[w]? = some (.counting none)) :
    ((s.act .handle).pollWaiter w).1 = some (.count s.pending.length) := by
  obtain ⟨hrun, rest, hc⟩ := commands_of_obeyed ho
  have hact : s.act .handle = { s with commands := rest }.answerWaiter w s.pending.length := by
    rw [act, if_pos hrun, handleNext, hc]
    rfl
  have hwaiter : (s.act .handle).waiters[w]? = some (.counting (some s.pending.length)) := by
    rw [hact, answerWaiter, Array.getElem?_modify, if_pos rfl, hw]
    rfl
  rw [pollWaiter, hwaiter]

/-- Whoever asks a task that has stopped learns that no call is open. -/
theorem pollWaiter_countPending (hr : s.isRunning = false) :
    (s.countPending.2.pollWaiter s.countPending.1).1 = some (.count 0) := by
  have hcount : s.countPending =
      (s.waiters.size, { s with waiters := s.waiters.push (.counting (some 0)) }) := by
    rw [countPending, if_neg (by simp [hr])]
  rw [hcount, pollWaiter, Array.getElem?_push_size]

/-! ## Identifiers -/

/-- An action takes no identifier for a request, or the next one. -/
theorem BoardStep.issued (h : BoardStep s a b) :
    s.issued a = [] ∧ b.nextId = s.nextId ∨
      s.issued a = [.number s.nextId] ∧ b.nextId = s.nextId + 1 := by
  cases h with
  | use ha h => exact .inl ⟨ha.issued, h.keeps.2.1⟩
  | issue more ha => exact .inr ⟨ha, rfl⟩
  | obey c rest hrun hc h => exact .inl ⟨rfl, h.nextId_eq⟩
  | receive => exact .inl ⟨rfl, rfl⟩
  | stop ha hrun h =>
    cases h
    exact .inl ⟨ha.issued, rfl⟩

/-- An action makes no call without taking an identifier. -/
theorem issued_act (s : State R N) (a : Action) :
    s.issued a = [] ∧ (s.act a).nextId = s.nextId ∧ (s.act a).calls.size = s.calls.size ∨
      s.issued a = [.number s.nextId] ∧ (s.act a).nextId = s.nextId + 1 ∧
        (s.act a).calls.size ≤ s.calls.size + 1 := by
  have hcalls : (s.act a).calls.size = s.calls.size ∨ (s.act a).calls.size = s.calls.size + 1 ∧
      (s.act a).nextId = s.nextId + 1 := (core_act s a).size_calls
  rcases (board_act s a).issued with ⟨hi, hn⟩ | ⟨hi, hn⟩
  · have hn : (s.act a).nextId = s.nextId := hn
    refine .inl ⟨hi, hn, hcalls.resolve_right fun h => ?_⟩
    exact absurd (h.2.symm.trans hn) (by simp)
  · refine .inr ⟨hi, hn, ?_⟩
    rcases hcalls with h | ⟨h, -⟩ <;> omega

/-- The identifiers that a run takes are numbered, and there are at least as many as calls. -/
theorem issued_run (registry : Rpc.Registry R N) (config : Config) (actions : List Action) :
    let s := (start registry config).run actions
    let ids := (start registry config).along issued actions
    ids = (List.range ids.length).map idAt ∧ s.nextId = Int64.ofNat (ids.length + 1) ∧
      s.calls.size ≤ ids.length := by
  induction actions using List.reverseRecOn with
  | nil => exact ⟨rfl, rfl, Nat.le_refl 0⟩
  | append_singleton actions a ih =>
    obtain ⟨hids, hnext, hsize⟩ := ih
    dsimp only
    rw [run_concat, along_concat]
    rcases issued_act ((start registry config).run actions) a with
      ⟨hi, hn, hcalls⟩ | ⟨hi, hn, hcalls⟩
    · rw [hi, List.append_nil]
      exact ⟨hids, hn.trans hnext, hcalls.le.trans hsize⟩
    · rw [hi, List.length_append, List.length_singleton, List.range_succ, List.map_append, ← hids]
      refine ⟨?_, ?_, hcalls.trans (Nat.succ_le_succ hsize)⟩
      · rw [hnext]
        rfl
      · rw [hn, hnext]
        exact (Int64.ofNat_add _ 1).symm

theorem nodup_issued {actions : List Action}
    (h : ((start registry config).along issued actions).length < 2 ^ 64) :
    ((start registry config).along issued actions).Nodup := by
  rw [(issued_run registry config actions).1]
  refine List.nodup_range.map_on fun i hi j hj he => ?_
  exact idAt_inj ((List.mem_range.1 hi).trans h) ((List.mem_range.1 hj).trans h) he

/-- The calls have the identifiers that were taken first. -/
theorem ids_isPrefix {actions : List Action}
    (h : ((start registry config).along issued actions).length < 2 ^ 64) :
    ((start registry config).run actions).calls.toList.map (·.id) <+:
      (start registry config).along issued actions := by
  obtain ⟨hids, -, hsize⟩ := issued_run registry config actions
  have hsettling : ((start registry config).run actions).core.Settling :=
    settling_run (hsize.trans_lt h)
  rw [List.prefix_iff_getElem?]
  intro i hi
  rw [List.length_map, Array.length_toList] at hi
  rw [hids, List.getElem?_map, List.getElem?_range (hi.trans_le hsize), List.getElem_map,
    Array.getElem_toList, hsettling.ids (Array.getElem?_eq_getElem hi)]
  rfl

/-! ## No identifier is open already -/

theorem not_open_of_registers (h : s.core.Settling) (hsize : s.calls.size < 2 ^ 64)
    (hin : s.Registers a id) : s.pendingCall? id = none := by
  obtain ⟨method, params, call, ho⟩ := hin
  obtain ⟨-, rest, hc⟩ := commands_of_obeyed ho
  exact h.not_reject hsize hc

theorem BoardStep.harmless (h : BoardStep s a b) (hs : ∀ e ∈ s.events, e.Harmless)
    (hin : ∀ id, s.Registers a id → s.pendingCall? id = none) : ∀ e ∈ b.events, e.Harmless := by
  cases h with
  | use _ h =>
    cases h with
    | forget => exact fun e he => absurd he (Array.not_mem_empty e)
    | _ => exact hs
  | issue => exact hs
  | stop _ _ h =>
    cases h
    exact hs
  | receive payload events hp he =>
    rcases he with rfl | ⟨e, hharmless, rfl⟩
    · exact hs
    · intro e' he'
      rcases Array.mem_push.1 he' with he' | rfl
      · exact hs e' he'
      · exact hharmless
  | obey c rest hrun hc h =>
    cases h with
    | reject id method params call hmem events =>
      have hnone := hin id ⟨method, params, call, obeyed_handle hrun hc⟩
      exact absurd hmem (Core.pendingCall?_eq_none (c := s.core) |>.1 hnone)
    | close _ h =>
      cases h
      exact hs
    | _ => exact hs

theorem harmless_run {actions : List Action}
    (h : ((start registry config).run actions).calls.size < 2 ^ 64) :
    ∀ e ∈ ((start registry config).run actions).events, e.Harmless := by
  induction actions using List.reverseRecOn with
  | nil => exact fun e he => absurd he (Array.not_mem_empty e)
  | append_singleton actions a ih =>
    rw [run_concat] at h ⊢
    have hsize := (size_calls_act _ a).trans_lt h
    exact (board_act _ a).harmless (ih hsize) fun id =>
      not_open_of_registers (settling_run hsize) hsize

/-- A response never tells a caller that its identifier was open already. -/
theorem answered_ne_duplicate {call : Nat} {o : Outcome} (h : s.answered a = some (call, o))
    (id : Id) : o ≠ .error (.duplicateId id) := by
  unfold answered settledNext settledBy at h
  split at h
  · split_ifs at h
    split at h
    · split at h
      · obtain ⟨_, -, he⟩ := Option.map_eq_some_iff.1 h
        obtain ⟨-, rfl⟩ := Prod.mk.inj he
        split
        · rename_i outcome _
          cases outcome <;> nofun
        · nofun
      · cases h
    · cases h
  · cases h

theorem outcomes_ne_duplicate {actions : List Action} {i : Nat} {k : Call}
    (h : ((start registry config).run actions).calls.size < 2 ^ 64)
    (hk : ((start registry config).run actions).calls[i]? = some k) (id : Id) :
    .error (.duplicateId id) ∉ k.outcomes := by
  rcases outcomes_run h hk with ho | ⟨o, ho, hcause⟩
  · rw [ho]
    exact List.not_mem_nil
  · rw [ho, List.mem_singleton]
    rintro rfl
    rcases hcause with ⟨before, a, after, -, ha⟩ | ⟨he, -⟩ | ⟨he, -⟩
    · exact answered_ne_duplicate ha id rfl
    · cases he
    · cases he

end State

/-- In every run of a session in which fewer than 2⁶⁴ identifiers are taken for requests, they all
differ. The table holds each identifier once whose request has been handled and that no response
has closed, nobody has given up and no stop of the task has removed. Whoever asks learns how many
they are at the time when the task comes to the question, or that there are none since the task has
stopped, and nobody who asks is forgotten. So no request is refused because its identifier is open:
there is no such request in the queue, and no caller and no event ever says so. -/
theorem open_calls_run {R N : Type} (registry : Rpc.Registry R N) (config : Config)
    (actions : List Action)
    (h : ((State.start registry config).along State.issued actions).length < 2 ^ 64) :
    let s₀ := State.start registry config
    let s := s₀.run actions
    (s₀.along State.issued actions).Nodup ∧
    s.calls.toList.map (·.id) <+: s₀.along State.issued actions ∧
    s.core.keys.Nodup ∧
    (∀ id, id ∈ s.core.keys ↔ s₀.Opened actions id) ∧
    s.pendingCount = s.core.keys.length ∧
    (s.isRunning = false → s.pendingCount = 0 ∧
      (s.countPending.2.pollWaiter s.countPending.1).1 = some (.count 0)) ∧
    (∀ w n, (s.pollWaiter w).1 = some (.count n) →
      s₀.Counted actions w n ∨ n = 0 ∧ s.isRunning = false) ∧
    (∀ w : Nat, s.waiters[w]? = some (.counting none) →
      s.isRunning = true ∧ .count w ∈ s.commands ∧
      (s.obeyed .handle = some (.count w) →
        ((s.act .handle).pollWaiter w).1 = some (.count s.core.keys.length))) ∧
    (∀ a id, s.Registers a id → s.pendingCall? id = none) ∧
    (∀ (i : Nat) k id, s.calls[i]? = some k → .error (.duplicateId id) ∉ k.outcomes) ∧
    ∀ id, .protocolError (.duplicateRequest id) ∉ s.events := by
  intro s₀ s
  obtain ⟨-, -, hcalls⟩ := State.issued_run registry config actions
  have hsize : s.calls.size < 2 ^ 64 := hcalls.trans_lt h
  have hsettling : s.core.Settling := State.settling_run hsize
  have hlength : s.core.keys.length = s.pending.length := List.length_map _
  have hstopped : s.isRunning = false → s.pending.length = 0 :=
    fun hr => List.length_eq_zero_iff.2 (hsettling.stopped hr).2
  have hcount : s.pendingCount = s.core.keys.length := by
    rw [State.pendingCount, hlength]
    split_ifs with hr
    · rfl
    · exact (hstopped (Bool.eq_false_iff.2 hr)).symm
  have horderly : s.core.Orderly := State.orderly_run registry config actions
  refine ⟨State.nodup_issued h, State.ids_isPrefix h, horderly.keys, State.mem_keys_run actions,
    hcount, fun hr => ⟨?_, State.pollWaiter_countPending hr⟩,
    fun w n hw => State.answer_run (State.waiter_of_pollWaiter hw), fun w hw => ?_,
    fun a id => State.not_open_of_registers hsettling hsize,
    fun i k id hk => State.outcomes_ne_duplicate hsize hk id, fun id hmem => ?_⟩
  · rw [hcount, hlength, hstopped hr]
  · obtain ⟨hr, hc⟩ := State.waits_run actions w hw
    exact ⟨hr, hc, fun ho => hlength ▸ State.pollWaiter_of_count ho hw⟩
  · exact State.harmless_run hsize _ hmem id rfl

/-- Two calls are open when the task comes to the question how many they are. -/
theorem open_calls_of_two_requests :
    let s₀ := State.start (Rpc.Registry.empty : Rpc.Registry Unit Unit) {}
    let actions : List Action := [.send Rpc.Catalog.shutdown () false, .handle,
      .send Rpc.Catalog.shutdown () false, .handle, .countPending, .handle]
    (s₀.along State.issued actions).length = 2 ∧ s₀.Opened actions (.number 1) ∧
      s₀.Opened actions (.number 2) ∧ s₀.Counted actions 0 2 := by
  intro s₀ actions
  obtain ⟨hissued, hkeys, hwaiter⟩ : (s₀.along State.issued actions).length = 2 ∧
      (s₀.run actions).core.keys = [.number 1, .number 2] ∧
      (s₀.run actions).waiters[0]? = some (.counting (some 2)) := by
    decide +kernel
  obtain ⟨-, -, -, hopen, -, -, hcounted, -⟩ :=
    open_calls_run (Rpc.Registry.empty : Rpc.Registry Unit Unit) {} actions
      (hissued.trans_lt (by decide))
  have hnews : ((s₀.run actions).pollWaiter 0).1 = some (.count 2) := by
    rw [State.pollWaiter, hwaiter]
  refine ⟨hissued, (hopen _).1 (hkeys ▸ by decide), (hopen _).1 (hkeys ▸ by decide), ?_⟩
  exact (hcounted 0 2 hnews).resolve_right fun hn => absurd hn.1 (by decide)

end PeerRpc.Session
