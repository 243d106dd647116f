import PeerRpc.Proofs.Session.Aside
import PeerRpc.Proofs.Session.Pending
import PeerRpc.Proofs.Session.Stage

/-!
# Who learns how a session stopped

Those who wait for the end of a session stand in a line, and whoever is first in it claims the
report by asking. As long as nobody goes away with it, all of them are told after the session has
stopped, and the first of them how; the others learn no more than that it has. Somebody who has
claimed the report and goes away takes it along: then everybody behind is told at once that the
session has stopped, even if it has not, and nobody learns of an error (`Reported`).
-/

namespace PeerRpc.Session

/-- How the session stopped, if that is what a waiter learns. -/
def News.result? : News → Option (Except Error Unit)
  | .stopped result => some result
  | .count _ => none

/-- The error with which the task has ended. -/
def Phase.error? : Phase → Option Error
  | .stopped (.error error) => some error
  | _ => none

theorem Phase.eq_of_error? {p : Phase} {error : Error} (h : p.error? = some error) :
    p = .stopped (.error error) := by
  unfold error? at h
  split at h
  · rw [Option.some.inj h]
  · cases h

namespace State

variable {R N : Type} {s s₀ : State R N} {a : Action} {actions : List Action} {w : Nat}
  {result : Except Error Unit}

/-- What an action tells somebody who waits for the end of the session. -/
def endTold (s : State R N) : Action → Option (Except Error Unit)
  | .pollWaiter w => (s.pollWaiter w).1.bind News.result?
  | _ => none

/-- What those who wait for the end of the session are told in a run, one after the other. -/
def toldIn (s₀ : State R N) (actions : List Action) : List (Except Error Unit) :=
  s₀.along (fun s a => (s.endTold a).toList) actions

/-- Somebody who has claimed the report goes away. -/
def Forsakes (s : State R N) (a : Action) : Prop :=
  ∃ w, a = .dropWaiter w ∧ s.line.head? = some w ∧ s.report = .claimed

/-- In a run somebody who has claimed the report goes away. -/
def Forsaken (s₀ : State R N) (actions : List Action) : Prop :=
  ∃ i s a, s₀.Does actions i s a ∧ s.Forsakes a

/-- The task is over, and has left nothing undone: no command is queued, no call is open, and every
call has an outcome. -/
structure TornDown (s : State R N) : Prop where
  ended : ∃ result, s.phase = .stopped result
  closed : s.isClosed = true
  commands : s.commands = []
  pending : s.pending = []
  settled : ∀ (i : Nat) k, s.calls[i]? = some k → k.outcomes ≠ []

/-- Somebody is the first of those who wait for the end of the session. -/
structure First (s : State R N) (w : Nat) : Prop where
  waits : s.waiters[w]? = some .joining
  first : s.line.head? = some w

/-! ## One action -/

/-- What becomes of the first in the line when it asks. -/
inductive Inquires (s : State R N) (w : Nat) : Report → Option (Except Error Unit) → Prop
  /-- It claims the report. -/
  | claim (hr : s.report ≠ .spent) (hp : ∀ result, s.phase ≠ .stopped result) :
    Inquires s w .claimed none
  /-- It learns how the session stopped. -/
  | tell (hr : s.report ≠ .spent) (result : Except Error Unit) (hp : s.phase = .stopped result) :
    Inquires s w .spent (some result)
  /-- Nobody is to learn how the session stopped any more. -/
  | late (hr : s.report = .spent) : Inquires s w .spent (some (.ok ()))

theorem First.asks (h : s.First w) :
    Inquires s w (s.act (.pollWaiter w)).report (s.endTold (.pollWaiter w)) := by
  have hpoll : s.pollWaiter w = s.pollJoin w := by rw [pollWaiter, h.waits]
  rw [act, endTold, hpoll, pollJoin, if_pos h.first]
  cases hr : s.report with
  | spent =>
    have hreport : (s.release w).report = .spent := hr
    dsimp only
    rw [hreport]
    exact .late hr
  | available | claimed =>
    have hne : s.report ≠ .spent := by simp [hr]
    cases hp : s.phase with
    | stopped result => exact .tell hne result hp
    | running | flushing => exact .claim hne (by simp [hp])

theorem told_of_not_first (h : ¬s.First w) :
    s.endTold (.pollWaiter w) = none ∧ (s.act (.pollWaiter w)).report = s.report := by
  rw [act, endTold, pollWaiter]
  split
  · exact ⟨rfl, rfl⟩
  · rename_i hw
    rw [pollJoin, if_neg fun hline => h ⟨hw, hline⟩]
    exact ⟨rfl, rfl⟩
  · exact ⟨rfl, rfl⟩

/-- How an action changes who is to learn how the session stopped, and what it tells. -/
inductive ReportStep (s : State R N) (a : Action) : Report → Option (Except Error Unit) → Prop
  | keep (h : ¬s.Forsakes a) : ReportStep s a s.report none
  | ask (w : Nat) (ha : a = .pollWaiter w) {r : Report} {told : Option (Except Error Unit)}
    (h : s.Inquires w r told) : ReportStep s a r told
  /-- Somebody who has claimed the report goes away. -/
  | forsake (h : s.Forsakes a) : ReportStep s a .spent none

theorem reportStep_act (s : State R N) (a : Action) :
    ReportStep s a (s.act a).report (s.endTold a) := by
  cases a with
  | send m p transient =>
    have hreport : (s.act (.send m p transient)).report = s.report := report_send s m p transient
    exact hreport ▸ .keep (by rintro ⟨w, ⟨⟩, -⟩)
  | pollWaiter w =>
    by_cases h : s.First w
    · exact .ask w rfl h.asks
    · obtain ⟨htold, hreport⟩ := told_of_not_first h
      rw [htold, hreport]
      exact .keep (by rintro ⟨w, ⟨⟩, -⟩)
  | dropWaiter w =>
    by_cases h : s.line.head? = some w ∧ s.report = .claimed
    · have hreport : (s.act (.dropWaiter w)).report = .spent := if_pos (by simp [h])
      exact hreport ▸ .forsake ⟨w, rfl, h⟩
    · have hreport : (s.act (.dropWaiter w)).report = s.report := if_neg (by simpa using h)
      exact hreport ▸ .keep (by rintro ⟨w, ⟨⟩, h'⟩; exact h h')
  | _ =>
    rw [report_act rfl]
    exact .keep (by rintro ⟨w, ⟨⟩, -⟩)

/-- A task that is over stays over. -/
theorem phase_act_of_stopped (hp : s.phase = .stopped result) (a : Action) :
    (s.act a).phase = .stopped result := by
  have hrun : ¬s.isRunning = true := by simp [isRunning, hp]
  have hstep := stage_act s a
  have hphase : (s.act a).phase = (s.act a).stage.1 := rfl
  rw [hphase]
  generalize (s.act a).stage = p at hstep
  cases hstep with
  | put | setMode | write => exact hp
  | close h => exact absurd h hrun
  | fail _ h => exact absurd h hrun
  | conclude _ h => exact absurd (h.symm.trans hp) Phase.noConfusion

/-! ## Runs -/

theorem forsaken_concat :
    s₀.Forsaken (actions ++ [a]) ↔ s₀.Forsaken actions ∨ (s₀.run actions).Forsakes a := by
  constructor
  · rintro ⟨i, s, b, hdoes, h⟩
    rcases does_concat.1 hdoes with hdoes | ⟨-, rfl, rfl⟩
    · exact .inl ⟨i, s, b, hdoes, h⟩
    · exact .inr h
  · rintro (⟨i, s, b, hdoes, h⟩ | h)
    · exact ⟨i, s, b, does_concat.2 (.inl hdoes), h⟩
    · exact ⟨_, _, a, does_last s₀ actions a, h⟩

theorem toldIn_concat (s₀ : State R N) (actions : List Action) (a : Action) :
    s₀.toldIn (actions ++ [a]) = s₀.toldIn actions ++ ((s₀.run actions).endTold a).toList :=
  along_concat _ s₀ actions a

/-- Who has learned how the session stopped, after a run. -/
inductive Reported (s₀ : State R N) (actions : List Action) : Prop
  /-- Nobody yet. -/
  | nobody (h : ¬s₀.Forsaken actions) (hr : (s₀.run actions).report ≠ .spent)
    (ht : s₀.toldIn actions = [])
  /-- The first who was told. The others have learned no more than that it has stopped. -/
  | first (h : ¬s₀.Forsaken actions) (hr : (s₀.run actions).report = .spent)
    (result : Except Error Unit) (hp : (s₀.run actions).phase = .stopped result) (n : Nat)
    (ht : s₀.toldIn actions = result :: List.replicate n (.ok ()))
  /-- Nobody ever will. -/
  | lost (h : s₀.Forsaken actions) (hr : (s₀.run actions).report = .spent) (n : Nat)
    (ht : s₀.toldIn actions = List.replicate n (.ok ()))

theorem Reported.of_unspent (h : s₀.Reported actions) (hr : (s₀.run actions).report ≠ .spent) :
    ¬s₀.Forsaken actions ∧ s₀.toldIn actions = [] := by
  cases h with
  | nobody hf _ ht => exact ⟨hf, ht⟩
  | first _ hr' => exact absurd hr' hr
  | lost _ hr' => exact absurd hr' hr

theorem Reported.concat (h : s₀.Reported actions) (a : Action) : s₀.Reported (actions ++ [a]) := by
  have hstep := reportStep_act (s₀.run actions) a
  have htold := toldIn_concat s₀ actions a
  have hrun := run_concat s₀ actions a
  generalize hr' : ((s₀.run actions).act a).report = r at hstep
  generalize (s₀.run actions).endTold a = news at hstep htold
  rw [← hrun] at hr'
  cases hstep with
  | keep hkeep =>
    have hnot : s₀.Forsaken (actions ++ [a]) ↔ s₀.Forsaken actions := by
      rw [forsaken_concat, or_iff_left hkeep]
    rw [Option.toList_none, List.append_nil] at htold
    cases h with
    | nobody hf hr ht => exact .nobody (mt hnot.1 hf) (hr'.trans_ne hr) (htold.trans ht)
    | first hf hr result hp n ht =>
      exact .first (mt hnot.1 hf) (hr'.trans hr) result (hrun ▸ phase_act_of_stopped hp a) n
        (htold.trans ht)
    | lost hf hr n ht => exact .lost (hnot.2 hf) (hr'.trans hr) n (htold.trans ht)
  | ask w ha hask =>
    have hnot : s₀.Forsaken (actions ++ [a]) ↔ s₀.Forsaken actions := by
      rw [forsaken_concat, or_iff_left]
      rintro ⟨w', ha', -⟩
      exact Action.noConfusion (ha.symm.trans ha')
    cases hask with
    | claim hr =>
      obtain ⟨hf, ht⟩ := h.of_unspent hr
      exact .nobody (mt hnot.1 hf) (by simp [hr']) (htold.trans (by rw [ht]; rfl))
    | tell hr result hp =>
      obtain ⟨hf, ht⟩ := h.of_unspent hr
      exact .first (mt hnot.1 hf) hr' result (hrun ▸ phase_act_of_stopped hp a) 0
        (htold.trans (by rw [ht]; rfl))
    | late hr =>
      have hmore : ∀ n, List.replicate n (Except.ok ()) ++ (some (Except.ok ())).toList =
          List.replicate (n + 1) (Except.ok () : Except Error Unit) :=
        fun n => List.replicate_succ'.symm
      cases h with
      | nobody _ hr₀ => exact absurd hr hr₀
      | first hf _ result hp n ht =>
        refine .first (mt hnot.1 hf) hr' result (hrun ▸ phase_act_of_stopped hp a) (n + 1) ?_
        rw [htold, ht, List.cons_append, hmore]
      | lost hf _ n ht => exact .lost (hnot.2 hf) hr' (n + 1) (by rw [htold, ht, hmore])
  | forsake hf =>
    have hr : (s₀.run actions).report ≠ .spent := by
      obtain ⟨w, -, -, hclaimed⟩ := hf
      simp [hclaimed]
    obtain ⟨-, ht⟩ := h.of_unspent hr
    exact .lost (forsaken_concat.2 (.inr hf)) hr' 0 (htold.trans (by rw [ht]; rfl))

theorem reported_run (registry : Rpc.Registry R N) (config : Config) (actions : List Action) :
    (start registry config).Reported actions := by
  induction actions using List.reverseRecOn with
  | nil => exact .nobody (fun ⟨i, s, a, h, _⟩ => by cases h.1) Report.noConfusion rfl
  | append_singleton actions a ih => exact ih.concat a

/-! ## What has become of the session -/

theorem tornDown_run (registry : Rpc.Registry R N) (config : Config) (actions : List Action)
    (hp : ((start registry config).run actions).phase = .stopped result) :
    ((start registry config).run actions).TornDown := by
  have hcomplete := complete_run registry config actions
  have hrun : ((start registry config).run actions).isRunning = false := by
    rw [isRunning, hp]
  obtain ⟨hcommands, hpending⟩ := hcomplete.stopped hrun
  have hslots : ((start registry config).run actions).core.slots = [] := by
    rw [Core.slots, hcommands, hpending]
    rfl
  refine ⟨⟨result, hp⟩, by rw [isClosed, hrun]; rfl, hcommands, hpending, fun i k hk ho => ?_⟩
  have hmem := hcomplete.unsettled hk ho
  rw [hslots] at hmem
  exact List.not_mem_nil hmem

end State

/-- In every run, whoever is first of those who wait for the end of a session is told when it asks
if the task is over and has torn everything down, or if somebody has gone away with the report, and
not before. As long as nobody has, the first who is told learns how the session stopped, an error
included, and all others learn no more than that it has stopped. Once somebody has, nobody learns of
an error. -/
theorem told_when_stopped_or_forsaken {R N : Type} (registry : Rpc.Registry R N) (config : Config)
    (actions : List Action) :
    let s₀ := State.start registry config
    let s := s₀.run actions
    (∀ w, (∃ result, s.endTold (.pollWaiter w) = some result) ↔
      s.First w ∧ (s.TornDown ∨ s₀.Forsaken actions)) ∧
    (¬s₀.Forsaken actions → s₀.toldIn actions = [] ∨ ∃ result n, s.phase = .stopped result ∧
      s₀.toldIn actions = result :: List.replicate n (.ok ())) ∧
    (s₀.Forsaken actions → ∀ result ∈ s₀.toldIn actions, result = .ok ()) := by
  intro s₀ s
  have hreported : s₀.Reported actions := State.reported_run registry config actions
  have hspent : s.report = .spent → s.TornDown ∨ s₀.Forsaken actions := by
    intro hr
    cases hreported with
    | nobody _ hr' => exact absurd hr hr'
    | first _ _ result hp => exact .inl (State.tornDown_run registry config actions hp)
    | lost hf => exact .inr hf
  refine ⟨fun w => ⟨?_, ?_⟩, fun hf => ?_, fun hf result hmem => ?_⟩
  · rintro ⟨result, htold⟩
    have hfirst : s.First w := by
      by_contra h
      rw [(State.told_of_not_first h).1] at htold
      cases htold
    have hasks := hfirst.asks
    rw [htold] at hasks
    generalize (s.act (.pollWaiter w)).report = r at hasks
    cases hasks with
    | tell _ _ hp => exact ⟨hfirst, .inl (State.tornDown_run registry config actions hp)⟩
    | late hr => exact ⟨hfirst, hspent hr⟩
  · rintro ⟨hfirst, h⟩
    have hasks := hfirst.asks
    generalize (s.act (.pollWaiter w)).report = r at hasks
    generalize s.endTold (.pollWaiter w) = news at hasks
    cases hasks with
    | claim hr hp =>
      rcases h with ⟨⟨result, hp'⟩, -⟩ | hf
      · exact absurd hp' (hp result)
      · exact absurd hf (hreported.of_unspent hr).1
    | tell | late => exact ⟨_, rfl⟩
  · cases hreported with
    | nobody _ _ ht => exact .inl ht
    | first _ _ result hp n ht => exact .inr ⟨result, n, hp, ht⟩
    | lost hf' => exact absurd hf' hf
  · cases hreported with
    | nobody hf' | first hf' => exact absurd hf hf'
    | lost _ _ n ht =>
      rw [ht] at hmem
      exact List.eq_of_mem_replicate hmem

/-- Two wait when the source fails. The first who asks is told of the failure, and the other one that
the session has stopped. -/
theorem told_of_failure :
    let s₀ := State.start (Rpc.Registry.empty : Rpc.Registry Unit Unit) {}
    let actions : List Action := [.wait, .close, .pollWaiter 0, .closeSource (.failed "reset"),
      .receive, .pollWaiter 0, .pollWaiter 1]
    ∃ error, (s₀.run actions).phase.error? = some error ∧
      s₀.toldIn actions = [.error error, .ok ()] := by
  intro s₀ actions
  have hkept : ¬s₀.Forsaken actions := by
    rintro ⟨i, s, a, ⟨ha, -⟩, w, rfl, -⟩
    simpa [actions] using List.mem_of_getElem? ha
  obtain ⟨-, htold, -⟩ := told_when_stopped_or_forsaken (Rpc.Registry.empty :
    Rpc.Registry Unit Unit) {} actions
  have hlength : (s₀.toldIn actions).length = 2 := by decide +kernel
  obtain ⟨error, herror⟩ : ∃ error, (s₀.run actions).phase.error? = some error :=
    Option.isSome_iff_exists.1 (by decide +kernel)
  rcases htold hkept with hnone | ⟨result, n, hp, ht⟩
  · rw [hnone] at hlength
    cases hlength
  · obtain rfl := Phase.stopped.inj (hp.symm.trans (Phase.eq_of_error? herror))
    rw [ht, List.length_cons, List.length_replicate] at hlength
    obtain rfl : n = 1 := Nat.succ.inj hlength
    exact ⟨error, herror, ht⟩

/-- The first who waits has asked and goes away while a call is open. The next one is told at once
that the session has stopped; then the source fails, and nobody learns of that. -/
theorem told_of_session_at_work :
    let s₀ := State.start (Rpc.Registry.empty : Rpc.Registry Unit Unit) {}
    let actions : List Action := [.send Rpc.Catalog.shutdown () false, .handle, .wait,
      .pollWaiter 0, .dropWaiter 0, .wait]
    let s := s₀.run actions
    let later : List Action := [.pollWaiter 1, .closeSource (.failed "reset"), .receive, .close,
      .pollWaiter 2]
    (s.endTold (.pollWaiter 1) = some (.ok ()) ∧ s.isClosed = false ∧ s.pending.length = 1) ∧
      (s.run later).phase.error?.isSome = true ∧
      (s₀.toldIn (actions ++ later)).map Except.isOk = [true, true] :=
  ⟨⟨rfl, rfl, rfl⟩, by decide +kernel, by decide +kernel⟩

end PeerRpc.Session
