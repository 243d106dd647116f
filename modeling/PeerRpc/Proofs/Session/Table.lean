import PeerRpc.Proofs.Session.Settlement

/-!
# The table of open calls

However many calls a session makes, no call is queued or open twice, no identifier is open twice,
and a call that is queued or open has no outcome yet (`Core.Orderly`); one that is neither has an
outcome (`Core.Complete`). In contrast to what holds while identifiers do not repeat
(`Core.Settling`), this needs no bound on the number of calls: a call whose identifier is open is
refused, and so the table stays a table.
-/

namespace PeerRpc.Session

open Rpc (Id)

/-- Taking calls out of a table by their identifiers leaves the other identifiers. -/
theorem map_fst_filter (pending : List (Id × Nat)) (p : Id → Bool) :
    (pending.filter fun q => p q.1).map (·.1) = (pending.map (·.1)).filter p := by
  rw [List.filter_map]
  rfl

namespace Core

variable {c c' : Core} {id id' : Id} {call : Nat} {outcome : Outcome}
  {label : Option (Nat × Outcome)}

/-- The identifiers of the open calls. -/
def keys (c : Core) : List Id :=
  c.pending.map (·.1)

theorem pendingCall?_eq_none : c.pendingCall? id = none ↔ id ∉ c.keys := by
  simp only [pendingCall?, Option.map_eq_none_iff, List.find?_eq_none, decide_eq_true_eq, keys,
    List.mem_map, not_exists, not_and]

theorem mem_keys_iff : id ∈ c.keys ↔ ∃ call, c.pendingCall? id = some call := by
  rw [← not_iff_not, ← pendingCall?_eq_none, ← Option.not_isSome_iff_eq_none,
    Option.isSome_iff_exists]

theorem keys_closePending (c : Core) (id : Id) :
    (c.closePending id).keys = c.keys.filter (· ≠ id) :=
  map_fst_filter c.pending fun key => key ≠ id

theorem pendingCall?_closePending (c : Core) (id id' : Id) :
    (c.closePending id).pendingCall? id' = if id' = id then none else c.pendingCall? id' := by
  split_ifs with h
  · rw [pendingCall?_eq_none, keys_closePending, h]
    simp
  · unfold pendingCall? closePending
    rw [List.find?_filter]
    congr 2
    funext p
    by_cases hp : p.1 = id'
    · simp [hp, h]
    · simp [hp]

theorem closePending_of_none (h : c.pendingCall? id = none) : c.closePending id = c := by
  have hfilter : c.pending.filter (fun p => p.1 ≠ id) = c.pending := by
    rw [List.filter_eq_self]
    intro p hp
    rw [pendingCall?_eq_none, keys] at h
    rw [decide_eq_true_eq]
    exact fun he => h (he ▸ List.mem_map_of_mem hp)
  rw [closePending, hfilter]

/-- What holds of the table of open calls after every step of a session. -/
structure Orderly (c : Core) : Prop where
  /-- No call is queued or open twice. -/
  once : (c.slots.map (·.2)).Nodup
  made : ∀ {p}, p ∈ c.slots → p.2 < c.calls.size
  /-- No identifier is open twice. -/
  keys : c.keys.Nodup
  unsettled : ∀ {i k}, c.calls[i]? = some k → i ∈ c.slots.map (·.2) → k.outcomes = []

theorem Orderly.start {R N : Type} (registry : Rpc.Registry R N) (config : Config) :
    (State.start registry config).core.Orderly where
  once := List.nodup_nil
  made hp := by simp [Core.slots, State.core, State.start, State.log] at hp
  keys := List.nodup_nil
  unsettled hk := by simp [State.core, State.start, State.log] at hk

/-- Nothing is lost if some calls leave the table and the others have no more outcomes. -/
theorem Orderly.of_subperm (h : Orderly c) (hslots : c'.slots.Subperm c.slots)
    (hkeys : c'.keys.Nodup) (hsize : c'.calls.size = c.calls.size)
    (hcalls : ∀ {i : Nat} {k' : Call}, c'.calls[i]? = some k' → i ∈ c'.slots.map (·.2) →
      ∃ k, c.calls[i]? = some k ∧ k'.outcomes = k.outcomes) : Orderly c' where
  once := by
    obtain ⟨slots, hperm, hsub⟩ := hslots
    rw [← (hperm.map (·.2)).nodup_iff]
    exact h.once.sublist (hsub.map _)
  made hp := hsize ▸ h.made (hslots.subset hp)
  keys := hkeys
  unsettled hk hi := by
    obtain ⟨k, hk, ho⟩ := hcalls hk hi
    obtain ⟨p, hp, rfl⟩ := List.mem_map.1 hi
    rw [ho]
    exact h.unsettled hk (List.mem_map_of_mem (hslots.subset hp))

theorem slots_enqueue {a : Command} (ha : callOf a = none) (c : Core) :
    (c.enqueue a).slots = c.slots := by
  unfold enqueue
  split_ifs
  · rw [slots, List.filterMap_append, List.filterMap_cons_none ha, List.filterMap_nil,
      List.append_nil]
    rfl
  · rfl

theorem Orderly.enqueue {a : Command} (h : Orderly c) (ha : callOf a = none) :
    Orderly (c.enqueue a) := by
  have hrest : (c.enqueue a).pending = c.pending ∧ (c.enqueue a).calls = c.calls := by
    unfold Core.enqueue
    split_ifs <;> exact ⟨rfl, rfl⟩
  refine h.of_subperm (slots_enqueue ha c ▸ .refl _) ?_ (by rw [hrest.2]) fun hk _ => ?_
  · rw [Core.keys, hrest.1]
    exact h.keys
  · exact ⟨_, hrest.2 ▸ hk, rfl⟩

theorem Orderly.mark (h : Orderly c) {f : Call → Call} {k : Call} (hk : c.calls[call]? = some k)
    (ho : (f k).outcomes = k.outcomes) : Orderly { c with calls := c.calls.modify call f } := by
  refine h.of_subperm (.refl _) h.keys Array.size_modify fun {i k'} hk' _ => ?_
  have hk' : (c.calls.modify call f)[i]? = some k' := hk'
  rw [Array.getElem?_modify] at hk'
  split_ifs at hk' with hi
  · subst hi
    rw [hk] at hk'
    obtain rfl := Option.some.inj hk'
    exact ⟨k, hk, ho⟩
  · exact ⟨k', hk', rfl⟩

theorem Orderly.skip (h : Orderly c) {a : Command} {rest : List Command}
    (hc : c.commands = a :: rest) (ha : callOf a = none) : Orderly { c with commands := rest } := by
  have hslots : ({ c with commands := rest } : Core).slots = c.slots := by
    rw [slots, slots, hc, List.filterMap_cons_none ha]
  exact h.of_subperm (hslots ▸ .refl _) h.keys rfl fun hk _ => ⟨_, hk, rfl⟩

/-- A call that is neither queued nor open any more may get an outcome. -/
theorem Orderly.settle (h : Orderly c) (hcall : call ∉ c.slots.map (·.2)) (outcome : Outcome) :
    Orderly (c.settle call outcome) := by
  refine h.of_subperm (.refl _) h.keys (size_settled _ _ _) fun {i k'} hk' hi => ?_
  have hk' := (getElem?_settled c.calls call outcome i).symm.trans hk'
  have hne : call ≠ i := by
    rintro rfl
    exact hcall hi
  rw [if_neg hne] at hk'
  exact ⟨k', hk', rfl⟩

theorem slots_closePending_sublist (c : Core) (id : Id) :
    (c.closePending id).slots.Sublist c.slots :=
  (List.Sublist.refl _).append List.filter_sublist

theorem Orderly.close (h : Orderly c) (hn : c.pendingCall? id = some call) (outcome : Outcome) :
    Orderly ((c.closePending id).settle call outcome) := by
  have hsub := slots_closePending_sublist c id
  have hkeys : (c.closePending id).keys.Nodup := by
    rw [keys_closePending]
    exact h.keys.filter _
  have hclosed : Orderly (c.closePending id) :=
    h.of_subperm hsub.subperm hkeys rfl fun hk _ => ⟨_, hk, rfl⟩
  refine hclosed.settle (fun hmem => ?_) outcome
  obtain ⟨p, hp, hcall⟩ := List.mem_map.1 hmem
  have hopen := mem_pending_of_pendingCall? hn
  have he : p = (id, call) :=
    List.inj_on_of_nodup_map h.once (hsub.subset hp) (mem_slots_of_pending hopen) hcall
  subst he
  rcases List.mem_append.1 hp with hp | hp
  · exact (List.nodup_append.1 h.once.of_map).2.2 _ hp _ hopen rfl
  · exact absurd rfl (of_decide_eq_true (List.mem_filter.1 hp).2)

theorem Orderly.send (h : Orderly c) (hr : c.running = true) (method : String)
    (params : Option Json) (transient : Bool) :
    Orderly ({ c with
      nextId := c.nextId + 1
      calls := c.calls.push { id := .number c.nextId, method, transient } }.enqueue
        (.request (.number c.nextId) method params c.calls.size)) := by
  rw [Core.enqueue, if_pos hr]
  generalize hc' : Core.mk _ _ _ _ _ = c'
  have hslots : c'.slots.Perm ((.number c.nextId, c.calls.size) :: c.slots) := by
    rw [← hc', slots, List.filterMap_append]
    simp only [callOf, List.filterMap_cons, List.filterMap_nil, List.append_assoc,
      List.singleton_append]
    exact List.perm_middle
  have hsize : c'.calls.size = c.calls.size + 1 := by rw [← hc', Array.size_push]
  have hfresh : c.calls.size ∉ c.slots.map (·.2) := by
    intro hmem
    obtain ⟨p, hp, he⟩ := List.mem_map.1 hmem
    exact absurd (h.made hp) (by omega)
  refine
    { once := ?_
      made := fun hp => ?_
      keys := hc' ▸ h.keys
      unsettled := fun {i k} hk hi => ?_ }
  · rw [(hslots.map _).nodup_iff, List.map_cons, List.nodup_cons]
    exact ⟨hfresh, h.once⟩
  · rcases List.mem_cons.1 (hslots.mem_iff.1 hp) with rfl | hp
    · exact hsize ▸ Nat.lt_succ_self _
    · exact hsize ▸ Nat.lt_succ_of_lt (h.made hp)
  · rw [← hc', Array.getElem?_push] at hk
    split_ifs at hk with he
    · obtain rfl := Option.some.inj hk
      rfl
    · rw [(hslots.map _).mem_iff, List.map_cons, List.mem_cons] at hi
      exact h.unsettled hk (hi.resolve_left he)

/-- A queued call leaves the queue, and the others stay where they are. -/
theorem slots_of_request {method : String} {params : Option Json} {rest : List Command}
    (hc : c.commands = .request id method params call :: rest) :
    c.slots = (id, call) :: ({ c with commands := rest } : Core).slots := by
  rw [slots, hc]
  rfl

/-- Every step keeps the table in order. -/
theorem Orderly.step (hs : Step label c c') (h : Orderly c) : Orderly c' := by
  cases hs with
  | same => exact h
  | refuse => exact h.of_subperm (.refl _) h.keys rfl fun hk _ => ⟨_, hk, rfl⟩
  | send _ method params transient hr => exact h.send hr method params transient
  | ask _ a ha => exact h.enqueue ha
  | mark _ call f k hk _ ho => exact h.mark hk ho
  | giveUp _ call f k tell hk _ ho => exact (h.mark hk ho).enqueue rfl
  | skip _ a rest hc ha => exact h.skip hc ha
  | register _ id method params call rest hc hn =>
    have hslots := slots_of_request hc
    refine h.of_subperm ?_ ?_ rfl fun hk _ => ⟨_, hk, rfl⟩
    · rw [hslots]
      refine List.Perm.subperm ?_
      rw [slots, slots, ← List.append_assoc]
      exact List.perm_append_singleton _ _
    · rw [Core.keys, List.map_append, List.nodup_append]
      refine ⟨h.keys, List.nodup_singleton _, ?_⟩
      rintro key hkey _ hid rfl
      obtain rfl := List.mem_singleton.1 hid
      exact pendingCall?_eq_none.1 hn hkey
  | reject _ id method params call other rest hc hn =>
    have hslots := slots_of_request hc
    have honce := h.once
    rw [hslots, List.map_cons, List.nodup_cons] at honce
    have hrest : Orderly { c with commands := rest } := by
      refine h.of_subperm ?_ h.keys rfl fun hk _ => ⟨_, hk, rfl⟩
      rw [hslots]
      exact (List.sublist_cons_self _ _).subperm
    exact hrest.settle honce.1 _
  | abandon _ id tell call rest hc hn => exact (h.skip hc rfl).close hn _
  | answer _ id call outcome hn => exact h.close hn outcome
  | stop =>
    refine
      { once := List.nodup_nil
        made := fun hp => absurd hp List.not_mem_nil
        keys := List.nodup_nil
        unsettled := fun _ hi => absurd hi List.not_mem_nil }

/-! ## No call is forgotten -/

/-- A call without an outcome is queued or open, and none is once the task has stopped. -/
structure Complete (c : Core) : Prop where
  unsettled : ∀ {i k}, c.calls[i]? = some k → k.outcomes = [] → i ∈ c.slots.map (·.2)
  stopped : c.running = false → c.commands = [] ∧ c.pending = []

theorem Complete.start {R N : Type} (registry : Rpc.Registry R N) (config : Config) :
    (State.start registry config).core.Complete where
  unsettled hk := by simp [State.core, State.start, State.log] at hk
  stopped _ := ⟨rfl, rfl⟩

/-- A call that gets an outcome may leave the table. -/
theorem Complete.settle (h : Complete c) {outcome : Outcome}
    (hslots : ∀ i ∈ c.slots.map (·.2), i = call ∨ i ∈ c'.slots.map (·.2))
    (hcalls : c'.calls = settled c.calls call outcome)
    (hstopped : c'.running = false → c'.commands = [] ∧ c'.pending = []) : Complete c' where
  unsettled {i k'} hk' ho := by
    rw [hcalls, getElem?_settled] at hk'
    split_ifs at hk' with hi
    · obtain ⟨k, -, rfl⟩ := Option.map_eq_some_iff.1 hk'
      simp at ho
    · exact (hslots i (h.unsettled hk' ho)).resolve_left (Ne.symm hi)
  stopped := hstopped

theorem Complete.enqueue {a : Command} (h : Complete c) (ha : callOf a = none) :
    Complete (c.enqueue a) where
  unsettled hk ho := by
    rw [slots_enqueue ha]
    refine h.unsettled ?_ ho
    unfold Core.enqueue at hk
    split_ifs at hk <;> exact hk
  stopped hr := by
    unfold Core.enqueue at hr ⊢
    split_ifs at hr ⊢ with hrun
    · exact absurd (hrun.symm.trans hr) (by simp)
    · exact h.stopped hr

theorem Complete.mark (h : Complete c) {f : Call → Call} {k : Call} (hk : c.calls[call]? = some k)
    (ho : (f k).outcomes = k.outcomes) :
    Complete { c with calls := c.calls.modify call f } where
  unsettled {i k'} hk' hempty := by
    have hk' : (c.calls.modify call f)[i]? = some k' := hk'
    rw [Array.getElem?_modify] at hk'
    split_ifs at hk' with hi
    · subst hi
      rw [hk] at hk'
      obtain rfl := Option.some.inj hk'
      exact h.unsettled hk (ho.symm.trans hempty)
    · exact h.unsettled hk' hempty
  stopped := h.stopped

theorem Complete.send (h : Complete c) (hr : c.running = true) (method : String)
    (params : Option Json) (transient : Bool) :
    Complete ({ c with
      nextId := c.nextId + 1
      calls := c.calls.push { id := .number c.nextId, method, transient } }.enqueue
        (.request (.number c.nextId) method params c.calls.size)) := by
  rw [Core.enqueue, if_pos hr]
  refine ⟨fun {i k} hk ho => ?_, fun hr' => absurd (hr.symm.trans hr') (by simp)⟩
  have hmem : i = c.calls.size ∨ i ∈ c.slots.map (·.2) := by
    have hk : (c.calls.push _)[i]? = some k := hk
    rw [Array.getElem?_push] at hk
    split_ifs at hk with hi
    · exact .inl hi
    · exact .inr (h.unsettled hk ho)
  simp only [slots, List.filterMap_append, List.map_append, List.mem_append] at hmem ⊢
  rcases hmem with rfl | hmem | hmem
  · exact .inl (.inr (by simp [callOf]))
  · exact .inl (.inl hmem)
  · exact .inr hmem

/-- The slots that are left when an identifier is closed. -/
theorem mem_slots_closePending (h : Orderly c) (hn : c.pendingCall? id = some call) {i : Nat}
    (hi : i ∈ c.slots.map (·.2)) : i = call ∨ i ∈ (c.closePending id).slots.map (·.2) := by
  obtain ⟨p, hp, rfl⟩ := List.mem_map.1 hi
  by_cases hid : p ∈ c.pending ∧ p.1 = id
  · have hopen := mem_pending_of_pendingCall? hn
    have he : p = (id, call) := List.inj_on_of_nodup_map h.keys hid.1 hopen hid.2
    exact .inl (congrArg Prod.snd he)
  · refine .inr (List.mem_map_of_mem ?_)
    rcases List.mem_append.1 hp with hp | hp
    · exact List.mem_append_left _ hp
    · refine List.mem_append_right _ (List.mem_filter.2 ⟨hp, ?_⟩)
      exact decide_eq_true fun he => hid ⟨hp, he⟩

theorem Complete.stop (h : Complete c) (ho : Orderly c) : Complete c.stop where
  unsettled {i k'} hk' hempty := by
    have hk' := (getElem?_allClosed c.calls c.slots ho.once i).symm.trans hk'
    split_ifs at hk' with hi
    · obtain ⟨k, -, rfl⟩ := Option.map_eq_some_iff.1 hk'
      simp at hempty
    · exact absurd (h.unsettled hk' hempty) hi
  stopped _ := ⟨rfl, rfl⟩

theorem Complete.step (hs : Step label c c') (ho : Orderly c) (h : Complete c) : Complete c' := by
  have hbusy : ∀ {a : Command} {rest : List Command}, c.commands = a :: rest →
      c.running = false → False := by
    intro a rest hc hr
    exact absurd (hc.symm.trans (h.stopped hr).1) (List.cons_ne_nil _ _)
  cases hs with
  | same => exact h
  | refuse => exact ⟨h.unsettled, h.stopped⟩
  | send _ method params transient hr => exact h.send hr method params transient
  | ask _ a ha => exact h.enqueue ha
  | mark _ call f k hk _ hout => exact h.mark hk hout
  | giveUp _ call f k tell hk _ hout => exact (h.mark hk hout).enqueue rfl
  | skip _ a rest hc ha =>
    refine ⟨fun hk hout => ?_, fun hr => (hbusy hc hr).elim⟩
    have hi := h.unsettled hk hout
    rwa [slots, hc, List.filterMap_cons_none ha] at hi
  | register _ id method params call rest hc =>
    refine ⟨fun {i k} hk hout => ?_, fun hr => (hbusy hc hr).elim⟩
    have hi := h.unsettled hk hout
    rw [slots, hc] at hi
    simp only [slots, callOf, List.filterMap_cons, List.map_append, List.map_cons, List.mem_append,
      List.mem_cons, List.cons_append, List.map_nil, List.not_mem_nil, or_false] at hi ⊢
    tauto
  | reject _ id method params call other rest hc =>
    refine h.settle (fun i hi => ?_) rfl fun hr => (hbusy hc hr).elim
    rw [slots, hc] at hi
    exact List.mem_cons.1 hi
  | abandon _ id tell call rest hc hn =>
    have hslots : ({ c with commands := rest } : Core).slots = c.slots := by
      rw [slots, slots, hc]
      rfl
    have hrest : Orderly { c with commands := rest } := ho.skip hc rfl
    refine h.settle (fun i hi => ?_) rfl fun hr => (hbusy hc hr).elim
    exact mem_slots_closePending hrest hn (hslots ▸ hi)
  | answer _ id call outcome hn =>
    refine h.settle (fun i hi => mem_slots_closePending ho hn hi) rfl fun hr => ?_
    obtain ⟨-, hpending⟩ := h.stopped hr
    exact absurd (mem_pending_of_pendingCall? hn) (by simp [hpending])
  | stop => exact h.stop ho

end Core

/-- The table is in order in every run. -/
theorem State.orderly_run {R N : Type} (registry : Rpc.Registry R N) (config : Config)
    (actions : List Action) : ((State.start registry config).run actions).core.Orderly := by
  induction actions using List.reverseRecOn with
  | nil => exact Core.Orderly.start registry config
  | append_singleton actions a ih =>
    rw [State.run_concat]
    exact Core.Orderly.step (State.core_act _ a) ih

/-- No call is forgotten in any run. -/
theorem State.complete_run {R N : Type} (registry : Rpc.Registry R N) (config : Config)
    (actions : List Action) : ((State.start registry config).run actions).core.Complete := by
  induction actions using List.reverseRecOn with
  | nil => exact Core.Complete.start registry config
  | append_singleton actions a ih =>
    rw [State.run_concat]
    exact ih.step (State.core_act _ a) (State.orderly_run registry config actions)

end PeerRpc.Session
