import PeerRpc.Proofs.Session.Action

/-!
# Every call ends exactly once

While the task is at work, a call has no outcome as long as it is queued or open, and exactly one
afterwards (`Core.Settling`). When the task stops, nothing is queued or open any more.

* `settled_exactly_once`: in every run with fewer than 2⁶⁴ calls, a call gets at most one outcome,
  and exactly one once the task has stopped, whatever comes after.
-/

namespace PeerRpc.Session

open Rpc (Id)

/-! ## Identifiers -/

/-- The identifier of the call of a number. -/
def idAt (call : Nat) : Id :=
  .number (Int64.ofNat (call + 1))

theorem idAt_inj {a b : Nat} (ha : a < 2 ^ 64) (hb : b < 2 ^ 64) (h : idAt a = idAt b) : a = b := by
  have h := congrArg (fun n => n.toBitVec.toNat) (Id.number.inj h)
  change (BitVec.ofNat 64 (a + 1)).toNat = (BitVec.ofNat 64 (b + 1)).toNat at h
  rw [BitVec.toNat_ofNat, BitVec.toNat_ofNat] at h
  omega

/-! ## Calls -/

variable {calls : Array Call} {i j : Nat} {k k' : Call}

theorem getElem?_settled (calls : Array Call) (i : Nat) (outcome : Outcome) (j : Nat) :
    (settled calls i outcome)[j]? =
      if i = j then calls[j]?.map fun k => { k with outcomes := k.outcomes ++ [outcome] }
      else calls[j]? :=
  Array.getElem?_modify

theorem getElem?_allClosed (calls : Array Call) (slots : List (Id × Nat))
    (h : (slots.map (·.2)).Nodup) (j : Nat) :
    (allClosed calls slots)[j]? =
      if j ∈ slots.map (·.2) then
        calls[j]?.map fun k => { k with outcomes := k.outcomes ++ [.error .closed] }
      else calls[j]? := by
  induction slots generalizing calls with
  | nil => rfl
  | cons p slots ih =>
    rw [List.map_cons, List.nodup_cons] at h
    have := ih (settled calls p.2 (.error .closed)) h.2
    rw [getElem?_settled] at this
    change (allClosed (settled calls p.2 (.error .closed)) slots)[j]? = _
    rw [this, List.map_cons]
    by_cases hj : p.2 = j
    · subst hj
      rw [if_neg h.1, if_pos rfl, if_pos List.mem_cons_self]
    · rw [if_neg hj]
      refine if_congr ?_ rfl rfl
      rw [List.mem_cons, or_iff_right (Ne.symm hj)]

@[simp] theorem size_settled (calls : Array Call) (i : Nat) (outcome : Outcome) :
    (settled calls i outcome).size = calls.size :=
  Array.size_modify

@[simp] theorem size_allClosed (calls : Array Call) (slots : List (Id × Nat)) :
    (allClosed calls slots).size = calls.size := by
  induction slots generalizing calls with
  | nil => rfl
  | cons p slots ih => exact (ih _).trans (size_settled _ _ _)

/-- A call that has not become another one: the identifier stays, and so does being given up. -/
structure Call.Keeps (k k' : Call) : Prop where
  id_eq : k'.id = k.id
  abandoned : k.Abandoned → k'.Abandoned

theorem Call.Keeps.refl (k : Call) : k.Keeps k := ⟨rfl, fun h => h⟩

namespace Core

variable {R N : Type} {c c' : Core} {id : Id} {call : Nat} {outcome : Outcome}
  {label : Option (Nat × Outcome)}

theorem mem_pending_of_pendingCall? (h : c.pendingCall? id = some call) :
    (id, call) ∈ c.pending := by
  obtain ⟨p, hp, rfl⟩ := Option.map_eq_some_iff.1 h
  have hid : p.1 = id := by simpa using List.find?_some hp
  exact hid ▸ List.mem_of_find?_eq_some hp

/-- What holds of the calls after every step of a session. -/
structure Settling (c : Core) : Prop where
  nextId : c.running = true → c.nextId = Int64.ofNat (c.calls.size + 1)
  ids : ∀ {i k}, c.calls[i]? = some k → k.id = idAt i
  slots : ∀ {p}, p ∈ c.slots → p.1 = idAt p.2 ∧ p.2 < c.calls.size
  nodup : (c.slots.map (·.2)).Nodup
  given : ∀ {id tell}, .abandon id tell ∈ c.commands →
    ∃ i k, c.calls[i]? = some k ∧ id = idAt i ∧ k.Abandoned
  unsettled : ∀ {i k}, c.calls[i]? = some k → i ∈ c.slots.map (·.2) → k.outcomes = []
  settled : ∀ {i k}, c.calls[i]? = some k → i ∉ c.slots.map (·.2) → ∃ o, k.outcomes = [o]
  stopped : c.running = false → c.commands = [] ∧ c.pending = []

/-- Nothing is lost if the calls keep their outcomes and the slots are the same up to their
order. -/
theorem Settling.of_perm (h : Settling c) (hslots : c'.slots.Perm c.slots)
    (hsize : c'.calls.size = c.calls.size)
    (hcalls : ∀ {i : Nat} {k' : Call}, c'.calls[i]? = some k' →
      ∃ k, c.calls[i]? = some k ∧ k.Keeps k' ∧ k'.outcomes = k.outcomes)
    (hrunning : c'.running = c.running)
    (hnext : c'.running = true → c'.nextId = c.nextId)
    (hgiven : ∀ {id tell}, .abandon id tell ∈ c'.commands →
      .abandon id tell ∈ c.commands ∨ ∃ i k', c'.calls[i]? = some k' ∧ id = idAt i ∧ k'.Abandoned)
    (hstopped : c.running = false → c.commands = [] ∧ c.pending = [] →
      c'.commands = [] ∧ c'.pending = []) : Settling c' where
  nextId hr := by rw [hnext hr, hsize, h.nextId (hrunning ▸ hr)]
  ids hk := by
    obtain ⟨k, hk, hkeeps, -⟩ := hcalls hk
    rw [hkeeps.id_eq, h.ids hk]
  slots hp := hsize ▸ h.slots (hslots.mem_iff.1 hp)
  nodup := (hslots.map _).nodup_iff.2 h.nodup
  given ha := by
    rcases hgiven ha with ha | ha
    · obtain ⟨i, k, hk, hid, hab⟩ := h.given ha
      have hi : i < c'.calls.size := hsize ▸ (Array.getElem?_eq_some_iff.1 hk).1
      obtain ⟨k', hk', hkeeps, -⟩ := hcalls (Array.getElem?_eq_getElem hi)
      obtain rfl := Option.some.inj (hk.symm.trans hk')
      exact ⟨i, _, Array.getElem?_eq_getElem hi, hid, hkeeps.abandoned hab⟩
    · exact ha
  unsettled hk hi := by
    obtain ⟨k, hk, -, ho⟩ := hcalls hk
    rw [ho, h.unsettled hk ((hslots.map _).mem_iff.1 hi)]
  settled hk hi := by
    obtain ⟨k, hk, -, ho⟩ := hcalls hk
    rw [ho]
    exact h.settled hk fun hi' => hi ((hslots.map _).mem_iff.2 hi')
  stopped hr := hstopped (hrunning ▸ hr) (h.stopped (hrunning ▸ hr))

theorem Settling.start (registry : Rpc.Registry R N) (config : Config) :
    (State.start registry config).core.Settling where
  nextId _ := rfl
  ids hk := by simp [State.core, State.start, State.log] at hk
  slots hp := by simp [Core.slots, State.core, State.start, State.log] at hp
  nodup := List.nodup_nil
  given ha := by simp [State.core, State.start, State.log] at ha
  unsettled hk := by simp [State.core, State.start, State.log] at hk
  settled hk := by simp [State.core, State.start, State.log] at hk
  stopped _ := ⟨rfl, rfl⟩

theorem Settling.call_eq (h : Settling c) (hsize : c.calls.size < 2 ^ 64) {p q : Id × Nat}
    (hp : p ∈ c.slots) (hq : q ∈ c.slots) (he : p.1 = q.1) : p = q := by
  obtain ⟨hp1, hp2⟩ := h.slots hp
  obtain ⟨hq1, hq2⟩ := h.slots hq
  refine Prod.ext he (idAt_inj (by omega) (by omega) ?_)
  rw [← hp1, ← hq1, he]

theorem mem_slots_of_pending {p : Id × Nat} (h : p ∈ c.pending) : p ∈ c.slots :=
  List.mem_append_right _ h

/-- An identifier that is no longer open leaves the slots without its call. -/
theorem Settling.slots_closePending (h : Settling c) (hsize : c.calls.size < 2 ^ 64)
    (hn : c.pendingCall? id = some call) :
    c.slots.Perm ((id, call) :: (c.closePending id).slots) := by
  have hmem := mem_pending_of_pendingCall? hn
  have hnodup : c.pending.Nodup := (List.nodup_append.1 h.nodup.of_map).2.1
  have hfilter : c.pending.filter (fun p => p.1 ≠ id) = c.pending.erase (id, call) := by
    rw [hnodup.erase_eq_filter]
    refine List.filter_congr fun p hp => ?_
    have hiff : p.1 = id ↔ p = (id, call) := by
      refine ⟨fun he => ?_, fun he => he ▸ rfl⟩
      exact h.call_eq hsize (mem_slots_of_pending hp) (mem_slots_of_pending hmem) he
    rw [Bool.eq_iff_iff]
    simp [hiff]
  unfold Core.slots closePending
  rw [hfilter]
  exact ((List.perm_cons_erase hmem).append_left _).trans List.perm_middle

/-- A call is settled when its identifier stops being open. -/
theorem Settling.close (h : Settling c) (hsize : c.calls.size < 2 ^ 64)
    (hn : c.pendingCall? id = some call) (outcome : Outcome) :
    Settling ((c.closePending id).settle call outcome) := by
  have hperm := h.slots_closePending hsize hn
  have hmap := hperm.map (·.2)
  have hnodup := hmap.nodup_iff.1 h.nodup
  rw [List.map_cons, List.nodup_cons] at hnodup
  have hcalls : ∀ {i : Nat} {k' : Call},
      ((c.closePending id).settle call outcome).calls[i]? = some k' → ∃ k, c.calls[i]? = some k ∧
        k.Keeps k' ∧ k'.outcomes = if call = i then k.outcomes ++ [outcome] else k.outcomes := by
    intro i k' hk'
    have hk' := (getElem?_settled c.calls call outcome i).symm.trans hk'
    split_ifs at hk' with hi
    · obtain ⟨k, hk, rfl⟩ := Option.map_eq_some_iff.1 hk'
      exact ⟨k, hk, ⟨rfl, fun h => h⟩, by rw [if_pos hi]⟩
    · exact ⟨k', hk', .refl k', by rw [if_neg hi]⟩
  have hsize' : ((c.closePending id).settle call outcome).calls.size = c.calls.size :=
    size_settled _ _ _
  have hmem : ∀ i, i ∈ c.slots.map (·.2) ↔ i = call ∨ i ∈ (c.closePending id).slots.map (·.2) := by
    intro i
    rw [hmap.mem_iff, List.map_cons, List.mem_cons]
  refine
    { nextId := fun hr => hsize' ▸ h.nextId hr
      ids := fun hk' => ?_
      slots := fun hp => hsize' ▸ h.slots (hperm.mem_iff.2 (List.mem_cons_of_mem _ hp))
      nodup := hnodup.2
      given := fun ha => ?_
      unsettled := fun {i _} hk' hi => ?_
      settled := fun {i _} hk' hi => ?_
      stopped := fun hr => ?_ }
  · obtain ⟨k, hk, hkeeps, -⟩ := hcalls hk'
    rw [hkeeps.id_eq, h.ids hk]
  · obtain ⟨i, k, hk, hid, hab⟩ := h.given ha
    have hi := (Array.getElem?_eq_some_iff.1 hk).1
    rw [← hsize'] at hi
    obtain ⟨k', hk', hkeeps, -⟩ := hcalls (Array.getElem?_eq_getElem hi)
    obtain rfl := Option.some.inj (hk.symm.trans hk')
    exact ⟨i, _, Array.getElem?_eq_getElem hi, hid, hkeeps.abandoned hab⟩
  · obtain ⟨k, hk, -, ho⟩ := hcalls hk'
    have hne : call ≠ i := fun he => hnodup.1 (he ▸ hi)
    rw [ho, if_neg hne]
    exact h.unsettled hk ((hmem i).2 (.inr hi))
  · obtain ⟨k, hk, -, ho⟩ := hcalls hk'
    rw [ho]
    split_ifs with hc
    · exact ⟨outcome, by rw [h.unsettled hk ((hmem i).2 (.inl hc.symm)), List.nil_append]⟩
    · exact h.settled hk fun hi' => ((hmem i).1 hi').elim (fun he => hc he.symm) hi
  · exact absurd (mem_pending_of_pendingCall? hn) (by simp [(h.stopped hr).2])

theorem Settling.stop (h : Settling c) : Settling c.stop := by
  have hcalls : ∀ {i : Nat} {k' : Call}, c.stop.calls[i]? = some k' → ∃ k, c.calls[i]? = some k ∧
      k.Keeps k' ∧ ∃ o, k'.outcomes = [o] := by
    intro i k' hk'
    have hk' := (getElem?_allClosed c.calls c.slots h.nodup i).symm.trans hk'
    split_ifs at hk' with hi
    · obtain ⟨k, hk, rfl⟩ := Option.map_eq_some_iff.1 hk'
      refine ⟨k, hk, ⟨rfl, fun h => h⟩, .error .closed, ?_⟩
      rw [h.unsettled hk hi, List.nil_append]
    · exact ⟨k', hk', .refl k', h.settled hk' hi⟩
  refine
    { nextId := fun hr => by cases hr
      ids := fun hk' => ?_
      slots := fun hp => absurd hp List.not_mem_nil
      nodup := List.nodup_nil
      given := fun ha => absurd ha List.not_mem_nil
      unsettled := fun _ hi => absurd hi List.not_mem_nil
      settled := fun hk' _ => ?_
      stopped := fun _ => ⟨rfl, rfl⟩ }
  · obtain ⟨k, hk, hkeeps, -⟩ := hcalls hk'
    rw [hkeeps.id_eq, h.ids hk]
  · obtain ⟨-, -, -, ho⟩ := hcalls hk'
    exact ho

theorem Settling.send (h : Settling c) (hr : c.running = true) (method : String)
    (params : Option Json) (transient : Bool) :
    Settling ({ c with
      nextId := c.nextId + 1
      calls := c.calls.push { id := .number c.nextId, method, transient } }.enqueue
        (.request (.number c.nextId) method params c.calls.size)) := by
  have hid : Id.number c.nextId = idAt c.calls.size := by rw [h.nextId hr]; rfl
  rw [enqueue, if_pos hr, hid]
  generalize hc' : Core.mk _ _ _ _ _ = c'
  have hcalls : ∀ {i : Nat} {k' : Call}, c'.calls[i]? = some k' →
      i = c.calls.size ∧ k'.id = idAt c.calls.size ∧ k'.outcomes = [] ∨ c.calls[i]? = some k' := by
    intro i k' hk'
    rw [← hc', Array.getElem?_push] at hk'
    split_ifs at hk' with hi
    · obtain rfl := Option.some.inj hk'
      exact .inl ⟨hi, rfl, rfl⟩
    · exact .inr hk'
  have hslots : c'.slots.Perm ((idAt c.calls.size, c.calls.size) :: c.slots) := by
    rw [← hc', Core.slots, List.filterMap_append]
    simp only [callOf, List.filterMap_cons, List.filterMap_nil, List.append_assoc,
      List.singleton_append]
    exact List.perm_middle
  have hmap := hslots.map (·.2)
  have hfresh : c.calls.size ∉ c.slots.map (·.2) := by
    intro hmem
    obtain ⟨p, hp, he⟩ := List.mem_map.1 hmem
    exact absurd (h.slots hp).2 (by omega)
  have hmem : ∀ i, i ∈ c'.slots.map (·.2) ↔ i = c.calls.size ∨ i ∈ c.slots.map (·.2) := by
    intro i
    rw [hmap.mem_iff, List.map_cons, List.mem_cons]
  have hsize : c'.calls.size = c.calls.size + 1 := by rw [← hc', Array.size_push]
  refine
    { nextId := fun _ => ?_
      ids := fun {i _} hk' => ?_
      slots := fun hp => ?_
      nodup := ?_
      given := fun {id tell} ha => ?_
      unsettled := fun {i _} hk' hi => ?_
      settled := fun {i _} hk' hi => ?_
      stopped := fun hr' => ?_ }
  · rw [hsize, ← hc', h.nextId hr]
    exact (Int64.ofNat_add (c.calls.size + 1) 1).symm
  · rcases hcalls hk' with ⟨rfl, hid, -⟩ | hk
    · exact hid
    · exact h.ids hk
  · rcases List.mem_cons.1 (hslots.mem_iff.1 hp) with rfl | hp
    · exact ⟨rfl, by rw [hsize]; exact Nat.lt_succ_self _⟩
    · exact ⟨(h.slots hp).1, by rw [hsize]; exact Nat.lt_succ_of_lt (h.slots hp).2⟩
  · rw [hmap.nodup_iff, List.map_cons, List.nodup_cons]
    exact ⟨hfresh, h.nodup⟩
  · rw [← hc'] at ha ⊢
    have ha : Command.abandon id tell ∈ c.commands := by simpa using ha
    obtain ⟨i, k, hk, hid, hab⟩ := h.given ha
    have hi := (Array.getElem?_eq_some_iff.1 hk).1
    exact ⟨i, k, by rw [Array.getElem?_push, if_neg (by omega), hk], hid, hab⟩
  · rcases hcalls hk' with ⟨-, -, ho⟩ | hk
    · exact ho
    · have hlt := (Array.getElem?_eq_some_iff.1 hk).1
      exact h.unsettled hk (((hmem i).1 hi).resolve_left (by omega))
  · rcases hcalls hk' with ⟨rfl, -, -⟩ | hk
    · exact absurd ((hmem _).2 (.inl rfl)) hi
    · exact h.settled hk fun hi' => hi ((hmem i).2 (.inr hi'))
  · rw [← hc'] at hr'
    exact absurd (hr.symm.trans hr') (by simp)

theorem Settling.skip (h : Settling c) {a : Command} {rest : List Command}
    (hc : c.commands = a :: rest) (ha : callOf a = none) : Settling { c with commands := rest } := by
  refine h.of_perm ?_ rfl (fun hk => ⟨_, hk, .refl _, rfl⟩) rfl (fun _ => rfl) (fun hmem => ?_)
    fun hr hstopped => ?_
  · rw [Core.slots, Core.slots, hc, List.filterMap_cons_none ha]
  · exact .inl (hc ▸ List.mem_cons_of_mem _ hmem)
  · exact absurd (hc.symm.trans hstopped.1) (List.cons_ne_nil _ _)

/-- What marking a call leaves as it is. -/
theorem keeps_modify {f : Call → Call} (hk : calls[call]? = some k) (hid : (f k).id = k.id)
    (ho : (f k).outcomes = k.outcomes) (ha : k.Abandoned → (f k).Abandoned)
    (hk' : (calls.modify call f)[i]? = some k') :
    ∃ k, calls[i]? = some k ∧ k.Keeps k' ∧ k'.outcomes = k.outcomes := by
  rw [Array.getElem?_modify] at hk'
  split_ifs at hk' with hi
  · subst hi
    rw [hk] at hk'
    obtain rfl := Option.some.inj hk'
    exact ⟨k, hk, ⟨hid, ha⟩, ho⟩
  · exact ⟨k', hk', .refl k', rfl⟩

theorem Settling.giveUp (h : Settling c) {f : Call → Call} (tell : Bool)
    (hk : c.calls[call]? = some k) (hid : (f k).id = k.id) (ho : (f k).outcomes = k.outcomes)
    (ha : (f k).Abandoned) :
    Settling ({ c with calls := c.calls.modify call f }.enqueue (.abandon k.id tell)) := by
  have hkeep : ∀ {i : Nat} {k' : Call}, (c.calls.modify call f)[i]? = some k' →
      ∃ k, c.calls[i]? = some k ∧ k.Keeps k' ∧ k'.outcomes = k.outcomes :=
    keeps_modify hk hid ho fun _ => ha
  unfold enqueue
  split_ifs with hr
  · refine h.of_perm ?_ Array.size_modify hkeep rfl (fun _ => rfl) (fun {id tell'} hmem => ?_)
      fun hr' => ?_
    · rw [Core.slots, List.filterMap_append, List.filterMap_cons_none rfl, List.filterMap_nil,
        List.append_nil]
      exact .refl _
    · rcases List.mem_append.1 hmem with hmem | hmem
      · exact .inl hmem
      · obtain ⟨rfl, -⟩ := Command.abandon.inj (List.mem_singleton.1 hmem)
        refine .inr ⟨call, f k, ?_, h.ids hk, ha⟩
        rw [Array.getElem?_modify, if_pos rfl, hk]
        rfl
    · exact absurd (hr.symm.trans hr') (by simp)
  · exact h.of_perm (.refl _) Array.size_modify hkeep rfl (fun _ => rfl) .inl fun _ h => h

/-- No call is queued whose identifier is open. -/
theorem Settling.not_reject (h : Settling c) (hsize : c.calls.size < 2 ^ 64) {method : String}
    {params : Option Json} {rest : List Command}
    (hc : c.commands = .request id method params call :: rest) : c.pendingCall? id = none := by
  rcases hn : c.pendingCall? id with _ | other
  · rfl
  · have hmem := mem_pending_of_pendingCall? hn
    have hslots : c.slots = (id, call) :: (rest.filterMap callOf ++ c.pending) := by
      rw [Core.slots, hc]
      rfl
    have hhead : (id, call) ∈ c.slots := by
      rw [hslots]
      exact List.mem_cons_self
    have he := h.call_eq hsize hhead (mem_slots_of_pending hmem) rfl
    have hnodup := h.nodup.of_map
    rw [hslots, List.nodup_cons] at hnodup
    exact absurd (he ▸ List.mem_append_right _ hmem) hnodup.1

theorem Step.size_le (hs : Step label c c') : c.calls.size ≤ c'.calls.size := by
  cases hs with
  | send _ method params transient h =>
    rw [enqueue, if_pos h, Array.size_push]
    exact Nat.le_succ _
  | ask => unfold enqueue; split <;> exact le_rfl
  | mark => exact (Array.size_modify).ge
  | giveUp => unfold enqueue; split <;> exact (Array.size_modify).ge
  | stop => exact (size_allClosed _ _).ge
  | reject | abandon | answer => exact (size_settled _ _ _).ge
  | same | refuse | skip | register => exact le_rfl

/-- Every step keeps what holds of the calls. -/
theorem Settling.step (hs : Step label c c') (h : Settling c) (hsize : c.calls.size < 2 ^ 64) :
    Settling c' := by
  have hkeep : ∀ {i : Nat} {k' : Call}, c.calls[i]? = some k' →
      ∃ k, c.calls[i]? = some k ∧ k.Keeps k' ∧ k'.outcomes = k.outcomes :=
    fun hk => ⟨_, hk, .refl _, rfl⟩
  cases hs with
  | same => exact h
  | refuse _ hr =>
    refine h.of_perm (.refl _) rfl hkeep rfl (fun hr' => ?_) .inl fun _ h => h
    exact absurd (hr.symm.trans hr') (by simp)
  | send _ method params transient hr => exact h.send hr method params transient
  | ask _ a ha hid =>
    unfold enqueue
    split_ifs with hr
    · refine h.of_perm ?_ rfl hkeep rfl (fun _ => rfl) (fun {id tell} hmem => ?_) fun hr' => ?_
      · rw [Core.slots, List.filterMap_append, List.filterMap_cons_none ha, List.filterMap_nil,
          List.append_nil]
        exact .refl _
      · rcases List.mem_append.1 hmem with hmem | hmem
        · exact .inl hmem
        · exact absurd (List.mem_singleton.1 hmem).symm (hid id tell)
      · exact absurd (hr.symm.trans hr') (by simp)
    · exact h
  | mark _ call f k hk hid ho ha =>
    exact h.of_perm (.refl _) Array.size_modify (keeps_modify hk hid ho ha) rfl (fun _ => rfl) .inl
      fun _ h => h
  | giveUp _ call f k tell hk hid ho ha => exact h.giveUp tell hk hid ho ha
  | skip _ a rest hc ha => exact h.skip hc ha
  | register _ id method params call rest hc hn =>
    refine h.of_perm ?_ rfl hkeep rfl (fun _ => rfl) (fun hmem => ?_) fun hr hstopped => ?_
    · rw [Core.slots, Core.slots, hc, ← List.append_assoc]
      exact List.perm_append_singleton _ _
    · exact .inl (hc ▸ List.mem_cons_of_mem _ hmem)
    · exact absurd (hc.symm.trans hstopped.1) (List.cons_ne_nil _ _)
  | reject _ id method params call other rest hc hn =>
    exact absurd (hn.symm.trans (h.not_reject hsize hc)) (by simp)
  | abandon _ id tell call rest hc hn => exact (h.skip hc rfl).close hsize hn _
  | answer _ id call outcome hn => exact h.close hsize hn outcome
  | stop => exact h.stop

theorem Step.of_stopped (hs : Step label c c') (hr : c.running = false) :
    c'.running = false ∧ c'.calls.size = c.calls.size := by
  cases hs with
  | send _ method params transient h => exact absurd (hr.symm.trans h) (by simp)
  | ask => exact ⟨by simp [enqueue, hr], by simp [enqueue, hr]⟩
  | mark => exact ⟨hr, Array.size_modify⟩
  | giveUp => exact ⟨by simp [enqueue, hr], by simp [enqueue, hr]⟩
  | stop => exact ⟨rfl, size_allClosed _ _⟩
  | reject | abandon | answer => exact ⟨hr, size_settled _ _ _⟩
  | same | refuse | skip | register => exact ⟨hr, rfl⟩

/-- Why a call got an outcome in a step: it was answered, it had been given up, or the task has
stopped. -/
def Cause (label : Option (Nat × Outcome)) (c' : Core) (i : Nat) (k' : Call) (o : Outcome) : Prop :=
  label = some (i, o) ∨ o = .error .cancelled ∧ k'.Abandoned ∨
    o = .error .closed ∧ c'.running = false

/-- After a step a call has the outcomes that it had before, or the first one. A new call has
none. -/
theorem Step.outcomes (hs : Step label c c') (h : Settling c) (hsize : c.calls.size < 2 ^ 64)
    (hk' : c'.calls[i]? = some k') :
    c.calls.size ≤ i ∧ k'.outcomes = [] ∨
      ∃ k, c.calls[i]? = some k ∧ k.Keeps k' ∧ (k'.outcomes = k.outcomes ∨
        k.outcomes = [] ∧ ∃ o, k'.outcomes = [o] ∧ Cause label c' i k' o) := by
  have hsame : c'.calls = c.calls → ∃ k, c.calls[i]? = some k ∧ k.Keeps k' ∧
      (k'.outcomes = k.outcomes ∨
        k.outcomes = [] ∧ ∃ o, k'.outcomes = [o] ∧ Cause label c' i k' o) := by
    intro he
    rw [he] at hk'
    exact ⟨k', hk', .refl k', .inl rfl⟩
  have hsettle : ∀ {id call o}, c.pendingCall? id = some call →
      c'.calls = settled c.calls call o → (∀ k, c.calls[call]? = some k → k.Keeps k' →
        Cause label c' call k' o) →
      ∃ k, c.calls[i]? = some k ∧ k.Keeps k' ∧ (k'.outcomes = k.outcomes ∨
        k.outcomes = [] ∧ ∃ o, k'.outcomes = [o] ∧ Cause label c' i k' o) := by
    intro id call o hn he hcause
    rw [he, getElem?_settled] at hk'
    split_ifs at hk' with hi
    · subst hi
      obtain ⟨k, hk, rfl⟩ := Option.map_eq_some_iff.1 hk'
      have hmem := List.mem_map_of_mem (f := (·.2))
        (mem_slots_of_pending (mem_pending_of_pendingCall? hn))
      have hempty := h.unsettled hk hmem
      have hkeeps : k.Keeps { k with outcomes := k.outcomes ++ [o] } := ⟨rfl, fun h => h⟩
      exact ⟨k, hk, hkeeps, .inr ⟨hempty, o, by rw [hempty]; rfl, hcause k hk hkeeps⟩⟩
    · exact ⟨k', hk', .refl k', .inl rfl⟩
  cases hs with
  | same | refuse | skip | register => exact .inr (hsame rfl)
  | ask => exact .inr (hsame (by unfold enqueue; split <;> rfl))
  | send _ method params transient hr =>
    rw [enqueue, if_pos hr, Array.getElem?_push] at hk'
    split_ifs at hk' with hi
    · obtain rfl := Option.some.inj hk'
      exact .inl ⟨hi.ge, rfl⟩
    · exact .inr ⟨k', hk', .refl k', .inl rfl⟩
  | mark _ call f k hk hid ho ha =>
    obtain ⟨k, hk, hkeeps, ho⟩ := keeps_modify hk hid ho ha hk'
    exact .inr ⟨k, hk, hkeeps, .inl ho⟩
  | giveUp _ call f k tell hk hid ho ha =>
    have hcalls : ({ c with calls := c.calls.modify call f }.enqueue
        (.abandon k.id tell)).calls = c.calls.modify call f := by
      unfold enqueue
      split <;> rfl
    rw [hcalls] at hk'
    obtain ⟨k, hk, hkeeps, ho⟩ := keeps_modify hk hid ho (fun _ => ha) hk'
    exact .inr ⟨k, hk, hkeeps, .inl ho⟩
  | reject _ id method params call other rest hc hn =>
    exact absurd (hn.symm.trans (h.not_reject hsize hc)) (by simp)
  | abandon _ id tell call rest hc hn =>
    refine .inr (hsettle hn rfl fun k hk hkeeps => .inr (.inl ⟨rfl, hkeeps.abandoned ?_⟩))
    -- The command names the call that was given up, and no other call has its identifier.
    obtain ⟨j, kj, hkj, hid, hab⟩ := h.given (hc ▸ List.mem_cons_self)
    obtain ⟨hid', hlt⟩ := h.slots (mem_slots_of_pending (mem_pending_of_pendingCall? hn))
    have hj := (Array.getElem?_eq_some_iff.1 hkj).1
    obtain rfl := idAt_inj (hj.trans hsize) (hlt.trans hsize) (hid.symm.trans hid')
    exact Option.some.inj (hkj.symm.trans hk) ▸ hab
  | answer _ id call outcome hn =>
    exact .inr (hsettle hn rfl fun _ _ _ => .inl rfl)
  | stop =>
    have hk' := (getElem?_allClosed c.calls c.slots h.nodup i).symm.trans hk'
    split_ifs at hk' with hi
    · obtain ⟨k, hk, rfl⟩ := Option.map_eq_some_iff.1 hk'
      have hempty := h.unsettled hk hi
      refine .inr ⟨k, hk, ⟨rfl, fun h => h⟩, .inr ⟨hempty, .error .closed, ?_, ?_⟩⟩
      · rw [hempty]
        rfl
      · exact .inr (.inr ⟨rfl, rfl⟩)
    · exact .inr ⟨k', hk', .refl k', .inl rfl⟩

theorem Settling.settled_of_stopped (h : Settling c) (hr : c.running = false)
    (hk : c.calls[i]? = some k) : ∃ o, k.outcomes = [o] := by
  obtain ⟨hcommands, hpending⟩ := h.stopped hr
  have hslots : c.slots = [] := by
    rw [Core.slots, hcommands, hpending]
    rfl
  exact h.settled hk (by simp [hslots])

/-- An outcome that a call has got stays the only one. -/
theorem Step.outcomes_of_settled (hs : Step label c c') (h : Settling c)
    (hsize : c.calls.size < 2 ^ 64) (hk : c.calls[i]? = some k) (hne : k.outcomes ≠ []) :
    ∃ k', c'.calls[i]? = some k' ∧ k'.outcomes = k.outcomes := by
  have hi := (Array.getElem?_eq_some_iff.1 hk).1
  have hk' := Array.getElem?_eq_getElem (hi.trans_le hs.size_le)
  refine ⟨_, hk', ?_⟩
  rcases hs.outcomes h hsize hk' with ⟨hle, -⟩ | ⟨k₀, hk₀, -, ho⟩
  · exact absurd hi (Nat.not_lt.2 hle)
  · obtain rfl := Option.some.inj (hk₀.symm.trans hk)
    exact ho.resolve_right fun hempty => hne hempty.1

/-- A call that a response settles has the response's outcome afterwards. -/
theorem Step.outcomes_of_answer (hs : Step (some (i, outcome)) c c') (h : Settling c) :
    ∃ k', c'.calls[i]? = some k' ∧ k'.outcomes = [outcome] := by
  cases hs with
  | answer _ id _ _ hn =>
    have hmem := mem_slots_of_pending (mem_pending_of_pendingCall? hn)
    obtain ⟨k, hk⟩ : ∃ k, c.calls[i]? = some k := ⟨_, Array.getElem?_eq_getElem (h.slots hmem).2⟩
    have hempty := h.unsettled hk (List.mem_map_of_mem (f := (·.2)) hmem)
    refine ⟨{ k with outcomes := k.outcomes ++ [outcome] }, ?_, by rw [hempty]; rfl⟩
    refine (getElem?_settled c.calls i outcome i).trans ?_
    rw [if_pos rfl, hk]
    rfl

end Core

namespace State

variable {R N : Type}

/-! ## Runs -/

/-- In a run, a response of the peer settles a call with an outcome. -/
def Answered (s : State R N) (actions : List Action) (call : Nat) (outcome : Outcome) : Prop :=
  ∃ before a after, actions = before ++ a :: after ∧
    (s.run before).answered a = some (call, outcome)

theorem Answered.append {s : State R N} {actions : List Action} {call : Nat} {outcome : Outcome}
    (h : s.Answered actions call outcome) (more : List Action) :
    s.Answered (actions ++ more) call outcome := by
  obtain ⟨before, a, after, rfl, ha⟩ := h
  exact ⟨before, a, after ++ more, by simp, ha⟩

theorem size_calls_act (s : State R N) (a : Action) : s.calls.size ≤ (s.act a).calls.size :=
  (core_act s a).size_le

variable {registry : Rpc.Registry R N} {config : Config}

theorem settling_run_of {s : State R N} (h₀ : s.core.Settling) {actions : List Action}
    (h : (s.run actions).calls.size < 2 ^ 64) : (s.run actions).core.Settling := by
  induction actions using List.reverseRecOn with
  | nil => exact h₀
  | append_singleton actions a ih =>
    rw [run_concat] at h ⊢
    have hsize := (size_calls_act _ a).trans_lt h
    exact Core.Settling.step (core_act _ a) (ih hsize) hsize

theorem settling_run {actions : List Action}
    (h : ((start registry config).run actions).calls.size < 2 ^ 64) :
    ((start registry config).run actions).core.Settling :=
  settling_run_of (Core.Settling.start registry config) h

/-- A call has no outcome, or one of which it is known where it comes from. -/
theorem outcomes_run {actions : List Action} {i : Nat} {k : Call}
    (h : ((start registry config).run actions).calls.size < 2 ^ 64)
    (hk : ((start registry config).run actions).calls[i]? = some k) :
    k.outcomes = [] ∨ ∃ o, k.outcomes = [o] ∧
      ((start registry config).Answered actions i o ∨ o = .error .cancelled ∧ k.Abandoned ∨
        o = .error .closed ∧ ((start registry config).run actions).isRunning = false) := by
  induction actions using List.reverseRecOn generalizing k with
  | nil => simp [start, log] at hk
  | append_singleton actions a ih =>
    rw [run_concat] at h hk ⊢
    have hsize := (size_calls_act _ a).trans_lt h
    have hstep := core_act ((start registry config).run actions) a
    rcases hstep.outcomes (settling_run hsize) hsize hk with ⟨-, ho⟩ | ⟨k₀, hk₀, hkeeps, ho⟩
    · exact .inl ho
    · rcases ho with ho | ⟨-, o, ho, hcause⟩
      · rw [ho]
        refine (ih hsize hk₀).imp_right ?_
        rintro ⟨o, ho', hanswered | ⟨rfl, hab⟩ | ⟨rfl, hr⟩⟩
        · exact ⟨o, ho', .inl (hanswered.append [a])⟩
        · exact ⟨_, ho', .inr (.inl ⟨rfl, hkeeps.abandoned hab⟩)⟩
        · exact ⟨_, ho', .inr (.inr ⟨rfl, (hstep.of_stopped hr).1⟩)⟩
      · refine .inr ⟨o, ho, ?_⟩
        rcases hcause with hlabel | hcause
        · exact .inl ⟨actions, a, [], rfl, hlabel⟩
        · exact .inr hcause

theorem size_calls_run (s : State R N) (actions : List Action) :
    s.calls.size ≤ (s.run actions).calls.size := by
  induction actions generalizing s with
  | nil => exact le_rfl
  | cons a actions ih => exact (size_calls_act s a).trans (ih _)

/-- An outcome that a call has got stays the only one. -/
theorem outcomes_run_of_settled {actions : List Action} (more : List Action) {i : Nat} {k : Call}
    (h : ((start registry config).run (actions ++ more)).calls.size < 2 ^ 64)
    (hk : ((start registry config).run actions).calls[i]? = some k) (hne : k.outcomes ≠ []) :
    ∃ k', ((start registry config).run (actions ++ more)).calls[i]? = some k' ∧
      k'.outcomes = k.outcomes := by
  induction more using List.reverseRecOn with
  | nil => exact ⟨k, by rwa [List.append_nil], rfl⟩
  | append_singleton more a ih =>
    rw [← List.append_assoc, run_concat] at h ⊢
    have hsize := (size_calls_act _ a).trans_lt h
    obtain ⟨k', hk', ho⟩ := ih hsize
    obtain ⟨k'', hk'', ho'⟩ :=
      (core_act _ a).outcomes_of_settled (settling_run hsize) hsize hk' (ho ▸ hne)
    exact ⟨k'', hk'', ho'.trans ho⟩

theorem outcomes_of_answered {actions : List Action} {i : Nat} {o : Outcome}
    (h : ((start registry config).run actions).calls.size < 2 ^ 64)
    (ha : (start registry config).Answered actions i o) :
    ∃ k, ((start registry config).run actions).calls[i]? = some k ∧ k.outcomes = [o] := by
  obtain ⟨before, a, after, rfl, hlabel⟩ := ha
  rw [← List.singleton_append, ← List.append_assoc] at h ⊢
  have hsize : ((start registry config).run before).calls.size < 2 ^ 64 := by
    rw [List.append_assoc, run_append] at h
    exact (size_calls_run _ _).trans_lt h
  have hstep := core_act ((start registry config).run before) a
  rw [hlabel] at hstep
  obtain ⟨k, hk, ho⟩ := hstep.outcomes_of_answer (settling_run hsize)
  rw [← run_concat] at hk
  obtain ⟨k', hk', ho'⟩ := outcomes_run_of_settled after h hk (by simp [ho])
  exact ⟨k', hk', ho'.trans ho⟩

theorem size_calls_run_of_stopped {s : State R N} (h : s.isRunning = false)
    (actions : List Action) : (s.run actions).calls.size = s.calls.size := by
  induction actions generalizing s with
  | nil => rfl
  | cons a actions ih =>
    obtain ⟨hr, hsize⟩ := (core_act s a).of_stopped h
    exact (ih hr).trans hsize

/-- A caller whose call has ended is told. -/
theorem poll_of_outcomes {s : State R N} {i : Nat} {k : Call} {o : Outcome}
    (hk : s.calls[i]? = some k) (ho : k.outcomes = [o]) :
    (s.poll i).1 = if k.finished || k.cancelled then some (.error .cancelled) else some o := by
  rw [poll, hk]
  dsimp only
  split_ifs
  · rfl
  · rw [ho]
    rfl

end State

/-- In every run of a session with fewer than 2⁶⁴ calls, every call gets at most one outcome. Once
the task has stopped it has exactly one, so that its caller need not wait any longer; it is that the
session is closed, unless a response settled the call or it was given up; and nothing that happens
later changes it. -/
theorem settled_exactly_once {R N : Type} (registry : Rpc.Registry R N) (config : Config)
    (actions : List Action)
    (h : ((State.start registry config).run actions).calls.size < 2 ^ 64) :
    let s := (State.start registry config).run actions
    (∀ (i : Nat) k, s.calls[i]? = some k → k.outcomes.length ≤ 1 ∧
      ∀ o, (State.start registry config).Answered actions i o → k.outcomes = [o]) ∧
    (s.isRunning = false → ∀ (i : Nat) k, s.calls[i]? = some k →
      k.outcomes.length = 1 ∧
      (s.poll i).1.isSome = true ∧
      (¬k.Abandoned → (∀ o, ¬(State.start registry config).Answered actions i o) →
        k.outcomes = [.error .closed] ∧
          (k.finished = false → (s.poll i).1 = some (.error .closed))) ∧
      ∀ more, ∃ k', (s.run more).calls[i]? = some k' ∧ k'.outcomes = k.outcomes) := by
  intro s
  have hsettling : s.core.Settling := State.settling_run h
  constructor
  · intro i k hk
    constructor
    · rcases State.outcomes_run h hk with ho | ⟨o, ho, -⟩
      · rw [ho]
        exact Nat.zero_le 1
      · rw [ho]
        exact le_rfl
    · intro o ha
      obtain ⟨k', hk', ho⟩ := State.outcomes_of_answered h ha
      obtain rfl := Option.some.inj (hk.symm.trans hk')
      exact ho
  · intro hr i k hk
    obtain ⟨o, ho⟩ := hsettling.settled_of_stopped hr hk
    have hpoll := State.poll_of_outcomes hk ho
    refine ⟨by rw [ho]; rfl, ?_, fun hab hanswered => ?_, fun more => ?_⟩
    · rw [hpoll]
      split_ifs <;> rfl
    · have hclosed : o = .error .closed := by
        rcases State.outcomes_run h hk with hempty | ⟨o', ho', hcause⟩
        · rw [hempty] at ho
          cases ho
        · obtain rfl := List.singleton_inj.1 (ho.symm.trans ho')
          rcases hcause with hcause | ⟨-, hcause⟩ | ⟨hcause, -⟩
          · exact absurd hcause (hanswered o)
          · exact absurd hcause hab
          · exact hcause
      subst hclosed
      refine ⟨ho, fun hfinished => ?_⟩
      have hcancelled : k.cancelled = false := Bool.eq_false_iff.2 fun hc => hab (.inl hc)
      rw [hpoll, if_neg (by simp [hfinished, hcancelled])]
    · have hsize := State.size_calls_run_of_stopped hr more
      rw [← State.run_append] at hsize ⊢
      exact State.outcomes_run_of_settled more (hsize.trans_lt h) hk (by simp [ho])

/-- Of two calls the first is open and the second still queued when the peer closes its side. -/
theorem settled_when_peer_leaves :
    let s := (State.start (Rpc.Registry.empty : Rpc.Registry Unit Unit) {}).run
      [.send Rpc.Catalog.shutdown () false, .handle, .send Rpc.Catalog.shutdown () false,
        .closeSource .ended, .receive]
    s.calls.size = 2 ∧ s.isRunning = false ∧
      ∀ (i : Nat) k, s.calls[i]? = some k → k.outcomes.length = 1 := by
  have hstopped : ((State.start (Rpc.Registry.empty : Rpc.Registry Unit Unit) {}).run
      [.send Rpc.Catalog.shutdown () false, .handle, .send Rpc.Catalog.shutdown () false,
        .closeSource .ended, .receive]).isRunning = false := by decide +kernel
  have h := settled_exactly_once (Rpc.Registry.empty : Rpc.Registry Unit Unit) {}
    [.send Rpc.Catalog.shutdown () false, .handle, .send Rpc.Catalog.shutdown () false,
      .closeSource .ended, .receive] (by decide +kernel)
  exact ⟨by decide +kernel, hstopped, fun i k hk => (h.2 hstopped i k hk).1⟩

end PeerRpc.Session
