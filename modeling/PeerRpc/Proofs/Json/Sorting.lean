import PeerRpc.Proofs.Json.Reading

/-!
# Values with their names in order

Sorting keeps the members of an object: a name is looked up in the sorted object as in the one that
was written, if no name is written twice (`member?_sortedMembers`). The sorted object is plain if
the sorted values are, and it is no deeper than they are.
-/

namespace PeerRpc.Json

variable {name : String} {value : Json} {members done : List (String × Json)}

/-! ## Looking a name up -/

theorem member?_insertMember (name name' : String) (value : Json)
    (members : List (String × Json)) :
    member? name' (insertMember name value members) =
      if name' = name then some value else member? name' members := by
  induction members with
  | nil => rfl
  | cons p members ih =>
    rw [insertMember]
    by_cases hname : name' = name
    · subst hname
      rw [if_pos rfl] at ih ⊢
      split_ifs with hlt heq
      · rw [member?, if_pos rfl]
      · rw [member?, if_pos rfl]
      · rw [member?, if_neg heq, ih]
    · rw [if_neg hname] at ih ⊢
      split_ifs with hlt heq
      · rw [member?, if_neg hname]
      · rw [member?, if_neg hname, member?, if_neg (heq ▸ hname)]
      · rw [member?, member?, ih]

theorem member?_sortedMembers_of_notMem (h : name ∉ members.map (·.1)) :
    member? name (sortedMembers members done) = member? name done := by
  induction members generalizing done with
  | nil => rw [sortedMembers]
  | cons p members ih =>
    obtain ⟨hne, hrest⟩ := List.ne_and_not_mem_of_not_mem_cons h
    rw [sortedMembers, ih hrest, member?_insertMember, if_neg hne]

/-- A name that is written once is looked up in the sorted members as in those that were written. -/
theorem member?_sortedMembers (hnames : (members.map (·.1)).Nodup) (h : (name, value) ∈ members) :
    member? name (sortedMembers members done) = some value.sorted := by
  induction members generalizing done with
  | nil => cases h
  | cons p members ih =>
    obtain ⟨hfirst, hnames⟩ := List.nodup_cons.1 hnames
    rcases List.mem_cons.1 h with rfl | h
    · rw [sortedMembers, member?_sortedMembers_of_notMem hfirst, member?_insertMember, if_pos rfl]
    · exact ih hnames h

/-! ## What sorting keeps -/

theorem mem_insertMember {p : String × Json} (h : p ∈ insertMember name value members) :
    p = (name, value) ∨ p ∈ members := by
  induction members with
  | nil => exact .inl (List.mem_singleton.1 h)
  | cons q members ih =>
    rw [insertMember] at h
    split_ifs at h with hlt heq
    · exact List.mem_cons.1 h
    · exact (List.mem_cons.1 h).imp_right (List.mem_cons_of_mem _)
    · rcases List.mem_cons.1 h with rfl | h
      · exact .inr List.mem_cons_self
      · exact (ih h).imp_right (List.mem_cons_of_mem _)

/-- A sorted member is a member that was written, its value sorted. -/
theorem mem_sortedMembers {p : String × Json} (h : p ∈ sortedMembers members done) :
    (∃ q ∈ members, p = (q.1, q.2.sorted)) ∨ p ∈ done := by
  induction members generalizing done with
  | nil =>
    rw [sortedMembers] at h
    exact .inr h
  | cons q members ih =>
    rw [sortedMembers] at h
    rcases ih h with ⟨r, hr, rfl⟩ | h
    · exact .inl ⟨r, List.mem_cons_of_mem _ hr, rfl⟩
    · exact (mem_insertMember h).imp_left fun h => ⟨q, List.mem_cons_self, h⟩

theorem plainMembers_insertMember (hvalue : Plain value) (h : PlainMembers members) :
    PlainMembers (insertMember name value members) := by
  induction members with
  | nil => exact ⟨nofun, hvalue, trivial⟩
  | cons q members ih =>
    obtain ⟨name', value'⟩ := q
    obtain ⟨hascend, hvalue', hrest⟩ := h
    rw [insertMember]
    split_ifs with hlt heq
    · refine ⟨fun p hp => ?_, hvalue, hascend, hvalue', hrest⟩
      rcases List.mem_cons.1 hp with rfl | hp
      · exact hlt
      · exact hlt.trans (hascend p hp)
    · subst heq
      exact ⟨hascend, hvalue, hrest⟩
    · refine ⟨fun p hp => ?_, hvalue', ih hrest⟩
      rcases mem_insertMember hp with rfl | hp
      · exact lt_of_le_of_ne (not_lt.1 hlt) (Ne.symm heq)
      · exact hascend p hp

/-- The sorted object is plain if the sorted values are. -/
theorem plain_sorted_object (h : ∀ p ∈ members, Plain p.2.sorted) :
    Plain (Json.object members).sorted := by
  have hplain : ∀ done, PlainMembers done → PlainMembers (sortedMembers members done) := by
    induction members with
    | nil =>
      intro done hdone
      rwa [sortedMembers]
    | cons p members ih =>
      intro done hdone
      rw [sortedMembers]
      exact ih (fun q hq => h q (List.mem_cons_of_mem _ hq)) _
        (plainMembers_insertMember (h p List.mem_cons_self) hdone)
  rw [sorted, Plain]
  exact hplain [] trivial

theorem depthMembers_le {bound : Nat} (h : ∀ p ∈ members, depth p.2 ≤ bound) :
    depthMembers members ≤ bound := by
  induction members with
  | nil => exact Nat.zero_le _
  | cons p members ih =>
    rw [depthMembers]
    exact max_le (h p List.mem_cons_self) (ih fun q hq => h q (List.mem_cons_of_mem _ hq))

/-- The sorted object is one deeper than the sorted values. -/
theorem depth_sorted_object {bound : Nat} (h : ∀ p ∈ members, depth p.2.sorted ≤ bound) :
    depth (Json.object members).sorted ≤ bound + 1 := by
  rw [sorted, depth]
  refine Nat.succ_le_succ (depthMembers_le fun p hp => ?_)
  rcases mem_sortedMembers hp with ⟨q, hq, rfl⟩ | hp
  · exact h q hq
  · cases hp

end PeerRpc.Json
