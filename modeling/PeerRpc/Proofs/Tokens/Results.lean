import PeerRpc.Proofs.Shape.Forms
import PeerRpc.Tokens.Buffer

/-!
# Token results that come back

A full result and a delta are objects that share an optional member and have nothing that says which
of them they are. But each has a member that it must have and the other never writes, so neither is
read as the other (`decode_full_of_delta`, `decode_delta_of_full`), in whatever order they are tried.

* `token_results_return`: results are read back as they were, and a buffer makes the same of them.
-/

namespace PeerRpc.Tokens

open Json (sortedMembers)
open Shape

theorem returns_resultId : Returns (Option String) 0 :=
  returns_option returns_string fun _ => Json.noConfusion

theorem returns_data : Returns (List UInt32) 1 :=
  returns_list returns_uint32

theorem returns_editData : Returns (Option (List UInt32)) 1 :=
  returns_option returns_data fun _ => Json.noConfusion

theorem settles_optionalMember {α : Type} [Shape α] {bound : Nat} (h : Returns (Option α) bound)
    (name : String) (a : Option α) : ∀ p ∈ optionalMember name a, Settles bound p.2 := by
  cases a with
  | none => exact List.forall_mem_nil _
  | some a => exact List.forall_mem_singleton.2 (h.settles (some a))

/-! ## Members of a result -/

/-- The members of a result: its name, if it has one, and the member that it must have. -/
def resultMembers (resultId : Option String) (name : String) (v : Json) : List (String × Json) :=
  optionalMember "resultId" resultId ++ [(name, v)]

section Members

variable {resultId : Option String} {name other : String} {v : Json}

theorem nodup_resultMembers (hne : "resultId" ≠ name) :
    ((resultMembers resultId name v).map (·.1)).Nodup := by
  cases resultId with
  | none => exact List.nodup_singleton _
  | some id => simpa [resultMembers, optionalMember] using hne

theorem mem_resultMembers (resultId : Option String) (name : String) (v : Json) :
    (name, v) ∈ resultMembers resultId name v :=
  List.mem_append_right _ (List.mem_singleton_self _)

theorem notMem_resultMembers (hid : other ≠ "resultId") (hne : other ≠ name) :
    other ∉ (resultMembers resultId name v).map (·.1) := by
  cases resultId with
  | none => simpa [resultMembers, optionalMember] using hne
  | some id => simp [resultMembers, optionalMember, hid, hne]

theorem resultId_resultMembers (hne : "resultId" ≠ name) :
    optionalField? "resultId" (sortedMembers (resultMembers resultId name v) []) =
      .ok resultId := by
  refine returns_resultId.optionalField?_eq (nodup_resultMembers hne) ?_ ?_
  · rintro id ⟨⟩
    exact List.mem_cons_self
  · rintro rfl
    simpa [resultMembers, optionalMember] using hne

theorem settles_resultMembers {bound : Nat} (hv : Settles bound v) :
    Settles (bound + 1) (.object (resultMembers resultId name v)) := by
  refine .object ?_
  rw [resultMembers, List.forall_mem_append, List.forall_mem_singleton]
  refine ⟨fun p hp => ?_, hv⟩
  exact (settles_optionalMember returns_resultId "resultId" resultId p hp).mono (Nat.zero_le _)

end Members

/-! ## Full results, edits and deltas -/

theorem decode_full_eq (members : List (String × Json)) :
    (decode (.object members) : Except Json.Fault Full) = (do
      let data ← field? "data" members
      let resultId ← optionalField? "resultId" members
      let data ← required "data" data
      .ok ⟨resultId, data⟩) :=
  rfl

theorem decode_delta_eq (members : List (String × Json)) :
    (decode (.object members) : Except Json.Fault Delta) = (do
      let edits ← field? "edits" members
      let resultId ← optionalField? "resultId" members
      let edits ← required "edits" edits
      .ok ⟨resultId, edits⟩) :=
  rfl

theorem returns_full : Returns Full 2 where
  settles t := settles_resultMembers (returns_data.settles t.data)
  decode_eq t := by
    have hdata := returns_data.field?_eq (nodup_resultMembers (by decide))
      (mem_resultMembers t.resultId "data" (encode t.data))
    change decode (.object (sortedMembers (resultMembers t.resultId "data" (encode t.data)) [])) = _
    rw [decode_full_eq, hdata, resultId_resultMembers (by decide)]
    rfl

theorem returns_edit : Returns Edit 2 where
  settles e := .object <| by
    rw [List.forall_mem_append]
    simp only [List.forall_mem_cons]
    refine ⟨⟨?_, ?_, nofun⟩, settles_optionalMember returns_editData "data" e.data⟩
    · exact (returns_uint32.settles e.start).mono (Nat.zero_le _)
    · exact (returns_uint32.settles e.deleteCount).mono (Nat.zero_le _)
  decode_eq e := by
    let members := [("start", encode e.start), ("deleteCount", encode e.deleteCount)] ++
      optionalMember "data" e.data
    have hnames : (members.map (·.1)).Nodup := by
      cases hd : e.data <;> simp [members, optionalMember, hd]
    have hstart : field? "start" (sortedMembers members []) = .ok (some e.start) :=
      returns_uint32.field?_eq hnames (by simp [members])
    have hcount : field? "deleteCount" (sortedMembers members []) = .ok (some e.deleteCount) :=
      returns_uint32.field?_eq hnames (by simp [members])
    have hdata : optionalField? "data" (sortedMembers members []) = .ok e.data := by
      refine returns_editData.optionalField?_eq hnames (fun d hd => ?_) fun hnone => ?_
      · obtain hd : e.data = some d := hd
        simp [members, optionalMember, hd]
      · simp [members, optionalMember, hnone]
    change (do
      let data ← optionalField? "data" (sortedMembers members [])
      let deleteCount ← field? "deleteCount" (sortedMembers members [])
      let start ← field? "start" (sortedMembers members [])
      let start ← required "start" start
      let deleteCount ← required "deleteCount" deleteCount
      Except.ok (Edit.mk start deleteCount data)) = _
    rw [hdata, hcount, hstart]
    rfl

theorem returns_edits : Returns (List Edit) 3 :=
  returns_list returns_edit

theorem returns_delta : Returns Delta 4 where
  settles d := settles_resultMembers (returns_edits.settles d.edits)
  decode_eq d := by
    have hedits := returns_edits.field?_eq (nodup_resultMembers (by decide))
      (mem_resultMembers d.resultId "edits" (encode d.edits))
    change decode (.object (sortedMembers (resultMembers d.resultId "edits" (encode d.edits)) [])) = _
    rw [decode_delta_eq, hedits, resultId_resultMembers (by decide)]
    rfl

/-! ## Neither is read as the other -/

theorem decode_full_of_delta (d : Delta) :
    (decode (encode d).sorted : Except Json.Fault Full) = .error (.missingField "data") := by
  change decode (.object (sortedMembers (resultMembers d.resultId "edits" (encode d.edits)) [])) = _
  rw [decode_full_eq, field?_of_notMem (notMem_resultMembers (by decide) (by decide)),
    resultId_resultMembers (by decide)]
  rfl

theorem decode_delta_of_full (t : Full) :
    (decode (encode t).sorted : Except Json.Fault Delta) = .error (.missingField "edits") := by
  change decode (.object (sortedMembers (resultMembers t.resultId "data" (encode t.data)) [])) = _
  rw [decode_delta_eq, field?_of_notMem (notMem_resultMembers (by decide) (by decide)),
    resultId_resultMembers (by decide)]
  rfl

theorem returns_result : Returns Result 4 where
  settles r := by
    cases r with
    | first t => exact (returns_full.settles t).mono (by decide)
    | second d => exact returns_delta.settles d
  decode_eq r := by
    -- the form that is tried before a delta's own does not accept a delta
    refine (OneOfTwo.returnsUnlessTaken returns_full.roundTrips returns_delta.roundTrips r).1.2 ?_
    cases r with
    | first t => exact List.forall_mem_nil _
    | second d =>
      rw [OneOfTwo.index, OneOfTwo.forms, List.take_one, List.head?_cons]
      exact List.forall_mem_singleton.2 (Form.not_accepts_ofShape (decode_full_of_delta d) _)

theorem returns_result? : Returns (Option Result) 4 := by
  refine returns_option returns_result fun r => ?_
  cases r <;> exact Json.noConfusion

/-- Every result, full or not, and every absent one is read back from what is written for it, of the
same kind and with the same fields, so a buffer is the same after the one and after the other. Neither
kind accepts what is written for the other. -/
theorem token_results_return :
    (∀ r : Option Result, decode (encode r).sorted = .ok r ∧
      ∀ b : Buffer, (decode (encode r).sorted).map (Option.map b.apply) =
        (.ok (r.map b.apply) : Except Json.Fault _)) ∧
    (∀ d : Delta,
      (decode (encode d).sorted : Except Json.Fault Full) = .error (.missingField "data")) ∧
    ∀ t : Full,
      (decode (encode t).sorted : Except Json.Fault Delta) = .error (.missingField "edits") := by
  refine ⟨fun r => ?_, decode_full_of_delta, decode_delta_of_full⟩
  rw [returns_result?.decode_eq r]
  exact ⟨rfl, fun b => rfl⟩

end PeerRpc.Tokens
