import PeerRpc.Proofs.Json.Written
import PeerRpc.Proofs.Rpc.Fields
import PeerRpc.Proofs.Rpc.Payload

/-!
# What is kept of an envelope

Not every envelope is read back from its bytes: its values may be too deep, its numbers may be too
large. But whatever a reader makes of the bytes, the identifier is that of the envelope, and a method
is found only if the envelope has one.

* `id_of_ofPayload_bytes`, `method_of_ofPayload_bytes`: what an envelope that is read has of the one
  that was written.
* `of_requestIdOf?_bytes`: only a request looks like one.
-/

namespace PeerRpc.Rpc.Envelope

open Json

variable {e e' : Envelope}

/-- The members of the object that is written for an envelope. -/
def fields (e : Envelope) : List (String × Json) :=
  ("jsonrpc", .string e.jsonrpc) :: Shape.optionalMember "id" e.id ++
    Shape.optionalMember "method" e.method ++ Shape.optionalMember "params" e.params ++
    Shape.optionalMember "result" e.result ++ Shape.optionalMember "error" e.error

/-- The members behind the identifier. -/
def contents (e : Envelope) : List (String × Json) :=
  Shape.optionalMember "method" e.method ++ Shape.optionalMember "params" e.params ++
    Shape.optionalMember "result" e.result ++ Shape.optionalMember "error" e.error

theorem name_of_mem_optionalMember {α : Type} [Shape α] {a : Option α} {name : String}
    {p : String × Json} (h : p ∈ Shape.optionalMember name a) : p.1 = name := by
  cases a with
  | none => cases h
  | some x => exact congrArg Prod.fst (List.mem_singleton.1 h)

theorem fields_eq (e : Envelope) :
    e.fields = ("jsonrpc", .string e.jsonrpc) :: Shape.optionalMember "id" e.id ++
      e.contents := by
  simp only [fields, contents, List.append_assoc, List.cons_append]

theorem name_of_mem_contents {p : String × Json} (h : p ∈ e.contents) : p.1 ≠ "id" := by
  simp only [contents, List.mem_append] at h
  rcases h with ((h | h) | h) | h <;>
  · rw [name_of_mem_optionalMember h]
    decide

theorem name_of_no_id (hid : e.id = none) {p : String × Json} (h : p ∈ e.fields) : p.1 ≠ "id" := by
  rw [fields_eq, hid] at h
  rcases List.mem_cons.1 h with rfl | h
  · exact (by decide : "jsonrpc" ≠ "id")
  · exact name_of_mem_contents h

theorem name_of_no_method (hmethod : e.method = none) {p : String × Json} (h : p ∈ e.fields) :
    p.1 ≠ "method" := by
  simp only [fields, hmethod, List.mem_append, List.mem_cons, List.cons_append] at h
  rcases h with rfl | (((h | h) | h) | h) | h
  · exact (by decide : "jsonrpc" ≠ "method")
  · rw [name_of_mem_optionalMember h]
    decide
  · cases h
  all_goals
    rw [name_of_mem_optionalMember h]
    decide

/-! ## Reading -/

theorem bytes_eq_cons : ∃ more, Json.bytes (.object e.fields) = 0x7b :: more :=
  ⟨_, bytes_object_cons _ _ _⟩

/-- An envelope is read from its bytes by taking its fields in turn. -/
theorem taken_of_ofPayload (h : ofPayload e.bytes = .ok e') :
    ∃ draft, e' = ofDraft draft ∧ Taken readMember {} e.fields draft := by
  obtain ⟨more, hmore⟩ := e.bytes_eq_cons
  have hspace : skipSpace e.bytes = 0x7b :: more := by
    rw [bytes]
    exact (congrArg skipSpace hmore).trans (skipSpace_cons rfl _)
  obtain ⟨rest, hread⟩ := ok_of_checkEnd h
  rcases read_cases hread with ⟨inside, draft, hinside, rfl, hdraft⟩ | ⟨inside, _, _, hinside, -⟩
  · cases hspace.symm.trans hinside
    rw [← List.append_nil more] at hdraft
    exact ⟨draft, rfl, taken_of_object regular_readMember hmore hdraft⟩
  · cases hspace.symm.trans hinside

/-- The value of an envelope's bytes is an object into which its fields are taken in turn. -/
theorem taken_of_parse {v : Json} (h : parse e.bytes = .ok v) :
    ∃ members, v = .object members ∧ Taken (takeMember readAny) [] e.fields members := by
  obtain ⟨more, hmore⟩ := e.bytes_eq_cons
  have hspace : skipSpace e.bytes = 0x7b :: more := by
    rw [bytes]
    exact (congrArg skipSpace hmore).trans (skipSpace_cons rfl _)
  obtain ⟨after, hvalue⟩ := ok_of_checkEnd h
  obtain ⟨members, rfl, hmembers⟩ := object_of_readValue hvalue hspace
  rw [← List.append_nil more] at hmembers
  exact ⟨members, rfl, taken_of_object (regular_takeMember passes_readAny) hmore hmembers⟩

theorem member?_takeMember {item : List UInt8 → Except Fault (Json × List UInt8)}
    {members members' : List (String × Json)} {key name : String} {input rest : List UInt8}
    (hname : name ≠ key) (h : takeMember item members name input = .ok (members', rest)) :
    member? key members' = member? key members := by
  obtain ⟨⟨⟨⟩, value⟩, -, h⟩ := ok_of_bind h
  obtain ⟨⟨v, after⟩, -, h⟩ := ok_of_bind h
  cases h
  rw [member?_insertMember, if_neg (Ne.symm hname)]

/-! ## Identifiers and methods -/

/-- The identifier of an envelope is read as it was written. -/
theorem id_of_ofPayload_bytes (h : ofPayload e.bytes = .ok e') : e'.id = e.id := by
  obtain ⟨draft, rfl, htaken⟩ := taken_of_ofPayload h
  cases hid : e.id with
  | none =>
    have hkept := htaken.keeps (f := Draft.id) readMember_id fun p hp => name_of_no_id hid hp
    rw [ofDraft, hkept]
    rfl
  | some id =>
    rw [fields_eq, hid] at htaken
    obtain _ | ⟨-, -, htaken⟩ := htaken
    obtain _ | ⟨hr, hread, htaken⟩ := htaken
    have hkept := htaken.keeps (f := Draft.id) readMember_id fun p hp => name_of_mem_contents hp
    rw [readMember, if_pos rfl] at hread
    obtain ⟨⟨id', rest⟩, hfield, hread⟩ := ok_of_bind hread
    obtain ⟨value, hcolon, hvalue⟩ := value_of_readField hfield
    cases (readColon_cons _).symm.trans hcolon
    cases (readId_bytes id hr).symm.trans hvalue
    cases hread
    rw [ofDraft, hkept]
    rfl

/-- An envelope without a method is read as one without a method. -/
theorem method_of_ofPayload_bytes (h : ofPayload e.bytes = .ok e') (hmethod : e.method = none) :
    e'.method = none := by
  obtain ⟨draft, rfl, htaken⟩ := taken_of_ofPayload h
  have hkept := htaken.keeps (f := Draft.method) readMember_method
    fun p hp => name_of_no_method hmethod hp
  rw [ofDraft, hkept]
  rfl

theorem member?_id_of_parse {members : List (String × Json)}
    (h : parse e.bytes = .ok (.object members)) :
    member? "id" members = e.id.map Id.toJson := by
  obtain ⟨members', he, htaken⟩ := taken_of_parse h
  cases he
  have hkeeps : ∀ {s name input s' rest}, name ≠ "id" →
      takeMember readAny s name input = .ok (s', rest) → member? "id" s' = member? "id" s :=
    member?_takeMember
  cases hid : e.id with
  | none => exact htaken.keeps hkeeps fun p hp => name_of_no_id hid hp
  | some id =>
    rw [fields_eq, hid] at htaken
    obtain _ | ⟨-, -, htaken⟩ := htaken
    obtain _ | ⟨hr, hread, htaken⟩ := htaken
    rw [htaken.keeps hkeeps fun p hp => name_of_mem_contents hp]
    obtain ⟨⟨⟨⟩, value⟩, hcolon, hread⟩ := ok_of_bind hread
    cases (readColon_cons _).symm.trans hcolon
    obtain ⟨⟨v, after⟩, hv, hread⟩ := ok_of_bind hread
    cases (readAny_id_bytes id hr).symm.trans hv
    cases hread
    rw [member?_insertMember, if_pos rfl]
    rfl

/-- The bytes of an envelope look like a request only if it has an identifier and a method. -/
theorem of_requestIdOf?_bytes {id : Id} (h : requestIdOf? e.bytes = some id) :
    e.id = some id ∧ e.method ≠ none := by
  unfold requestIdOf? at h
  split at h
  · rename_i members hparse
    obtain ⟨method, hmethod, h⟩ := Option.bind_eq_some_iff.1 h
    obtain ⟨v, hv, hid⟩ := Option.bind_eq_some_iff.1 h
    constructor
    · rw [member?_id_of_parse hparse] at hv
      obtain ⟨id', he, rfl⟩ := Option.map_eq_some_iff.1 hv
      rw [he, ← hid, Id.ofJson?_toJson]
    · intro hnone
      obtain ⟨members', he, htaken⟩ := taken_of_parse hparse
      cases he
      have hkept := htaken.keeps (f := member? "method") member?_takeMember
        fun p hp => name_of_no_method hnone hp
      cases hkept.symm.trans hmethod
  · cases h

end PeerRpc.Rpc.Envelope
