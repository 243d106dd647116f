import PeerRpc.Proofs.Json.Skipping
import PeerRpc.Proofs.Json.Sorting
import PeerRpc.Proofs.Rpc.Payload

/-!
# The fields of an envelope and the members of its object

A payload that is an envelope and an object is read twice over, as an envelope and as a value. Both
readings go through the same members, since each reader of a field leaves what is left when the
field's value is passed over. The identifier of the envelope is therefore the one that the object's
member stands for, a number or a text (`Envelope.id_of_parse`), and its method is the one that the
object names, if it names one (`Envelope.member?_method_of_parse`).
-/

namespace PeerRpc.Rpc

open Json

/-! ## Readers -/

variable {α : Type} {input rest : List UInt8}

theorem readValue_skipSpace (room : Nat) (input : List UInt8) :
    readValue room (skipSpace input) = readValue room input := by
  cases room <;> simp only [readValue, readValueWith, skipSpace_skipSpace]

theorem passes_readOptional {read : List UInt8 → Except Fault (α × List UInt8)}
    (hread : Passes read) : Passes (readOptional read) := by
  intro input a rest h
  unfold readOptional at h
  split at h
  · cases h
  · rename_i b inside hspace
    split_ifs at h with hb
    · obtain ⟨⟨⟨⟩, after⟩, hword, h⟩ := ok_of_bind h
      cases h
      subst hb
      refine skipValue_scalar (v := .null) hspace (by decide) (by decide) ?_
      rw [readScalar, if_pos rfl, hword]
      rfl
    · obtain ⟨⟨a, after⟩, ha, h⟩ := ok_of_bind h
      cases h
      exact skipValue_of_skipSpace (hspace ▸ hread ha)

/-- A type whose values are read from no array and from no object. -/
def OnlyScalars (α : Type) [Shape α] : Prop :=
  (∃ fault, (Shape.decode (.array []) : Except Fault α) = .error fault) ∧
    ∃ fault, (Shape.decode (.object []) : Except Fault α) = .error fault

theorem onlyScalars_string : OnlyScalars String :=
  ⟨⟨_, rfl⟩, ⟨_, rfl⟩⟩

theorem onlyScalars_code : OnlyScalars Code :=
  ⟨⟨_, rfl⟩, ⟨_, rfl⟩⟩

theorem passes_readPlain [Shape α] (hα : OnlyScalars α) :
    Passes (readPlain : List UInt8 → Except Fault (α × List UInt8)) := by
  intro input a rest h
  obtain ⟨⟨fault, harray⟩, fault', hobject⟩ := hα
  unfold readPlain at h
  split at h
  · cases h
  · rename_i b inside hspace
    dsimp only at h
    split_ifs at h with hb hb'
    · obtain ⟨p, hp, h⟩ := ok_of_bind h
      obtain ⟨a', ha, -⟩ := ok_of_bind h
      cases hp
      cases harray.symm.trans ha
    · obtain ⟨p, hp, h⟩ := ok_of_bind h
      obtain ⟨a', ha, -⟩ := ok_of_bind h
      cases hp
      cases hobject.symm.trans ha
    · obtain ⟨⟨v, after⟩, hv, h⟩ := ok_of_bind h
      obtain ⟨a', -, h⟩ := ok_of_bind h
      cases h
      exact skipValue_scalar hspace hb hb' hv

theorem value_of_readField {read : List UInt8 → Except Fault (α × List UInt8)} {name : String}
    {seen : Option α} {a : α} (h : readField name seen read input = .ok (a, rest)) :
    ∃ value, readColon input = .ok ((), value) ∧ read value = .ok (a, rest) := by
  unfold readField at h
  split_ifs at h
  obtain ⟨⟨⟨⟩, value⟩, hcolon, h⟩ := ok_of_bind h
  exact ⟨value, hcolon, h⟩

theorem regular_of_readField {read : List UInt8 → Except Fault (α × List UInt8)}
    (hread : Passes read) {name : String} {seen : Option α} {a : α}
    (h : readField name seen read input = .ok (a, rest)) :
    ∃ value, readColon input = .ok ((), value) ∧ skipValue value = .ok rest := by
  obtain ⟨value, hcolon, h⟩ := value_of_readField h
  exact ⟨value, hcolon, hread h⟩

theorem regular_of_skipField {σ : Type} {s s' : σ} (h : skipField s input = .ok (s', rest)) :
    ∃ value, readColon input = .ok ((), value) ∧ skipValue value = .ok rest := by
  obtain ⟨⟨⟨⟩, value⟩, hcolon, h⟩ := ok_of_bind h
  obtain ⟨after, hvalue, h⟩ := ok_of_bind h
  cases h
  exact ⟨value, hcolon, hvalue⟩

/-! ## Errors -/

theorem Failure.passes_readData : Passes Failure.readData :=
  passes_readOptional (passes_readValue _)

theorem Failure.regular_readMember : Regular Failure.readMember := by
  intro draft name input draft' rest h
  unfold readMember at h
  split_ifs at h
  · obtain ⟨⟨code, after⟩, hcode, h⟩ := ok_of_bind h
    cases h
    exact regular_of_readField (passes_readPlain onlyScalars_code) hcode
  · obtain ⟨⟨message, after⟩, hmessage, h⟩ := ok_of_bind h
    cases h
    exact regular_of_readField (passes_readPlain onlyScalars_string) hmessage
  · obtain ⟨⟨data, after⟩, hdata, h⟩ := ok_of_bind h
    cases h
    exact regular_of_readField passes_readData hdata
  · exact regular_of_skipField h

variable (opened : List Open)

theorem leads_of_readItem? {read : List UInt8 → Except Fault (α × List UInt8)}
    (hread : Passes read) {a : α} (h : readItem? read false input = .ok (some a, rest)) :
    Leads ⟨false, .array :: opened, input⟩ ⟨false, .array :: opened, rest⟩ := by
  obtain ⟨⟨more, after⟩, hnext, h⟩ := ok_of_bind h
  have hleads := leads_of_nextItem opened hnext
  cases more with
  | true =>
    obtain ⟨⟨a', after'⟩, ha, h⟩ := ok_of_bind h
    cases h
    exact hleads.trans (skipValue_iff.1 (hread ha) _)
  | false => cases h

theorem leads_of_firstItem? {read : List UInt8 → Except Fault (α × List UInt8)}
    (hread : Passes read) {inside : List UInt8} (hspace : skipSpace input = 0x5b :: inside) {a : α}
    (h : readItem? read true inside = .ok (some a, rest)) :
    Leads ⟨true, opened, input⟩ ⟨false, .array :: opened, rest⟩ := by
  obtain ⟨⟨more, after⟩, hnext, h⟩ := ok_of_bind h
  have hleads := leads_of_firstItem opened hspace hnext
  cases more with
  | true =>
    obtain ⟨⟨a', after'⟩, ha, h⟩ := ok_of_bind h
    cases h
    exact hleads.trans (skipValue_iff.1 (hread ha) _)
  | false => cases h

theorem some_of_requiredItem {record : String} {size index : Nat} {a? : Option α} {a : α}
    (h : requiredItem record size index a? = .ok a) : a? = some a := by
  cases a? with
  | none => cases h
  | some a' =>
    cases h
    rfl

theorem leads_of_readClose (h : readClose input = .ok ((), rest)) :
    Leads ⟨false, .array :: opened, input⟩ ⟨false, opened, rest⟩ := by
  unfold readClose at h
  split at h
  · cases h
  · rename_i b after hspace
    split_ifs at h with hb
    cases h
    subst hb
    exact .closeArray _ hspace

theorem close_of_readNextItem {first : Bool} (h : readNextItem first input = .ok (false, rest)) :
    ∃ more, rest = 0x5d :: more := by
  unfold readNextItem at h
  split at h
  · cases h
  · rename_i b after hspace
    split_ifs at h with hb
    · cases h
      exact ⟨after, by rw [hb]⟩
    · cases h
    · split at h
      · cases h
      · split_ifs at h
        cases h

/-- The last item of an array, if it is there, and the closing bracket. -/
theorem leads_of_lastItem {read : List UInt8 → Except Fault (α × List UInt8)} (hread : Passes read)
    {a : Option α} {after : List UInt8} (h : readItem? read false input = .ok (a, after))
    (hclose : readClose after = .ok ((), rest)) :
    Leads ⟨false, .array :: opened, input⟩ ⟨false, opened, rest⟩ := by
  cases a with
  | some a => exact (leads_of_readItem? opened hread h).trans (leads_of_readClose opened hclose)
  | none =>
    obtain ⟨⟨more, after'⟩, hnext, h⟩ := ok_of_bind h
    have hleads := leads_of_nextItem opened hnext
    cases more with
    | true =>
      obtain ⟨⟨a', after''⟩, -, h⟩ := ok_of_bind h
      cases h
    | false =>
      cases h
      obtain ⟨more, rfl⟩ := close_of_readNextItem hnext
      rw [readClose, skipSpace_cons rfl] at hclose
      dsimp only at hclose
      rw [if_pos rfl] at hclose
      cases hclose
      exact hleads

theorem Failure.passes_read : Passes Failure.read := by
  intro input f rest h
  unfold read at h
  split at h
  · cases h
  · rename_i b inside hspace
    split_ifs at h with hobject harray
    · obtain ⟨⟨draft, after⟩, hdraft, h⟩ := ok_of_bind h
      obtain ⟨f', -, h⟩ := ok_of_bind h
      cases h
      subst hobject
      exact skipValue_object regular_readMember hspace hdraft
    · subst harray
      obtain ⟨⟨code, after⟩, hcode, h⟩ := ok_of_bind h
      obtain ⟨code', hsome, h⟩ := ok_of_bind h
      obtain ⟨⟨message, after'⟩, hmessage, h⟩ := ok_of_bind h
      obtain ⟨message', hsome', h⟩ := ok_of_bind h
      obtain ⟨⟨data, after''⟩, hdata, h⟩ := ok_of_bind h
      obtain ⟨⟨⟨⟩, after'''⟩, hclose, h⟩ := ok_of_bind h
      cases h
      obtain rfl := some_of_requiredItem hsome
      obtain rfl := some_of_requiredItem hsome'
      refine skipValue_iff.2 fun opened => ?_
      have hfirst := leads_of_firstItem? opened (passes_readPlain onlyScalars_code) hspace hcode
      have hsecond := leads_of_readItem? opened (passes_readPlain onlyScalars_string) hmessage
      exact (hfirst.trans hsecond).trans (leads_of_lastItem opened passes_readData hdata hclose)
    · obtain ⟨⟨v, after⟩, -, h⟩ := ok_of_bind h
      cases h

/-! ## Envelopes -/

namespace Envelope

theorem passes_readAny : Passes readAny :=
  passes_readValue _

theorem passes_readId : Passes readId := by
  refine passes_readOptional fun {input id rest} h => ?_
  obtain ⟨⟨v, after⟩, hv, h⟩ := ok_of_bind h
  obtain ⟨id', -, h⟩ := ok_of_bind h
  cases h
  exact passes_readAny hv

theorem regular_readMember : Regular readMember := by
  intro draft name input draft' rest h
  unfold readMember at h
  split_ifs at h
  · obtain ⟨⟨id, after⟩, hid, h⟩ := ok_of_bind h
    cases h
    exact regular_of_readField passes_readId hid
  · obtain ⟨⟨method, after⟩, hmethod, h⟩ := ok_of_bind h
    cases h
    exact regular_of_readField (passes_readOptional (passes_readPlain onlyScalars_string)) hmethod
  · obtain ⟨⟨params, after⟩, hparams, h⟩ := ok_of_bind h
    cases h
    exact regular_of_readField passes_readAny hparams
  · obtain ⟨⟨result, after⟩, hresult, h⟩ := ok_of_bind h
    cases h
    exact regular_of_readField passes_readAny hresult
  · obtain ⟨⟨error, after⟩, herror, h⟩ := ok_of_bind h
    cases h
    exact regular_of_readField (passes_readOptional Failure.passes_read) herror
  · exact regular_of_skipField h

/-- What a draft and the members of an object that have been read so far have in common. -/
structure Agrees (draft : Draft) (members : List (String × Json)) : Prop where
  id : draft.id.join = (member? "id" members).bind Id.ofJson?
  method : member? "method" members = draft.method.map Shape.encode

theorem agrees_empty : Agrees {} [] :=
  ⟨rfl, rfl⟩

theorem readId_eq {id : Option Id} {v : Json} {after : List UInt8}
    (h : readId input = .ok (id, rest)) (hv : readAny input = .ok (v, after)) :
    id = Id.ofJson? v := by
  rw [readAny, ← readValue_skipSpace] at hv
  unfold readId readOptional at h
  split at h
  · cases h
  · rename_i b inside hspace
    rw [hspace] at hv
    split_ifs at h with hb
    · subst hb
      rw [readValue_scalar _ rfl (by decide) (by decide), readScalar, if_pos rfl] at hv
      obtain ⟨⟨⟨⟩, rest'⟩, -, hv⟩ := ok_of_bind hv
      obtain ⟨⟨⟨⟩, rest''⟩, -, h⟩ := ok_of_bind h
      cases hv
      cases h
      rfl
    · obtain ⟨⟨id', rest'⟩, hid, h⟩ := ok_of_bind h
      obtain ⟨⟨v', rest''⟩, hv', hid⟩ := ok_of_bind hid
      cases hv.symm.trans hv'
      obtain ⟨id'', hdecode, hid⟩ := ok_of_bind hid
      cases hid
      cases h
      rw [Id.decode_eq] at hdecode
      cases hjson : Id.ofJson? v with
      | none =>
        rw [hjson] at hdecode
        cases hdecode
      | some id =>
        rw [hjson] at hdecode
        cases hdecode
        rfl

variable {draft draft' : Draft} {members members' : List (String × Json)}

theorem eq_of_decode_string {v : Json} {s : String}
    (h : (Shape.decode v : Except Fault String) = .ok s) : v = .string s := by
  cases v with
  | string s' =>
    cases h
    rfl
  | _ => cases h

/-- A method is read as a value of which it is the text, or as null. -/
theorem readMethod_eq {method : Option String} {v : Json} {after : List UInt8}
    (h : readOptional readPlain input = .ok (method, rest)) (hv : readAny input = .ok (v, after)) :
    v = Shape.encode method := by
  rw [readAny, ← readValue_skipSpace] at hv
  unfold readOptional at h
  split at h
  · cases h
  · rename_i b inside hspace
    have hinside : skipSpace (b :: inside) = b :: inside := by rw [← hspace, skipSpace_skipSpace]
    rw [hspace] at hv
    split_ifs at h with hb
    · subst hb
      rw [readValue_scalar _ rfl (by decide) (by decide), readScalar, if_pos rfl] at hv
      obtain ⟨⟨⟨⟩, rest'⟩, -, hv⟩ := ok_of_bind hv
      obtain ⟨⟨⟨⟩, rest''⟩, -, h⟩ := ok_of_bind h
      cases hv
      cases h
      rfl
    · obtain ⟨⟨text, rest'⟩, htext, h⟩ := ok_of_bind h
      cases h
      rw [readPlain, hinside] at htext
      dsimp only at htext
      -- An array or an object is no text, so the value is a scalar.
      split_ifs at htext with harray hobject
      · cases htext
      · cases htext
      · obtain ⟨⟨v', rest''⟩, hv', htext⟩ := ok_of_bind htext
        obtain ⟨text', hdecode, htext⟩ := ok_of_bind htext
        cases htext
        obtain rfl := eq_of_decode_string hdecode
        change readValueWith _ _ = _ at hv
        rw [readValueWith, hinside] at hv
        dsimp only at hv
        rw [if_neg harray, if_neg hobject] at hv
        cases hv.symm.trans hv'
        rfl

/-- A member of another name leaves the identifier of a draft alone. -/
theorem readMember_id {name : String} (hname : name ≠ "id")
    (h : readMember draft name input = .ok (draft', rest)) : draft'.id = draft.id := by
  unfold readMember at h
  rw [if_neg hname] at h
  split_ifs at h
  iterate 4
    · obtain ⟨p, -, h⟩ := ok_of_bind h
      cases h
      rfl
  · obtain ⟨p, -, h⟩ := ok_of_bind h
    obtain ⟨after, -, h⟩ := ok_of_bind h
    cases h
    rfl

/-- A member of another name leaves the method of a draft alone. -/
theorem readMember_method {name : String} (hname : name ≠ "method")
    (h : readMember draft name input = .ok (draft', rest)) : draft'.method = draft.method := by
  unfold readMember at h
  rw [if_neg hname] at h
  split_ifs at h
  iterate 4
    · obtain ⟨p, -, h⟩ := ok_of_bind h
      cases h
      rfl
  · obtain ⟨p, -, h⟩ := ok_of_bind h
    obtain ⟨after, -, h⟩ := ok_of_bind h
    cases h
    rfl

/-- A member is read as a field and as a value, up to the same place. -/
theorem Agrees.step (h : Agrees draft members) {name : String} {after : List UInt8}
    (hdraft : readMember draft name input = .ok (draft', rest))
    (hmembers : takeMember readAny members name input = .ok (members', after)) :
    after = rest ∧ Agrees draft' members' := by
  obtain ⟨⟨⟨⟩, value⟩, hcolon, hmembers⟩ := ok_of_bind hmembers
  obtain ⟨⟨v, after'⟩, hv, hmembers⟩ := ok_of_bind hmembers
  cases hmembers
  obtain ⟨value', hcolon', hskip⟩ := regular_readMember hdraft
  cases hcolon.symm.trans hcolon'
  cases (passes_readAny hv).symm.trans hskip
  refine ⟨rfl, ?_⟩
  by_cases hname : name = "id"
  · subst hname
    rw [readMember, if_pos rfl] at hdraft
    obtain ⟨⟨id, rest'⟩, hid, hdraft⟩ := ok_of_bind hdraft
    cases hdraft
    obtain ⟨value', hcolon', hid⟩ := value_of_readField hid
    cases hcolon.symm.trans hcolon'
    refine ⟨?_, ?_⟩
    · rw [member?_insertMember, if_pos rfl]
      exact readId_eq hid hv
    · rw [member?_insertMember, if_neg (by decide)]
      exact h.method
  by_cases hname' : name = "method"
  · subst hname'
    rw [readMember, if_neg hname, if_pos rfl] at hdraft
    obtain ⟨⟨method, rest'⟩, hmethod, hdraft⟩ := ok_of_bind hdraft
    cases hdraft
    obtain ⟨value', hcolon', hmethod⟩ := value_of_readField hmethod
    cases hcolon.symm.trans hcolon'
    refine ⟨?_, ?_⟩
    · rw [member?_insertMember, if_neg (by decide)]
      exact h.id
    · rw [member?_insertMember, if_pos rfl, readMethod_eq hmethod hv]
      rfl
  · refine ⟨?_, ?_⟩
    · rw [readMember_id hname hdraft, h.id, member?_insertMember, if_neg (Ne.symm hname)]
    · rw [readMember_method hname' hdraft, ← h.method, member?_insertMember,
        if_neg (Ne.symm hname')]

theorem Agrees.run (h : Agrees draft members) {steps : List UInt8} {first : Bool}
    {after : List UInt8}
    (hdraft : readMembers readMember steps first draft input = .ok (draft', rest))
    (hmembers : readMembers (takeMember readAny) steps first members input =
      .ok (members', after)) : Agrees draft' members' := by
  induction steps generalizing first draft members input with
  | nil => cases hdraft
  | cons step steps ih =>
    obtain ⟨⟨more, inside⟩, hnext, hdraft⟩ := ok_of_bind hdraft
    obtain ⟨⟨more', inside'⟩, hnext', hmembers⟩ := ok_of_bind hmembers
    cases hnext.symm.trans hnext'
    cases more with
    | true =>
      obtain ⟨⟨name, colon⟩, hname, hdraft⟩ := ok_of_bind hdraft
      obtain ⟨⟨draft'', rest'⟩, hfield, hdraft⟩ := ok_of_bind hdraft
      obtain ⟨⟨name', colon'⟩, hname', hmembers⟩ := ok_of_bind hmembers
      cases hname.symm.trans hname'
      obtain ⟨⟨members'', after'⟩, hvalue, hmembers⟩ := ok_of_bind hmembers
      obtain ⟨rfl, h'⟩ := h.step hfield hvalue
      exact ih h' hdraft hmembers
    | false =>
      cases hdraft
      cases hmembers
      exact h

theorem isEmpty_of_checkEnd {β : Type} {x : Except Fault (β × List UInt8)} {b : β}
    (h : checkEnd x = .ok b) : ∃ rest, x = .ok (b, rest) ∧ (skipSpace rest).isEmpty := by
  cases x with
  | error fault => cases h
  | ok p =>
    rw [checkEnd] at h
    split_ifs at h with hend
    cases h
    exact ⟨_, rfl, hend⟩

theorem ok_of_checkEnd {β : Type} {x : Except Fault (β × List UInt8)} {b : β}
    (h : checkEnd x = .ok b) : ∃ rest, x = .ok (b, rest) := by
  obtain ⟨rest, hx, -⟩ := isEmpty_of_checkEnd h
  exact ⟨rest, hx⟩

theorem object_of_readValue {payload : List UInt8} {v : Json} {after : List UInt8}
    (h : readValue maxDepth payload = .ok (v, after)) (hspace : skipSpace payload = 0x7b :: input) :
    ∃ members, v = .object members ∧
      readMembers (takeMember readAny) (0 :: input) true [] input = .ok (members, after) := by
  change readValueWith (some readAny) payload = _ at h
  rw [readValueWith, hspace] at h
  dsimp only at h
  rw [if_neg (by decide), if_pos rfl] at h
  obtain ⟨⟨members, after'⟩, hmembers, h⟩ := ok_of_bind h
  cases h
  exact ⟨members, rfl, hmembers⟩

theorem array_of_readValue {payload : List UInt8} {v : Json} {after : List UInt8}
    (h : readValue maxDepth payload = .ok (v, after)) (hspace : skipSpace payload = 0x5b :: input) :
    ∃ items, v = .array items ∧
      readItems readAny (0 :: input) true [] input = .ok (items, after) := by
  change readValueWith (some readAny) payload = _ at h
  rw [readValueWith, hspace] at h
  dsimp only at h
  rw [if_pos rfl] at h
  obtain ⟨⟨items, after'⟩, hitems, h⟩ := ok_of_bind h
  cases h
  exact ⟨items, rfl, hitems⟩

theorem readItems_append {item : List UInt8 → Except Fault (Json × List UInt8)}
    {steps : List UInt8} {first : Bool} {done items : List Json}
    (h : readItems item steps first done input = .ok (items, rest)) :
    ∃ more, items = done.reverse ++ more := by
  induction steps generalizing first done input with
  | nil => cases h
  | cons step steps ih =>
    obtain ⟨⟨more, after⟩, -, h⟩ := ok_of_bind h
    cases more with
    | true =>
      obtain ⟨⟨v, after'⟩, -, h⟩ := ok_of_bind h
      obtain ⟨items', rfl⟩ := ih h
      exact ⟨v :: items', by simp⟩
    | false =>
      cases h
      exact ⟨[], (List.append_nil _).symm⟩

/-- The first item of an array is read as the identifier and as a value. -/
theorem readItem?_eq_head {id : Option (Option Id)} {items : List Json} {steps : List UInt8}
    {after : List UInt8} (h : readItem? readId true input = .ok (id, rest))
    (hitems : readItems readAny steps true [] input = .ok (items, after)) :
    id.join = items.head?.bind Id.ofJson? := by
  cases steps with
  | nil => cases hitems
  | cons step steps =>
    obtain ⟨⟨more, inside⟩, hnext, h⟩ := ok_of_bind h
    obtain ⟨⟨more', inside'⟩, hnext', hitems⟩ := ok_of_bind hitems
    cases hnext.symm.trans hnext'
    cases more with
    | true =>
      obtain ⟨⟨id', rest'⟩, hid, h⟩ := ok_of_bind h
      obtain ⟨⟨v, after'⟩, hv, hitems⟩ := ok_of_bind hitems
      obtain ⟨items', rfl⟩ := readItems_append hitems
      cases h
      exact readId_eq hid hv
    | false =>
      cases h
      cases hitems
      rfl

/-- An envelope is read from an object or from an array. -/
theorem read_cases {e : Envelope} (h : read input = .ok (e, rest)) :
    (∃ inside draft, skipSpace input = 0x7b :: inside ∧ e = ofDraft draft ∧
      readMembers readMember (0 :: inside) true {} inside = .ok (draft, rest)) ∨
    ∃ inside after id, skipSpace input = 0x5b :: inside ∧ e.id = id.join ∧
      readItem? readId true inside = .ok (id, after) := by
  unfold read at h
  split at h
  · cases h
  · rename_i b inside hspace
    split_ifs at h with hobject harray
    · subst hobject
      obtain ⟨⟨draft, rest'⟩, hdraft, h⟩ := ok_of_bind h
      cases h
      exact .inl ⟨inside, draft, hspace, rfl, hdraft⟩
    · subst harray
      obtain ⟨⟨id, after⟩, hid, h⟩ := ok_of_bind h
      obtain ⟨⟨method, after'⟩, -, h⟩ := ok_of_bind h
      obtain ⟨⟨params, after'⟩, -, h⟩ := ok_of_bind h
      obtain ⟨⟨result, after'⟩, -, h⟩ := ok_of_bind h
      obtain ⟨⟨error, after'⟩, -, h⟩ := ok_of_bind h
      obtain ⟨⟨⟨⟩, after'⟩, -, h⟩ := ok_of_bind h
      cases h
      exact .inr ⟨inside, after, id, hspace, rfl, hid⟩
    · obtain ⟨p, -, h⟩ := ok_of_bind h
      cases h

variable {payload : List UInt8} {e : Envelope}

/-- The value that stands for the identifier in the object or the array of an envelope. -/
def idValue? : Json → Option Json
  | .object members => member? "id" members
  | .array items => items.head?
  | _ => none

/-- The identifier of an envelope is the one that the payload's value holds. -/
theorem id_of_parse {v : Json} (h : ofPayload payload = .ok e) (hp : parse payload = .ok v) :
    e.id = (idValue? v).bind Id.ofJson? := by
  obtain ⟨rest, hread⟩ := ok_of_checkEnd h
  obtain ⟨after, hvalue⟩ := ok_of_checkEnd hp
  rcases read_cases hread with ⟨inside, draft, hspace, rfl, hdraft⟩ |
    ⟨inside, rest', id, hspace, hid, hitem⟩
  · obtain ⟨members, rfl, hmembers⟩ := object_of_readValue hvalue hspace
    exact (agrees_empty.run hdraft hmembers).id
  · obtain ⟨items, rfl, hitems⟩ := array_of_readValue hvalue hspace
    rw [hid]
    exact readItem?_eq_head hitem hitems

/-- The identifier that an object names is that of its envelope. -/
theorem id_of_object {id : Id} (h : ofPayload payload = .ok e)
    (hp : parse payload = .ok (.object members)) (hid : member? "id" members = some id.toJson) :
    e.id = some id := by
  rw [id_of_parse h hp, idValue?, hid]
  exact id.ofJson?_toJson

/-- The method of an envelope is the one that the payload's object names. Without one, or with null
for one, there is none. -/
theorem member?_method_of_parse (h : ofPayload payload = .ok e)
    (hp : parse payload = .ok (.object members)) :
    member? "method" members = none ∧ e.method = none ∨
      member? "method" members = some (Shape.encode e.method) := by
  obtain ⟨rest, hread⟩ := ok_of_checkEnd h
  obtain ⟨after, hvalue⟩ := ok_of_checkEnd hp
  rcases read_cases hread with ⟨inside, draft, hspace, rfl, hdraft⟩ | ⟨inside, _, _, hspace, -⟩
  · obtain ⟨members', he, hmembers⟩ := object_of_readValue hvalue hspace
    cases he
    have hmethod := (agrees_empty.run hdraft hmembers).method
    rw [hmethod, ofDraft]
    cases draft.method with
    | none => exact .inl ⟨rfl, rfl⟩
    | some method => exact .inr rfl
  · obtain ⟨items, he, -⟩ := array_of_readValue hvalue hspace
    cases he

/-- An object without a method makes an envelope without one. -/
theorem method_of_parse (h : ofPayload payload = .ok e)
    (hp : parse payload = .ok (.object members)) (hmethod : member? "method" members = none) :
    e.method = none := by
  rcases member?_method_of_parse h hp with ⟨-, he⟩ | hsome
  · exact he
  · cases hmethod.symm.trans hsome

end Envelope

/-- A number and a text are identifiers as they stand. -/
theorem Id.eq_toJson_of_ofJson? {v : Json} {id : Id} (h : Id.ofJson? v = some id) :
    v = id.toJson := by
  unfold Id.ofJson? at h
  split at h
  · rename_i n
    split_ifs at h with hn
    cases h
    rw [Bool.and_eq_true, decide_eq_true_eq, decide_eq_true_eq] at hn
    rw [Id.toJson, Int64.toInt_ofInt_of_le hn.1 (Int.lt_of_le_of_lt hn.2 (by decide))]
  · cases h
    rfl
  · cases h

end PeerRpc.Rpc
