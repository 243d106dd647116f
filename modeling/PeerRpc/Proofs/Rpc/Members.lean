import PeerRpc.Proofs.Rpc.Steady

/-!
# The members that make an envelope

An envelope is made of what an object gives under the names of its fields. The order of the members,
the blanks between them and all members of other names have no influence on it, nor on whether there
is one (`Envelope.ofPayload_of_same_fields`). Only the names themselves must be texts: a name with
one half of a character in it spoils the payload, even where nobody asks for that name.
-/

namespace PeerRpc.Rpc.Envelope

open Json

variable {α : Type}

/-! ## The members of an object as fields -/

/-- What the readers of the fields make of terms. -/
structure Reading where
  id : Term → Except Fault (Option Id)
  method : Term → Except Fault (Option String)
  any : Term → Except Fault Json
  error : Term → Except Fault (Option Failure)
  reads_id : Reads readId id
  reads_method : Reads (readOptional readPlain) method
  reads_any : Reads readAny any
  reads_error : Reads (readOptional Failure.read) error

instance : Nonempty Reading := by
  obtain ⟨id, hid⟩ := steady_readId
  obtain ⟨method, hmethod⟩ := steady_readOptional (steady_readPlain onlyScalars_string)
  obtain ⟨any, hany⟩ := steady_readAny
  obtain ⟨error, herror⟩ := steady_readOptional Failure.steady_read
  exact ⟨⟨id, method, any, error, hid, hmethod, hany, herror⟩⟩

/-- Takes a member into what has been read of an envelope. -/
def Reading.take (f : Reading) (draft : Draft) (name : String) (t : Term) : Except Fault Draft :=
  if name = "id" then
    (once name draft.id (f.id t)).map fun id => { draft with id := some id }
  else if name = "method" then
    (once name draft.method (f.method t)).map fun method => { draft with method := some method }
  else if name = "params" then
    (once name draft.params (f.any t)).map fun params => { draft with params := some params }
  else if name = "result" then
    (once name draft.result (f.any t)).map fun result => { draft with result := some result }
  else if name = "error" then
    (once name draft.error (f.error t)).map fun error => { draft with error := some error }
  else .ok draft

theorem Reading.readsMember (f : Reading) : ReadsMember readMember f.take := by
  intro draft name t w w' b hw hw' hb rest hr
  rw [readMember, take]
  split_ifs
  · rw [gives_readField f.reads_id name draft.id hw hw' hb hr]
    cases once name draft.id (f.id t) <;> rfl
  · rw [gives_readField f.reads_method name draft.method hw hw' hb hr]
    cases once name draft.method (f.method t) <;> rfl
  · rw [gives_readField f.reads_any name draft.params hw hw' hb hr]
    cases once name draft.params (f.any t) <;> rfl
  · rw [gives_readField f.reads_any name draft.result hw hw' hb hr]
    cases once name draft.result (f.any t) <;> rfl
  · rw [gives_readField f.reads_error name draft.error hw hw' hb hr]
    cases once name draft.error (f.error t) <;> rfl
  · exact gives_skipField draft hw hw' hb hr

variable {payload payload' : List UInt8} {members members' : List (List Piece × Term)}

/-- An envelope is made of its object's members one after the other, whatever the blanks. -/
theorem ofPayload_eq_collect (f : Reading) (h : WrittenAs (.object members) payload) :
    ofPayload payload = (collect f.take {} members).map ofDraft := by
  obtain ⟨w, b, w', hw, hb, hw', rfl⟩ := h
  rw [ofPayload, Envelope.read, hb.skipSpace_eq hw]
  cases hb with
  | @object _ r h =>
    have hlength := h.length_lt
    change checkEnd (readMembers readMember (0 :: (r ++ w')) true {} (r ++ w') >>= _) = _
    rw [readMembers_spells f.readsMember h (by simp; omega)]
    cases collect f.take {} members with
    | error fault => rfl
    | ok draft =>
      have hend : skipSpace w' = [] := by
        rw [← List.append_nil w', skipSpace_blank hw']
        rfl
      change checkEnd (.ok (ofDraft draft, w')) = _
      rw [checkEnd, hend]
      rfl

/-- Blanks alone change nothing, not even the fault that is reported. -/
theorem ofPayload_of_same_members (h : WrittenAs (.object members) payload)
    (h' : WrittenAs (.object members) payload') : ofPayload payload = ofPayload payload' := by
  obtain ⟨f⟩ : Nonempty Reading := inferInstance
  rw [ofPayload_eq_collect f h, ofPayload_eq_collect f h']

/-! ## What is given under a name -/

/-- The names of the fields. -/
def fieldNames : List String := ["id", "method", "params", "result", "error"]

/-- The values that an object gives under a name. -/
def given (name : String) (members : List (List Piece × Term)) : List Term :=
  members.filterMap fun (n, t) => if text? n = some name then some t else none

/-- What becomes of a field, of which something may have been seen before, when values are given for
it: it stays as it is without any, and there is no second one. -/
inductive Found (f : Term → Except Fault α) (seen : Option α) : List Term → Option α → Prop
  | absent : Found f seen [] seen
  | given {t : Term} {a : α} (hseen : seen = none) (h : f t = .ok a) : Found f seen [t] (some a)

variable {f : Term → Except Fault α} {seen a : Option α} {t : Term} {ts ts' : List Term}

theorem found_nil : Found f seen [] a ↔ a = seen := by
  constructor
  · rintro ⟨⟩
    rfl
  · rintro rfl
    exact .absent

theorem found_singleton : Found f seen [t] a ↔ ∃ b, (seen = none ∧ f t = .ok b) ∧ a = some b := by
  constructor
  · rintro (_ | ⟨hseen, h⟩)
    exact ⟨_, ⟨hseen, h⟩, rfl⟩
  · rintro ⟨b, ⟨hseen, h⟩, rfl⟩
    exact .given hseen h

theorem found_append : Found f seen (ts ++ ts') a ↔ ∃ b, Found f seen ts b ∧ Found f b ts' a := by
  constructor
  · intro h
    cases ts with
    | nil => exact ⟨seen, .absent, h⟩
    | cons t ts =>
      rw [List.cons_append] at h
      generalize hmore : ts ++ ts' = more at h
      cases h with
      | given hseen h =>
        obtain ⟨rfl, rfl⟩ := List.append_eq_nil_iff.1 hmore
        exact ⟨_, .given hseen h, .absent⟩
  · rintro ⟨b, hb, h⟩
    cases hb with
    | absent => exact h
    | given hseen hb =>
      cases h with
      | absent => exact .given hseen hb
      | given hseen' => cases hseen'

theorem Found.perm (h : Found f seen ts a) (hts : ts.Perm ts') : Found f seen ts' a := by
  cases h with
  | absent =>
    obtain rfl := hts.symm.eq_nil
    exact .absent
  | given hseen h =>
    obtain rfl := List.singleton_perm.1 hts
    exact .given hseen h

theorem found_iff_of_perm (hts : ts.Perm ts') : Found f seen ts a ↔ Found f seen ts' a :=
  ⟨fun h => h.perm hts, fun h => h.perm hts.symm⟩

/-! ## One member and all of them -/

theorem once_eq_ok_iff {name : String} {x : Except Fault α} {b : α} :
    once name seen x = .ok b ↔ seen = none ∧ x = .ok b := by
  cases seen <;> simp [once]

theorem map_eq_ok_iff {β : Type} {x : Except Fault α} {g : α → β} {c : β} :
    x.map g = .ok c ↔ ∃ b, x = .ok b ∧ g b = c := by
  cases x <;> simp [Except.map]

/-- What a member gives for the field of a name. -/
def share (key name : String) (t : Term) : List Term :=
  if name = key then [t] else []

/-- Each field is made of what a member gives for it, and stays as it is if that is nothing. -/
theorem Reading.take_eq_ok_iff (f : Reading) {draft draft' : Draft} {name : String} {t : Term} :
    f.take draft name t = .ok draft' ↔
      Found f.id draft.id (share "id" name t) draft'.id ∧
        Found f.method draft.method (share "method" name t) draft'.method ∧
        Found f.any draft.params (share "params" name t) draft'.params ∧
        Found f.any draft.result (share "result" name t) draft'.result ∧
        Found f.error draft.error (share "error" name t) draft'.error := by
  obtain ⟨id, method, params, result, error⟩ := draft'
  by_cases hname : name ∈ fieldNames
  · simp only [fieldNames, List.mem_cons, List.not_mem_nil, or_false] at hname
    rcases hname with rfl | rfl | rfl | rfl | rfl
    all_goals
      simp only [take, share, reduceIte, String.reduceEq, map_eq_ok_iff, once_eq_ok_iff, found_nil,
        found_singleton, Draft.mk.injEq]
      grind
  · simp only [fieldNames, List.mem_cons, List.not_mem_nil, or_false, not_or] at hname
    obtain ⟨⟩ := draft
    simp only [take, share, hname, if_false, found_nil, Except.ok.injEq, Draft.mk.injEq, eq_comm]

theorem given_cons (key : String) (n : List Piece) (t : Term)
    (members : List (List Piece × Term)) :
    given key ((n, t) :: members) = ((text? n).elim [] (share key · t)) ++ given key members := by
  unfold given share
  cases hn : text? n with
  | none => simp [hn]
  | some name => by_cases h : name = key <;> simp [hn, h]

/-- The members of an object make a draft if their names are texts and each field is made of what is
given for it. -/
theorem collect_eq_ok_iff (f : Reading) {draft draft' : Draft} :
    collect f.take draft members = .ok draft' ↔
      (∀ m ∈ members, (text? m.1).isSome) ∧
        Found f.id draft.id (given "id" members) draft'.id ∧
        Found f.method draft.method (given "method" members) draft'.method ∧
        Found f.any draft.params (given "params" members) draft'.params ∧
        Found f.any draft.result (given "result" members) draft'.result ∧
        Found f.error draft.error (given "error" members) draft'.error := by
  induction members generalizing draft with
  | nil =>
    simp only [given, List.filterMap_nil, found_nil, collect]
    constructor
    · rintro ⟨⟩
      simp
    · obtain ⟨⟩ := draft
      obtain ⟨⟩ := draft'
      rintro ⟨-, rfl, rfl, rfl, rfl, rfl⟩
      rfl
  | cons m members ih =>
    obtain ⟨n, t⟩ := m
    simp only [given_cons, List.forall_mem_cons]
    change (textOf n >>= fun name => f.take draft name t >>= fun s => collect f.take s members) =
      _ ↔ _
    unfold textOf
    cases hn : text? n with
    | none =>
      simp only [Option.isSome_none, Bool.false_eq_true, false_and, iff_false]
      intro h
      cases h
    | some name =>
      simp only [Option.elim_some, Option.isSome_some, true_and, found_append]
      constructor
      · intro h
        obtain ⟨_, ⟨⟩, h⟩ := ok_of_bind h
        obtain ⟨draft₁, htake, h⟩ := ok_of_bind h
        obtain ⟨hid, hmethod, hparams, hresult, herror⟩ := f.take_eq_ok_iff.1 htake
        obtain ⟨hnames, hid', hmethod', hparams', hresult', herror'⟩ := ih.1 h
        exact ⟨hnames, ⟨_, hid, hid'⟩, ⟨_, hmethod, hmethod'⟩, ⟨_, hparams, hparams'⟩,
          ⟨_, hresult, hresult'⟩, ⟨_, herror, herror'⟩⟩
      · rintro ⟨hnames, ⟨id, hid, hid'⟩, ⟨method, hmethod, hmethod'⟩, ⟨params, hparams, hparams'⟩,
          ⟨result, hresult, hresult'⟩, ⟨error, herror, herror'⟩⟩
        have htake : f.take draft name t = .ok ⟨id, method, params, result, error⟩ :=
          f.take_eq_ok_iff.2 ⟨hid, hmethod, hparams, hresult, herror⟩
        change (f.take draft name t >>= _) = _
        rw [htake]
        exact ih.2 ⟨hnames, hid', hmethod', hparams', hresult', herror'⟩

/-- Whether a member's name is that of a field. -/
def isField (m : List Piece × Term) : Bool :=
  (text? m.1).any (· ∈ fieldNames)

theorem given_filter_isField {name : String} (hname : name ∈ fieldNames)
    (members : List (List Piece × Term)) :
    given name (members.filter isField) = given name members := by
  unfold given
  rw [List.filterMap_filter]
  refine List.filterMap_congr fun m _ => ?_
  by_cases hn : text? m.1 = some name <;> simp [isField, hn, hname]

/-- The same fields in any order give the same under every name of a field. -/
theorem given_perm {name : String} (hname : name ∈ fieldNames)
    (h : (members.filter isField).Perm (members'.filter isField)) :
    (given name members).Perm (given name members') := by
  rw [← given_filter_isField hname, ← given_filter_isField hname members']
  exact h.filterMap _

theorem ofPayload_eq_ok_iff (f : Reading) (h : WrittenAs (.object members) payload) {e : Envelope} :
    ofPayload payload = .ok e ↔
      ∃ draft, collect f.take {} members = .ok draft ∧ ofDraft draft = e := by
  rw [ofPayload_eq_collect f h]
  cases collect f.take {} members with
  | error fault => simp [Except.map]
  | ok draft => simp [Except.map]

/-- Payloads with the same fields in any order, with any other members and any blanks, make the same
envelope, or none does. Whether the others' names are texts is the only thing about them that
matters. Whatever they say about the protocol version, the envelope has the one that is always
written. -/
theorem ofPayload_of_same_fields (h : WrittenAs (.object members) payload)
    (h' : WrittenAs (.object members') payload')
    (hnames : (∀ m ∈ members, (text? m.1).isSome) ↔ ∀ m ∈ members', (text? m.1).isSome)
    (hfields : (members.filter isField).Perm (members'.filter isField)) :
    (∀ e, ofPayload payload = .ok e ↔ ofPayload payload' = .ok e) ∧
      ∀ e, ofPayload payload = .ok e →
        e.jsonrpc = "2.0" ∧ ∃ more, e.toJson = .object (("jsonrpc", .string "2.0") :: more) := by
  obtain ⟨f⟩ : Nonempty Reading := inferInstance
  have hgiven : ∀ name ∈ fieldNames, (given name members).Perm (given name members') :=
    fun name hname => given_perm hname hfields
  simp only [fieldNames, List.forall_mem_cons] at hgiven
  obtain ⟨hid, hmethod, hparams, hresult, herror, -⟩ := hgiven
  have hversion : ∀ e, ofPayload payload = .ok e →
      e.jsonrpc = "2.0" ∧ ∃ more, e.toJson = .object (("jsonrpc", .string "2.0") :: more) := by
    intro e he
    obtain ⟨draft, -, rfl⟩ := (ofPayload_eq_ok_iff f h).1 he
    exact ⟨rfl, _, rfl⟩
  refine ⟨fun e => ?_, hversion⟩
  simp only [ofPayload_eq_ok_iff f h, ofPayload_eq_ok_iff f h', collect_eq_ok_iff, hnames,
    found_iff_of_perm hid, found_iff_of_perm hmethod, found_iff_of_perm hparams,
    found_iff_of_perm hresult, found_iff_of_perm herror]

/-! ## Payloads of one notification -/

/-- The number 1. -/
def one : Term :=
  .scalar (.number false ⟨⟨[1], by decide, by decide⟩, by decide, none, none⟩)

/-- An identifier, the number 1. -/
def idMember : List Piece × Term :=
  (plainly "id" (by decide +kernel), one)

/-- A method, that which lets the peer exit. -/
def methodMember : List Piece × Term :=
  (plainly "method" (by decide +kernel), .scalar (.text (plainly "exit" (by decide +kernel))))

/-- The first half of a character, without the second. -/
def half : Piece :=
  .unit ⟨0x64, rfl⟩ ⟨0x38, rfl⟩ ⟨0x30, rfl⟩ ⟨0x30, rfl⟩

/-- A protocol version that is no text: half a character in an array. -/
def versionMember : List Piece × Term :=
  (plainly "jsonrpc" (by decide +kernel), .array [.scalar (.text [half])])

/-- A member that has half a character for a name. -/
def halfMember : List Piece × Term :=
  ([half], one)

theorem isField_idMember : isField idMember = true := by decide +kernel

theorem isField_methodMember : isField methodMember = true := by decide +kernel

theorem isField_versionMember : isField versionMember = false := by decide +kernel

theorem isField_halfMember : isField halfMember = false := by decide +kernel

set_option maxRecDepth 4000 in
/-- The members change places, and two protocol versions and some blanks are added. -/
theorem exit_of_rearranged :
    let payload := Text.utf8 "\x7b\"id\":1,\"method\":\"exit\"\x7d"
    let payload' := Text.utf8
      "\x7b \"jsonrpc\" :[\"\\ud800\"],\"method\": \"exit\",\"jsonrpc\":[\"\\ud800\"],\"id\":1 \x7d\n"
    WrittenAs (.object [idMember, methodMember]) payload ∧
      WrittenAs (.object [versionMember, methodMember, versionMember, idMember]) payload' ∧
      ofPayload payload = .ok { id := some (.number 1), method := some "exit" } ∧
      ∀ e, ofPayload payload = .ok e ↔ ofPayload payload' = .ok e := by
  intro payload payload'
  have hspace : Blank [0x20] := by decide
  have h : WrittenAs (.object [idMember, methodMember]) payload := by
    have hmembers : SpellsMembers true [idMember, methodMember] _ :=
      .cons .first blank_nil blank_nil blank_nil (.scalar _)
        (.cons (.comma blank_nil) blank_nil blank_nil blank_nil (.scalar _) (.nil blank_nil))
    exact ⟨[], _, [], blank_nil, .object hmembers, blank_nil, by decide +kernel⟩
  have h' : WrittenAs (.object [versionMember, methodMember, versionMember, idMember])
      payload' := by
    have hversion : Spells (.array [.scalar (.text [half])]) _ :=
      .array (.cons .first blank_nil (.scalar _) (.nil blank_nil))
    have hmembers :
        SpellsMembers true [versionMember, methodMember, versionMember, idMember] _ :=
      .cons .first hspace hspace blank_nil hversion
        (.cons (.comma blank_nil) blank_nil blank_nil hspace (.scalar _)
        (.cons (.comma blank_nil) blank_nil blank_nil blank_nil hversion
        (.cons (.comma blank_nil) blank_nil blank_nil blank_nil (.scalar _) (.nil hspace))))
    exact ⟨[], _, [0x0a], blank_nil, .object hmembers, by decide, by decide +kernel⟩
  refine ⟨h, h', by rfl, (ofPayload_of_same_fields h h' (by decide +kernel) ?_).1⟩
  simp only [List.filter_cons, isField_idMember, isField_methodMember, isField_versionMember]
  exact List.Perm.swap _ _ _

set_option maxRecDepth 4000 in
/-- A member is added that is no field. Its value is nothing but a number, but its name is no text:
names are read as texts, where values are only passed over. -/
theorem exit_spoiled_by_half :
    let payload := Text.utf8 "\x7b\"method\":\"exit\"\x7d"
    let payload' := Text.utf8 "\x7b\"\\ud800\":1,\"method\":\"exit\"\x7d"
    WrittenAs (.object [methodMember]) payload ∧
      WrittenAs (.object [halfMember, methodMember]) payload' ∧
      ([methodMember].filter isField).Perm ([halfMember, methodMember].filter isField) ∧
      ofPayload payload = .ok { method := some "exit" } ∧
      ofPayload payload' = .error .malformed := by
  intro payload payload'
  refine ⟨?_, ?_, ?_, by rfl, by rfl⟩
  · have hmembers : SpellsMembers true [methodMember] _ :=
      .cons .first blank_nil blank_nil blank_nil (.scalar _) (.nil blank_nil)
    exact ⟨[], _, [], blank_nil, .object hmembers, blank_nil, by decide +kernel⟩
  · have hmembers : SpellsMembers true [halfMember, methodMember] _ :=
      .cons .first blank_nil blank_nil blank_nil (.scalar _)
        (.cons (.comma blank_nil) blank_nil blank_nil blank_nil (.scalar _) (.nil blank_nil))
    exact ⟨[], _, [], blank_nil, .object hmembers, blank_nil, by decide +kernel⟩
  · simp only [List.filter_cons, isField_methodMember, isField_halfMember]
    exact List.Perm.refl _

end PeerRpc.Rpc.Envelope
