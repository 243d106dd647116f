import PeerRpc.Proofs.Rpc.Fields

/-!
# Envelopes that are arrays

A message is an object, but a reader of envelopes also takes an array, which holds the fields of an
envelope one after the other. `Holds` says which items an array still has from some bytes on, so that
the reader and the value of the payload can be followed item by item.

* `envelope_of_object_or_array`: which arrays are read as envelopes, and as which. A batch of calls is
  never one.
* `call_read_from_array`: an array can be a request.
-/

namespace PeerRpc.Rpc

open Json Envelope

/-! ## Items of an array -/

variable {α : Type} {item : List UInt8 → Except Fault (Json × List UInt8)}
  {input inside rest after : List UInt8} {items : List Json} {first : Bool} {v : Json}

theorem readItems_eq_map (steps : List UInt8) (first : Bool) (done : List Json)
    (input : List UInt8) :
    readItems item steps first done input =
      (readItems item steps first [] input).map fun p => (done.reverse ++ p.1, p.2) := by
  induction steps generalizing first done input with
  | nil => rfl
  | cons step steps ih =>
    rw [readItems, readItems]
    simp only [bind, Except.bind]
    cases readNextItem first input with
    | error fault => rfl
    | ok p =>
      obtain ⟨more, inside⟩ := p
      cases more with
      | false => simp [Except.map]
      | true =>
        simp only [if_true]
        cases item inside with
        | error fault => rfl
        | ok p =>
          obtain ⟨v, rest⟩ := p
          dsimp only
          rw [ih false (v :: done), ih false [v]]
          cases readItems item steps false [] rest <;> simp [Except.map]

/-- An array has some items from some bytes on, and some bytes follow its closing bracket. -/
def Holds (first : Bool) (input : List UInt8) (items : List Json) (after : List UInt8) : Prop :=
  ∃ steps, readItems readAny steps first [] input = .ok (items, after)

theorem Holds.cases (h : Holds first input items after) :
    (items = [] ∧ readNextItem first input = .ok (false, 0x5d :: after)) ∨
    ∃ v others inside rest, items = v :: others ∧ readNextItem first input = .ok (true, inside) ∧
      readAny inside = .ok (v, rest) ∧ Holds false rest others after := by
  obtain ⟨steps, h⟩ := h
  cases steps with
  | nil => cases h
  | cons step steps =>
    obtain ⟨⟨more, inside⟩, hnext, h⟩ := ok_of_bind h
    cases more with
    | false =>
      cases h
      obtain ⟨rest, rfl⟩ := close_of_readNextItem hnext
      exact .inl ⟨rfl, hnext⟩
    | true =>
      obtain ⟨⟨v, rest⟩, hv, h⟩ := ok_of_bind h
      dsimp only at h
      rw [readItems_eq_map] at h
      cases hothers : readItems readAny steps false [] rest with
      | error fault =>
        rw [hothers] at h
        cases h
      | ok p =>
        rw [hothers] at h
        cases h
        exact .inr ⟨v, p.1, inside, rest, rfl, hnext, hv, steps, hothers⟩

theorem holds_close (after : List UInt8) : Holds false (0x5d :: after) [] after :=
  ⟨[0], rfl⟩

/-- What a reader makes of the next item, and the item: both are missing, or both are read from the
same bytes, up to the same place. -/
inductive SameItem (read : List UInt8 → Except Fault (α × List UInt8)) (rest : List UInt8) :
    Option α → Option Json → Prop
  | missing : SameItem read rest none none
  | read {a : α} {v : Json} {inside : List UInt8} (ha : read inside = .ok (a, rest))
    (hv : readAny inside = .ok (v, rest)) : SameItem read rest (some a) (some v)

theorem Holds.next {read : List UInt8 → Except Fault (α × List UInt8)} {a? : Option α}
    (h : Holds first input items after) (hread : Passes read)
    (hitem : readItem? read first input = .ok (a?, rest)) :
    Holds false rest items.tail after ∧ SameItem read rest a? items.head? := by
  obtain ⟨⟨more, inside⟩, hnext, hitem⟩ := ok_of_bind hitem
  rcases h.cases with ⟨rfl, hclose⟩ | ⟨v, others, inside', rest', rfl, hnext', hv, hothers⟩
  · cases hclose.symm.trans hnext
    cases hitem
    exact ⟨holds_close after, .missing⟩
  · cases hnext'.symm.trans hnext
    obtain ⟨⟨a, rest''⟩, ha, hitem⟩ := ok_of_bind hitem
    cases hitem
    cases (hread ha).symm.trans (passes_readAny hv)
    exact ⟨hothers, .read ha hv⟩

/-- A reader that reads the next item of an array, if there is one, gets to the item after it. -/
theorem Holds.exists_next {read : List UInt8 → Except Fault (α × List UInt8)}
    (h : Holds first input items after) (hpasses : Passes read)
    (hread : ∀ v ∈ items.head?, ∀ inside rest, readAny inside = .ok (v, rest) →
      ∃ a, read inside = .ok (a, rest)) :
    ∃ a? rest, readItem? read first input = .ok (a?, rest) ∧ Holds false rest items.tail after ∧
      SameItem read rest a? items.head? := by
  have hitem : ∃ a? rest, readItem? read first input = .ok (a?, rest) := by
    rcases h.cases with ⟨rfl, hclose⟩ | ⟨v, others, inside, rest, rfl, hnext, hv, -⟩
    · refine ⟨none, 0x5d :: after, ?_⟩
      rw [readItem?, hclose]
      rfl
    · obtain ⟨a, ha⟩ := hread v rfl inside rest hv
      refine ⟨some a, rest, ?_⟩
      rw [readItem?, hnext]
      simp only [bind, Except.bind, if_true, ha]
  obtain ⟨a?, rest, hitem⟩ := hitem
  exact ⟨a?, rest, hitem, h.next hpasses hitem⟩

theorem skipSpace_of_noItem (h : readNextItem first input = .ok (false, rest)) :
    skipSpace input = rest := by
  unfold readNextItem at h
  split at h
  · cases h
  · rename_i b more hspace
    split_ifs at h with hb hfirst hcomma
    · cases h
      exact hspace
    · cases h
    · split at h
      · cases h
      · split_ifs at h
        cases h

theorem readClose_of_skipSpace (h : skipSpace input = 0x5d :: rest) :
    readClose input = .ok ((), rest) := by
  rw [readClose, h]
  rfl

theorem Holds.readClose (h : Holds false input [] after) : readClose input = .ok ((), after) := by
  rcases h.cases with ⟨-, hnext⟩ | ⟨_, _, _, _, he, -⟩
  · exact readClose_of_skipSpace (skipSpace_of_noItem hnext)
  · cases he

/-- The closing bracket stands behind the last item. -/
theorem Holds.eq_nil (h : Holds false input items after)
    (hclose : Rpc.readClose input = .ok ((), rest)) : items = [] := by
  rcases h.cases with ⟨rfl, -⟩ | ⟨_, _, more, _, -, hnext, -⟩
  · rfl
  · unfold Rpc.readClose at hclose
    unfold readNextItem at hnext
    split at hclose
    · cases hclose
    · rename_i b more hspace
      split_ifs at hclose with hb
      rw [hspace] at hnext
      dsimp only at hnext
      rw [if_pos hb] at hnext
      cases hnext

/-! ## Values by their first byte -/

/-- A value is a number. -/
def IsNumber : Json → Prop
  | .int _ | .double _ => True
  | _ => False

theorem isNumber_of_readExponent {negative : Bool} {significand : Nat} {exponent : Int}
    (h : readExponent negative significand exponent input = .ok (v, rest)) : IsNumber v := by
  unfold readExponent at h
  split at h
  · split_ifs at h
    · dsimp only at h
      split at h
      · cases h
      · cases h
      · split at h
        · split_ifs at h
          cases h
          trivial
        · obtain ⟨x, -, h⟩ := ok_of_bind h
          cases h
          trivial
    · obtain ⟨x, -, h⟩ := ok_of_bind h
      cases h
      trivial
  · obtain ⟨x, -, h⟩ := ok_of_bind h
    cases h
    trivial

theorem isNumber_of_readAfterWhole {negative : Bool} {significand dropped : Nat}
    (h : readAfterWhole negative significand dropped input = .ok (v, rest)) : IsNumber v := by
  unfold readAfterWhole at h
  dsimp only at h
  split_ifs at h
  · exact isNumber_of_readExponent h
  · cases h
    trivial
  · exact isNumber_of_readExponent h
  · cases h
    trivial
  · split at h
    · cases h
    · split_ifs at h
      · split at h
        · cases h
        · cases h
        · exact isNumber_of_readExponent h
      · exact isNumber_of_readExponent h

theorem isNumber_of_readNumber {negative : Bool}
    (h : readNumber negative input = .ok (v, rest)) : IsNumber v := by
  unfold readNumber at h
  split at h
  · cases h
  · cases h
  · cases h
  · exact isNumber_of_readAfterWhole h

/-- A scalar is neither an array nor an object, and it is null if and only if it starts as null
does. -/
theorem readScalar_cases {b : UInt8} (h : readScalar b input = .ok (v, rest)) :
    (∀ items, v ≠ .array items) ∧ (∀ members, v ≠ .object members) ∧ (b = 0x6e ↔ v = .null) := by
  have hnumber : IsNumber v → (∀ items, v ≠ .array items) ∧ (∀ members, v ≠ .object members) ∧
      v ≠ .null := by
    intro hv
    cases v with
    | int n => exact ⟨nofun, nofun, nofun⟩
    | double x => exact ⟨nofun, nofun, nofun⟩
    | _ => exact hv.elim
  unfold readScalar at h
  split_ifs at h with hn htrue hfalse htext hminus
  · obtain ⟨p, -, h⟩ := ok_of_bind h
    cases h
    exact ⟨nofun, nofun, iff_of_true hn rfl⟩
  iterate 3
    · obtain ⟨p, -, h⟩ := ok_of_bind h
      cases h
      exact ⟨nofun, nofun, iff_of_false hn nofun⟩
  · obtain ⟨harray, hobject, hnull⟩ := hnumber (isNumber_of_readNumber h)
    exact ⟨harray, hobject, iff_of_false hn hnull⟩
  · obtain ⟨harray, hobject, hnull⟩ := hnumber (isNumber_of_readNumber h)
    exact ⟨harray, hobject, iff_of_false hn hnull⟩

theorem readValueWith_cases {inner : Option (List UInt8 → Except Fault (Json × List UInt8))}
    (h : readValueWith inner input = .ok (v, rest)) :
    ∃ b inside, skipSpace input = b :: inside ∧ (b = 0x5b ↔ ∃ items, v = .array items) ∧
      (b = 0x7b ↔ ∃ members, v = .object members) ∧ (b = 0x6e ↔ v = .null) ∧
      (b ≠ 0x5b → b ≠ 0x7b → readScalar b inside = .ok (v, rest)) := by
  unfold readValueWith at h
  split at h
  · cases h
  · rename_i b inside hspace
    refine ⟨b, inside, hspace, ?_⟩
    split_ifs at h with harray hobject
    · split at h
      · cases h
      · obtain ⟨⟨items, after⟩, -, h⟩ := ok_of_bind h
        cases h
        subst harray
        exact ⟨iff_of_true rfl ⟨items, rfl⟩, iff_of_false (by decide) (by simp),
          iff_of_false (by decide) Json.noConfusion, fun hne => absurd rfl hne⟩
    · split at h
      · cases h
      · obtain ⟨⟨members, after⟩, -, h⟩ := ok_of_bind h
        cases h
        subst hobject
        exact ⟨iff_of_false (by decide) (by simp), iff_of_true rfl ⟨members, rfl⟩,
          iff_of_false (by decide) Json.noConfusion, fun _ hne => absurd rfl hne⟩
    · obtain ⟨hnoArray, hnoObject, hnull⟩ := readScalar_cases h
      exact ⟨iff_of_false harray (not_exists.2 hnoArray),
        iff_of_false hobject (not_exists.2 hnoObject), hnull, fun _ _ => h⟩

theorem readValue_cases {room : Nat} (h : readValue room input = .ok (v, rest)) :
    ∃ b inside, skipSpace input = b :: inside ∧ (b = 0x5b ↔ ∃ items, v = .array items) ∧
      (b = 0x7b ↔ ∃ members, v = .object members) ∧ (b = 0x6e ↔ v = .null) ∧
      (b ≠ 0x5b → b ≠ 0x7b → readScalar b inside = .ok (v, rest)) := by
  cases room <;> exact readValueWith_cases h

/-! ## Fields -/

/-- An optional field is absent if and only if it is null. -/
theorem readOptional_eq_none_iff {read : List UInt8 → Except Fault (α × List UInt8)}
    {a? : Option α} (h : readOptional read input = .ok (a?, rest))
    (hv : readAny input = .ok (v, after)) : a? = none ↔ v = .null := by
  obtain ⟨b, inside, hspace, -, -, hnull, -⟩ := readValue_cases hv
  rw [readOptional, hspace] at h
  dsimp only at h
  rw [← hnull]
  split_ifs at h with hb
  · obtain ⟨p, -, h⟩ := ok_of_bind h
    cases h
    exact iff_of_true rfl hb
  · obtain ⟨p, -, h⟩ := ok_of_bind h
    cases h
    exact iff_of_false (Option.some_ne_none _) hb

theorem readOptional_of_null (read : List UInt8 → Except Fault (α × List UInt8))
    (hv : readAny input = .ok (.null, rest)) : readOptional read input = .ok (none, rest) := by
  obtain ⟨b, inside, hspace, -, -, hnull, hscalar⟩ := readValue_cases hv
  obtain rfl := hnull.2 rfl
  have hread := hscalar (by decide) (by decide)
  rw [readScalar, if_pos rfl] at hread
  obtain ⟨⟨⟨⟩, rest'⟩, hword, hread⟩ := ok_of_bind hread
  cases hread
  rw [readOptional, hspace]
  dsimp only
  rw [if_pos rfl, hword]
  rfl

theorem readOptional_of_ne_null {read : List UInt8 → Except Fault (α × List UInt8)} {a : α}
    (hv : readAny input = .ok (v, rest)) (hne : v ≠ .null)
    (h : read (skipSpace input) = .ok (a, rest)) :
    readOptional read input = .ok (some a, rest) := by
  obtain ⟨b, inside, hspace, -, -, hnull, -⟩ := readValue_cases hv
  rw [hspace] at h
  rw [readOptional, hspace]
  dsimp only
  rw [if_neg fun hb => hne (hnull.1 hb), h]
  rfl

theorem readId_of_value {id : Option Id} (hv : readAny input = .ok (Shape.encode id, rest)) :
    readId input = .ok (id, rest) := by
  cases id with
  | none => exact readOptional_of_null _ hv
  | some id =>
    refine readOptional_of_ne_null hv (by cases id <;> exact Json.noConfusion) ?_
    have hany : readAny (skipSpace input) = .ok (id.toJson, rest) := by
      rw [readAny, readValue_skipSpace]
      exact hv
    rw [hany]
    simp only [bind, Except.bind, id.decode_toJson]

theorem readMethod_of_value {method : Option String}
    (hv : readAny input = .ok (Shape.encode method, rest)) :
    readOptional readPlain input = .ok (method, rest) := by
  cases method with
  | none => exact readOptional_of_null _ hv
  | some method =>
    refine readOptional_of_ne_null hv Json.noConfusion ?_
    obtain ⟨b, inside, hspace, harray, hobject, -, hscalar⟩ := readValue_cases hv
    have hb : b ≠ 0x5b := fun hb => by
      obtain ⟨items, he⟩ := harray.1 hb
      cases he
    have hb' : b ≠ 0x7b := fun hb => by
      obtain ⟨members, he⟩ := hobject.1 hb
      cases he
    rw [readPlain, skipSpace_skipSpace, hspace]
    dsimp only
    rw [if_neg hb, if_neg hb', hscalar hb hb']
    rfl

/-! ## Arrays -/

/-- Some items are the fields of an envelope in the order of their declaration, but for the version,
which is not read; a field is absent if its item is missing, and an optional one also if the item is
null. -/
structure Positional (e : Envelope) (items : List Json) : Prop where
  length_le : items.length ≤ 5
  jsonrpc : e.jsonrpc = protocolVersion
  id : items[0]?.getD .null = Shape.encode e.id
  method : items[1]?.getD .null = Shape.encode e.method
  params : items[2]? = e.params
  result : items[3]? = e.result
  error : items[4]?.getD .null = .null ↔ e.error = none

namespace Envelope

variable {payload : List UInt8} {e : Envelope}

theorem read_array (hspace : skipSpace input = 0x5b :: inside)
    (h : read input = .ok (e, rest)) :
    ∃ id method params result error r₁ r₂ r₃ r₄ r₅,
      readItem? readId true inside = .ok (id, r₁) ∧
      readItem? (readOptional readPlain) false r₁ = .ok (method, r₂) ∧
      readItem? readAny false r₂ = .ok (params, r₃) ∧
      readItem? readAny false r₃ = .ok (result, r₄) ∧
      readItem? (readOptional Failure.read) false r₄ = .ok (error, r₅) ∧
      readClose r₅ = .ok ((), rest) ∧ e = ofDraft { id, method, params, result, error } := by
  rw [read, hspace] at h
  dsimp only at h
  rw [if_neg (by decide), if_pos rfl] at h
  obtain ⟨⟨id, r₁⟩, hid, h⟩ := ok_of_bind h
  obtain ⟨⟨method, r₂⟩, hmethod, h⟩ := ok_of_bind h
  obtain ⟨⟨params, r₃⟩, hparams, h⟩ := ok_of_bind h
  obtain ⟨⟨result, r₄⟩, hresult, h⟩ := ok_of_bind h
  obtain ⟨⟨error, r₅⟩, herror, h⟩ := ok_of_bind h
  obtain ⟨⟨⟨⟩, r⟩, hclose, h⟩ := ok_of_bind h
  cases h
  exact ⟨id, method, params, result, error, r₁, r₂, r₃, r₄, r₅, hid, hmethod, hparams, hresult,
    herror, hclose, rfl⟩

theorem passes_readMethod : Passes (readOptional (readPlain : List UInt8 → Except Fault (String × _))) :=
  passes_readOptional (passes_readPlain onlyScalars_string)

theorem passes_readError : Passes (readOptional Failure.read) :=
  passes_readOptional Failure.passes_read

variable {v? : Option Json}

/-- The item of the identifier is what is written for it. -/
theorem encode_id_of_sameItem {id : Option (Option Id)} (h : SameItem readId rest id v?) :
    v?.getD .null = Shape.encode id.join := by
  cases h with
  | missing => rfl
  | @read a v inside ha hv =>
    have hnull := readOptional_eq_none_iff ha hv
    have heq := readId_eq ha hv
    cases a with
    | none => exact hnull.1 rfl
    | some id => exact Id.eq_toJson_of_ofJson? heq.symm

theorem encode_method_of_sameItem {method : Option (Option String)}
    (h : SameItem (readOptional readPlain) rest method v?) :
    v?.getD .null = Shape.encode method.join := by
  cases h with
  | missing => rfl
  | read ha hv => exact readMethod_eq ha hv

theorem eq_of_sameItem {params : Option Json} (h : SameItem readAny rest params v?) :
    v? = params := by
  cases h with
  | missing => rfl
  | read ha hv =>
    cases ha.symm.trans hv
    rfl

theorem null_iff_of_sameItem {error : Option (Option Failure)}
    (h : SameItem (readOptional Failure.read) rest error v?) :
    v?.getD .null = .null ↔ error.join = none := by
  cases h with
  | missing => exact iff_of_true rfl rfl
  | read ha hv => exact (readOptional_eq_none_iff ha hv).symm

theorem positional_of_read (hspace : skipSpace input = 0x5b :: inside)
    (hitems : Holds true inside items after) (h : read input = .ok (e, rest)) :
    Positional e items := by
  obtain ⟨id, method, params, result, error, r₁, r₂, r₃, r₄, r₅, hid, hmethod, hparams, hresult,
    herror, hclose, rfl⟩ := read_array hspace h
  obtain ⟨h₁, hid⟩ := hitems.next passes_readId hid
  obtain ⟨h₂, hmethod⟩ := h₁.next passes_readMethod hmethod
  obtain ⟨h₃, hparams⟩ := h₂.next passes_readAny hparams
  obtain ⟨h₄, hresult⟩ := h₃.next passes_readAny hresult
  obtain ⟨h₅, herror⟩ := h₄.next passes_readError herror
  have hnil := h₅.eq_nil hclose
  have hid := encode_id_of_sameItem hid
  have hmethod := encode_method_of_sameItem hmethod
  have hparams := eq_of_sameItem hparams
  have hresult := eq_of_sameItem hresult
  have herror := null_iff_of_sameItem herror
  simp only [List.head?_eq_getElem?, List.getElem?_tail] at hid hmethod hparams hresult herror
  refine ⟨?_, rfl, hid, hmethod, hparams, hresult, herror⟩
  have hlength := congrArg List.length hnil
  simp only [List.length_tail, List.length_nil] at hlength
  omega

theorem encode_id_injective {id id' : Option Id}
    (h : (Shape.encode id : Json) = Shape.encode id') : id = id' := by
  have hread : ∀ id : Option Id, Id.ofJson? (Shape.encode id) = id := by
    intro id
    cases id with
    | none => rfl
    | some id => exact id.ofJson?_toJson
  rw [← hread id, h, hread]

theorem encode_method_injective {method method' : Option String}
    (h : (Shape.encode method : Json) = Shape.encode method') : method = method' := by
  cases method <;> cases method' <;> cases h <;> rfl

/-- An array of at most four items is read as the envelope whose fields they are. -/
theorem read_of_positional (hspace : skipSpace input = 0x5b :: inside)
    (hitems : Holds true inside items after) (h : Positional e items) (hlt : items.length < 5) :
    read input = .ok (e, after) := by
  have hvalue : ∀ {v? : Option Json} {v w : Json}, v?.getD .null = w → v ∈ v? → v = w := by
    rintro v? v w hw ⟨⟩
    exact hw
  have hid := h.id
  have hmethod := h.method
  have hparams := h.params
  have hresult := h.result
  have herror : items[4]? = none := List.getElem?_eq_none (by omega)
  have hnone : e.error = none := h.error.1 (by rw [herror]; rfl)
  have hend : items.tail.tail.tail.tail.tail = [] :=
    List.eq_nil_of_length_eq_zero (by simp only [List.length_tail]; omega)
  simp only [← List.head?_eq_getElem?, ← List.getElem?_tail] at hid hmethod hparams hresult herror
  obtain ⟨id, r₁, hid₁, h₁, hid₂⟩ := hitems.exists_next passes_readId
    fun v hv inside rest hread => ⟨_, readId_of_value (hvalue hid hv ▸ hread)⟩
  obtain ⟨method, r₂, hmethod₁, h₂, hmethod₂⟩ := h₁.exists_next passes_readMethod
    fun v hv inside rest hread => ⟨_, readMethod_of_value (hvalue hmethod hv ▸ hread)⟩
  obtain ⟨params, r₃, hparams₁, h₃, hparams₂⟩ := h₂.exists_next passes_readAny
    fun v hv inside rest hread => ⟨v, hread⟩
  obtain ⟨result, r₄, hresult₁, h₄, hresult₂⟩ := h₃.exists_next passes_readAny
    fun v hv inside rest hread => ⟨v, hread⟩
  obtain ⟨error, r₅, herror₁, h₅, herror₂⟩ := h₄.exists_next passes_readError
    fun v hv => by rw [herror] at hv; cases hv
  have hclose : readClose r₅ = .ok ((), after) := by
    rw [hend] at h₅
    exact h₅.readClose
  have hread : read input = .ok (ofDraft { id, method, params, result, error }, after) := by
    rw [read, hspace]
    dsimp only
    rw [if_neg (by decide), if_pos rfl]
    simp only [bind, Except.bind, hid₁, hmethod₁, hparams₁, hresult₁, herror₁, hclose]
  have hid := encode_id_injective ((encode_id_of_sameItem hid₂).symm.trans hid)
  have hmethod := encode_method_injective ((encode_method_of_sameItem hmethod₂).symm.trans hmethod)
  have hparams := (eq_of_sameItem hparams₂).symm.trans hparams
  have hresult := (eq_of_sameItem hresult₂).symm.trans hresult
  have herror := (null_iff_of_sameItem herror₂).1 (by rw [herror]; rfl)
  rw [hread, ofDraft, hid, hmethod, hparams, hresult, herror, ← hnone, ← h.jsonrpc]

/-! ## Payloads -/

/-- The items of an array are those that its payload holds. -/
theorem holds_of_parse (hp : parse payload = .ok (.array items)) :
    ∃ inside after, skipSpace payload = 0x5b :: inside ∧ Holds true inside items after ∧
      (skipSpace after).isEmpty := by
  obtain ⟨after, hvalue, hend⟩ := isEmpty_of_checkEnd hp
  obtain ⟨b, inside, hspace, harray, -⟩ := readValue_cases hvalue
  obtain rfl := harray.2 ⟨items, rfl⟩
  obtain ⟨items', he, hitems⟩ := array_of_readValue hvalue hspace
  cases he
  exact ⟨inside, after, hspace, ⟨_, hitems⟩, hend⟩

theorem positional_of_parse (h : ofPayload payload = .ok e)
    (hp : parse payload = .ok (.array items)) : Positional e items := by
  obtain ⟨rest, hread⟩ := ok_of_checkEnd h
  obtain ⟨inside, after, hspace, hitems, -⟩ := holds_of_parse hp
  exact positional_of_read hspace hitems hread

theorem ofPayload_of_positional (hp : parse payload = .ok (.array items)) (h : Positional e items)
    (hlt : items.length < 5) : ofPayload payload = .ok e := by
  obtain ⟨inside, after, hspace, hitems, hend⟩ := holds_of_parse hp
  rw [ofPayload, read_of_positional hspace hitems h hlt, checkEnd, if_pos hend]

/-- An envelope is read from bytes that start as an object or as an array does. -/
theorem head_of_ofPayload (h : ofPayload payload = .ok e) :
    (skipSpace payload).head? = some 0x7b ∨ (skipSpace payload).head? = some 0x5b := by
  obtain ⟨rest, hread⟩ := ok_of_checkEnd h
  rcases read_cases hread with ⟨inside, -, hspace, -⟩ | ⟨inside, -, -, hspace, -⟩
  · rw [hspace]
    exact .inl rfl
  · rw [hspace]
    exact .inr rfl

theorem object_or_array_of_parse (h : ofPayload payload = .ok e) (hp : parse payload = .ok v) :
    (∃ members, v = .object members) ∨ ∃ items, v = .array items := by
  obtain ⟨after, hvalue, -⟩ := isEmpty_of_checkEnd hp
  obtain ⟨b, inside, hspace, harray, hobject, -⟩ := readValue_cases hvalue
  have hhead := head_of_ofPayload h
  rw [hspace] at hhead
  rcases hhead with hb | hb
  · exact .inl (hobject.1 (Option.some.inj hb))
  · exact .inr (harray.1 (Option.some.inj hb))

end Envelope

/-- An envelope is read from nothing but an object or an array. An array is read as the envelope whose
fields its items are, one after the other, and it may have five of them at most; if it has fewer, there
is nothing else that it must be. A batch of calls is never read as an envelope, since its first item
would be the identifier, and an empty one is an envelope, but no message. -/
theorem envelope_of_object_or_array (payload : List UInt8) :
    (∀ e, ofPayload payload = .ok e →
      (skipSpace payload).head? = some 0x7b ∨ (skipSpace payload).head? = some 0x5b) ∧
    (∀ e v, ofPayload payload = .ok e → parse payload = .ok v →
      (∃ members, v = .object members) ∨ ∃ items, v = .array items ∧ Positional e items) ∧
    ∀ items, parse payload = .ok (.array items) →
      (∀ e, items.length < 5 → (ofPayload payload = .ok e ↔ Positional e items)) ∧
      (∀ v ∈ items.head?, v ≠ .null → Id.ofJson? v = none →
        ∃ fault, Message.ofPayload payload = .error (.unreadable fault)) ∧
      (items = [] → Message.ofPayload payload = .error .neitherMethodNorId) := by
  refine ⟨fun e => head_of_ofPayload, fun e v h hp => ?_, fun items hp => ⟨?_, ?_, ?_⟩⟩
  · rcases object_or_array_of_parse h hp with hobject | ⟨items, rfl⟩
    · exact .inl hobject
    · exact .inr ⟨items, rfl, positional_of_parse h hp⟩
  · exact fun e hlt => ⟨fun h => positional_of_parse h hp, fun h => ofPayload_of_positional hp h hlt⟩
  · intro v hv hnull hid
    cases he : ofPayload payload with
    | error fault => exact ⟨fault, Message.ofPayload_of_fault he⟩
    | ok e =>
      have hencode := (positional_of_parse he hp).id
      rw [← List.head?_eq_getElem?, Option.mem_def.1 hv] at hencode
      obtain rfl : v = Shape.encode e.id := hencode
      cases hid' : e.id with
      | none => exact absurd (congrArg Shape.encode hid') hnull
      | some id =>
        rw [hid'] at hid
        cases id.ofJson?_toJson.symm.trans hid
  · rintro rfl
    have hempty : Positional {} [] := ⟨by decide, rfl, rfl, rfl, rfl, rfl, iff_of_true rfl rfl⟩
    rw [Message.ofPayload_of_envelope (ofPayload_of_positional hp hempty (by decide))]
    rfl

/-- An identifier and a method in an array are a request. A batch with the same request in it cannot
be read. -/
theorem items_read_as_fields :
    let call := (Json.array [.int 1, .string "shutdown"]).bytes
    let batch := (Json.array [.object [("id", .int 1), ("method", .string "shutdown")]]).bytes
    ofPayload call = .ok (.request (.number 1) "shutdown" none) ∧
      ∃ fault, Message.ofPayload batch = .error (.unreadable fault) := by
  intro call batch
  have hcall : parse call = .ok (.array [.int 1, .string "shutdown"]) :=
    parse_bytes (by decide) (by decide)
  have hbatch : parse batch = .ok (.array [.object [("id", .int 1), ("method", .string "shutdown")]]) :=
    parse_bytes (by decide) (by decide)
  have hfields : Positional (.request (.number 1) "shutdown" none) [.int 1, .string "shutdown"] :=
    ⟨by decide, rfl, rfl, rfl, rfl, rfl, iff_of_true rfl rfl⟩
  obtain ⟨-, -, hcalls⟩ := envelope_of_object_or_array call
  obtain ⟨-, -, hbatches⟩ := envelope_of_object_or_array batch
  refine ⟨((hcalls _ hcall).1 _ (by decide)).2 hfields, ?_⟩
  exact (hbatches _ hbatch).2.1 _ rfl Json.noConfusion rfl

/-- An array can be read as an envelope, and it can be a request. -/
theorem call_read_from_array :
    (¬∀ payload e v, ofPayload payload = .ok e → parse payload = .ok v →
      ∃ members, v = .object members) ∧
    ¬∀ payload items, parse payload = .ok (.array items) →
      ∃ fault, Message.ofPayload payload = .error (.unreadable fault) := by
  let items : List Json := [.int 1, .string "shutdown"]
  have hp : parse (Json.array items).bytes = .ok (.array items) :=
    parse_bytes (by decide) (by decide)
  have hread : ofPayload (Json.array items).bytes = .ok (.request (.number 1) "shutdown" none) :=
    ofPayload_of_positional hp ⟨by decide, rfl, rfl, rfl, rfl, rfl, iff_of_true rfl rfl⟩ (by decide)
  constructor
  · intro hclaim
    obtain ⟨members, he⟩ := hclaim _ _ _ hread hp
    cases he
  · intro hclaim
    obtain ⟨fault, hfault⟩ := hclaim _ _ hp
    rw [Message.ofPayload_of_envelope hread] at hfault
    cases hfault

end PeerRpc.Rpc
