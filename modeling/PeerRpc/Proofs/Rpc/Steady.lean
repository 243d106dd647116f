import PeerRpc.Proofs.Json.Spacing
import PeerRpc.Proofs.Rpc.Fields

/-!
# Fields are read from terms

Every reader of a field is steady: an optional value, a number or a text, an identifier
(`Envelope.steady_readId`) and an error, which is read from an object or from an array
(`Failure.steady_read`). No blank inside a field and nothing around it has an influence on what is
made of it, nor on the fault that is reported.
-/

namespace PeerRpc.Rpc

open Json

variable {α β : Type} {read : List UInt8 → Except Fault (α × List UInt8)} {w w' b r rest : List UInt8}
  {t : Term}

/-! ## Readers of fields -/

theorem gives_bind {x : Except Fault α} (h : Gives read b x) (g : α → Except Fault β) :
    Gives (fun input => do
      let (a, rest) ← read input
      let c ← g a
      .ok (c, rest)) b (x >>= g) := by
  intro rest hr
  simp only [h hr]
  cases x with
  | error fault => rfl
  | ok a => cases hg : g a <;> simp [bind, Except.bind, Except.map, hg]

theorem steady_readOptional (hread : Steady read) : Steady (readOptional read) := by
  obtain ⟨f, hf⟩ := hread
  refine steady_of_forall fun t => ?_
  by_cases ht : t = .scalar .null
  · subst ht
    refine ⟨.ok none, fun {w b} hw hb rest hr => ?_⟩
    rw [List.append_assoc, readOptional, hb.skipSpace_eq hw]
    cases hb
    rfl
  · refine ⟨(f t).map some, fun {w b} hw hb rest hr => ?_⟩
    have hvalue := hf.gives hb hr
    have hnull := fun h => ht (hb.eq_null h)
    rw [List.append_assoc, readOptional, hb.skipSpace_eq hw]
    obtain ⟨c, m, rfl, -⟩ := hb.eq_cons
    rw [List.cons_append] at hvalue ⊢
    dsimp only
    rw [if_neg fun he => hnull (congrArg some he), hvalue]
    cases f t <;> rfl

theorem steady_readPlain [Shape α] (hα : OnlyScalars α) :
    Steady (readPlain : List UInt8 → Except Fault (α × List UInt8)) := by
  obtain ⟨⟨fault, harray⟩, fault', hobject⟩ := hα
  refine steady_of_forall fun t => ?_
  cases t with
  | scalar s =>
    obtain ⟨x, hx⟩ := exists_gives_readScalar s
    obtain ⟨c, m, hcm, -, hopen, -, hopen', -⟩ := s.bytes_eq_cons
    refine ⟨x >>= Shape.decode, fun {w b} hw hb rest hr => ?_⟩
    rw [List.append_assoc, readPlain, hb.skipSpace_eq hw]
    cases hb
    rw [hcm, List.cons_append]
    dsimp only
    rw [if_neg hopen, if_neg hopen']
    exact gives_bind (hx hcm) Shape.decode hr
  | array items =>
    refine ⟨.error fault, fun {w b} hw hb rest hr => ?_⟩
    rw [List.append_assoc, readPlain, hb.skipSpace_eq hw]
    cases hb
    change (Shape.decode (.array []) >>= _) = _
    rw [harray]
    rfl
  | object members =>
    refine ⟨.error fault', fun {w b} hw hb rest hr => ?_⟩
    rw [List.append_assoc, readPlain, hb.skipSpace_eq hw]
    cases hb
    change (Shape.decode (.object []) >>= _) = _
    rw [hobject]
    rfl

theorem Envelope.steady_readAny : Steady readAny :=
  steady_readValue _

theorem Envelope.steady_readId : Steady readId := by
  obtain ⟨f, hf⟩ := steady_readAny
  exact steady_readOptional ⟨fun t => f t >>= Shape.decode, fun hw hb => gives_bind (hf hw hb) _⟩

/-! ## Members -/

/-- What is made of a field's value, if the field has not been named before. -/
def once (name : String) (seen : Option α) (x : Except Fault α) : Except Fault α :=
  if seen.isSome then .error (.repeatedField name) else x

theorem gives_readField {f : Term → Except Fault α} (hf : Reads read f) (name : String)
    (seen : Option α) (hw : Blank w) (hw' : Blank w') (hb : Spells t b) :
    Gives (readField name seen read) (w ++ 0x3a :: (w' ++ b)) (once name seen (f t)) := by
  intro rest hr
  have hvalue := hf hw' hb hr
  simp only [List.append_assoc, List.cons_append] at hvalue ⊢
  rw [readField, once]
  split_ifs
  · rfl
  · rw [readColon_blank hw]
    exact hvalue

theorem gives_skipField {σ : Type} (s : σ) (hw : Blank w) (hw' : Blank w') (hb : Spells t b) :
    Gives (skipField s) (w ++ 0x3a :: (w' ++ b)) (.ok s) := by
  intro rest hr
  simp only [List.append_assoc, List.cons_append]
  rw [skipField, readColon_blank hw]
  simp only [bind, Except.bind, skipValue_spells hw' hb hr]
  rfl

/-! ## Items -/

/-- What is made of the first of some items, if there is one. -/
def itemOf (f : Term → Except Fault α) : List Term → Except Fault (Option α)
  | [] => .ok none
  | t :: _ => (f t).map some

theorem exists_readItem? {f : Term → Except Fault α} (hf : Reads read f) {first : Bool}
    {items : List Term} (h : SpellsItems first items r) :
    ∃ r', SpellsItems false items.tail r' ∧ ∀ rest : List UInt8,
      readItem? read first (r ++ rest) = (itemOf f items).map fun a => (a, r' ++ rest) := by
  cases h with
  | nil hw =>
    refine ⟨[0x5d], .nil blank_nil, fun rest => ?_⟩
    rw [List.append_assoc, List.singleton_append, readItem?, readNextItem_close first hw]
    rfl
  | @cons _ s w b r t items hs hw hb h =>
    refine ⟨r, h, fun rest => ?_⟩
    have hnext := readNextItem_spells hs hw hb
    simp only [List.append_assoc]
    rw [readItem?, hnext, itemOf]
    simp only [bind, Except.bind, if_true, hf.gives hb (h.parted rest)]
    cases f t <;> rfl

theorem readClose_spells {items : List Term} (h : SpellsItems false items r) (rest : List UInt8) :
    readClose (r ++ rest) = if items.isEmpty then .ok ((), rest) else .error .malformed := by
  cases h with
  | nil hw =>
    rw [List.append_assoc, List.singleton_append, readClose, skipSpace_of_blank hw rfl]
    rfl
  | cons hs =>
    cases hs with
    | comma hw =>
      simp only [List.append_assoc, List.cons_append, List.nil_append]
      rw [readClose, skipSpace_of_blank hw rfl]
      rfl

/-! ## Errors -/

namespace Failure

theorem steady_readData : Steady readData :=
  steady_readOptional (steady_readValue _)

/-- Takes a member of an error into what has been read of it, given what the readers of the fields
make of terms. -/
def take (code : Term → Except Fault Code) (message : Term → Except Fault String)
    (data : Term → Except Fault (Option Json)) (draft : Draft) (name : String) (t : Term) :
    Except Fault Draft :=
  if name = "code" then
    (once name draft.code (code t)).map fun code => { draft with code := some code }
  else if name = "message" then
    (once name draft.message (message t)).map fun message => { draft with message := some message }
  else if name = "data" then
    (once name draft.data (data t)).map fun data => { draft with data := some data }
  else .ok draft

variable {code : Term → Except Fault Code} {message : Term → Except Fault String}
  {data : Term → Except Fault (Option Json)}

theorem readsMember (hcode : Reads readPlain code) (hmessage : Reads readPlain message)
    (hdata : Reads readData data) : ReadsMember readMember (take code message data) := by
  intro draft name t w w' b hw hw' hb rest hr
  rw [readMember, take]
  split_ifs
  · rw [gives_readField hcode name draft.code hw hw' hb hr]
    cases once name draft.code (code t) <;> rfl
  · rw [gives_readField hmessage name draft.message hw hw' hb hr]
    cases once name draft.message (message t) <;> rfl
  · rw [gives_readField hdata name draft.data hw hw' hb hr]
    cases once name draft.data (data t) <;> rfl
  · exact gives_skipField draft hw hw' hb hr

variable (code message data)

/-- The error that the items of an array make. -/
def ofItems (items : List Term) : Except Fault Failure := do
  let code ← requiredItem record 3 0 (← itemOf code items)
  let message ← requiredItem record 3 1 (← itemOf message items.tail)
  let data ← itemOf data items.tail.tail
  if items.tail.tail.tail.isEmpty then .ok ⟨code, message, data.join⟩ else .error .malformed

variable {code message data}

/-- An error is read from the items of an array. -/
theorem read_items (hcode : Reads readPlain code) (hmessage : Reads readPlain message)
    (hdata : Reads readData data) {items : List Term} (h : SpellsItems true items r)
    (hw : Blank w) (rest : List UInt8) :
    Failure.read (w ++ 0x5b :: (r ++ rest)) =
      (ofItems code message data items).map fun f => (f, rest) := by
  obtain ⟨r₁, h₁, hcode⟩ := exists_readItem? hcode h
  obtain ⟨r₂, h₂, hmessage⟩ := exists_readItem? hmessage h₁
  obtain ⟨r₃, h₃, hdata⟩ := exists_readItem? hdata h₂
  rw [Failure.read, skipSpace_of_blank hw rfl]
  dsimp only
  rw [if_neg (by decide), if_pos rfl, hcode, ofItems]
  cases itemOf code items with
  | error fault => rfl
  | ok code? =>
    simp only [Except.map, bind, Except.bind]
    cases requiredItem (α := Code) record 3 0 code? with
    | error fault => rfl
    | ok code =>
      dsimp only
      rw [hmessage]
      cases itemOf message items.tail with
      | error fault => rfl
      | ok message? =>
        simp only [Except.map]
        cases requiredItem (α := String) record 3 1 message? with
        | error fault => rfl
        | ok message =>
          dsimp only
          rw [hdata]
          cases itemOf data items.tail.tail with
          | error fault => rfl
          | ok data? =>
            simp only [Except.map, readClose_spells h₃]
            split_ifs <;> rfl

theorem steady_read : Steady Failure.read := by
  obtain ⟨code, hcode⟩ := steady_readPlain onlyScalars_code
  obtain ⟨message, hmessage⟩ := steady_readPlain onlyScalars_string
  obtain ⟨data, hdata⟩ := steady_readData
  refine steady_of_forall fun t => ?_
  cases t with
  | scalar s =>
    obtain ⟨x, hx⟩ := exists_gives_readScalar s
    obtain ⟨c, m, hcm, -, harray, -, hobject, -⟩ := s.bytes_eq_cons
    refine ⟨x >>= fun v => .error (.wrongType v ("struct " ++ record)), fun {w b} hw hb rest hr => ?_⟩
    rw [List.append_assoc, Failure.read, hb.skipSpace_eq hw]
    cases hb
    rw [hcm, List.cons_append]
    dsimp only
    rw [if_neg hobject, if_neg harray, hx hcm hr]
    cases x <;> rfl
  | array items =>
    refine ⟨ofItems code message data items, fun {w b} hw hb rest _ => ?_⟩
    rw [List.append_assoc]
    cases hb with
    | array h => exact read_items hcode hmessage hdata h hw rest
  | object members =>
    refine ⟨collect (take code message data) {} members >>= ofDraft, fun {w b} hw hb rest hr => ?_⟩
    rw [List.append_assoc, Failure.read, hb.skipSpace_eq hw]
    cases hb with
    | @object _ r h =>
      have hlength := h.length_lt
      change (readMembers readMember (0 :: (r ++ rest)) true {} (r ++ rest) >>= _) = _
      rw [readMembers_spells (readsMember hcode hmessage hdata) h (by simp; omega)]
      cases collect (take code message data) {} members with
      | error fault => rfl
      | ok draft => simp only [Except.map, bind, Except.bind]

end Failure

end PeerRpc.Rpc
