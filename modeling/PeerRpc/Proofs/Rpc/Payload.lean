import PeerRpc.Proofs.Json.Written
import PeerRpc.Rpc.Message

/-!
# Reading back an envelope

An envelope *travels* if its values are plain and not too deep, the data of an error are not null,
and the code of an error is that of its number. Such an envelope is read back from its bytes, with
the protocol version that every envelope has by default (`ofPayload_bytes`).
-/

namespace PeerRpc.Rpc

open Json
open Text (utf8OfChars)

/-! ## Fields -/

theorem readField_bytes {α : Type} {read : List UInt8 → Except Fault (α × List UInt8)} {v : Json}
    {a : α} {rest : List UInt8} (h : read (Json.bytes v ++ rest) = .ok (a, rest)) (name : String) :
    readField name none read (0x3a :: Json.bytes v ++ rest) = .ok (a, rest) := by
  rw [readField, if_neg (by simp), List.cons_append, readColon_cons]
  exact h

theorem readOptional_cons {α : Type} {read : List UInt8 → Except Fault (α × List UInt8)} {a : α}
    {b : UInt8} {input rest : List UInt8} (hspace : isSpace b = false) (hn : b ≠ 0x6e)
    (h : read (b :: input) = .ok (a, rest)) :
    readOptional read (b :: input) = .ok (some a, rest) := by
  rw [readOptional, skipSpace_cons hspace]
  dsimp only
  rw [if_neg hn, h]
  rfl

theorem readOptional_bytes {α : Type} {read : List UInt8 → Except Fault (α × List UInt8)} {v : Json}
    {a : α} {rest : List UInt8} (hnull : v ≠ .null)
    (h : read (Json.bytes v ++ rest) = .ok (a, rest)) :
    readOptional read (Json.bytes v ++ rest) = .ok (some a, rest) := by
  obtain ⟨b, more, hb, hspace, -, hn⟩ := bytes_eq_cons v
  rw [hb, List.cons_append] at h ⊢
  exact readOptional_cons hspace (fun h => hnull (hn h)) h

theorem readPlain_bytes {α : Type} [Shape α] {v : Json} {a : α} {rest : List UInt8} (hv : Plain v)
    (hd : depth v ≤ 0) (h : Shape.decode v = .ok a) (hr : Stops rest) :
    readPlain (Json.bytes v ++ rest) = .ok (a, rest) := by
  obtain ⟨b, more, hb, hspace, -, -⟩ := bytes_eq_cons v
  have hread := readValue_bytes v 0 hd hv rest hr
  rw [hb, List.cons_append] at hread ⊢
  rw [readValue, readValueWith, skipSpace_cons hspace] at hread
  rw [readPlain, skipSpace_cons hspace]
  dsimp only at hread ⊢
  by_cases harray : b = 0x5b
  · rw [if_pos harray] at hread
    cases hread
  by_cases hobject : b = 0x7b
  · rw [if_neg harray, if_pos hobject] at hread
    cases hread
  rw [if_neg harray, if_neg hobject] at hread
  rw [if_neg harray, if_neg hobject, hread]
  simp only [bind, Except.bind, h]

/-- A field that may be absent is taken. -/
theorem takes_optional {σ α : Type} [Shape α]
    {member : σ → String → List UInt8 → Except Fault (σ × List UInt8)} {s s' : σ} {name : String}
    (a : Option α) (hnone : a = none → s' = s)
    (hsome : ∀ x, a = some x → ∀ rest, Stops rest →
      member s name (0x3a :: Json.bytes (Shape.encode x) ++ rest) = .ok (s', rest)) :
    Takes member s (Shape.optionalMember name a) s' := by
  cases a with
  | none =>
    rw [hnone rfl]
    exact .nil s
  | some x => exact .cons (hsome x rfl) (.nil s')

theorem mem_optionalMember {α : Type} [Shape α] {a : Option α} {x : α} (h : a = some x)
    (name : String) : (name, Shape.encode x) ∈ Shape.optionalMember name a := by
  subst h
  exact List.mem_singleton_self _

theorem Id.plain_toJson (id : Id) : Plain id.toJson := by
  cases id with
  | number n =>
    have := n.toInt_lt
    have := n.le_toInt
    exact ⟨by simp only [UInt64.size]; omega, by simp only [UInt64.size]; omega⟩
  | text s => trivial

theorem Id.depth_toJson (id : Id) : depth id.toJson = 0 := by
  cases id <;> rfl

theorem Id.ofJson?_toJson (id : Id) : Id.ofJson? id.toJson = some id := by
  cases id with
  | number n =>
    unfold Id.ofJson? Id.toJson
    dsimp only
    rw [if_pos, Int64.ofInt_toInt]
    simp only [Bool.and_eq_true, decide_eq_true_eq]
    exact ⟨n.minValue_le_toInt, n.toInt_le⟩
  | text s => rfl

theorem Id.decode_toJson (id : Id) : Shape.decode id.toJson = .ok id := by
  rw [Id.decode_eq, Id.ofJson?_toJson]
  rfl

/-! ## Errors -/

/-- An error that can be read back. -/
structure Failure.Travels (f : Failure) : Prop where
  /-- The code is that of its number. -/
  code : Code.ofInt32 f.code.toInt32 = f.code
  /-- The data are plain and not null. -/
  data : ∀ v ∈ f.data, Plain v ∧ v ≠ .null

instance (f : Failure) : Decidable f.Travels :=
  decidable_of_iff
    (Code.ofInt32 f.code.toInt32 = f.code ∧ ∀ v ∈ f.data, Plain v ∧ v ≠ .null)
    ⟨fun h => ⟨h.1, h.2⟩, fun h => ⟨h.code, h.data⟩⟩

/-- An error's data stand two levels inside an envelope. -/
theorem Failure.depth_data {f : Failure} {v : Json} (h : f.data = some v) :
    depth v < depth f.toJson := by
  obtain ⟨code, message, data⟩ := f
  subst h
  simp only [toJson, Shape.optionalMember, List.cons_append, List.nil_append, depth, depthMembers]
  have : Shape.encode v = v := rfl
  rw [this]
  omega

theorem decode_code (n : Int32) :
    (Shape.decode (Shape.encode n) : Except Fault Code) = .ok (Code.ofInt32 n) := by
  have hn : Int32.minValue.toInt ≤ n.toInt ∧ n.toInt ≤ Int32.maxValue.toInt :=
    ⟨n.minValue_le_toInt, n.toInt_le⟩
  have hint : Shape.decodeInteger Int32.minValue.toInt Int32.maxValue.toInt "i32" (.int n.toInt) =
      .ok n.toInt := by
    rw [Shape.decodeInteger, if_pos (by simpa using hn)]
  change ((Shape.decodeInteger Int32.minValue.toInt Int32.maxValue.toInt "i32"
    (.int n.toInt)).map Int32.ofInt).map Code.ofInt32 = _
  rw [hint]
  change Except.ok (Code.ofInt32 (Int32.ofInt n.toInt)) = _
  rw [Int32.ofInt_toInt]

theorem plain_int32 (n : Int32) : Plain (Shape.encode n) := by
  have := n.toInt_lt
  have := n.le_toInt
  exact ⟨by simp only [UInt64.size]; omega, by simp only [UInt64.size]; omega⟩

theorem decode_string (s : String) : (Shape.decode (Shape.encode s) : Except Fault String) = .ok s :=
  rfl

theorem Failure.takes {f : Failure} (h : f.Travels) (hd : depth f.toJson + 1 ≤ maxDepth) :
    Takes readMember {}
      ([("code", Shape.encode f.code), ("message", Shape.encode f.message)] ++
        Shape.optionalMember "data" f.data)
      { code := some f.code, message := some f.message, data := f.data.map some } := by
  have hcode : ∀ rest, Stops rest →
      readMember {} "code" (0x3a :: Json.bytes (Shape.encode f.code) ++ rest) =
        .ok ({ code := some f.code }, rest) := by
    intro rest hr
    have hdecode : (Shape.decode (Shape.encode f.code) : Except Fault Code) = .ok f.code :=
      (decode_code f.code.toInt32).trans (congrArg _ h.code)
    have hread := readField_bytes (readPlain_bytes (plain_int32 f.code.toInt32) le_rfl hdecode hr)
      "code"
    rw [readMember, if_pos rfl]
    exact hread ▸ rfl
  have hmessage : ∀ rest, Stops rest →
      readMember { code := some f.code } "message"
          (0x3a :: Json.bytes (Shape.encode f.message) ++ rest) =
        .ok ({ code := some f.code, message := some f.message }, rest) := by
    intro rest hr
    have hread := readField_bytes (readPlain_bytes (v := .string f.message) trivial le_rfl
      (decode_string f.message) hr) "message"
    rw [readMember, if_neg (by decide), if_pos rfl]
    exact hread ▸ rfl
  have hdata : Takes readMember { code := some f.code, message := some f.message }
      (Shape.optionalMember "data" f.data)
      { code := some f.code, message := some f.message, data := f.data.map some } := by
    refine takes_optional f.data (fun hnone => by rw [hnone]; rfl) fun v hdata rest hr => ?_
    obtain ⟨hv, hnull⟩ := h.data v hdata
    have hdepth := depth_data hdata
    have hread := readField_bytes (readOptional_bytes hnull
      (readValue_bytes v (maxDepth - 2) (by omega) hv rest hr)) "data"
    rw [readMember, if_neg (by decide), if_neg (by decide), if_pos rfl, hdata]
    exact hread ▸ rfl
  exact .cons hcode (.cons hmessage hdata)

theorem Failure.read_bytes {f : Failure} (h : f.Travels) (hd : depth f.toJson + 1 ≤ maxDepth)
    (rest : List UInt8) : Failure.read (Json.bytes f.toJson ++ rest) = .ok (f, rest) := by
  obtain ⟨more, hmore, hread⟩ := readMembers_object (Failure.takes h hd) rest
  have hjoin : (f.data.map some).join = f.data := by cases f.data <;> rfl
  rw [toJson, hmore, List.cons_append, Failure.read, skipSpace_cons rfl]
  dsimp only
  rw [if_pos rfl, hread]
  change Except.ok (Failure.mk f.code f.message (f.data.map some).join, rest) = _
  rw [hjoin]

/-! ## Envelopes -/

namespace Envelope

/-- An envelope that can be read back. -/
structure Travels (e : Envelope) : Prop where
  /-- No more is open at once than a reader allows. -/
  depth : depth e.toJson ≤ maxDepth
  params : ∀ v ∈ e.params, Plain v
  result : ∀ v ∈ e.result, Plain v
  /-- The error can be read back. -/
  error : ∀ f ∈ e.error, f.Travels

instance (e : Envelope) : Decidable e.Travels :=
  decidable_of_iff
    (Json.depth e.toJson ≤ maxDepth ∧ (∀ v ∈ e.params, Plain v) ∧ (∀ v ∈ e.result, Plain v) ∧
      ∀ f ∈ e.error, f.Travels)
    ⟨fun h => ⟨h.1, h.2.1, h.2.2.1, h.2.2.2⟩, fun h => ⟨h.depth, h.params, h.result, h.error⟩⟩

theorem depth_le_of_mem {name : String} {v : Json} {members : List (String × Json)}
    (h : (name, v) ∈ members) : Json.depth v ≤ depthMembers members := by
  induction members with
  | nil => simp at h
  | cons p members ih =>
    rw [depthMembers]
    rcases List.mem_cons.1 h with rfl | h
    · exact le_max_left _ _
    · exact (ih h).trans (le_max_right _ _)

theorem skipField_bytes {σ : Type} (s : σ) (v : Json) {rest : List UInt8} (hr : Stops rest) :
    skipField s (0x3a :: Json.bytes v ++ rest) = .ok (s, rest) := by
  rw [skipField, List.cons_append, readColon_cons]
  simp only [bind, Except.bind, skipValue_bytes v hr]

/-- The draft in which all fields of an envelope but the version have been read. -/
def draft (e : Envelope) : Draft :=
  { id := e.id.map some, method := e.method.map some, params := e.params, result := e.result,
    error := e.error.map some }

theorem readAny_bytes {v : Json} (hv : Plain v) (hd : Json.depth v + 1 ≤ maxDepth)
    {rest : List UInt8} (hr : Stops rest) : readAny (Json.bytes v ++ rest) = .ok (v, rest) :=
  readValue_bytes v (maxDepth - 1) (Nat.le_sub_of_add_le hd) hv rest hr

theorem readAny_id_bytes (id : Id) {rest : List UInt8} (hr : Stops rest) :
    readAny (Json.bytes id.toJson ++ rest) = .ok (id.toJson, rest) :=
  readAny_bytes id.plain_toJson (by rw [id.depth_toJson]; decide) hr

theorem readId_bytes (id : Id) {rest : List UInt8} (hr : Stops rest) :
    readId (Json.bytes id.toJson ++ rest) = .ok (some id, rest) := by
  have hnull : id.toJson ≠ .null := by cases id <;> exact Json.noConfusion
  refine readOptional_bytes hnull ?_
  rw [readAny_id_bytes id hr]
  simp only [bind, Except.bind, id.decode_toJson]

theorem readError_bytes {f : Failure} (h : f.Travels) (hd : Json.depth f.toJson + 1 ≤ maxDepth)
    (rest : List UInt8) :
    readOptional Failure.read (Json.bytes f.toJson ++ rest) = .ok (some f, rest) := by
  have hread := f.read_bytes h hd rest
  obtain ⟨more, hmore, -⟩ := readMembers_object (Failure.takes h hd) rest
  rw [Failure.toJson, hmore, List.cons_append] at hread ⊢
  exact readOptional_cons rfl (by decide) hread

section Taking

variable {draft : Draft}

theorem takes_version (draft : Draft) (v : Json) : Takes readMember draft [("jsonrpc", v)] draft := by
  refine .cons (fun rest hr => ?_) (.nil _)
  rw [readMember, if_neg (by decide), if_neg (by decide), if_neg (by decide), if_neg (by decide),
    if_neg (by decide)]
  exact skipField_bytes _ _ hr

theorem takes_id (h : draft.id = none) (id : Option Id) :
    Takes readMember draft (Shape.optionalMember "id" id) { draft with id := id.map some } := by
  refine takes_optional id (fun hnone => by rw [hnone, Option.map_none, ← h]) fun x hx rest hr => ?_
  have hread := readField_bytes (readId_bytes x hr) "id"
  rw [readMember, if_pos rfl, h, hx]
  exact hread ▸ rfl

theorem takes_method (h : draft.method = none) (method : Option String) :
    Takes readMember draft (Shape.optionalMember "method" method)
      { draft with method := method.map some } := by
  refine takes_optional method (fun hnone => by rw [hnone, Option.map_none, ← h])
    fun name hname rest hr => ?_
  have hread := readField_bytes (readOptional_bytes (v := .string name)
    Json.noConfusion (readPlain_bytes trivial le_rfl (decode_string name) hr)) "method"
  rw [readMember, if_neg (by decide), if_pos rfl, h, hname]
  exact hread ▸ rfl

theorem takes_params (h : draft.params = none) {params : Option Json}
    (hparams : ∀ v ∈ params, Plain v ∧ Json.depth v + 1 ≤ maxDepth) :
    Takes readMember draft (Shape.optionalMember "params" params) { draft with params } := by
  refine takes_optional params (fun hnone => by rw [hnone, ← h]) fun v hv rest hr => ?_
  have hread := readField_bytes (readAny_bytes (hparams v hv).1 (hparams v hv).2 hr) "params"
  rw [readMember, if_neg (by decide), if_neg (by decide), if_pos rfl, h, hv]
  exact hread ▸ rfl

theorem takes_result (h : draft.result = none) {result : Option Json}
    (hresult : ∀ v ∈ result, Plain v ∧ Json.depth v + 1 ≤ maxDepth) :
    Takes readMember draft (Shape.optionalMember "result" result) { draft with result } := by
  refine takes_optional result (fun hnone => by rw [hnone, ← h]) fun v hv rest hr => ?_
  have hread := readField_bytes (readAny_bytes (hresult v hv).1 (hresult v hv).2 hr) "result"
  rw [readMember, if_neg (by decide), if_neg (by decide), if_neg (by decide), if_pos rfl, h, hv]
  exact hread ▸ rfl

theorem takes_error (h : draft.error = none) {error : Option Failure}
    (herror : ∀ f ∈ error, f.Travels ∧ Json.depth f.toJson + 1 ≤ maxDepth) :
    Takes readMember draft (Shape.optionalMember "error" error)
      { draft with error := error.map some } := by
  refine takes_optional error (fun hnone => by rw [hnone, Option.map_none, ← h])
    fun f hf rest hr => ?_
  have hread := readField_bytes (v := f.toJson)
    (readError_bytes (herror f hf).1 (herror f hf).2 rest) "error"
  rw [readMember, if_neg (by decide), if_neg (by decide), if_neg (by decide), if_neg (by decide),
    if_pos rfl, h, hf]
  exact hread ▸ rfl

end Taking

/-- The fields of an envelope that travels are taken one after the other. -/
theorem takes {e : Envelope} (h : e.Travels) :
    Takes readMember {}
      (("jsonrpc", .string e.jsonrpc) :: Shape.optionalMember "id" e.id ++
        Shape.optionalMember "method" e.method ++ Shape.optionalMember "params" e.params ++
        Shape.optionalMember "result" e.result ++ Shape.optionalMember "error" e.error)
      e.draft := by
  have hroom : ∀ {name v}, (name, v) ∈ (("jsonrpc", .string e.jsonrpc) ::
      Shape.optionalMember "id" e.id ++ Shape.optionalMember "method" e.method ++
      Shape.optionalMember "params" e.params ++ Shape.optionalMember "result" e.result ++
      Shape.optionalMember "error" e.error) → Json.depth v + 1 ≤ maxDepth :=
    fun hm => (Nat.succ_le_succ (depth_le_of_mem hm)).trans h.depth
  have hparams : ∀ v ∈ e.params, Plain v ∧ Json.depth v + 1 ≤ maxDepth := fun v hv =>
    ⟨h.params v hv, hroom (List.mem_append_left _ (List.mem_append_left _
      (List.mem_append_right _ (mem_optionalMember hv "params"))))⟩
  have hresult : ∀ v ∈ e.result, Plain v ∧ Json.depth v + 1 ≤ maxDepth := fun v hv =>
    ⟨h.result v hv, hroom (List.mem_append_left _
      (List.mem_append_right _ (mem_optionalMember hv "result")))⟩
  have herror : ∀ f ∈ e.error, f.Travels ∧ Json.depth f.toJson + 1 ≤ maxDepth := fun f hf =>
    ⟨h.error f hf, hroom (List.mem_append_right _ (mem_optionalMember hf "error"))⟩
  have hcall := ((takes_version {} (.string e.jsonrpc)).append (takes_id rfl e.id)).append
    (takes_method rfl e.method)
  exact ((hcall.append (takes_params rfl hparams)).append (takes_result rfl hresult)).append
    (takes_error rfl herror)

/-- An envelope that travels is read back from its bytes, with the default version. -/
theorem ofPayload_bytes {e : Envelope} (h : e.Travels) :
    ofPayload e.bytes = .ok { e with jsonrpc := protocolVersion } := by
  obtain ⟨more, hmore, hread⟩ := readMembers_object (takes h) []
  have hdraft : ofDraft e.draft = { e with jsonrpc := protocolVersion } := by
    obtain ⟨jsonrpc, id, method, params, result, error⟩ := e
    cases id <;> cases method <;> cases error <;> rfl
  rw [List.append_nil] at hread
  rw [ofPayload, bytes, toJson, hmore, read, skipSpace_cons rfl]
  dsimp only
  rw [if_pos rfl, hread]
  change checkEnd (Except.ok (ofDraft e.draft, [])) = _
  rw [hdraft]
  rfl

end Envelope

/-! ## Messages -/

namespace Message

variable {payload : List UInt8} {e : Envelope}

/-- What message a payload holds is told by its envelope. -/
theorem ofPayload_of_envelope (h : Envelope.ofPayload payload = .ok e) :
    ofPayload payload = e.classify := by
  rw [ofPayload, Envelope.ofPayload?, h]
  rfl

theorem ofPayload_of_fault {fault : Fault} (h : Envelope.ofPayload payload = .error fault) :
    ofPayload payload = .error (.unreadable fault) := by
  rw [ofPayload, Envelope.ofPayload?, h]
  rfl

theorem exists_envelope {m : Message} (h : ofPayload payload = .ok m) :
    ∃ e, Envelope.ofPayload payload = .ok e ∧ e.classify = .ok m := by
  cases he : Envelope.ofPayload payload with
  | error fault => cases (ofPayload_of_fault he).symm.trans h
  | ok e => exact ⟨e, rfl, (ofPayload_of_envelope he).symm.trans h⟩

/-- The message that an envelope's bytes hold is the envelope's: the version makes no difference. -/
theorem ofPayload_bytes (h : e.Travels) : ofPayload e.bytes = e.classify :=
  (ofPayload_of_envelope (Envelope.ofPayload_bytes h)).trans rfl

end Message

theorem Envelope.request_of_classify {e : Envelope} {id : Id} {method : String}
    {params : Option Json} (h : e.classify = .ok (.request id method params)) :
    e.id = some id ∧ e.method = some method ∧ e.params = params := by
  obtain ⟨_, eid, emethod, _, _, _⟩ := e
  cases emethod <;> cases eid <;> cases h
  exact ⟨rfl, rfl, rfl⟩

theorem Envelope.response_of_classify {e : Envelope} {r : Response}
    (h : e.classify = .ok (.response r)) :
    e.method = none ∧ e.id = some r.id ∧ r = ⟨r.id, e.result, e.error⟩ := by
  obtain ⟨_, eid, emethod, _, _, _⟩ := e
  cases emethod <;> cases eid <;> cases h
  exact ⟨rfl, rfl, rfl⟩

theorem Envelope.classify_of_id {e : Envelope} {id : Id} (hmethod : e.method = none)
    (hid : e.id = some id) : e.classify = .ok (.response ⟨id, e.result, e.error⟩) := by
  rw [classify, hmethod, hid]

end PeerRpc.Rpc
