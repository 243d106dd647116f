import PeerRpc.Proofs.Rpc.Kept
import PeerRpc.Proofs.Rpc.Messages
import PeerRpc.Proofs.Session.Responses

/-!
# The data of an error on the way to the caller

An error that answers a request may carry data of any form. The data are written as they are, and
they are the last thing in the bytes of the response, so the response is read back just as they are
read where they stand (`ofPayload_failure`). Null is the exception: it is written, but read as if
there were no data (`null_data_lost`).

* `error_reaches_caller`: which errors reach the caller as they were made.
-/

namespace PeerRpc.Json

open Text (utf8OfChars)

/-! ## The last member of an object -/

variable {σ : Type} {member : σ → String → List UInt8 → Except Fault (σ × List UInt8)} {s s' : σ}
  {rest : List UInt8}

theorem readMembers_takes {members : List (String × Json)} (h : Takes member s members s')
    {steps : List UInt8} (hs : members.length ≤ steps.length) (others : List (String × Json))
    (rest : List UInt8) :
    readMembers member steps false s (utf8OfChars (membersChars (members ++ others)) ++ rest) =
      readMembers member (steps.drop members.length) false s'
        (utf8OfChars (membersChars others) ++ rest) := by
  induction h generalizing steps with
  | nil => rfl
  | @cons s s' s'' name value members hm _ ih =>
    cases steps with
    | nil => simp at hs
    | cons step steps =>
      rw [List.cons_append, utf8OfChars_membersChars_cons, List.append_assoc, List.append_assoc,
        readMembers_more (stops_membersChars _ rest) (readNextName_comma name _) hm,
        ih (by simpa using hs), List.length_cons, List.drop_succ_cons]

/-- The last member of an object decides what becomes of the object. -/
theorem readMembers_last (hmember : Regular member) {steps : List UInt8} (hs : 1 < steps.length)
    (name : String) (value : Json) (rest : List UInt8) :
    readMembers member steps false s (utf8OfChars (membersChars [(name, value)]) ++ rest) =
      (member s name (0x3a :: bytes value ++ 0x7d :: rest)).map fun p => (p.1, rest) := by
  match steps, hs with
  | step :: step' :: steps, _ =>
    have hr : Stops (0x7d :: rest) := stops_cons (.inr (.inr rfl)) rest
    have hinput : utf8OfChars (membersChars [(name, value)]) ++ rest =
        0x2c :: utf8OfChars (textChars name) ++ (0x3a :: bytes value ++ 0x7d :: rest) := by
      rw [utf8OfChars_membersChars_cons, List.append_assoc, List.append_assoc]
      rfl
    rw [hinput, readMembers, readNextName_comma]
    simp only [bind, Except.bind, if_true, readText_flatMap_escaped]
    cases hm : member s name (0x3a :: bytes value ++ 0x7d :: rest) with
    | error fault => rfl
    | ok p =>
      obtain ⟨s'', after⟩ := p
      obtain ⟨value', hcolon, hskip⟩ := hmember hm
      cases (readColon_cons _).symm.trans hcolon
      cases (skipValue_bytes value hr).symm.trans hskip
      rfl

/-- If all members but the last one are taken, the last one decides. -/
theorem readMembers_object_last (hmember : Regular member) {p : String × Json}
    {members : List (String × Json)} (h : Takes member s (p :: members) s') (name : String)
    (value : Json) (rest : List UInt8) :
    ∃ more, bytes (.object (p :: members ++ [(name, value)])) = 0x7b :: more ∧
      readMembers member (0 :: (more ++ rest)) true s (more ++ rest) =
        (member s' name (0x3a :: bytes value ++ 0x7d :: rest)).map fun p => (p.1, rest) := by
  obtain _ | ⟨hfirst, hothers⟩ := h
  rename_i s₁ name₁ value₁
  refine ⟨utf8OfChars (textChars name₁) ++ 0x3a :: bytes value₁ ++
    utf8OfChars (membersChars (members ++ [(name, value)])), bytes_object_cons _ _ _, ?_⟩
  have hlength := length_membersChars (members ++ [(name, value)])
  rw [List.length_append, List.length_singleton] at hlength
  rw [List.append_assoc, List.append_assoc,
    readMembers_more (stops_membersChars _ rest) (readNextName_first name₁ _) hfirst,
    readMembers_takes hothers, readMembers_last hmember]
  all_goals
    simp only [List.length_append, List.length_cons, List.length_drop]
    omega

end PeerRpc.Json

namespace PeerRpc.Rpc

open Json

/-! ## Data -/

/-- A value is read back inside an error inside an envelope, whose two braces close behind it. -/
def ReadsBack (v : Json) : Prop :=
  readValue (maxDepth - 2) (Json.bytes v ++ [0x7d, 0x7d]) = .ok (v, [0x7d, 0x7d])

theorem stops_brace (rest : List UInt8) : Stops (0x7d :: rest) :=
  stops_cons (.inr (.inr rfl)) rest

/-- Plain values that leave room for the error and the envelope are read back. -/
theorem readsBack_of_plain {v : Json} (hv : Plain v) (hd : depth v + 2 ≤ maxDepth) :
    ReadsBack v :=
  readValue_bytes v (maxDepth - 2) (Nat.le_sub_of_add_le hd) hv _ (stops_brace _)

theorem readData_null (rest : List UInt8) :
    Failure.readData (Json.bytes .null ++ rest) = .ok (none, rest) := by
  rfl

/-- Data other than null are read as a value is. -/
theorem readData_bytes {v : Json} (hv : v ≠ .null) (rest : List UInt8) :
    Failure.readData (Json.bytes v ++ rest) =
      (readValue (maxDepth - 2) (Json.bytes v ++ rest)).map fun p => (some p.1, p.2) := by
  obtain ⟨b, more, hb, hspace, -, hn⟩ := bytes_eq_cons v
  rw [hb, List.cons_append, Failure.readData, readOptional, skipSpace_cons hspace]
  dsimp only
  rw [if_neg fun h => hv (hn h)]
  cases readValue (maxDepth - 2) (b :: (more ++ rest)) <;> rfl

/-! ## Errors and envelopes -/

namespace Failure

variable {f : Failure} {v : Json}

/-- An error whose code is that of a number is read back with what its data are read as. -/
theorem read_bytes_of_data (hcode : Code.ofInt32 f.code.toInt32 = f.code) (hv : f.data = some v)
    (rest : List UInt8) :
    Failure.read (Json.bytes f.toJson ++ rest) =
      (readData (Json.bytes v ++ 0x7d :: rest)).map fun p => ({ f with data := p.1 }, rest) := by
  obtain ⟨code, message, data⟩ := f
  subst hv
  have htakes : Takes readMember {}
      [("code", Shape.encode code), ("message", Shape.encode message)]
      { code := some code, message := some message } :=
    Failure.takes (f := ⟨code, message, none⟩) ⟨hcode, nofun⟩ (by change 1 + 1 ≤ 127; decide)
  obtain ⟨more, hmore, hread⟩ := readMembers_object_last regular_readMember htakes "data" v rest
  have hspace : skipSpace (0x7b :: (more ++ rest)) = 0x7b :: (more ++ rest) := skipSpace_cons rfl _
  have hbytes : Json.bytes (toJson ⟨code, message, some v⟩) = 0x7b :: more := hmore
  rw [hbytes, List.cons_append, Failure.read, hspace]
  dsimp only
  rw [if_pos rfl, hread, readMember, if_neg (by decide), if_neg (by decide), if_pos rfl, readField,
    if_neg (by simp), List.cons_append, readColon_cons]
  simp only [bind, Except.bind]
  cases readData (Json.bytes v ++ 0x7d :: rest) <;> rfl

end Failure

namespace Envelope

variable {f : Failure} {v : Json}

/-- The response with an error is read back with what the error is read as. -/
theorem ofPayload_failure_bytes (id : Id) (f : Failure) :
    ofPayload (failure id f).bytes =
      (readOptional Failure.read (Json.bytes f.toJson ++ [0x7d])).map fun p =>
        { id := some id, error := p.1 } := by
  have htakes : Takes readMember {}
      [("jsonrpc", .string protocolVersion), ("id", Shape.encode id)] { id := some (some id) } := by
    have htravels : ({ id := some id } : Envelope).Travels :=
      Envelope.travels (by simp) (by simp) (by simp)
    exact takes htravels
  obtain ⟨more, hmore, hread⟩ :=
    readMembers_object_last regular_readMember htakes "error" f.toJson []
  have hspace : skipSpace (0x7b :: more) = 0x7b :: more := skipSpace_cons rfl _
  have hbytes : (failure id f).bytes = 0x7b :: more := hmore
  rw [List.append_nil] at hread
  rw [ofPayload, hbytes, read, hspace]
  dsimp only
  rw [if_pos rfl, hread, readMember, if_neg (by decide), if_neg (by decide), if_neg (by decide),
    if_neg (by decide), if_pos rfl, readField, if_neg (by simp), List.cons_append, readColon_cons]
  simp only [bind, Except.bind]
  cases readOptional Failure.read (Json.bytes f.toJson ++ [0x7d]) <;> rfl

/-- The response with an error is read back with what the data of the error are read as. -/
theorem ofPayload_failure (id : Id) (hcode : Code.ofInt32 f.code.toInt32 = f.code)
    (hv : f.data = some v) :
    ofPayload (failure id f).bytes =
      (Failure.readData (Json.bytes v ++ [0x7d, 0x7d])).map fun p =>
        failure id { f with data := p.1 } := by
  have hread := Failure.read_bytes_of_data hcode hv [0x7d]
  have hbrace : ∃ more, Json.bytes f.toJson = 0x7b :: more := ⟨_, bytes_object_cons _ _ _⟩
  obtain ⟨more, hmore⟩ := hbrace
  rw [hmore, List.cons_append] at hread
  rw [ofPayload_failure_bytes, hmore, List.cons_append, readOptional, skipSpace_cons rfl]
  dsimp only
  rw [if_neg (by decide), hread]
  cases Failure.readData (Json.bytes v ++ [0x7d, 0x7d]) <;> rfl

end Envelope

variable {f : Failure}

/-- Where data stand, they are read up to their end or not at all. -/
theorem readsBack_iff (v : Json) :
    ReadsBack v ↔ ∃ rest, readValue (maxDepth - 2) (Json.bytes v ++ [0x7d, 0x7d]) = .ok (v, rest) := by
  refine ⟨fun h => ⟨_, h⟩, fun ⟨rest, h⟩ => ?_⟩
  have hskip := passes_readValue _ h
  rw [skipValue_bytes v (stops_brace _)] at hskip
  cases hskip
  exact h

theorem failure_inj {id : Id} {g : Failure} :
    (Except.ok (Envelope.failure id f) : Except Fault Envelope) = .ok (Envelope.failure id g) ↔
      f = g := by
  simp [Envelope.failure]

/-- An error comes back as it was made if it has no data, or data that are not null and can be read
back. -/
theorem ofPayload_failure_iff (id : Id) (hcode : Code.ofInt32 f.code.toInt32 = f.code) :
    Envelope.ofPayload (Envelope.failure id f).bytes = .ok (Envelope.failure id f) ↔
      ∀ v ∈ f.data, v ≠ .null ∧ ReadsBack v := by
  obtain ⟨code, message, data⟩ := f
  cases data with
  | none =>
    have hfits : Failure.Fits ⟨code, message, none⟩ := ⟨⟨_, hcode.symm⟩, nofun⟩
    have htravels : (Envelope.failure id ⟨code, message, none⟩).Travels :=
      Envelope.travels nofun nofun (by rintro g ⟨⟩; exact hfits)
    exact iff_of_true (Envelope.ofPayload_bytes htravels) nofun
  | some v =>
    have hmem : (∀ w ∈ some v, w ≠ .null ∧ ReadsBack w) ↔ v ≠ .null ∧ ReadsBack v := by simp
    rw [hmem, Envelope.ofPayload_failure id hcode rfl]
    by_cases hnull : v = .null
    · subst hnull
      rw [readData_null]
      exact iff_of_false (fun h => nomatch failure_inj.1 h) fun h => h.1 rfl
    · rw [and_iff_right hnull, readData_bytes hnull, readsBack_iff]
      cases readValue (maxDepth - 2) (Json.bytes v ++ [0x7d, 0x7d]) with
      | error fault => exact iff_of_false nofun (by simp)
      | ok p =>
        obtain ⟨w, rest⟩ := p
        refine failure_inj.trans ?_
        simp

end PeerRpc.Rpc

namespace PeerRpc.Session

open Rpc (Code Envelope Failure Id ReadsBack Registry)

variable {R N : Type}

/-- The caller is told of the error that the response is read as. -/
theorem State.calls_of_failure (s : State R N) {id : Id} {f f' : Failure} {call : Nat}
    (hread : Envelope.ofPayload (Envelope.failure id f).bytes = .ok (Envelope.failure id f'))
    (hcall : s.pendingCall? id = some call) :
    (s.handlePayload (Envelope.failure id f).bytes).calls[call]? = s.calls[call]?.map fun k =>
      { k with outcomes := k.outcomes ++ [.error (.rpc f')] } := by
  have hresponse : response? (Envelope.failure id f).bytes = some ⟨id, none, some f'⟩ := by
    rw [response?, Rpc.Message.ofPayload_of_envelope hread]
    rfl
  have hcore := State.core_handlePayload_of_response (s := s) hresponse
  refine (congrArg (fun c : Core => c.calls[call]?) hcore).trans ?_
  exact (Core.getElem?_answer _ _ _).trans (if_pos hcall)

/-- An error with the code of a number is written as the response to a request. It is read back as it
was made exactly if it has no data, or data that are not null and are read back where they stand;
plain data that leave room for the error and the envelope are. Null data are lost. What is read back
is what the caller is told. -/
theorem error_reaches_caller (s : State R N) (id : Id) (f : Failure)
    (hcode : ∃ n, f.code = Code.ofInt32 n) :
    (Envelope.ofPayload (Envelope.failure id f).bytes = .ok (Envelope.failure id f) ↔
        ∀ v ∈ f.data, v ≠ .null ∧ ReadsBack v) ∧
      ((∀ v ∈ f.data, v ≠ .null ∧ Rpc.Fits 2 v) →
        Envelope.ofPayload (Envelope.failure id f).bytes = .ok (Envelope.failure id f)) ∧
      (f.data = some .null → Envelope.ofPayload (Envelope.failure id f).bytes =
        .ok (Envelope.failure id { f with data := none })) ∧
      ∀ f' call, Envelope.ofPayload (Envelope.failure id f).bytes = .ok (Envelope.failure id f') →
        s.pendingCall? id = some call →
        (s.handlePayload (Envelope.failure id f).bytes).calls[call]? = s.calls[call]?.map fun k =>
          { k with outcomes := k.outcomes ++ [.error (.rpc f')] } := by
  have hcode' : Code.ofInt32 f.code.toInt32 = f.code := by
    obtain ⟨n, hn⟩ := hcode
    rw [hn, Code.toInt32_ofInt32]
  have hiff := Rpc.ofPayload_failure_iff id hcode'
  refine ⟨hiff, fun hdata => hiff.2 fun v hv => ?_, fun hnull => ?_,
    fun f' call hread hcall => s.calls_of_failure hread hcall⟩
  · obtain ⟨hne, hplain, hdepth⟩ := hdata v hv
    exact ⟨hne, Rpc.readsBack_of_plain hplain hdepth⟩
  · rw [Envelope.ofPayload_failure id hcode' hnull, Rpc.readData_null]
    rfl

/-- The caller is told of an error with data as it was made. -/
theorem error_with_list_reaches_caller :
    let s := (State.start (Registry.empty : Registry Unit Unit) {}).run
      [.send Rpc.Catalog.shutdown () false, .handle]
    let f : Failure := ⟨.requestFailed, "no", some (.array [.null, .string "a"])⟩
    s.pendingCall? (.number 1) = some 0 ∧
      (s.handlePayload (Envelope.failure (.number 1) f).bytes).calls[0]? =
        s.calls[0]?.map fun k => { k with outcomes := k.outcomes ++ [.error (.rpc f)] } := by
  intro s f
  have hopen : s.pendingCall? (.number 1) = some 0 := by decide +kernel
  have hcode : ∃ n, f.code = Code.ofInt32 n := ⟨-32803, by decide⟩
  obtain ⟨-, hplain, -, htold⟩ := error_reaches_caller s (.number 1) f hcode
  have hdata : ∀ v ∈ f.data, v ≠ .null ∧ Rpc.Fits 2 v := by
    rintro v ⟨⟩
    exact ⟨nofun, by decide, by decide⟩
  exact ⟨hopen, htold f 0 (hplain hdata) hopen⟩

/-- An error with null data comes back as one without data. -/
theorem null_data_lost :
    ¬∀ (id : Id) (f : Failure), (∃ n, f.code = Code.ofInt32 n) →
      Envelope.ofPayload (Envelope.failure id f).bytes = .ok (Envelope.failure id f) := by
  intro h
  have hread := h (.number 1) ⟨.requestFailed, "no", some .null⟩ ⟨-32803, by decide⟩
  exact ((Rpc.ofPayload_failure_iff _ (by decide)).1 hread .null rfl).1 rfl

end PeerRpc.Session
