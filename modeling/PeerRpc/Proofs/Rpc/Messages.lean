import PeerRpc.Proofs.Rpc.Payload

/-!
# Reading back a message

An envelope is made for a request, for a notification, or for the response with an outcome. If its
values are plain and leave room for the arrays and objects around them, it is read back from its
bytes, and it is the message for which it was made (`messages_read_back`).
-/

namespace PeerRpc.Rpc

open Json

/-- A value that can be read back with so many arrays and objects open around it. -/
def Fits (around : Nat) (v : Json) : Prop :=
  Plain v ∧ depth v + around ≤ maxDepth

/-- An error that can be read back: its code is that of a number, and its data are not null and
stand inside the error and the envelope. -/
structure Failure.Fits (f : Failure) : Prop where
  code : ∃ n, f.code = Code.ofInt32 n
  data : ∀ v ∈ f.data, v ≠ .null ∧ Rpc.Fits 2 v

/-- An outcome that can be read back. -/
def OutcomeFits : Except Failure Json → Prop
  | .ok result => Fits 1 result
  | .error f => f.Fits

/-! ## Codes -/

/-- The code of a number has this number. -/
theorem Code.toInt32_ofInt32 (n : Int32) : (Code.ofInt32 n).toInt32 = n := by
  unfold ofInt32
  cases h : named.find? fun c => c.toInt32 = n with
  | none => rfl
  | some c => simpa using List.find?_some h

theorem Failure.Fits.travels {f : Failure} (h : f.Fits) : f.Travels := by
  refine ⟨?_, fun v hv => ⟨(h.data v hv).2.1, (h.data v hv).1⟩⟩
  obtain ⟨n, hn⟩ := h.code
  rw [hn, Code.toInt32_ofInt32]

/-! ## Depths -/

theorem depthMembers_append (a b : List (String × Json)) :
    depthMembers (a ++ b) = max (depthMembers a) (depthMembers b) := by
  induction a with
  | nil => exact (Nat.zero_max _).symm
  | cons p a ih =>
    obtain ⟨name, value⟩ := p
    rw [List.cons_append, depthMembers, depthMembers, ih, max_assoc]

theorem depthMembers_optionalMember {α : Type} [Shape α] {a : Option α} {bound : Nat}
    (h : ∀ x ∈ a, depth (Shape.encode x) ≤ bound) (name : String) :
    depthMembers (Shape.optionalMember name a) ≤ bound := by
  cases a with
  | none => exact Nat.zero_le _
  | some x => exact max_le (h x rfl) (Nat.zero_le _)

theorem Failure.Fits.depth_le {f : Failure} (h : f.Fits) : depth f.toJson + 1 ≤ maxDepth := by
  have hdata : depthMembers (Shape.optionalMember "data" f.data) ≤ maxDepth - 2 :=
    depthMembers_optionalMember (fun v hv => Nat.le_sub_of_add_le (h.data v hv).2.2) "data"
  have hothers : depthMembers [("code", Shape.encode f.code), ("message", Shape.encode f.message)] =
      0 := rfl
  rw [toJson, depth, depthMembers_append, hothers]
  change _ ≤ 127 - 2 at hdata
  change _ ≤ 127
  omega

namespace Envelope

/-- An envelope travels if what it holds can be read back. -/
theorem travels {e : Envelope} (hparams : ∀ v ∈ e.params, Fits 1 v)
    (hresult : ∀ v ∈ e.result, Fits 1 v) (herror : ∀ f ∈ e.error, f.Fits) : e.Travels := by
  refine ⟨?_, fun v hv => (hparams v hv).1, fun v hv => (hresult v hv).1,
    fun f hf => (herror f hf).travels⟩
  have hversion : depth (.string e.jsonrpc) ≤ maxDepth - 1 := Nat.zero_le _
  have hid : depthMembers (Shape.optionalMember "id" e.id) ≤ maxDepth - 1 :=
    depthMembers_optionalMember (fun id _ => id.depth_toJson.le.trans (Nat.zero_le _)) "id"
  have hmethod : depthMembers (Shape.optionalMember "method" e.method) ≤ maxDepth - 1 :=
    depthMembers_optionalMember (fun _ _ => Nat.zero_le _) "method"
  have hparams' : depthMembers (Shape.optionalMember "params" e.params) ≤ maxDepth - 1 :=
    depthMembers_optionalMember (fun v hv => Nat.le_sub_of_add_le (hparams v hv).2) "params"
  have hresult' : depthMembers (Shape.optionalMember "result" e.result) ≤ maxDepth - 1 :=
    depthMembers_optionalMember (fun v hv => Nat.le_sub_of_add_le (hresult v hv).2) "result"
  have herror' : depthMembers (Shape.optionalMember "error" e.error) ≤ maxDepth - 1 :=
    depthMembers_optionalMember (fun f hf => Nat.le_sub_of_add_le (herror f hf).depth_le) "error"
  rw [toJson, depth, ← Nat.le_sub_iff_add_le (by decide)]
  simp only [depthMembers_append, List.cons_append, depthMembers, max_le_iff]
  exact ⟨hversion, ⟨⟨⟨hid, hmethod⟩, hparams'⟩, hresult'⟩, herror'⟩

/-- An envelope that is read back from its bytes and is a message. -/
def ReadBackAs (e : Envelope) (m : Message) : Prop :=
  ofPayload e.bytes = .ok e ∧ e.classify = .ok m

end Envelope

theorem response_readBack (id : Id) (outcome : Except Failure Json) (h : OutcomeFits outcome) :
    ∃ r, (Envelope.response id outcome).ReadBackAs (.response r) ∧ r.id = id ∧
      r.outcome = .ok outcome := by
  cases outcome with
  | ok result =>
    have hresult : ∀ v ∈ (Envelope.success id result).result, Fits 1 v := by
      rintro v ⟨⟩
      exact h
    have htravels : (Envelope.success id result).Travels :=
      Envelope.travels (by simp [Envelope.success]) hresult (by simp [Envelope.success])
    exact ⟨⟨id, some result, none⟩, ⟨Envelope.ofPayload_bytes htravels, rfl⟩, rfl, rfl⟩
  | error f =>
    have herror : ∀ g ∈ (Envelope.failure id f).error, g.Fits := by
      rintro g ⟨⟩
      exact h
    have htravels : (Envelope.failure id f).Travels :=
      Envelope.travels (by simp [Envelope.failure]) (by simp [Envelope.failure]) herror
    exact ⟨⟨id, none, some f⟩, ⟨Envelope.ofPayload_bytes htravels, rfl⟩, rfl, rfl⟩

/-- Every envelope that is made for a message is read back from its bytes and is this message, with
the same identifier, method, parameters and outcome, if numbers are integers of 64 bits, names
ascend, and no more than 127 arrays and objects are open at once, those of the envelope and of an
error included. Null parameters and a null result are not absent ones. -/
theorem messages_read_back :
    (∀ id method params, (∀ v ∈ params, Fits 1 v) →
      (Envelope.request id method params).ReadBackAs (.request id method params)) ∧
    (∀ method params, (∀ v ∈ params, Fits 1 v) →
      (Envelope.notification method params).ReadBackAs (.notification method params)) ∧
    (∀ id result, Fits 1 result → ∃ r, (Envelope.success id result).ReadBackAs (.response r) ∧
      r.id = id ∧ r.outcome = .ok (.ok result)) ∧
    (∀ id (f : Failure), f.Fits → ∃ r, (Envelope.failure id f).ReadBackAs (.response r) ∧
      r.id = id ∧ r.outcome = .ok (.error f)) ∧
    ∀ id outcome, OutcomeFits outcome →
      ∃ r, (Envelope.response id outcome).ReadBackAs (.response r) ∧ r.id = id ∧
        r.outcome = .ok outcome := by
  refine ⟨fun id method params h => ⟨Envelope.ofPayload_bytes ?_, rfl⟩,
    fun method params h => ⟨Envelope.ofPayload_bytes ?_, rfl⟩,
    fun id result h => response_readBack id (.ok result) h,
    fun id f h => response_readBack id (.error f) h,
    fun id outcome h => response_readBack id outcome h⟩
  · exact Envelope.travels h (by simp [Envelope.request]) (by simp [Envelope.request])
  · exact Envelope.travels h (by simp [Envelope.notification]) (by simp [Envelope.notification])

/-- An error with data, a null result and null parameters are read back. -/
theorem answers_and_null_read_back :
    (∃ r, (Envelope.failure (.text "a\"b") ⟨.custom 5, "no", some (.array [.null])⟩).ReadBackAs
        (.response r) ∧
      r.id = .text "a\"b" ∧ r.outcome = .ok (.error ⟨.custom 5, "no", some (.array [.null])⟩)) ∧
    (∃ r, (Envelope.success (.number (-1)) .null).ReadBackAs (.response r) ∧
      r.id = .number (-1) ∧ r.outcome = .ok (.ok .null)) ∧
    (Envelope.request (.number 7) "shutdown" (some .null)).ReadBackAs
      (.request (.number 7) "shutdown" (some .null)) := by
  have hnull : Fits 1 .null := ⟨trivial, by decide⟩
  have hdata : Fits 2 (.array [.null]) := ⟨by decide, by decide⟩
  obtain ⟨request, -, success, failure, -⟩ := messages_read_back
  refine ⟨failure _ _ ⟨⟨5, rfl⟩, ?_⟩, success _ _ hnull, request _ _ _ ?_⟩
  · rintro v ⟨⟩
    exact ⟨nofun, hdata⟩
  · rintro v ⟨⟩
    exact hnull

end PeerRpc.Rpc
