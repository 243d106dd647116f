import PeerRpc.Proofs.Rpc.Messages
import PeerRpc.Proofs.Rpc.Registration
import PeerRpc.Proofs.Shape.Returns
import PeerRpc.Rpc.Catalog

/-!
# Calls with values of a method's own type

The parameters of every method of the catalog come back: they are written as the parameters of a
call that can be read back, and reading these gives the value again (`Coder.Carries`). A call with
them therefore reaches the handler that is registered for its method (`typed_calls_return`).
-/

namespace PeerRpc.Rpc

open Json

/-! ## Parameters of the catalog -/

theorem Id.sorted_encode (id : Id) : (Shape.encode id).sorted = id.toJson := by
  cases id <;> rfl

theorem returns_id : Shape.Returns Id 0 where
  settles id := by
    refine ⟨?_, ?_⟩ <;> rw [id.sorted_encode]
    · exact id.plain_toJson
    · exact id.depth_toJson.le
  decode_eq id := by
    rw [id.sorted_encode]
    exact id.decode_toJson

theorem returns_cancelParams : Shape.Returns CancelParams 1 where
  settles p := .object <| by
    simp only [List.forall_mem_cons]
    exact ⟨returns_id.settles p.id, nofun⟩
  decode_eq p := by
    change (do
      let id ← Shape.field? "id" (sortedMembers [("id", Shape.encode p.id)] [])
      let id ← Shape.required "id" id
      Except.ok (CancelParams.mk id)) = _
    rw [returns_id.field?_only p.id]
    rfl

theorem returns_initializedParams : Shape.Returns InitializedParams 1 where
  settles _ := .object nofun
  decode_eq _ := rfl

theorem returns_tokensParams : Shape.Returns TokensParams 2 where
  settles p := .object <| by
    simp only [List.forall_mem_cons]
    exact ⟨Shape.returns_documentId.settles p.document, nofun⟩
  decode_eq p := by
    change (do
      let document ← Shape.field? "textDocument"
        (sortedMembers [("textDocument", Shape.encode p.document)] [])
      let document ← Shape.required "textDocument" document
      Except.ok (TokensParams.mk document)) = _
    rw [Shape.returns_documentId.field?_only p.document]
    rfl

theorem returns_tokensDeltaParams : Shape.Returns TokensDeltaParams 2 where
  settles p := .object <| by
    simp only [List.forall_mem_cons]
    exact ⟨Shape.returns_documentId.settles p.document,
      (Shape.returns_string.settles p.previousResultId).mono (Nat.zero_le _), nofun⟩
  decode_eq p := by
    let members := [("textDocument", Shape.encode p.document),
      ("previousResultId", Shape.encode p.previousResultId)]
    have hdocument : Shape.field? "textDocument" (sortedMembers members []) =
        .ok (some p.document) :=
      Shape.returns_documentId.field?_first (by decide) p.document
    have hprevious : Shape.field? "previousResultId" (sortedMembers members []) =
        .ok (some p.previousResultId) :=
      Shape.returns_string.field?_second (by decide) p.previousResultId
    change (do
      let previousResultId ← Shape.field? "previousResultId" (sortedMembers members [])
      let document ← Shape.field? "textDocument" (sortedMembers members [])
      let document ← Shape.required "textDocument" document
      let previousResultId ← Shape.required "previousResultId" previousResultId
      Except.ok (TokensDeltaParams.mk document previousResultId)) = _
    rw [hprevious, hdocument]
    rfl

theorem returns_tokensRangeParams : Shape.Returns TokensRangeParams 3 where
  settles p := .object <| by
    simp only [List.forall_mem_cons]
    exact ⟨(Shape.returns_documentId.settles p.document).mono (by decide),
      Shape.returns_range.settles p.range, nofun⟩
  decode_eq p := by
    let members := [("textDocument", Shape.encode p.document), ("range", Shape.encode p.range)]
    have hdocument : Shape.field? "textDocument" (sortedMembers members []) =
        .ok (some p.document) :=
      Shape.returns_documentId.field?_first (by decide) p.document
    have hrange : Shape.field? "range" (sortedMembers members []) = .ok (some p.range) :=
      Shape.returns_range.field?_second (by decide) p.range
    change (do
      let range ← Shape.field? "range" (sortedMembers members [])
      let document ← Shape.field? "textDocument" (sortedMembers members [])
      let document ← Shape.required "textDocument" document
      let range ← Shape.required "range" range
      Except.ok (TokensRangeParams.mk document range)) = _
    rw [hrange, hdocument]
    rfl

/-! ## What a coder carries -/

/-- Every value can be written as the parameters of a call, and is read from them again. -/
def Coder.Carries {α : Type} (coder : Coder α) : Prop :=
  ∀ a, ∃ params, coder.encode a = .ok params ∧ (∀ v ∈ params, Fits 1 v) ∧
    coder.decode params = .ok a

theorem Coder.carries_ofShape {α : Type} [Shape α] {bound : Nat} (h : Shape.Returns α bound)
    (hbound : bound + 1 ≤ maxDepth) : (Coder.ofShape α).Carries := by
  intro a
  have hfits : Fits 1 (Shape.encode a).sorted :=
    ⟨(h.settles a).plain, (Nat.add_le_add_right (h.settles a).depth_le 1).trans hbound⟩
  have hwrite : (Coder.ofShape α).write a = .ok (Shape.encode a) := rfl
  by_cases hnull : (Shape.encode a).sorted = .null
  · -- what is written as null is left out, and what is left out is read as null
    have hread : (Coder.ofShape α).decode none = .ok a := by
      have hdecode := h.decode_eq a
      rw [hnull] at hdecode
      exact hdecode
    refine ⟨none, ?_, by simp, hread⟩
    rw [Coder.encode, hwrite]
    dsimp only [bind, Except.bind]
    rw [hnull]
  · refine ⟨some (Shape.encode a).sorted, ?_, ?_, h.decode_eq a⟩
    · rw [Coder.encode, hwrite]
      dsimp only [bind, Except.bind]
      cases hv : (Shape.encode a).sorted <;> first | exact absurd hv hnull | rfl
    · rintro v ⟨⟩
      exact hfits

theorem carries_of_mem_requests {m : RequestMethod} (h : m ∈ Catalog.requests) :
    m.params.Carries := by
  simp only [Catalog.requests, List.mem_cons, List.not_mem_nil, or_false] at h
  rcases h with rfl | rfl | rfl | rfl
  · exact (Coder.carries_ofShape Shape.returns_unit (by decide) :)
  · exact (Coder.carries_ofShape returns_tokensParams (by decide) :)
  · exact (Coder.carries_ofShape returns_tokensDeltaParams (by decide) :)
  · exact (Coder.carries_ofShape returns_tokensRangeParams (by decide) :)

theorem carries_of_mem_notifications {m : NotificationMethod} (h : m ∈ Catalog.notifications) :
    m.params.Carries := by
  simp only [Catalog.notifications, List.mem_cons, List.not_mem_nil, or_false] at h
  rcases h with rfl | rfl | rfl
  · exact (Coder.carries_ofShape returns_initializedParams (by decide) :)
  · exact (Coder.carries_ofShape Shape.returns_unit (by decide) :)
  · exact (Coder.carries_ofShape returns_cancelParams (by decide) :)

/-! ## Through the wire -/

variable {R N : Type}

/-- The parameters of a request reach the handler that is registered for its method. -/
theorem decodeRequest_of_decode {m : RequestMethod} {p : m.Params} {params : Option Json}
    (h : m.params.decode params = .ok p) (make : m.Params → R) (r : Registry R N)
    {after : List (Registration R N)} (hafter : ∀ x ∈ after, x.requestName? ≠ some m.name) :
    ((r.registerRequest m make).registerAll after).decodeRequest m.name params =
      .ok (make p) := by
  rw [Registry.decodeRequest_registerAll hafter, Registry.decodeRequest_registerRequest, h]
  rfl

/-- The parameters of a notification reach the handler that is registered for its method. -/
theorem decodeNotification_of_decode {m : NotificationMethod} {p : m.Params}
    {params : Option Json} (h : m.params.decode params = .ok p) (make : m.Params → N)
    (r : Registry R N) {after : List (Registration R N)}
    (hafter : ∀ x ∈ after, x.notificationName? ≠ some m.name) :
    ((r.registerNotification m make).registerAll after).decodeNotification m.name params =
      .ok (make p) := by
  rw [Registry.decodeNotification_registerAll hafter,
    Registry.decodeNotification_registerNotification, h]
  rfl

/-- The parameters `p` of a request to the method `m` are written as a call that is read back from
its bytes, and a registry that has made values of the method with `make` makes `make p` of it. -/
def RequestMethod.Arrives (m : RequestMethod) (p : m.Params) (id : Id) (make : m.Params → R)
    (registry : Registry R N) : Prop :=
  ∃ params, m.params.encode p = .ok params ∧
    (Envelope.request id m.name params).ReadBackAs (.request id m.name params) ∧
    registry.decodeRequest m.name params = .ok (make p)

/-- The same for a notification. -/
def NotificationMethod.Arrives (m : NotificationMethod) (p : m.Params) (make : m.Params → N)
    (registry : Registry R N) : Prop :=
  ∃ params, m.params.encode p = .ok params ∧
    (Envelope.notification m.name params).ReadBackAs (.notification m.name params) ∧
    registry.decodeNotification m.name params = .ok (make p)

/-- A request or notification of the catalog, with any parameters and any identifier, travels: its
parameters can be written, the envelope around them is read back from its bytes as the same call,
and the registry makes of it what was registered for the method, whatever was registered before it,
and after it short of replacing it. Parameters that are nothing are left out of the call, and are
absent when it is read; an empty object is there. -/
theorem typed_calls_return {R N : Type} :
    (∀ m ∈ Catalog.requests, ∀ (p : m.Params) (id : Id) (make : m.Params → R)
        (before : Registry R N) (after : List (Registration R N)),
      (∀ x ∈ after, x.requestName? ≠ some m.name) →
        m.Arrives p id make ((before.registerRequest m make).registerAll after)) ∧
    (∀ m ∈ Catalog.notifications, ∀ (p : m.Params) (make : m.Params → N)
        (before : Registry R N) (after : List (Registration R N)),
      (∀ x ∈ after, x.notificationName? ≠ some m.name) →
        m.Arrives p make ((before.registerNotification m make).registerAll after)) ∧
    Catalog.shutdown.params.encode () = .ok none ∧
    Catalog.exit.params.encode () = .ok none ∧
    Catalog.initialized.params.encode ⟨⟩ = .ok (some (.object [])) := by
  refine ⟨fun m hm p id make before after hafter => ?_,
    fun m hm p make before after hafter => ?_, rfl, rfl, rfl⟩
  · obtain ⟨params, hencode, hfits, hdecode⟩ := carries_of_mem_requests hm p
    have htravels : (Envelope.request id m.name params).Travels :=
      Envelope.travels hfits (by simp [Envelope.request]) (by simp [Envelope.request])
    exact ⟨params, hencode, ⟨Envelope.ofPayload_bytes htravels, rfl⟩,
      decodeRequest_of_decode hdecode make before hafter⟩
  · obtain ⟨params, hencode, hfits, hdecode⟩ := carries_of_mem_notifications hm p
    have htravels : (Envelope.notification m.name params).Travels :=
      Envelope.travels hfits (by simp [Envelope.notification]) (by simp [Envelope.notification])
    exact ⟨params, hencode, ⟨Envelope.ofPayload_bytes htravels, rfl⟩,
      decodeNotification_of_decode hdecode make before hafter⟩

/-- A request for the tokens of the last line there can be, and the empty object of a notification,
reach their handlers; another method is registered after that of the request. -/
theorem range_and_initialized_return :
    Catalog.tokensRange.Arrives ⟨⟨"file:///a"⟩, ⟨⟨4294967295, 0⟩, ⟨4294967295, 9⟩⟩⟩ (.text "7") some
      (((Registry.empty : Registry (Option TokensRangeParams) Unit).registerRequest
        Catalog.tokensRange some).registerAll [.request Catalog.shutdown fun _ => none]) ∧
    Catalog.initialized.Arrives ⟨⟩ (fun _ => ())
      ((Registry.empty : Registry Unit Unit).registerNotification Catalog.initialized
        fun _ => ()) := by
  have hafter : ∀ x ∈ [Registration.request (N := Unit) Catalog.shutdown
      fun _ => (none : Option TokensRangeParams)], x.requestName? ≠ some Catalog.tokensRange.name := by
    decide
  exact ⟨typed_calls_return.1 Catalog.tokensRange (by simp [Catalog.requests]) _ _ some _ _ hafter,
    typed_calls_return.2.1 Catalog.initialized (by simp [Catalog.notifications]) ⟨⟩ _ _ [] nofun⟩

end PeerRpc.Rpc
