import PeerRpc.Document
import PeerRpc.Proofs.Json.Sorting

/-!
# Values that come back

A type *returns* if each of its values is read back from what is written for it once names are in
order, and what is written is plain and not too deep. A record returns if its fields do and their
names are different: each field is then found under its own name (`Returns.field?_eq`), wherever
sorting has put it. A sequence returns if its items do, and an option if null is written for nothing
that may be there.
-/

namespace PeerRpc.Shape

open Json

/-- A value that is plain and at most so deep once names are in order. -/
structure Settles (bound : Nat) (v : Json) : Prop where
  plain : Plain v.sorted
  depth_le : depth v.sorted ≤ bound

theorem Settles.mono {bound bound' : Nat} {v : Json} (h : Settles bound v) (hle : bound ≤ bound') :
    Settles bound' v :=
  ⟨h.plain, h.depth_le.trans hle⟩

theorem Settles.object {bound : Nat} {members : List (String × Json)}
    (h : ∀ p ∈ members, Settles bound p.2) : Settles (bound + 1) (.object members) :=
  ⟨plain_sorted_object fun p hp => (h p hp).plain, depth_sorted_object fun p hp => (h p hp).depth_le⟩

theorem Settles.array {bound : Nat} {items : List Json} (h : ∀ v ∈ items, Settles bound v) :
    Settles (bound + 1) (.array items) := by
  have hitems : PlainItems (sortedItems items) ∧ depthItems (sortedItems items) ≤ bound := by
    induction items with
    | nil => exact ⟨trivial, Nat.zero_le _⟩
    | cons v items ih =>
      obtain ⟨hv, hrest⟩ := List.forall_mem_cons.1 h
      obtain ⟨hplain, hdepth⟩ := ih hrest
      rw [sortedItems]
      exact ⟨⟨hv.plain, hplain⟩, max_le hv.depth_le hdepth⟩
  refine ⟨?_, ?_⟩
  · rw [sorted, Plain]
    exact hitems.1
  · rw [sorted, depth]
    exact Nat.succ_le_succ hitems.2

/-- All values of a type are read back from what is written for them once names are in order. -/
structure Returns (α : Type) [Shape α] (bound : Nat) : Prop where
  settles : ∀ a : α, Settles bound (encode a)
  decode_eq : ∀ a : α, decode (encode a).sorted = .ok a

section Fields

variable {α : Type} [Shape α] {bound : Nat} {name other : String} {v : Json}

/-- A field is found under its name, wherever sorting has put it. -/
theorem Returns.field?_eq (h : Returns α bound) {a : α} {members : List (String × Json)}
    (hnames : (members.map (·.1)).Nodup) (hmem : (name, encode a) ∈ members) :
    field? name (sortedMembers members []) = .ok (some a) := by
  rw [field?, member?_sortedMembers hnames hmem]
  change (decode (encode a).sorted).map some = _
  rw [h.decode_eq]
  rfl

theorem Returns.field?_only (h : Returns α bound) (a : α) :
    field? name (sortedMembers [(name, encode a)] []) = .ok (some a) :=
  h.field?_eq (List.nodup_singleton _) List.mem_cons_self

theorem Returns.field?_first (h : Returns α bound) (hne : name ≠ other) (a : α) :
    field? name (sortedMembers [(name, encode a), (other, v)] []) = .ok (some a) :=
  h.field?_eq (by simpa using hne) List.mem_cons_self

theorem Returns.field?_second (h : Returns α bound) (hne : other ≠ name) (a : α) :
    field? name (sortedMembers [(other, v), (name, encode a)] []) = .ok (some a) :=
  h.field?_eq (by simpa using hne) (List.mem_cons_of_mem _ List.mem_cons_self)

theorem field?_of_notMem {members : List (String × Json)}
    (h : name ∉ members.map (·.1)) :
    (field? name (sortedMembers members []) : Except Fault (Option α)) = .ok none := by
  rw [field?, member?_sortedMembers_of_notMem h]
  rfl

/-- A field that may be absent is found if it is there, and absent if it is not. -/
theorem Returns.optionalField?_eq (h : Returns (Option α) bound) {a : Option α}
    {members : List (String × Json)} (hnames : (members.map (·.1)).Nodup)
    (hsome : ∀ x ∈ a, (name, encode x) ∈ members)
    (hnone : a = none → name ∉ members.map (·.1)) :
    optionalField? name (sortedMembers members []) = .ok a := by
  unfold optionalField?
  cases a with
  | none =>
    rw [field?_of_notMem (hnone rfl)]
    rfl
  | some x =>
    rw [h.field?_eq (a := some x) hnames (hsome x rfl)]
    rfl

end Fields

/-! ## Sequences and options -/

section Containers

variable {α : Type} [Shape α] {bound : Nat}

theorem returns_list (h : Returns α bound) : Returns (List α) (bound + 1) where
  settles as := .array <| by
    intro v hv
    obtain ⟨a, -, rfl⟩ := List.mem_map.1 hv
    exact h.settles a
  decode_eq as := by
    change decodeItems decode (sortedItems (as.map encode)) = .ok as
    induction as with
    | nil => rfl
    | cons a as ih =>
      rw [List.map_cons, sortedItems, decodeItems, h.decode_eq a, ih]
      rfl

theorem decode_option_of_ne_null {v : Json} (hv : v ≠ .null) :
    (decode v : Except Fault (Option α)) = (decode v).map some := by
  cases v with
  | null => exact absurd rfl hv
  | _ => rfl

/-- An option returns if null is written for none of the values that may be there. -/
theorem returns_option (h : Returns α bound) (hnull : ∀ a : α, (encode a).sorted ≠ .null) :
    Returns (Option α) bound where
  settles a? := by
    cases a? with
    | none => exact ⟨trivial, Nat.zero_le _⟩
    | some a => exact h.settles a
  decode_eq a? := by
    cases a? with
    | none => rfl
    | some a =>
      change decode (encode a).sorted = _
      rw [decode_option_of_ne_null (hnull a), h.decode_eq a]
      rfl

end Containers

/-! ## Scalars -/

theorem returns_unit : Returns Unit 0 where
  settles _ := ⟨trivial, le_rfl⟩
  decode_eq _ := rfl

theorem returns_string : Returns String 0 where
  settles _ := ⟨trivial, le_rfl⟩
  decode_eq _ := rfl

theorem returns_uint32 : Returns UInt32 0 where
  settles n := by
    have hlt := n.toNat_lt
    refine ⟨⟨?_, ?_⟩, le_rfl⟩ <;>
    · simp only [UInt64.size]
      omega
  decode_eq n := by
    have hlt : n.toNat < UInt32.size := n.toNat_lt
    change (decodeInteger 0 (UInt32.size - 1) "u32" (.int n.toNat)).map _ = _
    rw [decodeInteger, if_pos (by simp only [Bool.and_eq_true, decide_eq_true_eq]; omega)]
    change Except.ok (UInt32.ofNat (n.toNat : Int).toNat) = _
    rw [Int.toNat_natCast, UInt32.ofNat_toNat]

/-! ## Places in a document -/

theorem returns_position : Returns Position 1 where
  settles p := .object <| by
    simp only [List.forall_mem_cons]
    exact ⟨returns_uint32.settles p.line, returns_uint32.settles p.character, nofun⟩
  decode_eq p := by
    let members := [("line", encode p.line), ("character", encode p.character)]
    have hline : field? "line" (sortedMembers members []) = .ok (some p.line) :=
      returns_uint32.field?_first (by decide) p.line
    have hcharacter : field? "character" (sortedMembers members []) = .ok (some p.character) :=
      returns_uint32.field?_second (by decide) p.character
    change (do
      let character ← field? "character" (sortedMembers members [])
      let line ← field? "line" (sortedMembers members [])
      let line ← required "line" line
      let character ← required "character" character
      Except.ok (Position.mk line character)) = _
    rw [hline, hcharacter]
    rfl

theorem returns_range : Returns Range 2 where
  settles r := .object <| by
    simp only [List.forall_mem_cons]
    exact ⟨returns_position.settles r.start, returns_position.settles r.stop, nofun⟩
  decode_eq r := by
    let members := [("start", encode r.start), ("end", encode r.stop)]
    have hstart : field? "start" (sortedMembers members []) = .ok (some r.start) :=
      returns_position.field?_first (by decide) r.start
    have hstop : field? "end" (sortedMembers members []) = .ok (some r.stop) :=
      returns_position.field?_second (by decide) r.stop
    change (do
      let stop ← field? "end" (sortedMembers members [])
      let start ← field? "start" (sortedMembers members [])
      let start ← required "start" start
      let stop ← required "end" stop
      Except.ok (Range.mk start stop)) = _
    rw [hstart, hstop]
    rfl

theorem returns_documentId : Returns DocumentId 1 where
  settles d := .object <| by
    simp only [List.forall_mem_cons]
    exact ⟨returns_string.settles d.uri, nofun⟩
  decode_eq d := by
    change (do
      let uri ← field? "uri" (sortedMembers [("uri", encode d.uri)] [])
      let uri ← required "uri" uri
      Except.ok (DocumentId.mk uri)) = _
    rw [returns_string.field?_only d.uri]
    rfl

end PeerRpc.Shape
