import PeerRpc.Proofs.Tokens.Rewriting

/-!
# Whole quintuples

Five numbers describe a token, so a server counts in fives: the arrays it sends, and the starts and
lengths in its edits, are multiples of five. The buffer relies on this and does not check it. Edits may
overlap, start at the same place or lie behind the end all the same, and are then cut to the array as
it is when their turn comes.

A machine that looks at every range before it changes the array (`Buffer.update?`) stops if a range
does not lie in the array.

* `quintuples_stay_whole`: after any updates that count in fives the array holds whole tokens only, and
  the machine never stops on the way.
-/

namespace PeerRpc.Tokens

/-! ## Updates -/

/-- Something that changes a buffer. -/
inductive Update where
  /-- Another array. -/
  | full (data : List UInt32)
  | delta (edits : List Edit)
  /-- A result of either kind, with its name. -/
  | result (result : Result)

/-- An edit that takes out and puts in whole tokens, at a place between tokens. -/
structure Edit.Whole (e : Edit) : Prop where
  first : stride ∣ e.first
  deleted : stride ∣ e.deleteCount.toNat
  inserted : stride ∣ e.inserted.length

instance (e : Edit) : Decidable e.Whole :=
  decidable_of_iff
    (stride ∣ e.first ∧ stride ∣ e.deleteCount.toNat ∧ stride ∣ e.inserted.length)
    ⟨fun h => ⟨h.1, h.2.1, h.2.2⟩, fun h => ⟨h.first, h.deleted, h.inserted⟩⟩

/-- An update whose array, or whose edits, are whole. -/
def Update.Whole : Update → Prop
  | .full data => stride ∣ data.length
  | .delta edits => ∀ e ∈ edits, e.Whole
  | .result (.first tokens) => stride ∣ tokens.data.length
  | .result (.second changes) => ∀ e ∈ changes.edits, e.Whole

instance (u : Update) : Decidable u.Whole :=
  match u with
  | .full data => inferInstanceAs (Decidable (stride ∣ data.length))
  | .delta edits => inferInstanceAs (Decidable (∀ e ∈ edits, e.Whole))
  | .result (.first tokens) => inferInstanceAs (Decidable (stride ∣ tokens.data.length))
  | .result (.second changes) => inferInstanceAs (Decidable (∀ e ∈ changes.edits, e.Whole))

namespace Buffer

/-- The buffer after an update. -/
def update (b : Buffer) : Update → Buffer
  | .full data => b.applyFull data
  | .delta edits => b.applyDelta edits
  | .result r => b.apply r

/-! ## Ranges that are looked at first -/

/-- A sum of numbers of 64 bits, cut off at the largest one. -/
def cappedSum (a b : Nat) : Nat :=
  min (a + b) (UInt64.size - 1)

/-- An array with a range replaced, if the range lies in the array. -/
def splice? (data : List UInt32) (start stop : Nat) (insert : List UInt32) :
    Option (List UInt32) :=
  if start ≤ stop ∧ stop ≤ data.length then some (splice data start stop insert) else none

/-- An array after one edit, if the range of the edit lies in the array once it is cut to it. -/
def applyEdit? (data : List UInt32) (e : Edit) : Option (List UInt32) :=
  let start := min e.first data.length
  let stop := min (cappedSum start e.deleteCount.toNat) data.length
  splice? data start stop e.inserted

/-- The buffer after some edits, if the range of each lies in the array that it finds. -/
def applyDelta? (b : Buffer) (edits : List Edit) : Option Buffer := do
  let data ← (fromTheEnd edits).foldlM applyEdit? b.data
  return { b with data }

/-- The buffer with another array, if the common beginning is no longer than the new one. -/
def applyFull? (b : Buffer) (data : List UInt32) : Option Buffer :=
  let n := commonLength b.data data
  if n ≤ data.length then some { b with data := b.data.take n ++ data.drop n } else none

/-- The buffer after an update, if all its ranges lie in the array. -/
def update? (b : Buffer) : Update → Option Buffer
  | .full data => b.applyFull? data
  | .delta edits => b.applyDelta? edits
  | .result (.first full) => { b with resultId := full.resultId }.applyFull? full.data
  | .result (.second delta) => { b with resultId := delta.resultId }.applyDelta? delta.edits

variable {b : Buffer} {data : List UInt32} {e : Edit} {edits : List Edit} {u : Update}
  {updates : List Update} {length : Nat}

theorem editStart_le_editStop (length : Nat) (e : Edit) : editStart length e ≤ editStop length e :=
  le_min (Nat.le_add_right _ _) (min_le_right _ _)

theorem editStop_le (length : Nat) (e : Edit) : editStop length e ≤ length :=
  min_le_right _ _

/-- A start and a number of deletions have 32 bits each, so their sum is never cut off. -/
theorem cappedSum_eq (length : Nat) (e : Edit) :
    cappedSum (editStart length e) e.deleteCount.toNat =
      editStart length e + e.deleteCount.toNat := by
  have hstart : editStart length e ≤ e.start.toNat := min_le_left _ _
  have hs := e.start.toNat_lt
  have hd := e.deleteCount.toNat_lt
  have hword : UInt64.size - 1 = 2 ^ 64 - 1 := rfl
  rw [cappedSum, hword]
  omega

theorem applyEdit?_eq (data : List UInt32) (e : Edit) :
    applyEdit? data e = some (applyEdit data e) := by
  have hstop : min (cappedSum (editStart data.length e) e.deleteCount.toNat) data.length =
      editStop data.length e := by
    rw [cappedSum_eq, editStop]
  change splice? data (editStart data.length e)
    (min (cappedSum (editStart data.length e) e.deleteCount.toNat) data.length) e.inserted = _
  rw [hstop, splice?, if_pos ⟨editStart_le_editStop _ e, editStop_le _ e⟩]
  rfl

theorem applyDelta?_eq (b : Buffer) (edits : List Edit) :
    b.applyDelta? edits = some (b.applyDelta edits) := by
  have hedits : applyEdit? = fun data e => pure (applyEdit data e) :=
    funext fun data => funext (applyEdit?_eq data)
  rw [applyDelta?, hedits, List.foldlM_pure]
  rfl

theorem commonLength_le (as bs : List UInt32) : commonLength as bs ≤ bs.length := by
  fun_induction commonLength as bs with
  | case1 as b bs ih => exact Nat.succ_le_succ ih
  | case2 | case3 => exact Nat.zero_le _

theorem applyFull?_eq (b : Buffer) (data : List UInt32) :
    b.applyFull? data = some (b.applyFull data) :=
  if_pos (commonLength_le b.data data)

/-- No range of an update leaves the array, whatever the update is. -/
theorem update?_eq (b : Buffer) (u : Update) : b.update? u = some (b.update u) := by
  cases u with
  | full data => exact applyFull?_eq b data
  | delta edits => exact applyDelta?_eq b edits
  | result r =>
    cases r with
    | first full => exact applyFull?_eq _ full.data
    | second delta => exact applyDelta?_eq _ delta.edits

theorem foldlM_update?_eq (b : Buffer) (updates : List Update) :
    updates.foldlM update? b = some (updates.foldl update b) := by
  have hupdates : update? = fun b u => pure (update b u) :=
    funext fun b => funext (update?_eq b)
  rw [hupdates]
  exact List.foldlM_pure

/-! ## Lengths -/

theorem length_applyEdit_add (data : List UInt32) (e : Edit) :
    (applyEdit data e).length + editStop data.length e =
      data.length + editStart data.length e + e.inserted.length := by
  have hle := editStart_le_editStop data.length e
  have hend := editStop_le data.length e
  rw [applyEdit, splice, List.length_append, List.length_append, List.length_drop,
    List.length_take_of_le (hle.trans hend), Edit.inserted]
  omega

theorem dvd_editStart (h : stride ∣ length) (he : e.Whole) : stride ∣ editStart length e := by
  rw [editStart]
  rcases min_choice e.start.toNat length with hmin | hmin <;> rw [hmin]
  · exact he.first
  · exact h

theorem dvd_editStop (h : stride ∣ length) (he : e.Whole) : stride ∣ editStop length e := by
  rw [editStop]
  rcases min_choice (editStart length e + e.deleteCount.toNat) length with hmin | hmin <;> rw [hmin]
  · exact (dvd_editStart h he).add he.deleted
  · exact h

/-- Wherever a whole edit is cut to an array of whole tokens, it leaves whole tokens. -/
theorem dvd_length_applyEdit (h : stride ∣ data.length) (he : e.Whole) :
    stride ∣ (applyEdit data e).length := by
  have hsum : stride ∣ data.length + editStart data.length e + e.inserted.length :=
    (h.add (dvd_editStart h he)).add he.inserted
  rw [← length_applyEdit_add] at hsum
  exact (Nat.dvd_add_left (dvd_editStop h he)).1 hsum

theorem dvd_length_applyDelta (h : stride ∣ b.data.length) (he : ∀ e ∈ edits, e.Whole) :
    stride ∣ (b.applyDelta edits).data.length := by
  refine List.foldlRecOn (motive := fun data => stride ∣ data.length) (fromTheEnd edits) applyEdit h ?_
  exact fun data hdata e hmem => dvd_length_applyEdit hdata (he e ((perm_fromTheEnd edits).subset hmem))

theorem dvd_length_update (h : stride ∣ b.data.length) (hu : u.Whole) :
    stride ∣ (b.update u).data.length := by
  cases u with
  | full data =>
    rw [update, data_applyFull]
    exact hu
  | delta edits => exact dvd_length_applyDelta h hu
  | result r =>
    cases r with
    | first full =>
      rw [update, apply, data_applyFull]
      exact hu
    | second delta => exact dvd_length_applyDelta h hu

theorem dvd_length_foldl_update (h : stride ∣ b.data.length) (hu : ∀ u ∈ updates, u.Whole) :
    stride ∣ (updates.foldl update b).data.length :=
  List.foldlRecOn (motive := fun b => stride ∣ b.data.length) updates update h
    fun _ hb u hmem => dvd_length_update hb (hu u hmem)

theorem isEmpty_iff_size_eq_zero (h : stride ∣ b.data.length) : b.isEmpty = true ↔ b.size = 0 := by
  rw [isEmpty, List.isEmpty_iff, ← List.length_eq_zero_iff, size,
    Nat.div_eq_zero_iff_lt (show 0 < stride by decide)]
  constructor
  · intro hlength
    rw [hlength]
    decide
  · exact Nat.eq_zero_of_dvd_of_lt h

end Buffer

/-- A new buffer is given updates whose arrays have lengths that are multiples of five, and whose edits
start at such places, take out as many numbers and put in as many; the edits may overlap, start
together, lie behind the end and be listed in any order. Then the array holds whole tokens, the number
of tokens is a fifth of its length, and the array is empty just if there are no tokens. Every range that
was replaced on the way started before it stopped, and stopped within the array as it was then. -/
theorem quintuples_stay_whole (legend : Legend) (updates : List Update)
    (h : ∀ u ∈ updates, u.Whole) :
    let b := updates.foldl Buffer.update (Buffer.empty legend)
    stride ∣ b.data.length ∧ b.size * stride = b.data.length ∧ (b.isEmpty = true ↔ b.size = 0) ∧
      updates.foldlM Buffer.update? (Buffer.empty legend) = some b := by
  intro b
  have hwhole : stride ∣ b.data.length := Buffer.dvd_length_foldl_update (dvd_zero stride) h
  exact ⟨hwhole, Nat.div_mul_cancel hwhole, Buffer.isEmpty_iff_size_eq_zero hwhole,
    Buffer.foldlM_update?_eq _ updates⟩

/-- Two tokens, then edits that overlap, start together or lie behind the end, then a full result. -/
theorem whole_after_overlapping_edits :
    let updates : List Update :=
      [.full [0, 0, 1, 0, 0, 0, 2, 1, 1, 0],
        .delta [⟨0, 10, none⟩, ⟨5, 15, some [0, 4, 1, 2, 0]⟩, ⟨95, 5, some [1, 0, 2, 0, 0]⟩,
          ⟨5, 0, some [0, 1, 1, 3, 0]⟩],
        .result (.second ⟨some "2", [⟨5, 20, none⟩, ⟨0, 0, some [3, 0, 1, 0, 0]⟩]⟩)]
    let b := updates.foldl Buffer.update (Buffer.empty ⟨["type"], []⟩)
    (∀ u ∈ updates, u.Whole) ∧ b.data = [3, 0, 1, 0, 0, 0, 4, 1, 2, 0] ∧
      b.size * stride = b.data.length ∧
      updates.foldlM Buffer.update? (Buffer.empty ⟨["type"], []⟩) = some b := by
  intro updates b
  have hwhole : ∀ u ∈ updates, u.Whole := by decide
  obtain ⟨-, hsize, -, hranges⟩ := quintuples_stay_whole ⟨["type"], []⟩ updates hwhole
  exact ⟨hwhole, by cbv, hsize, hranges⟩

end PeerRpc.Tokens
