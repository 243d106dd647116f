import PeerRpc.Proofs.Json.Scalars

/-!
# Blanks are no part of a value

A reader is `Steady` if what it makes of a value depends on the value's term alone, and on nothing
that stands around its parts or after it. The reading of any value is steady (`steady_readValue`),
and an object's members are read one after the other from their terms (`readMembers_spells`).
Whatever the grammar has for a value is passed over (`skipValue_spells`), however deep it is and
whatever its texts hold.
-/

namespace PeerRpc.Json

variable {w w' b r rest : List UInt8} {t : Term}

/-! ## Blanks -/

theorem blank_nil : Blank [] :=
  List.forall_mem_nil _

theorem skipSpace_blank (hw : Blank w) (input : List UInt8) :
    skipSpace (w ++ input) = skipSpace input := by
  rw [skipSpace, List.dropWhile_append_of_pos hw]
  rfl

theorem skipSpace_of_blank (hw : Blank w) {b : UInt8} (hb : isSpace b = false)
    (rest : List UInt8) : skipSpace (w ++ b :: rest) = b :: rest := by
  rw [skipSpace_blank hw, skipSpace_cons hb]

theorem Parted.cons {b : UInt8} (h : b = 0x2c ∨ b = 0x5d ∨ b = 0x7d) (rest : List UInt8) :
    Parted (b :: rest) := by
  rintro _ ⟨⟩
  exact .inr h

theorem Blank.parted (hw : Blank w) (hr : Parted rest) : Parted (w ++ rest) := by
  cases w with
  | nil => exact hr
  | cons b w =>
    rintro _ ⟨⟩
    exact .inl (hw b List.mem_cons_self)

/-- A value starts with no blank and no closing bracket. -/
theorem Spells.eq_cons (hb : Spells t b) :
    ∃ c m, b = c :: m ∧ isSpace c = false ∧ c ≠ 0x5d := by
  cases hb with
  | scalar s =>
    obtain ⟨c, m, hcm, hspace, -, hclose, -⟩ := s.bytes_eq_cons
    exact ⟨c, m, hcm, hspace, hclose⟩
  | array => exact ⟨_, _, rfl, rfl, by decide⟩
  | object => exact ⟨_, _, rfl, rfl, by decide⟩

/-- Only null starts with an `n`. -/
theorem Spells.eq_null (hb : Spells t b) (h : b.head? = some 0x6e) : t = .scalar .null := by
  cases hb with
  | scalar s =>
    obtain ⟨c, m, hcm, -, -, -, -, hnull⟩ := s.bytes_eq_cons
    rw [hcm] at h
    rw [hnull (Option.some.inj h)]
  | array => cases h
  | object => cases h

theorem Spells.skipSpace_eq (hb : Spells t b) (hw : Blank w) (rest : List UInt8) :
    skipSpace (w ++ (b ++ rest)) = b ++ rest := by
  obtain ⟨c, m, rfl, hspace, -⟩ := hb.eq_cons
  exact skipSpace_of_blank hw hspace (m ++ rest)

/-- What follows a separator is not glued to what stands before it. -/
theorem Separates.parted {s : List UInt8} (hs : Separates false s) (rest : List UInt8) :
    Parted (s ++ rest) := by
  cases hs with
  | comma hw =>
    rw [List.append_assoc]
    exact hw.parted (.cons (.inl rfl) rest)

theorem SpellsItems.parted {items : List Term} (h : SpellsItems false items r)
    (rest : List UInt8) : Parted (r ++ rest) := by
  cases h with
  | nil hw =>
    rw [List.append_assoc]
    exact hw.parted (.cons (.inr (.inl rfl)) rest)
  | cons hs =>
    rw [List.append_assoc]
    exact hs.parted _

theorem SpellsMembers.parted {members : List (List Piece × Term)}
    (h : SpellsMembers false members r) (rest : List UInt8) : Parted (r ++ rest) := by
  cases h with
  | nil hw =>
    rw [List.append_assoc]
    exact hw.parted (.cons (.inr (.inr rfl)) rest)
  | cons hs =>
    rw [List.append_assoc]
    exact hs.parted _

theorem SpellsItems.length_lt {first : Bool} {items : List Term} (h : SpellsItems first items r) :
    items.length < r.length := by
  induction items generalizing first r with
  | nil =>
    cases h
    simp
  | cons t items ih =>
    cases h with
    | cons hs hw hb hr =>
      obtain ⟨c, m, rfl, -⟩ := hb.eq_cons
      have := ih hr
      simp only [List.length_append, List.length_cons]
      omega

theorem SpellsMembers.length_lt {first : Bool} {members : List (List Piece × Term)}
    (h : SpellsMembers first members r) : members.length < r.length := by
  induction members generalizing first r with
  | nil =>
    cases h
    simp
  | cons p members ih =>
    cases h with
    | cons hs hw hw' hw'' hb hr =>
      have := ih hr
      simp only [List.length_append, List.length_cons]
      omega

/-! ## The parts of arrays and objects -/

theorem readNextItem_close (first : Bool) (hw : Blank w) (rest : List UInt8) :
    readNextItem first (w ++ 0x5d :: rest) = .ok (false, 0x5d :: rest) := by
  rw [readNextItem, skipSpace_of_blank hw rfl]
  rfl

theorem readNextItem_spells {first : Bool} {s : List UInt8} (hs : Separates first s) (hw : Blank w)
    (hb : Spells t b) (rest : List UInt8) :
    readNextItem first (s ++ (w ++ (b ++ rest))) = .ok (true, b ++ rest) := by
  obtain ⟨c, m, he, -, hclose⟩ := hb.eq_cons
  have hspace := hb.skipSpace_eq hw rest
  rw [he, List.cons_append] at hspace ⊢
  cases hs with
  | first =>
    rw [List.nil_append, readNextItem, hspace]
    exact (if_neg hclose).trans (if_pos rfl)
  | comma hw' =>
    rw [List.append_assoc, readNextItem, List.singleton_append,
      skipSpace_of_blank hw' rfl]
    dsimp only
    rw [if_neg (by decide), if_neg Bool.false_ne_true, if_pos rfl, hspace]
    exact if_neg hclose

theorem readNextName_close (first : Bool) (hw : Blank w) (rest : List UInt8) :
    readNextName first (w ++ 0x7d :: rest) = .ok (false, rest) := by
  rw [readNextName, skipSpace_of_blank hw rfl]
  rfl

theorem readNextName_spells {first : Bool} {s : List UInt8} (hs : Separates first s) (hw : Blank w)
    (rest : List UInt8) : readNextName first (s ++ (w ++ 0x22 :: rest)) = .ok (true, rest) := by
  have hspace := skipSpace_of_blank hw (b := 0x22) rfl rest
  cases hs with
  | first =>
    rw [List.nil_append, readNextName, hspace]
    rfl
  | comma hw' =>
    rw [List.append_assoc, readNextName, List.singleton_append,
      skipSpace_of_blank hw' rfl]
    dsimp only
    rw [if_neg (by decide), if_neg Bool.false_ne_true, if_pos rfl, hspace]
    rfl

theorem readColon_blank (hw : Blank w) (rest : List UInt8) :
    readColon (w ++ 0x3a :: rest) = .ok ((), rest) := by
  rw [readColon, skipSpace_of_blank hw rfl]
  rfl

/-! ## Readers -/

variable {α : Type} {read : List UInt8 → Except Fault (α × List UInt8)} {f : Term → Except Fault α}

/-- What a reader makes of a term, however it is written. -/
def Reads (read : List UInt8 → Except Fault (α × List UInt8)) (f : Term → Except Fault α) : Prop :=
  ∀ {t : Term} {w b : List UInt8}, Blank w → Spells t b → Gives read (w ++ b) (f t)

/-- What a reader makes of a value depends on the value's term alone. -/
def Steady (read : List UInt8 → Except Fault (α × List UInt8)) : Prop :=
  ∃ f, Reads read f

theorem steady_of_forall
    (h : ∀ t, ∃ x, ∀ {w b : List UInt8}, Blank w → Spells t b → Gives read (w ++ b) x) :
    Steady read := by
  choose f hf using h
  exact ⟨f, fun hw hb => hf _ hw hb⟩

/-- Without blanks in front. -/
theorem Reads.gives (hf : Reads read f) (hb : Spells t b) : Gives read b (f t) :=
  hf blank_nil hb

/-- The items of an array are read one after the other. -/
theorem readItems_spells {item : List UInt8 → Except Fault (Json × List UInt8)}
    {f : Term → Except Fault Json} (hf : Reads item f) {first : Bool} {items : List Term}
    (h : SpellsItems first items r) {steps : List UInt8} (hs : items.length < steps.length)
    (done : List Json) (rest : List UInt8) :
    readItems item steps first done (r ++ rest) =
      (items.mapM f).map fun vs => (done.reverse ++ vs, rest) := by
  induction items generalizing first r steps done with
  | nil =>
    obtain ⟨step, steps, rfl⟩ := List.exists_cons_of_length_pos (Nat.zero_lt_of_lt hs)
    cases h with
    | nil hw =>
      rw [List.append_assoc, List.singleton_append, readItems, readNextItem_close first hw]
      simp [bind, Except.bind, pure, Except.pure, Except.map]
  | cons t items ih =>
    obtain ⟨step, steps, rfl⟩ := List.exists_cons_of_length_pos (Nat.zero_lt_of_lt hs)
    cases h with
    | cons hsep hw hb hr =>
      have hitem := hf.gives hb (hr.parted rest)
      have hnext := readNextItem_spells hsep hw hb
      simp only [List.append_assoc]
      cases hv : f t with
      | error fault =>
        rw [hv] at hitem
        rw [readItems, hnext, List.mapM_cons, hv]
        simp only [bind, Except.bind, if_true, hitem]
        rfl
      | ok v =>
        rw [hv] at hitem
        rw [readItems_more (hnext _) hitem, ih hr (Nat.lt_of_succ_lt_succ hs), List.mapM_cons, hv]
        simp only [bind, Except.bind]
        cases items.mapM f with
        | error fault => rfl
        | ok vs => simp [pure, Except.pure, Except.map]

/-- The state after the members of an object, each of which is taken into it by its name and its
value. -/
def collect {σ : Type} (take : σ → String → Term → Except Fault σ) :
    σ → List (List Piece × Term) → Except Fault σ
  | s, [] => .ok s
  | s, (n, t) :: members => do
    let name ← textOf n
    let s ← take s name t
    collect take s members

/-- What is read after a name, from the colon on, depends on the value's term alone. -/
def ReadsMember {σ : Type} (member : σ → String → List UInt8 → Except Fault (σ × List UInt8))
    (take : σ → String → Term → Except Fault σ) : Prop :=
  ∀ {s : σ} {name : String} {t : Term} {w w' b : List UInt8}, Blank w → Blank w' → Spells t b →
    Gives (member s name) (w ++ 0x3a :: (w' ++ b)) (take s name t)

/-- The members of an object are read one after the other. -/
theorem readMembers_spells {σ : Type}
    {member : σ → String → List UInt8 → Except Fault (σ × List UInt8)}
    {take : σ → String → Term → Except Fault σ} (hmember : ReadsMember member take)
    {first : Bool} {members : List (List Piece × Term)} (h : SpellsMembers first members r)
    {steps : List UInt8} (hs : members.length < steps.length) (s : σ) (rest : List UInt8) :
    readMembers member steps first s (r ++ rest) =
      (collect take s members).map fun s => (s, rest) := by
  induction members generalizing first r steps s with
  | nil =>
    obtain ⟨step, steps, rfl⟩ := List.exists_cons_of_length_pos (Nat.zero_lt_of_lt hs)
    cases h with
    | nil hw =>
      rw [List.append_assoc, List.singleton_append, readMembers, readNextName_close first hw]
      rfl
  | cons p members ih =>
    obtain ⟨step, steps, rfl⟩ := List.exists_cons_of_length_pos (Nat.zero_lt_of_lt hs)
    cases h with
    | @cons _ _ w w' w'' b r n t _ hsep hw hw' hw'' hb hr =>
      have hvalue (name : String) : member s name (w' ++ 0x3a :: (w'' ++ b) ++ (r ++ rest)) =
          (take s name t).map fun s => (s, r ++ rest) := hmember hw' hw'' hb (hr.parted rest)
      simp only [List.append_assoc, List.cons_append] at hvalue ⊢
      rw [readMembers, readNextName_spells hsep hw, collect]
      simp only [bind, Except.bind, if_true, readText_written]
      cases textOf n with
      | error fault => rfl
      | ok name =>
        simp only [Except.map, hvalue]
        cases take s name t with
        | error fault => rfl
        | ok s' => exact ih hr (Nat.lt_of_succ_lt_succ hs) s'

/-! ## Any value -/

/-- Takes what is made of a term to its place among the members of an object. -/
def takeTerm (f : Term → Except Fault Json) (members : List (String × Json)) (name : String)
    (t : Term) : Except Fault (List (String × Json)) :=
  (f t).map fun v => insertMember name v members

theorem readsMember_takeMember {item : List UInt8 → Except Fault (Json × List UInt8)}
    {f : Term → Except Fault Json} (hf : Reads item f) :
    ReadsMember (takeMember item) (takeTerm f) := by
  intro done name t w w' b hw hw' hb rest hr
  have hvalue := hf hw' hb hr
  simp only [List.append_assoc, List.cons_append] at hvalue ⊢
  rw [takeMember, readColon_blank hw, takeTerm]
  simp only [bind, Except.bind, hvalue]
  cases f t <;> rfl

/-- A reader of values is steady if the reader of what stands inside them is. -/
theorem steady_readValueWith {inner : Option (List UInt8 → Except Fault (Json × List UInt8))}
    (hinner : ∀ item, inner = some item → Steady item) : Steady (readValueWith inner) := by
  refine steady_of_forall fun t => ?_
  cases t with
  | scalar s =>
    obtain ⟨x, hx⟩ := exists_gives_readScalar s
    obtain ⟨c, m, hcm, hspace, harray, -, hobject, -⟩ := s.bytes_eq_cons
    refine ⟨x, fun {w b} hw hb rest hr => ?_⟩
    rw [List.append_assoc, readValueWith, hb.skipSpace_eq hw]
    cases hb
    rw [hcm, List.cons_append]
    exact (if_neg harray).trans ((if_neg hobject).trans (hx hcm hr))
  | array items =>
    cases inner with
    | none =>
      refine ⟨.error .malformed, fun {w b} hw hb rest hr => ?_⟩
      rw [List.append_assoc, readValueWith, hb.skipSpace_eq hw]
      cases hb
      rfl
    | some item =>
      obtain ⟨f, hf⟩ := hinner item rfl
      refine ⟨(items.mapM f).map .array, fun {w b} hw hb rest hr => ?_⟩
      rw [List.append_assoc, readValueWith, hb.skipSpace_eq hw]
      cases hb with
      | @array _ r h =>
        have hlength := h.length_lt
        change (readItems item (0 :: (r ++ rest)) true [] (r ++ rest) >>= _) = _
        rw [readItems_spells hf h (by simp; omega)]
        cases items.mapM f <;> rfl
  | object members =>
    cases inner with
    | none =>
      refine ⟨.error .malformed, fun {w b} hw hb rest hr => ?_⟩
      rw [List.append_assoc, readValueWith, hb.skipSpace_eq hw]
      cases hb
      rfl
    | some item =>
      obtain ⟨f, hf⟩ := hinner item rfl
      refine ⟨(collect (takeTerm f) [] members).map .object, fun {w b} hw hb rest hr => ?_⟩
      rw [List.append_assoc, readValueWith, hb.skipSpace_eq hw]
      cases hb with
      | @object _ r h =>
        have hlength := h.length_lt
        change (readMembers (takeMember item) (0 :: (r ++ rest)) true [] (r ++ rest) >>= _) = _
        rw [readMembers_spells (readsMember_takeMember hf) h (by simp; omega)]
        cases collect (takeTerm f) [] members <;> rfl

/-- What is read of a value depends on its term alone. -/
theorem steady_readValue (room : Nat) : Steady (readValue room) := by
  induction room with
  | zero =>
    change Steady (readValueWith none)
    exact steady_readValueWith nofun
  | succ room ih =>
    change Steady (readValueWith (some (readValue room)))
    refine steady_readValueWith ?_
    rintro _ ⟨⟩
    exact ih

/-! ## Passing over -/

theorem skipName_spells (n : List Piece) {w w' : List UInt8} (hw : Blank w) (hw' : Blank w')
    (rest : List UInt8) :
    skipName (w ++ 0x22 :: (written n ++ 0x22 :: (w' ++ 0x3a :: rest))) = .ok rest := by
  rw [skipName, skipSpace_of_blank hw rfl]
  dsimp only
  rw [if_pos rfl, skipText_written n (by simp)]
  simp only [bind, Except.bind, readColon_blank hw']

mutual

/-- A value of the grammar leads to what stands after it. -/
theorem leads_of_spells (t : Term) (opened : List Open) {w b rest : List UInt8} (hw : Blank w)
    (hb : Spells t b) (hr : Parted rest) :
    Leads ⟨true, opened, w ++ (b ++ rest)⟩ ⟨false, opened, rest⟩ := by
  have hspace := hb.skipSpace_eq hw rest
  match t, hb with
  | .scalar s, .scalar _ =>
    obtain ⟨c, m, hcm, -, harray, -, hobject, -⟩ := s.bytes_eq_cons
    rw [hcm, List.cons_append] at hspace ⊢
    exact .scalar opened hspace harray hobject (skipScalar_bytes hcm hr)
  | .array [], .array (.nil hw) =>
    simp only [List.cons_append, List.append_assoc] at hspace ⊢
    exact .emptyArray opened hspace (skipSpace_of_blank hw rfl _)
  | .array (t :: items), .array (.cons .first hw hb hitems) =>
    obtain ⟨c, m, rfl, -, hclose⟩ := hb.eq_cons
    have hfirst := hb.skipSpace_eq hw
    have hitem := leads_of_spells t (.array :: opened) blank_nil hb (hitems.parted rest)
    simp only [List.cons_append, List.append_assoc, List.nil_append] at hspace hfirst hitem ⊢
    exact ((Leads.openArray opened hspace (hfirst _) hclose).trans hitem).trans
      (leads_of_spellsItems items opened hitems rest)
  | .object [], .object (.nil hw) =>
    simp only [List.cons_append, List.append_assoc] at hspace ⊢
    exact .emptyObject opened hspace (skipSpace_of_blank hw rfl _)
  | .object ((n, t) :: members), .object (.cons .first hname hcolon hvalue hb hmembers) =>
    simp only [List.cons_append, List.append_assoc, List.nil_append] at hspace ⊢
    exact ((Leads.openObject opened hspace (skipSpace_of_blank hname rfl _) (by decide)
      (skipName_spells n blank_nil hcolon _)).trans
        (leads_of_spells t _ hvalue hb (hmembers.parted rest))).trans
          (leads_of_spellsMembers members opened hmembers rest)

/-- The items of an array after the first lead to what stands after the array. -/
theorem leads_of_spellsItems (items : List Term) (opened : List Open) {r : List UInt8}
    (h : SpellsItems false items r) (rest : List UInt8) :
    Leads ⟨false, .array :: opened, r ++ rest⟩ ⟨false, opened, rest⟩ := by
  match items, h with
  | [], .nil hw =>
    rw [List.append_assoc]
    exact .closeArray opened (skipSpace_of_blank hw rfl _)
  | t :: items, .cons (.comma hcomma) hw hb hitems =>
    simp only [List.append_assoc]
    exact ((Leads.nextItem opened (skipSpace_of_blank hcomma rfl _)).trans
      (leads_of_spells t _ hw hb (hitems.parted rest))).trans
        (leads_of_spellsItems items opened hitems rest)

/-- The members of an object after the first lead to what stands after the object. -/
theorem leads_of_spellsMembers (members : List (List Piece × Term)) (opened : List Open)
    {r : List UInt8} (h : SpellsMembers false members r) (rest : List UInt8) :
    Leads ⟨false, .object :: opened, r ++ rest⟩ ⟨false, opened, rest⟩ := by
  match members, h with
  | [], .nil hw =>
    rw [List.append_assoc]
    exact .closeObject opened (skipSpace_of_blank hw rfl _)
  | (n, t) :: members, .cons (.comma hcomma) hname hcolon hvalue hb hmembers =>
    simp only [List.append_assoc, List.cons_append]
    exact ((Leads.nextMember opened (skipSpace_of_blank hcomma rfl _)
      (skipName_spells n hname hcolon _)).trans
        (leads_of_spells t _ hvalue hb (hmembers.parted rest))).trans
          (leads_of_spellsMembers members opened hmembers rest)

end

/-- Every value of the grammar is passed over. -/
theorem skipValue_spells (hw : Blank w) (hb : Spells t b) (hr : Parted rest) :
    skipValue (w ++ (b ++ rest)) = .ok rest :=
  skipValue_iff.2 fun opened => leads_of_spells t opened hw hb hr

end PeerRpc.Json
