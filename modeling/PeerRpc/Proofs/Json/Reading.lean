import PeerRpc.Proofs.Decimal.Spelling
import PeerRpc.Proofs.Json.Texts

/-!
# Reading back a value

A value is *plain* if its numbers are integers of 64 bits, signed or unsigned, and the names of its
objects ascend. The text of a plain value that is not too deep is read back as this value, whatever
comes after it in an array or in an object (`readValue_bytes`) or at the end of the text
(`parse_bytes`).
-/

namespace PeerRpc.Json

open Text (utf8OfChars)

/-! ## Integers -/

/-- What can stand after a value inside a text. -/
def Stops (rest : List UInt8) : Prop :=
  ∀ b, rest.head? = some b → b = 0x2c ∨ b = 0x5d ∨ b = 0x7d

theorem stops_nil : Stops [] := by simp [Stops]

theorem stops_cons {b : UInt8} (h : b = 0x2c ∨ b = 0x5d ∨ b = 0x7d) (rest : List UInt8) :
    Stops (b :: rest) := by
  intro b' hb'
  obtain rfl := Option.some.inj hb'
  exact h

theorem digitOf?_ofNat {d : Nat} (h : d < 10) : Decimal.digitOf? (UInt8.ofNat (48 + d)) = some d := by
  have hn : (UInt8.ofNat (48 + d)).toNat = 48 + d := by
    rw [UInt8.toNat_ofNat']
    omega
  unfold Decimal.digitOf?
  rw [hn, if_pos, Nat.add_sub_cancel_left]
  simp only [Bool.and_eq_true, decide_eq_true_eq]
  omega

/-- No digit can stand after a value. -/
theorem Stops.digitOf?_eq_none {rest : List UInt8} (h : Stops rest) :
    ∀ b, rest.head? = some b → Decimal.digitOf? b = none := by
  intro b hb
  rcases h b hb with rfl | rfl | rfl <;> rfl

theorem run_digits (ds : List Nat) (hd : ∀ d ∈ ds, d < 10) {rest : List UInt8}
    (hr : ∀ b, rest.head? = some b → Decimal.digitOf? b = none) :
    Decimal.run (ds.map (fun d => UInt8.ofNat (48 + d)) ++ rest) = (ds, rest) := by
  induction ds with
  | nil =>
    cases rest with
    | nil => rfl
    | cons b rest => simp [Decimal.run, hr b rfl]
  | cons d ds ih =>
    rw [List.map_cons, List.cons_append, Decimal.run, digitOf?_ofNat (hd d List.mem_cons_self),
      ih fun d hd' => hd d (List.mem_cons_of_mem _ hd')]

theorem gather_of_le {ds : List Nat} {n : Nat}
    (h : ds.foldl (fun n d => 10 * n + d) n ≤ maxWord) :
    gather n ds = (ds.foldl (fun n d => 10 * n + d) n, []) := by
  induction ds generalizing n with
  | nil => rfl
  | cons d ds ih =>
    have := Decimal.le_foldl_digits ds (10 * n + d)
    rw [List.foldl_cons] at h
    rw [gather, if_pos (by omega), ih h]
    rfl

theorem readNumber_digits {n : Nat} (hn : n ≤ maxWord) (negative : Bool) {rest : List UInt8}
    (hr : Stops rest) :
    readNumber negative (utf8OfChars (Decimal.natural n) ++ rest) =
      readAfterWhole negative n 0 rest := by
  have hrun := run_digits (Decimal.digits n) (fun d hd => Decimal.lt_of_mem_digits hd)
    hr.digitOf?_eq_none
  have hgather : gather 0 (Decimal.digits n) = (n, []) := by
    have hvalue := Decimal.value_digits n
    unfold Decimal.value at hvalue
    rw [gather_of_le (hvalue.symm ▸ hn), hvalue]
  have hzero : ∀ d ds, Decimal.digits n ≠ 0 :: d :: ds := by
    intro d ds he
    by_cases hn0 : n = 0
    · subst hn0
      rw [Decimal.digits, if_pos (by decide)] at he
      cases he
    · exact Decimal.digits_head_ne_zero hn0 (by rw [he]; rfl)
  rw [Decimal.utf8OfChars_natural, readNumber, hrun]
  split
  · rename_i he
    exact absurd (Prod.mk.inj he).1 (Decimal.digits_ne_nil n)
  · rename_i he
    exact absurd (Prod.mk.inj he).1 (Decimal.digits_ne_nil n)
  · rename_i he
    exact absurd (Prod.mk.inj he).1 (hzero _ _)
  · rename_i he
    obtain ⟨rfl, rfl⟩ := Prod.mk.inj he
    rw [hgather]
    rfl

theorem readAfterWhole_of_stops (negative : Bool) (n : Nat) {rest : List UInt8} (hr : Stops rest) :
    readAfterWhole negative n 0 rest =
      if !negative then .ok (.int n, rest)
      else if n = 0 || UInt64.size / 2 < n then readExponent negative n 0 rest
      else .ok (.int (-n), rest) := by
  unfold readAfterWhole
  cases rest with
  | nil => rfl
  | cons b rest => rcases hr b rfl with rfl | rfl | rfl <;> rfl

/-- An integer that is written and read back as one: it fits 64 bits, signed or unsigned. -/
def IsWord (n : Int) : Prop :=
  -(UInt64.size / 2 : Int) ≤ n ∧ n < UInt64.size

theorem natural_eq_cons (n : Nat) :
    ∃ b more, utf8OfChars (Decimal.natural n) = b :: more ∧ 48 ≤ b.toNat ∧ b.toNat ≤ 57 := by
  obtain ⟨d, ds, hd⟩ := List.exists_cons_of_ne_nil (Decimal.digits_ne_nil n)
  have hlt : d < 10 := Decimal.lt_of_mem_digits (hd ▸ List.mem_cons_self)
  rw [Decimal.utf8OfChars_natural, hd]
  refine ⟨_, _, rfl, ?_, ?_⟩ <;>
  · rw [UInt8.toNat_ofNat']
    omega

theorem ne_of_digit {b : UInt8} (h : 48 ≤ b.toNat ∧ b.toNat ≤ 57) (c : UInt8)
    (hc : ¬(48 ≤ c.toNat ∧ c.toNat ≤ 57)) : b ≠ c := by
  rintro rfl
  exact hc h

theorem readScalar_of_digit {b : UInt8} (h : 48 ≤ b.toNat ∧ b.toNat ≤ 57) (rest : List UInt8) :
    readScalar b rest = readNumber false (b :: rest) := by
  have hne := ne_of_digit h
  unfold readScalar
  rw [if_neg (hne _ (by decide)), if_neg (hne _ (by decide)), if_neg (hne _ (by decide)),
    if_neg (hne _ (by decide)), if_neg (hne _ (by decide))]

/-! ## Plain values -/

mutual

/-- A value whose numbers are integers of 64 bits and whose objects are sorted. -/
def Plain : Json → Prop
  | .int n => IsWord n
  | .double _ => False
  | .array items => PlainItems items
  | .object members => PlainMembers members
  | _ => True

/-- Some plain items. -/
def PlainItems : List Json → Prop
  | [] => True
  | item :: rest => Plain item ∧ PlainItems rest

/-- Some members with plain values, in the order of their names. -/
def PlainMembers : List (String × Json) → Prop
  | [] => True
  | (name, value) :: rest => (∀ p ∈ rest, name < p.1) ∧ Plain value ∧ PlainMembers rest

end

mutual

/-- Whether a value is plain is computed along its form, together with its items and members. -/
def decidePlain : (v : Json) → Decidable (Plain v)
  | .null | .bool _ | .string _ => isTrue trivial
  | .int n => inferInstanceAs (Decidable (-(UInt64.size / 2 : Int) ≤ n ∧ n < UInt64.size))
  | .double _ => isFalse id
  | .array items => decidePlainItems items
  | .object members => decidePlainMembers members

/-- Whether all of some items are plain. -/
def decidePlainItems : (items : List Json) → Decidable (PlainItems items)
  | [] => isTrue trivial
  | item :: rest =>
    have := decidePlain item
    have := decidePlainItems rest
    inferInstanceAs (Decidable (Plain item ∧ PlainItems rest))

/-- Whether some members have plain values and stand in the order of their names. -/
def decidePlainMembers : (members : List (String × Json)) → Decidable (PlainMembers members)
  | [] => isTrue trivial
  | (name, value) :: rest =>
    have := decidePlain value
    have := decidePlainMembers rest
    inferInstanceAs
      (Decidable ((∀ p ∈ rest, name < p.1) ∧ Plain value ∧ PlainMembers rest))

end

instance (v : Json) : Decidable (Plain v) := decidePlain v

instance : (v : Json) → Decidable (v = .null)
  | .null => isTrue rfl
  | .bool _ | .int _ | .double _ | .string _ | .array _ | .object _ => isFalse Json.noConfusion

theorem bytes_object_cons (name : String) (value : Json) (rest : List (String × Json)) :
    bytes (.object ((name, value) :: rest)) =
      0x7b :: utf8OfChars (textChars name) ++ 0x3a :: bytes value ++
        utf8OfChars (membersChars rest) := by
  unfold bytes
  rw [chars]
  simp only [List.cons_append, Text.utf8OfChars_cons, Text.utf8OfChars_append]
  rfl

theorem bytes_array_cons (item : Json) (rest : List Json) :
    bytes (.array (item :: rest)) = 0x5b :: bytes item ++ utf8OfChars (itemsChars rest) := by
  unfold bytes
  rw [chars]
  simp only [List.cons_append, Text.utf8OfChars_cons, Text.utf8OfChars_append]
  rfl

theorem utf8OfChars_itemsChars_cons (item : Json) (rest : List Json) :
    utf8OfChars (itemsChars (item :: rest)) =
      0x2c :: bytes item ++ utf8OfChars (itemsChars rest) := by
  unfold bytes
  rw [itemsChars]
  simp only [List.cons_append, Text.utf8OfChars_cons, Text.utf8OfChars_append]
  rfl

theorem utf8OfChars_membersChars_cons (name : String) (value : Json)
    (rest : List (String × Json)) :
    utf8OfChars (membersChars ((name, value) :: rest)) =
      0x2c :: utf8OfChars (textChars name) ++ 0x3a :: bytes value ++
        utf8OfChars (membersChars rest) := by
  unfold bytes
  rw [membersChars]
  simp only [List.cons_append, Text.utf8OfChars_cons, Text.utf8OfChars_append]
  rfl

theorem length_itemsChars (items : List Json) :
    items.length < (utf8OfChars (itemsChars items)).length := by
  induction items with
  | nil => decide
  | cons item rest ih =>
    rw [utf8OfChars_itemsChars_cons]
    simp only [List.length_append, List.length_cons]
    omega

theorem length_membersChars (members : List (String × Json)) :
    members.length < (utf8OfChars (membersChars members)).length := by
  induction members with
  | nil => decide
  | cons p rest ih =>
    rw [utf8OfChars_membersChars_cons]
    simp only [List.length_append, List.length_cons]
    omega

/-- A value's text starts with no space and no closing bracket, and only that of null with an
`n`. -/
theorem bytes_eq_cons (v : Json) :
    ∃ b more, bytes v = b :: more ∧ isSpace b = false ∧ b ≠ 0x5d ∧ (b = 0x6e → v = .null) := by
  have hnumber : ∀ {w : Json}, Decimal.Spelled (chars w) → ∃ b more, bytes w = b :: more ∧
      isSpace b = false ∧ b ≠ 0x5d ∧ (b = 0x6e → w = .null) := by
    intro w h
    obtain ⟨b, more, he, rfl | hb⟩ := h.bytes_eq_cons
    · exact ⟨0x2d, more, he, rfl, by decide, fun h => absurd h (by decide)⟩
    · have hne := ne_of_digit hb
      exact ⟨b, more, he, by simp [isSpace, hne], hne _ (by decide),
        fun h => absurd h (hne _ (by decide))⟩
  match v with
  | .null => exact ⟨0x6e, [0x75, 0x6c, 0x6c], rfl, rfl, by decide, fun _ => rfl⟩
  | .bool true =>
    exact ⟨0x74, [0x72, 0x75, 0x65], rfl, rfl, by decide, fun h => absurd h (by decide)⟩
  | .bool false =>
    exact ⟨0x66, [0x61, 0x6c, 0x73, 0x65], rfl, rfl, by decide, fun h => absurd h (by decide)⟩
  | .int n => exact hnumber (Decimal.spelled_integer n)
  | .double x => exact hnumber (Decimal.spelled_double numberLayout x)
  | .string s =>
    exact ⟨0x22, _, utf8OfChars_textChars s, rfl, by decide, fun h => absurd h (by decide)⟩
  | .array [] => exact ⟨0x5b, [0x5d], rfl, rfl, by decide, fun h => absurd h (by decide)⟩
  | .array (item :: rest) =>
    exact ⟨0x5b, _, bytes_array_cons item rest, rfl, by decide, fun h => absurd h (by decide)⟩
  | .object [] => exact ⟨0x7b, [0x7d], rfl, rfl, by decide, fun h => absurd h (by decide)⟩
  | .object ((name, value) :: rest) =>
    exact ⟨0x7b, _, bytes_object_cons name value rest, rfl, by decide, fun h => absurd h (by decide)⟩

/-! ## Scalars -/

theorem skipSpace_cons {b : UInt8} (h : isSpace b = false) (rest : List UInt8) :
    skipSpace (b :: rest) = b :: rest := by
  rw [skipSpace, List.dropWhile_cons_of_neg (by simp [h])]

theorem readValueWith_scalar (inner : Option (List UInt8 → Except Fault (Json × List UInt8)))
    {b : UInt8} (h : isSpace b = false) (harray : b ≠ 0x5b) (hobject : b ≠ 0x7b)
    (rest : List UInt8) : readValueWith inner (b :: rest) = readScalar b rest := by
  rw [readValueWith, skipSpace_cons h]
  dsimp only
  rw [if_neg harray, if_neg hobject]

theorem readScalar_text (s : String) (rest : List UInt8) :
    readScalar 0x22 (utf8OfChars (s.toList.flatMap escaped) ++ 0x22 :: rest) =
      .ok (.string s, rest) := by
  unfold readScalar
  simp only [show ((0x22 : UInt8) = 0x6e) = False by decide,
    show ((0x22 : UInt8) = 0x74) = False by decide, show ((0x22 : UInt8) = 0x66) = False by decide,
    if_false, if_true, readText_flatMap_escaped]
  rfl

theorem readValueWith_int (inner : Option (List UInt8 → Except Fault (Json × List UInt8)))
    {n : Int} (hn : IsWord n) {rest : List UInt8} (hr : Stops rest) :
    readValueWith inner (bytes (.int n) ++ rest) = .ok (.int n, rest) := by
  obtain ⟨hlow, hhigh⟩ := hn
  have hsize : UInt64.size = 18446744073709551616 := rfl
  have hword : n.natAbs ≤ maxWord := by
    unfold maxWord
    omega
  rw [bytes, chars, Decimal.integer]
  by_cases h : n < 0
  · rw [if_pos h, Text.utf8OfChars_cons]
    change readValueWith inner (0x2d :: (utf8OfChars (Decimal.natural n.natAbs) ++ rest)) = _
    rw [readValueWith_scalar inner rfl (by decide) (by decide)]
    change readNumber true (utf8OfChars (Decimal.natural n.natAbs) ++ rest) = _
    rw [readNumber_digits hword true hr, readAfterWhole_of_stops true _ hr, if_neg (by simp), if_neg]
    · rw [show -(n.natAbs : Int) = n by omega]
    · simp only [Bool.or_eq_true, decide_eq_true_eq]
      omega
  · have hread := readNumber_digits hword false hr
    rw [if_neg h]
    obtain ⟨b, more, he, hb⟩ := natural_eq_cons n.natAbs
    have hne := ne_of_digit hb
    rw [he, List.cons_append] at hread ⊢
    rw [readValueWith_scalar inner (by simp [isSpace, hne]) (hne _ (by decide)) (hne _ (by decide)),
      readScalar_of_digit hb, hread, readAfterWhole_of_stops false _ hr, if_pos (by simp)]
    rw [show (n.natAbs : Int) = n by omega]

/-! ## Arrays and objects -/

theorem readNextItem_first {b : UInt8} (h : isSpace b = false) (hclose : b ≠ 0x5d)
    (rest : List UInt8) : readNextItem true (b :: rest) = .ok (true, b :: rest) := by
  rw [readNextItem, skipSpace_cons h]
  dsimp only
  rw [if_neg hclose, if_pos rfl]

theorem readNextItem_comma {b : UInt8} (h : isSpace b = false) (hclose : b ≠ 0x5d)
    (rest : List UInt8) : readNextItem false (0x2c :: b :: rest) = .ok (true, b :: rest) := by
  rw [readNextItem, skipSpace_cons rfl]
  dsimp only
  rw [if_neg (by decide), if_neg (by decide), if_pos rfl, skipSpace_cons h]
  dsimp only
  rw [if_neg hclose]

theorem readItems_more {item : List UInt8 → Except Fault (Json × List UInt8)} {first : Bool}
    {input input' rest : List UInt8} {v : Json}
    (hnext : readNextItem first input = .ok (true, input')) (hitem : item input' = .ok (v, rest))
    (step : UInt8) (steps : List UInt8) (done : List Json) :
    readItems item (step :: steps) first done input =
      readItems item steps false (v :: done) rest := by
  rw [readItems, hnext]
  simp only [bind, Except.bind, if_true, hitem]

/-- Members are taken one after the other into a state, by reading what follows their names. -/
inductive Takes {σ : Type} (member : σ → String → List UInt8 → Except Fault (σ × List UInt8)) :
    σ → List (String × Json) → σ → Prop
  | nil (s : σ) : Takes member s [] s
  | cons {s s' s'' : σ} {name : String} {value : Json} {members : List (String × Json)}
    (h : ∀ rest, Stops rest → member s name (0x3a :: bytes value ++ rest) = .ok (s', rest))
    (hs : Takes member s' members s'') : Takes member s ((name, value) :: members) s''

section Takes

variable {σ : Type} {member : σ → String → List UInt8 → Except Fault (σ × List UInt8)}

theorem Takes.append {s s' s'' : σ} {a b : List (String × Json)} (ha : Takes member s a s')
    (hb : Takes member s' b s'') : Takes member s (a ++ b) s'' := by
  induction ha with
  | nil => exact hb
  | cons h _ ih => exact .cons h (ih hb)

theorem stops_membersChars (members : List (String × Json)) (rest : List UInt8) :
    Stops (utf8OfChars (membersChars members) ++ rest) := by
  cases members with
  | nil => exact stops_cons (.inr (.inr rfl)) rest
  | cons p members =>
    rw [utf8OfChars_membersChars_cons]
    exact stops_cons (.inl rfl) _

theorem stops_itemsChars (items : List Json) (rest : List UInt8) :
    Stops (utf8OfChars (itemsChars items) ++ rest) := by
  cases items with
  | nil => exact stops_cons (.inr (.inl rfl)) rest
  | cons item items =>
    rw [utf8OfChars_itemsChars_cons]
    exact stops_cons (.inl rfl) _

theorem readMembers_more {first : Bool} {s s' : σ} {name : String} {value : Json}
    {input rest : List UInt8} (hs : Stops rest)
    (hnext : readNextName first input = .ok (true,
      utf8OfChars (name.toList.flatMap escaped) ++ 0x22 :: (0x3a :: bytes value ++ rest)))
    (h : ∀ rest, Stops rest → member s name (0x3a :: bytes value ++ rest) = .ok (s', rest))
    (step : UInt8) (steps : List UInt8) :
    readMembers member (step :: steps) first s input = readMembers member steps false s' rest := by
  rw [readMembers, hnext]
  simp only [bind, Except.bind, if_true, readText_flatMap_escaped, h rest hs]

theorem readNextName_first (name : String) (more : List UInt8) :
    readNextName true (utf8OfChars (textChars name) ++ more) =
      .ok (true, utf8OfChars (name.toList.flatMap escaped) ++ 0x22 :: more) := by
  rw [utf8OfChars_textChars, List.append_assoc]
  rfl

theorem readNextName_comma (name : String) (more : List UInt8) :
    readNextName false (0x2c :: utf8OfChars (textChars name) ++ more) =
      .ok (true, utf8OfChars (name.toList.flatMap escaped) ++ 0x22 :: more) := by
  rw [utf8OfChars_textChars, List.cons_append, List.append_assoc]
  rfl

/-- The members of an object after the first are taken, and its closing brace. -/
theorem readMembers_of_takes {s s' : σ} {members : List (String × Json)}
    (h : Takes member s members s') {steps : List UInt8} (hs : members.length < steps.length)
    (rest : List UInt8) :
    readMembers member steps false s (utf8OfChars (membersChars members) ++ rest) =
      .ok (s', rest) := by
  induction h generalizing steps with
  | nil s =>
    cases steps with
    | nil => simp at hs
    | cons step steps => rfl
  | @cons s s' s'' name value members hm _ ih =>
    cases steps with
    | nil => simp at hs
    | cons step steps =>
      rw [utf8OfChars_membersChars_cons, List.append_assoc, List.append_assoc,
        readMembers_more (stops_membersChars members rest) (readNextName_comma name _) hm,
        ih (by simpa using hs)]

/-- An object's members are taken from after its opening brace. -/
theorem readMembers_object {s s' : σ} {members : List (String × Json)}
    (h : Takes member s members s') (rest : List UInt8) :
    ∃ more, bytes (.object members) = 0x7b :: more ∧
      readMembers member (0 :: (more ++ rest)) true s (more ++ rest) = .ok (s', rest) := by
  cases h with
  | nil => exact ⟨[0x7d], rfl, rfl⟩
  | @cons _ s' _ name value members hm h =>
    refine ⟨utf8OfChars (textChars name) ++ 0x3a :: bytes value ++
      utf8OfChars (membersChars members), bytes_object_cons name value members, ?_⟩
    rw [List.append_assoc, List.append_assoc,
      readMembers_more (stops_membersChars members rest) (readNextName_first name _) hm,
      readMembers_of_takes h]
    have := length_membersChars members
    simp only [List.length_append, List.length_cons]
    omega

end Takes

theorem insertMember_of_lt {name : String} (value : Json) {done : List (String × Json)}
    (h : ∀ p ∈ done, p.1 < name) : insertMember name value done = done ++ [(name, value)] := by
  induction done with
  | nil => rfl
  | cons p done ih =>
    have hp := h p List.mem_cons_self
    rw [insertMember, if_neg (lt_asymm hp), if_neg (ne_of_gt hp),
      ih fun q hq => h q (List.mem_cons_of_mem _ hq), List.cons_append]

/-- Reads a member of an object after its name and takes it to its place among the others. -/
def takeMember (item : List UInt8 → Except Fault (Json × List UInt8))
    (members : List (String × Json)) (name : String) (input : List UInt8) :
    Except Fault (List (String × Json) × List UInt8) := do
  let ((), rest) ← readColon input
  let (v, rest) ← item rest
  .ok (insertMember name v members, rest)

theorem readColon_cons (rest : List UInt8) : readColon (0x3a :: rest) = .ok ((), rest) := rfl

theorem takeMember_eq {item : List UInt8 → Except Fault (Json × List UInt8)}
    {done : List (String × Json)} {name : String} {value : Json} {rest : List UInt8}
    (hdone : ∀ p ∈ done, p.1 < name) (hitem : item (bytes value ++ rest) = .ok (value, rest)) :
    takeMember item done name (0x3a :: bytes value ++ rest) = .ok (done ++ [(name, value)], rest) := by
  rw [takeMember, List.cons_append, readColon_cons]
  simp only [bind, Except.bind, hitem]
  rw [insertMember_of_lt value hdone]

theorem readValue_array {room : Nat} {input rest : List UInt8} {items : List Json}
    (h : readItems (readValue room) (0 :: input) true [] input = .ok (items, rest)) :
    readValue (room + 1) (0x5b :: input) = .ok (.array items, rest) := by
  rw [readValue, readValueWith, skipSpace_cons rfl]
  simp only [if_true, h, bind, Except.bind]

theorem readValue_object {room : Nat} {input rest : List UInt8} {members : List (String × Json)}
    (h : readMembers (takeMember (readValue room)) (0 :: input) true [] input =
      .ok (members, rest)) :
    readValue (room + 1) (0x7b :: input) = .ok (.object members, rest) := by
  unfold takeMember at h
  rw [readValue, readValueWith, skipSpace_cons rfl]
  dsimp only
  rw [if_neg (by decide), if_pos rfl, h]
  rfl

/-! ## Values -/

theorem readValue_scalar (room : Nat) {b : UInt8} (h : isSpace b = false) (harray : b ≠ 0x5b)
    (hobject : b ≠ 0x7b) (rest : List UInt8) : readValue room (b :: rest) = readScalar b rest := by
  cases room <;> exact readValueWith_scalar _ h harray hobject rest

mutual

/-- A plain value that is not too deep is read back, and what stops it is left. -/
theorem readValue_bytes (v : Json) (room : Nat) (hd : depth v ≤ room) (hv : Plain v)
    (rest : List UInt8) (hr : Stops rest) : readValue room (bytes v ++ rest) = .ok (v, rest) := by
  match v with
  | .null => exact readValue_scalar room rfl (by decide) (by decide) _
  | .bool true => exact readValue_scalar room rfl (by decide) (by decide) _
  | .bool false => exact readValue_scalar room rfl (by decide) (by decide) _
  | .int n => cases room <;> exact readValueWith_int _ hv hr
  | .string s =>
    rw [bytes, chars, utf8OfChars_textChars, List.cons_append, List.cons_append, List.append_assoc,
      readValue_scalar room rfl (by decide) (by decide)]
    exact readScalar_text s rest
  | .double x => exact False.elim hv
  | .array items =>
    obtain ⟨room, rfl⟩ : ∃ n, room = n + 1 := Nat.exists_eq_add_one.2 (Nat.zero_lt_of_lt hd)
    match items with
    | [] => exact readValue_array rfl
    | item :: items =>
      obtain ⟨b, more, hb, hspace, hclose, -⟩ := bytes_eq_cons item
      have hfirst := readValue_bytes item room (by rw [depth, depthItems] at hd; omega) hv.1
        (utf8OfChars (itemsChars items) ++ rest) (stops_itemsChars items rest)
      have hothers := readItems_bytes items room (by rw [depth, depthItems] at hd; omega) hv.2 [item]
        (bytes item ++ (utf8OfChars (itemsChars items) ++ rest)) (by
          have := length_itemsChars items
          simp only [List.length_append]
          omega) rest
      rw [bytes_array_cons, List.append_assoc, List.cons_append]
      refine readValue_array ?_
      rw [readItems_more _ hfirst, hothers]
      · rfl
      · rw [hb]
        exact readNextItem_first hspace hclose _
  | .object members =>
    obtain ⟨room, rfl⟩ : ∃ n, room = n + 1 := Nat.exists_eq_add_one.2 (Nat.zero_lt_of_lt hd)
    have htakes := takes_members members room (Nat.le_of_succ_le_succ hd) hv [] (by simp)
    obtain ⟨more, hmore, hread⟩ := readMembers_object htakes rest
    rw [hmore]
    exact readValue_object hread

/-- The items of an array after the first are read back, and its closing bracket. -/
theorem readItems_bytes (items : List Json) (room : Nat) (hd : depthItems items ≤ room)
    (hv : PlainItems items) (done : List Json) (steps : List UInt8)
    (hs : items.length < steps.length) (rest : List UInt8) :
    readItems (readValue room) steps false done (utf8OfChars (itemsChars items) ++ rest) =
      .ok (done.reverse ++ items, rest) := by
  match items, steps with
  | items, [] => simp at hs
  | [], step :: steps =>
    rw [List.append_nil]
    rfl
  | item :: items, step :: steps =>
    obtain ⟨b, more, hb, hspace, hclose, -⟩ := bytes_eq_cons item
    have hfirst := readValue_bytes item room (by rw [depthItems] at hd; omega) hv.1
      (utf8OfChars (itemsChars items) ++ rest) (stops_itemsChars items rest)
    have hothers := readItems_bytes items room (by rw [depthItems] at hd; omega) hv.2 (item :: done)
      steps (by simpa using hs) rest
    rw [utf8OfChars_itemsChars_cons, List.append_assoc, List.cons_append, readItems_more _ hfirst,
      hothers]
    · simp
    · rw [hb]
      exact readNextItem_comma hspace hclose _

/-- The members of an object are taken to their places. -/
theorem takes_members (members : List (String × Json)) (room : Nat)
    (hd : depthMembers members ≤ room) (hv : PlainMembers members) (done : List (String × Json))
    (hdone : ∀ p ∈ done, ∀ q ∈ members, p.1 < q.1) :
    Takes (takeMember (readValue room)) done members (done ++ members) := by
  match members with
  | [] =>
    rw [List.append_nil]
    exact .nil done
  | (name, value) :: members =>
    have hvalue := readValue_bytes value room (by rw [depthMembers] at hd; omega) hv.2.1
    have hothers := takes_members members room (by rw [depthMembers] at hd; omega) hv.2.2
      (done ++ [(name, value)])
    rw [List.append_cons]
    refine .cons (fun rest hr => takeMember_eq ?_ (hvalue rest hr)) (hothers ?_)
    · exact fun p hp => hdone p hp _ List.mem_cons_self
    · intro p hp q hq
      rcases List.mem_append.1 hp with hp | hp
      · exact hdone p hp q (List.mem_cons_of_mem _ hq)
      · obtain rfl := List.mem_singleton.1 hp
        exact hv.1 q hq

end

/-- A plain value that is not too deep is the value of its text. -/
theorem parse_bytes {v : Json} (hd : depth v ≤ maxDepth) (hv : Plain v) : parse v.bytes = .ok v := by
  have hread := readValue_bytes v maxDepth hd hv [] stops_nil
  rw [List.append_nil] at hread
  rw [parse, hread]
  rfl

end PeerRpc.Json
