import PeerRpc.Proofs.Json.Spacing

/-!
# What is written follows the grammar

The text of any value is spelled by the grammar (`exists_spells_bytes`), however deep the value is
and whatever numbers it holds, and so it is passed over up to its end (`skipValue_bytes`), even if
no reader accepts it.

So a reader that gets to the end of an object that has been written takes its members one after the
other, each where it has been written (`taken_of_readMembers`), no matter what it makes of their
values.
-/

namespace PeerRpc.Json

open Text (utf8OfChars)
open Decimal (Spelling)

variable {rest : List UInt8}

theorem Stops.parted (h : Stops rest) : Parted rest :=
  fun b hb => .inr (h b hb)

/-! ## Numbers -/

theorem exists_figures {ds : List Nat} (hne : ds ≠ []) (hlt : ∀ d ∈ ds, d < 10) :
    ∃ n : Figures, n.digits = ds ∧ n.bytes = utf8OfChars (ds.map Decimal.digitChar) :=
  ⟨⟨ds, hne, hlt⟩, rfl, (Decimal.utf8OfChars_map_digitChar hlt).symm⟩

theorem exists_power (e : Option Int) :
    ∃ power, Numeral.powerBytes power = utf8OfChars (Spelling.exponentChars e) := by
  cases e with
  | none => exact ⟨none, rfl⟩
  | some e =>
    obtain ⟨n, -, hn⟩ := exists_figures (Decimal.digits_ne_nil e.natAbs) fun d hd =>
      Decimal.lt_of_mem_digits hd
    refine ⟨some ⟨false, some (decide (e < 0)), n⟩, ?_⟩
    rw [Numeral.powerBytes, Option.elim_some, Power.bytes, hn, Spelling.exponentChars]
    by_cases he : e < 0 <;> simp only [he, decide_true, decide_false, if_true, if_false] <;> rfl

theorem exists_fraction {ds : List Nat} (hlt : ∀ d ∈ ds, d < 10) :
    ∃ fraction, Numeral.fractionBytes fraction = utf8OfChars (Spelling.fractionChars ds) := by
  by_cases hds : ds = []
  · subst hds
    exact ⟨none, rfl⟩
  · obtain ⟨n, -, hn⟩ := exists_figures hds hlt
    refine ⟨some n, ?_⟩
    rw [Spelling.fractionChars_of_ne_nil hds, Numeral.fractionBytes, Option.elim_some, hn]
    rfl

theorem exists_numeral (n : Spelling) : ∃ m : Numeral, m.bytes = utf8OfChars n.chars := by
  obtain ⟨whole, hdigits, hwhole⟩ := exists_figures n.whole_ne_nil fun d hd =>
    n.digits_lt d (List.mem_append_left _ hd)
  obtain ⟨fraction, hfraction⟩ := exists_fraction fun d hd =>
    n.digits_lt d (List.mem_append_right n.whole hd)
  obtain ⟨power, hpower⟩ := exists_power n.exponent
  refine ⟨⟨whole, hdigits ▸ n.leading, fraction, power⟩, ?_⟩
  rw [Numeral.bytes, hwhole, hfraction, hpower, Spelling.chars, Text.utf8OfChars_append,
    Text.utf8OfChars_append, List.append_assoc]

theorem exists_spells_of_spelled {cs : List Char} (h : Decimal.Spelled cs) :
    ∃ t, Spells t (utf8OfChars cs) := by
  obtain ⟨n, hcs⟩ := h
  obtain ⟨m, hm⟩ := exists_numeral n
  rcases hcs with rfl | rfl
  · refine ⟨.scalar (.number false m), ?_⟩
    rw [← hm]
    exact .scalar _
  · refine ⟨.scalar (.number true m), ?_⟩
    rw [Text.utf8OfChars_cons, ← hm]
    exact .scalar _

/-! ## Texts -/

theorem exists_hexDigit {n : Nat} (hn : n < 16) :
    ∃ d : HexDigit, utf8OfChars [Text.hexDigit n] = [d.byte] := by
  interval_cases n <;> exact ⟨⟨_, by rfl⟩, rfl⟩

theorem written_pmap_plain (bytes : List UInt8) (h : ∀ b ∈ bytes, isOrdinary b = true) :
    written (bytes.pmap .plain h) = bytes := by
  induction bytes with
  | nil => rfl
  | cons b bytes ih =>
    rw [List.pmap_cons, written, List.flatMap_cons]
    exact congrArg (b :: ·) (ih fun b' hb' => h b' (List.mem_cons_of_mem _ hb'))

theorem exists_written_escaped (c : Char) : ∃ n, written n = utf8OfChars (escaped c) := by
  have hcode : ∀ n, c.toNat = n → c = Char.ofNat n := fun n hn => by rw [← hn, Char.ofNat_toNat]
  by_cases hquote : c = '"'
  · subst hquote
    exact ⟨[.short .quote], rfl⟩
  by_cases hslash : c = '\\'
  · subst hslash
    exact ⟨[.short .backslash], rfl⟩
  by_cases hback : c.toNat = 8
  · rw [hcode 8 hback]
    exact ⟨[.short .backspace], rfl⟩
  by_cases hfeed : c.toNat = 12
  · rw [hcode 12 hfeed]
    exact ⟨[.short .formFeed], rfl⟩
  by_cases hline : c = '\n'
  · subst hline
    exact ⟨[.short .lineFeed], rfl⟩
  by_cases hreturn : c = '\r'
  · subst hreturn
    exact ⟨[.short .carriageReturn], rfl⟩
  by_cases htab : c = '\t'
  · subst htab
    exact ⟨[.short .tab], rfl⟩
  by_cases hcontrol : c.toNat < 0x20
  · obtain ⟨high, hhigh⟩ := exists_hexDigit (n := c.toNat / 16) (by omega)
    obtain ⟨low, hlow⟩ := exists_hexDigit (n := c.toNat % 16) (by omega)
    refine ⟨[.unit ⟨0x30, rfl⟩ ⟨0x30, rfl⟩ high low], ?_⟩
    have hescaped : escaped c = ['\\', 'u', '0', '0'] ++
        ([Text.hexDigit (c.toNat / 16)] ++ [Text.hexDigit (c.toNat % 16)]) := by
      simp [escaped, hquote, hslash, hback, hfeed, hline, hreturn, htab, hcontrol]
    rw [hescaped, Text.utf8OfChars_append, Text.utf8OfChars_append, hhigh, hlow]
    rfl
  · have hplain : escaped c = [c] := by
      simp [escaped, hquote, hslash, hback, hfeed, hline, hreturn, htab, hcontrol]
    refine ⟨(String.utf8EncodeChar c).pmap .plain (isOrdinary_of_char hquote hslash hcontrol), ?_⟩
    rw [hplain, Text.utf8OfChars_cons, Text.utf8OfChars_nil, List.append_nil, written_pmap_plain]

/-- What is written for some characters is a text of the grammar. -/
theorem exists_written_flatMap (cs : List Char) :
    ∃ n, written n = utf8OfChars (cs.flatMap escaped) := by
  induction cs with
  | nil => exact ⟨[], rfl⟩
  | cons c cs ih =>
    obtain ⟨n, hn⟩ := exists_written_escaped c
    obtain ⟨n', hn'⟩ := ih
    refine ⟨n ++ n', ?_⟩
    rw [List.flatMap_cons, Text.utf8OfChars_append, ← hn, ← hn', written, List.flatMap_append]
    rfl

/-! ## Values -/

mutual

/-- What is written for a value is spelled by the grammar. -/
theorem exists_spells_bytes (v : Json) : ∃ t, Spells t (bytes v) := by
  match v with
  | .null => exact ⟨_, .scalar .null⟩
  | .bool true => exact ⟨_, .scalar (.bool true)⟩
  | .bool false => exact ⟨_, .scalar (.bool false)⟩
  | .int n => exact exists_spells_of_spelled (Decimal.spelled_integer n)
  | .double x => exact exists_spells_of_spelled (Decimal.spelled_double numberLayout x)
  | .string s =>
    obtain ⟨n, hn⟩ := exists_written_flatMap s.toList
    refine ⟨.scalar (.text n), ?_⟩
    rw [bytes, chars, utf8OfChars_textChars, ← hn]
    exact .scalar _
  | .array [] => exact ⟨_, .array (.nil blank_nil)⟩
  | .array (item :: items) =>
    obtain ⟨t, ht⟩ := exists_spells_bytes item
    obtain ⟨ts, hts⟩ := exists_spellsItems items
    rw [bytes_array_cons]
    exact ⟨_, .array (.cons .first blank_nil ht hts)⟩
  | .object [] => exact ⟨_, .object (.nil blank_nil)⟩
  | .object ((name, value) :: members) =>
    obtain ⟨n, hn⟩ := exists_written_flatMap name.toList
    obtain ⟨t, ht⟩ := exists_spells_bytes value
    obtain ⟨ts, hts⟩ := exists_spellsMembers members
    refine ⟨.object ((n, t) :: ts), ?_⟩
    rw [bytes_object_cons, utf8OfChars_textChars, ← hn]
    simp only [List.cons_append, List.append_assoc]
    exact .object (.cons .first blank_nil blank_nil blank_nil ht hts)

/-- What is written for the items after the first is spelled by the grammar. -/
theorem exists_spellsItems (items : List Json) :
    ∃ ts, SpellsItems false ts (utf8OfChars (itemsChars items)) := by
  match items with
  | [] => exact ⟨_, .nil blank_nil⟩
  | item :: items =>
    obtain ⟨t, ht⟩ := exists_spells_bytes item
    obtain ⟨ts, hts⟩ := exists_spellsItems items
    rw [utf8OfChars_itemsChars_cons]
    exact ⟨_, .cons (.comma blank_nil) blank_nil ht hts⟩

/-- What is written for the members after the first is spelled by the grammar. -/
theorem exists_spellsMembers (members : List (String × Json)) :
    ∃ ts, SpellsMembers false ts (utf8OfChars (membersChars members)) := by
  match members with
  | [] => exact ⟨_, .nil blank_nil⟩
  | (name, value) :: members =>
    obtain ⟨n, hn⟩ := exists_written_flatMap name.toList
    obtain ⟨t, ht⟩ := exists_spells_bytes value
    obtain ⟨ts, hts⟩ := exists_spellsMembers members
    refine ⟨(n, t) :: ts, ?_⟩
    rw [utf8OfChars_membersChars_cons, utf8OfChars_textChars, ← hn]
    simp only [List.cons_append, List.append_assoc]
    exact .cons (.comma blank_nil) blank_nil blank_nil blank_nil ht hts

end

/-- The text of a value is passed over up to its end. -/
theorem skipValue_bytes (v : Json) (hr : Stops rest) : skipValue (bytes v ++ rest) = .ok rest := by
  obtain ⟨t, ht⟩ := exists_spells_bytes v
  exact skipValue_spells blank_nil ht hr.parted

/-! ## Members -/

/-- Members that have been written are taken one after the other into a state, each where it has
been written. -/
inductive Taken {σ : Type} (member : σ → String → List UInt8 → Except Fault (σ × List UInt8)) :
    σ → List (String × Json) → σ → Prop
  | nil (s : σ) : Taken member s [] s
  | cons {s s' s'' : σ} {name : String} {value : Json} {members : List (String × Json)}
    {rest : List UInt8} (hr : Stops rest)
    (h : member s name (0x3a :: bytes value ++ rest) = .ok (s', rest))
    (hs : Taken member s' members s'') : Taken member s ((name, value) :: members) s''

section Taken

variable {σ : Type} {member : σ → String → List UInt8 → Except Fault (σ × List UInt8)}

/-- What a member of another name leaves alone is left alone by members of other names. -/
theorem Taken.keeps {α : Type} {f : σ → α} {key : String}
    (hf : ∀ {s name input s' rest}, name ≠ key → member s name input = .ok (s', rest) → f s' = f s)
    {s s' : σ} {members : List (String × Json)} (h : Taken member s members s')
    (hkey : ∀ p ∈ members, p.1 ≠ key) : f s' = f s := by
  induction h with
  | nil => rfl
  | cons hr hm _ ih =>
    rw [ih fun p hp => hkey p (List.mem_cons_of_mem _ hp)]
    exact hf (hkey _ List.mem_cons_self) hm

variable {s s' : σ} {after input : List UInt8} {members : List (String × Json)}

/-- The member at which a reader of members comes next has been read up to where it ends. -/
theorem exists_of_readMembers (hmember : Regular member) {step : UInt8} {steps : List UInt8}
    {first : Bool} {name : String} {value : Json}
    (hnext : readNextName first input = .ok (true,
      utf8OfChars (name.toList.flatMap escaped) ++ 0x22 :: (0x3a :: bytes value ++ rest)))
    (hr : Stops rest) (h : readMembers member (step :: steps) first s input = .ok (s', after)) :
    ∃ s'', member s name (0x3a :: bytes value ++ rest) = .ok (s'', rest) ∧
      readMembers member steps false s'' rest = .ok (s', after) := by
  obtain ⟨⟨more, inside⟩, hnext', h⟩ := ok_of_bind h
  cases hnext.symm.trans hnext'
  obtain ⟨⟨name', colon⟩, hname, h⟩ := ok_of_bind h
  cases (readText_flatMap_escaped name _).symm.trans hname
  obtain ⟨⟨s'', rest'⟩, hm, h⟩ := ok_of_bind h
  obtain ⟨value', hcolon, hvalue⟩ := hmember hm
  cases (readColon_cons _).symm.trans hcolon
  cases (skipValue_bytes value hr).symm.trans hvalue
  exact ⟨s'', hm, h⟩

/-- The members after the first that have been written are taken in turn. -/
theorem taken_of_readMembers (hmember : Regular member) {steps : List UInt8}
    (h : readMembers member steps false s (utf8OfChars (membersChars members) ++ rest) =
      .ok (s', after)) : Taken member s members s' := by
  induction members generalizing s steps with
  | nil =>
    cases steps with
    | nil => cases h
    | cons step steps =>
      cases h
      exact .nil _
  | cons p members ih =>
    obtain ⟨name, value⟩ := p
    cases steps with
    | nil => cases h
    | cons step steps =>
      have hr := stops_membersChars members rest
      rw [utf8OfChars_membersChars_cons, List.append_assoc, List.append_assoc] at h
      obtain ⟨s'', hm, h⟩ := exists_of_readMembers hmember (readNextName_comma name _) hr h
      exact .cons hr hm (ih h)

/-- The members of an object that has been written are taken in turn. -/
theorem taken_of_object (hmember : Regular member) (hinput : bytes (.object members) = 0x7b :: input)
    (h : readMembers member (0 :: (input ++ rest)) true s (input ++ rest) = .ok (s', after)) :
    Taken member s members s' := by
  cases members with
  | nil =>
    cases hinput
    cases h
    exact .nil s
  | cons p members =>
    obtain ⟨name, value⟩ := p
    rw [bytes_object_cons, List.cons_append, List.cons_append] at hinput
    obtain ⟨-, rfl⟩ := List.cons.inj hinput
    have hr := stops_membersChars members rest
    rw [List.append_assoc, List.append_assoc] at h
    obtain ⟨s'', hm, h⟩ := exists_of_readMembers hmember (readNextName_first name _) hr h
    exact .cons hr hm (taken_of_readMembers hmember h)

end Taken

end PeerRpc.Json
