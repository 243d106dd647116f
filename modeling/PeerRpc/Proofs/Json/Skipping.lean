import PeerRpc.Proofs.Json.Reading

/-!
# What reads a value and what passes over it

Whoever reads a value leaves the same bytes as `skipValue`, which passes over it without a look at
what it holds. Two readers that both accept what stands at a place therefore go on at the same
place, whatever each of them has made of it.

The passing over keeps a stack of what is open instead of calling itself. `Leads` says that it gets
from one place and stack to another; a value that is passed over leads to its end whatever is open
around it (`skipValue_iff`), so that arrays and objects can be put together from their parts.

* `passes_readValue`: a value that is read is passed over up to the same place.
-/

namespace PeerRpc.Json

theorem ok_of_bind {α β : Type} {x : Except Fault α} {f : α → Except Fault β} {b : β}
    (h : x >>= f = .ok b) : ∃ a, x = .ok a ∧ f a = .ok b := by
  cases x with
  | error fault => cases h
  | ok a => exact ⟨a, rfl, h⟩

variable {input rest : List UInt8}

/-! ## Lengths -/

theorem length_skipSpace (input : List UInt8) : (skipSpace input).length ≤ input.length :=
  (List.dropWhile_sublist _).length_le

theorem length_of_skipSpace {b : UInt8} (h : skipSpace input = b :: rest) :
    rest.length < input.length := by
  have := length_skipSpace input
  rw [h, List.length_cons] at this
  omega

theorem skipSpace_skipSpace (input : List UInt8) : skipSpace (skipSpace input) = skipSpace input :=
  List.dropWhile_idempotent _ _

theorem skipOpen_skipSpace (steps : List UInt8) (opened : List Open) (input : List UInt8) :
    skipOpen steps true opened (skipSpace input) = skipOpen steps true opened input := by
  cases steps with
  | nil => rfl
  | cons step steps => simp only [skipOpen, skipSpace_skipSpace]

theorem length_readWord {word : List UInt8} (h : readWord word input = .ok ((), rest)) :
    rest.length ≤ input.length := by
  induction word generalizing input with
  | nil =>
    cases h
    exact le_rfl
  | cons b word ih =>
    cases input with
    | nil => cases h
    | cons b' input =>
      rw [readWord] at h
      split_ifs at h
      exact (ih h).trans (Nat.le_succ _)

theorem length_run (input : List UInt8) :
    (Decimal.run input).1.length + (Decimal.run input).2.length = input.length := by
  fun_induction Decimal.run input with
  | case1 => rfl
  | case2 b rest h => simp
  | case3 b rest d h ds after he ih =>
    rw [he] at ih
    simp only [List.length_cons] at ih ⊢
    omega

theorem length_of_run {ds : List Nat} (h : Decimal.run input = (ds, rest)) (hds : ds ≠ []) :
    rest.length < input.length := by
  have hlength := length_run input
  rw [h] at hlength
  have := List.length_pos_of_ne_nil hds
  dsimp only at hlength
  omega

theorem length_skipSomeDigits (h : skipSomeDigits input = .ok rest) :
    rest.length < input.length := by
  unfold skipSomeDigits at h
  split at h
  · cases h
  · rename_i ds rest' hds hrun
    cases h
    exact length_of_run hrun hds

theorem length_exponentSign (input : List UInt8) :
    (exponentSign input).2.length ≤ input.length := by
  fun_cases exponentSign input <;> simp

theorem length_skipExponent (h : skipExponent input = .ok rest) : rest.length ≤ input.length := by
  cases input with
  | nil =>
    cases h
    exact le_rfl
  | cons b input =>
    rw [skipExponent] at h
    split_ifs at h
    · have := length_skipSomeDigits h
      have := length_exponentSign input
      rw [List.length_cons]
      omega
    · cases h
      exact le_rfl

theorem length_skipNumber (h : skipNumber input = .ok rest) : rest.length < input.length := by
  unfold skipNumber at h
  split at h
  · cases h
  · cases h
  · rename_i ds hds _ hrun
    cases h
    exact length_of_run hrun hds
  · rename_i ds b more hds _ hrun
    have hlt := length_of_run hrun hds
    rw [List.length_cons] at hlt
    split_ifs at h
    · obtain ⟨after, hafter, h⟩ := ok_of_bind h
      have := length_skipSomeDigits hafter
      have := length_skipExponent h
      omega
    · have := length_skipExponent h
      rw [List.length_cons] at this
      omega

theorem length_readHex {n : Nat} (h : readHex input = .ok (n, rest)) :
    rest.length ≤ input.length := by
  unfold readHex at h
  split at h
  · split at h
    · cases h
      simp only [List.length_cons]
      omega
    · cases h
  · cases h

theorem length_skipEscape (h : skipEscape input = .ok rest) : rest.length ≤ input.length := by
  cases input with
  | nil => cases h
  | cons b input =>
    rw [skipEscape] at h
    split_ifs at h
    · obtain ⟨⟨n, after⟩, hafter, h⟩ := ok_of_bind h
      cases h
      exact (length_readHex hafter).trans (Nat.le_succ _)
    · cases h
      exact Nat.le_succ _

theorem length_skipText {steps : List UInt8} (h : skipText steps input = .ok rest) :
    rest.length < input.length := by
  induction steps generalizing input with
  | nil => cases h
  | cons step steps ih =>
    cases input with
    | nil => cases h
    | cons b input =>
      rw [skipText] at h
      split_ifs at h
      · cases h
        exact Nat.lt_succ_self _
      · obtain ⟨after, hafter, h⟩ := ok_of_bind h
        have := ih h
        have := length_skipEscape hafter
        rw [List.length_cons]
        omega
      · exact (ih h).trans (Nat.lt_succ_self _)

theorem length_skipScalar {b : UInt8} (h : skipScalar b input = .ok rest) :
    rest.length ≤ input.length := by
  have hword : ∀ {word : List UInt8} {f : Unit × List UInt8 → Except Fault (List UInt8)},
      (∀ after, f ((), after) = .ok after) → (readWord word input >>= f) = .ok rest →
      rest.length ≤ input.length := by
    intro word f hf h
    obtain ⟨⟨⟨⟩, after⟩, hafter, h⟩ := ok_of_bind h
    cases (hf after).symm.trans h
    exact length_readWord hafter
  unfold skipScalar at h
  split_ifs at h
  · exact hword (fun _ => rfl) h
  · exact hword (fun _ => rfl) h
  · exact hword (fun _ => rfl) h
  · exact (length_skipText h).le
  · exact (length_skipNumber h).le
  · exact Nat.le_of_lt_succ (length_skipNumber h)

theorem length_readColon (h : readColon input = .ok ((), rest)) : rest.length < input.length := by
  unfold readColon at h
  split at h
  · cases h
  · rename_i b more hspace
    split_ifs at h
    cases h
    exact length_of_skipSpace hspace

theorem length_skipName (h : skipName input = .ok rest) : rest.length < input.length := by
  unfold skipName at h
  split at h
  · cases h
  · rename_i b more hspace
    split_ifs at h
    obtain ⟨after, hafter, h⟩ := ok_of_bind h
    obtain ⟨⟨⟨⟩, after'⟩, hcolon, h⟩ := ok_of_bind h
    cases h
    have := length_of_skipSpace hspace
    have := length_skipText hafter
    have := length_readColon hcolon
    omega

/-! ## Scalars -/

variable {v : Json}

theorem skipExponent_of_readExponent {negative : Bool} {significand : Nat} {exponent : Int}
    (h : readExponent negative significand exponent input = .ok (v, rest)) :
    skipExponent input = .ok rest := by
  cases input with
  | nil =>
    obtain ⟨x, -, h⟩ := ok_of_bind h
    cases h
    rfl
  | cons b input =>
    rw [readExponent] at h
    rw [skipExponent]
    split_ifs at h ⊢
    · dsimp only at h
      rw [skipSomeDigits]
      split at h
      · cases h
      · cases h
      · rename_i ds after hne hds hrun
        rw [hrun]
        have hafter : after = rest := by
          split at h
          · split_ifs at h
            cases h
            rfl
          · obtain ⟨x, -, h⟩ := ok_of_bind h
            cases h
            rfl
        cases ds with
        | nil => exact absurd rfl hds
        | cons d ds => rw [hafter]
    · obtain ⟨x, -, h⟩ := ok_of_bind h
      cases h
      rfl

/-- Passes over a fraction and an exponent, if there are any. -/
def skipFraction : List UInt8 → Except Fault (List UInt8)
  | [] => .ok []
  | b :: rest =>
    if b = 0x2e then do skipExponent (← skipSomeDigits rest) else skipExponent (b :: rest)

theorem skipFraction_of_readAfterWhole {negative : Bool} {significand dropped : Nat}
    (h : readAfterWhole negative significand dropped input = .ok (v, rest)) :
    skipFraction input = .ok rest := by
  have hplain : ∀ n : Int, (if dropped ≠ 0 then readExponent negative significand dropped input
      else if !negative then .ok (.int significand, input)
      else if significand = 0 || UInt64.size / 2 < significand then
        readExponent negative significand 0 input
      else .ok (.int n, input)) = .ok (v, rest) →
      skipExponent input = .ok rest ∨ input = rest := by
    intro n h
    split_ifs at h
    · exact .inl (skipExponent_of_readExponent h)
    · cases h
      exact .inr rfl
    · exact .inl (skipExponent_of_readExponent h)
    · cases h
      exact .inr rfl
  cases input with
  | nil =>
    rcases hplain _ h with h | rfl
    · exact h
    · rfl
  | cons b input =>
    by_cases hdot : b = 0x2e
    · subst hdot
      rw [skipFraction, if_pos rfl]
      simp only [readAfterWhole, ne_eq, not_true_eq_false, decide_false, Bool.false_and, if_true,
        Bool.false_eq_true, if_false] at h
      rw [skipSomeDigits]
      split at h
      · cases h
      · cases h
      · rename_i ds after _ hds hrun
        rw [hrun]
        cases ds with
        | nil => exact absurd rfl hds
        | cons d ds => exact skipExponent_of_readExponent h
    · rw [skipFraction, if_neg hdot]
      by_cases hmark : isExponentMark b = true
      · simp only [readAfterWhole, hmark, hdot, Bool.not_true, Bool.and_false, if_false,
          Bool.false_eq_true] at h
        exact skipExponent_of_readExponent h
      · have hb : (decide (b ≠ 0x2e) && !isExponentMark b) = true := by simp [hdot, hmark]
        simp only [readAfterWhole, hb, if_true] at h
        rcases hplain _ h with h | rfl
        · exact h
        · rw [skipExponent, if_neg hmark]

theorem skipNumber_of_run {after : List UInt8} {ds : List Nat}
    (hrun : Decimal.run input = (ds, after)) (hne : ds ≠ []) (hlead : ds.head? = some 0 → ds = [0]) :
    skipNumber input = skipFraction after := by
  unfold skipNumber
  rw [hrun]
  split
  · rename_i he
    exact absurd (Prod.mk.inj he).1 hne
  · rename_i he
    obtain ⟨rfl, -⟩ := Prod.mk.inj he
    cases hlead rfl
  · rename_i he
    obtain ⟨-, rfl⟩ := Prod.mk.inj he
    rfl
  · rename_i he
    obtain ⟨-, rfl⟩ := Prod.mk.inj he
    rfl

theorem skipNumber_of_readNumber {negative : Bool}
    (h : readNumber negative input = .ok (v, rest)) : skipNumber input = .ok rest := by
  unfold readNumber at h
  unfold skipNumber
  split at h
  · cases h
  · cases h
  · cases h
  · rename_i ds after _ hds hzero hrun
    have hskip := skipFraction_of_readAfterWhole h
    rw [hrun]
    split
    · rename_i he
      exact (hds (Prod.mk.inj he).1).elim
    · rename_i he
      exact (hzero _ _ (Prod.mk.inj he).1).elim
    · rename_i he
      obtain ⟨-, rfl⟩ := Prod.mk.inj he
      exact hskip
    · rename_i he
      obtain ⟨-, rfl⟩ := Prod.mk.inj he
      exact hskip

/-- The second half of a character that takes two escapes is an escape of its own. -/
theorem skipEscape_of_readLowHalf {high : Nat} {c : Char}
    (h : readLowHalf high input = .ok (c, rest)) :
    ∃ half, input = 0x5c :: half ∧ skipEscape half = .ok rest := by
  unfold readLowHalf at h
  split at h
  · cases h
  · rename_i b more
    split_ifs at h with hslash
    split at h
    · cases h
    · rename_i b' half
      split_ifs at h with hu
      obtain ⟨⟨low, after⟩, hhex, h⟩ := ok_of_bind h
      dsimp only at h
      split_ifs at h
      obtain ⟨-, rfl⟩ := Prod.mk.inj (Except.ok.inj h)
      obtain rfl := not_not.1 hslash
      obtain rfl := not_not.1 hu
      refine ⟨_, rfl, ?_⟩
      rw [skipEscape, if_pos rfl, hhex]
      rfl

/-- A character is written as one escape, or as two. -/
theorem skipEscape_of_readEscape {c : Char} (h : readEscape input = .ok (c, rest)) :
    skipEscape input = .ok rest ∨
      ∃ half, skipEscape input = .ok (0x5c :: half) ∧ skipEscape half = .ok rest := by
  cases input with
  | nil => cases h
  | cons b input =>
    rw [readEscape] at h
    by_cases hu : b = 0x75
    · subst hu
      simp only [show ((0x75 : UInt8) = 0x22) = False by decide,
        show ((0x75 : UInt8) = 0x5c) = False by decide,
        show ((0x75 : UInt8) = 0x2f) = False by decide,
        show ((0x75 : UInt8) = 0x62) = False by decide,
        show ((0x75 : UInt8) = 0x66) = False by decide,
        show ((0x75 : UInt8) = 0x6e) = False by decide,
        show ((0x75 : UInt8) = 0x72) = False by decide,
        show ((0x75 : UInt8) = 0x74) = False by decide, if_false, if_true] at h
      obtain ⟨⟨n, after⟩, hhex, h⟩ := ok_of_bind h
      have hskip : skipEscape (0x75 :: input) = .ok after := by
        rw [skipEscape, if_pos rfl, hhex]
        rfl
      dsimp only at h
      split_ifs at h
      · obtain ⟨half, rfl, hhalf⟩ := skipEscape_of_readLowHalf h
        exact .inr ⟨half, hskip, hhalf⟩
      · obtain ⟨-, rfl⟩ := Prod.mk.inj (Except.ok.inj h)
        exact .inl hskip
    · left
      rw [skipEscape, if_neg hu]
      split_ifs at h <;> cases h <;> subst b <;> rfl

theorem skipText_cons {b : UInt8} (hquote : b ≠ 0x22) (hslash : b ≠ 0x5c) (hcontrol : ¬b < 0x20)
    (step : UInt8) (steps input : List UInt8) :
    skipText (step :: steps) (b :: input) = skipText steps input := by
  rw [skipText, if_neg hquote, if_neg hslash, if_neg hcontrol]

theorem skipText_escape {half : List UInt8} (h : skipEscape half = .ok input)
    (step : UInt8) (steps : List UInt8) :
    skipText (step :: steps) (0x5c :: half) = skipText steps input := by
  rw [skipText, if_neg (by decide), if_pos rfl, h]
  rfl

theorem skipText_of_readTextBytes {steps done bytes : List UInt8}
    (h : readTextBytes steps done input = .ok (bytes, rest)) {steps' : List UInt8}
    (hs : input.length < steps'.length) : skipText steps' input = .ok rest := by
  induction steps generalizing done input steps' with
  | nil => cases h
  | cons step steps ih =>
    cases input with
    | nil => cases h
    | cons b input =>
      obtain ⟨step', steps', rfl⟩ := List.exists_cons_of_length_pos (Nat.zero_lt_of_lt hs)
      rw [readTextBytes] at h
      simp only [List.length_cons, Nat.add_lt_add_iff_right] at hs
      split_ifs at h with hquote hslash hcontrol
      · cases h
        rw [skipText, if_pos hquote]
      · subst hslash
        obtain ⟨⟨c, after⟩, hescape, h⟩ := ok_of_bind h
        rcases skipEscape_of_readEscape hescape with hone | ⟨half, htwo, hhalf⟩
        · rw [skipText_escape hone]
          exact ih h ((length_skipEscape hone).trans_lt hs)
        · have hfirst := length_skipEscape htwo
          have hsecond := length_skipEscape hhalf
          rw [List.length_cons] at hfirst
          obtain ⟨step'', steps', rfl⟩ := List.exists_cons_of_length_pos (Nat.zero_lt_of_lt hs)
          rw [List.length_cons] at hs
          rw [skipText_escape htwo, skipText_escape hhalf]
          exact ih h (by omega)
      · rw [skipText_cons hquote hslash hcontrol]
        exact ih h hs

theorem skipText_of_readText {s : String} (h : readText input = .ok (s, rest)) :
    skipText (0 :: input) input = .ok rest := by
  obtain ⟨⟨bytes, after⟩, hbytes, h⟩ := ok_of_bind h
  dsimp only at h
  split at h
  · cases h
    exact skipText_of_readTextBytes hbytes (Nat.lt_succ_self _)
  · cases h

theorem skipScalar_of_readScalar {b : UInt8} (h : readScalar b input = .ok (v, rest)) :
    skipScalar b input = .ok rest := by
  have hword : ∀ {word : List UInt8} {w : Json}
      {f : Unit × List UInt8 → Except Fault (Json × List UInt8)}
      {g : Unit × List UInt8 → Except Fault (List UInt8)},
      (∀ after, f ((), after) = .ok (w, after)) → (∀ after, g ((), after) = .ok after) →
      (readWord word input >>= f) = .ok (v, rest) → (readWord word input >>= g) = .ok rest := by
    intro word w f g hf hg h
    obtain ⟨⟨⟨⟩, after⟩, hafter, h⟩ := ok_of_bind h
    cases (hf after).symm.trans h
    rw [hafter]
    exact hg rest
  unfold readScalar at h
  unfold skipScalar
  split_ifs at h ⊢
  · exact hword (fun _ => rfl) (fun _ => rfl) h
  · exact hword (fun _ => rfl) (fun _ => rfl) h
  · exact hword (fun _ => rfl) (fun _ => rfl) h
  · obtain ⟨⟨s, after⟩, hafter, h⟩ := ok_of_bind h
    cases h
    exact skipText_of_readText hafter
  · exact skipNumber_of_readNumber h
  · exact skipNumber_of_readNumber h

theorem skipScalar_of_digit {b : UInt8} (h : 48 ≤ b.toNat ∧ b.toNat ≤ 57) (more : List UInt8) :
    skipScalar b more = skipNumber (b :: more) := by
  have hne := ne_of_digit h
  unfold skipScalar
  rw [if_neg (hne _ (by decide)), if_neg (hne _ (by decide)), if_neg (hne _ (by decide)),
    if_neg (hne _ (by decide)), if_neg (hne _ (by decide))]

/-! ## Places -/

/-- A place that the passing over can come to. -/
structure Place where
  /-- Whether the next thing is a value; otherwise one has just ended. -/
  before : Bool
  opened : List Open
  /-- The bytes that are left. -/
  input : List UInt8

/-- The passing over gets from one place to another. -/
def Leads (p q : Place) : Prop :=
  ∀ steps : List UInt8, p.input.length < steps.length →
    ∃ steps' : List UInt8, q.input.length < steps'.length ∧
      skipOpen steps p.before p.opened p.input = skipOpen steps' q.before q.opened q.input

theorem Leads.trans {p q r : Place} (h : Leads p q) (h' : Leads q r) : Leads p r := by
  intro steps hs
  obtain ⟨steps', hs', he⟩ := h steps hs
  obtain ⟨steps'', hs'', he'⟩ := h' steps' hs'
  exact ⟨steps'', hs'', he.trans he'⟩

theorem Leads.of_step {p q : Place} (hlength : q.input.length < p.input.length)
    (h : ∀ step steps, skipOpen (step :: steps) p.before p.opened p.input =
      skipOpen steps q.before q.opened q.input) : Leads p q := by
  intro steps hs
  obtain ⟨step, steps, rfl⟩ := List.exists_cons_of_length_pos (Nat.zero_lt_of_lt hs)
  rw [List.length_cons] at hs
  exact ⟨steps, by omega, h step steps⟩

variable {b : UInt8} {inside : List UInt8} (opened : List Open)

theorem Leads.of_skipSpace {q : Place} (h : Leads ⟨true, opened, skipSpace input⟩ q) :
    Leads ⟨true, opened, input⟩ q := by
  intro steps hs
  obtain ⟨steps', hs', he⟩ := h steps ((length_skipSpace input).trans_lt hs)
  exact ⟨steps', hs', (skipOpen_skipSpace steps opened input).symm.trans he⟩

theorem Leads.scalar (hspace : skipSpace input = b :: inside) (harray : b ≠ 0x5b)
    (hobject : b ≠ 0x7b) (h : skipScalar b inside = .ok rest) :
    Leads ⟨true, opened, input⟩ ⟨false, opened, rest⟩ := by
  refine .of_step ((length_skipScalar h).trans_lt (length_of_skipSpace hspace)) ?_
  intro step steps
  simp only [skipOpen, hspace, harray, hobject, if_false, h]
  rfl

theorem Leads.emptyArray (hspace : skipSpace input = 0x5b :: inside)
    (h : skipSpace inside = 0x5d :: rest) :
    Leads ⟨true, opened, input⟩ ⟨false, opened, rest⟩ := by
  refine .of_step ((length_of_skipSpace h).trans (length_of_skipSpace hspace)) ?_
  intro step steps
  simp only [skipOpen, hspace, h, if_true]

theorem Leads.openArray (hspace : skipSpace input = 0x5b :: inside)
    (h : skipSpace inside = b :: rest) (hb : b ≠ 0x5d) :
    Leads ⟨true, opened, input⟩ ⟨true, .array :: opened, b :: rest⟩ := by
  refine .of_step ?_ ?_
  · have := length_of_skipSpace hspace
    have := length_of_skipSpace h
    simp only [List.length_cons]
    omega
  · intro step steps
    simp only [skipOpen, hspace, h, hb, if_true, if_false]

theorem Leads.emptyObject (hspace : skipSpace input = 0x7b :: inside)
    (h : skipSpace inside = 0x7d :: rest) :
    Leads ⟨true, opened, input⟩ ⟨false, opened, rest⟩ := by
  refine .of_step ((length_of_skipSpace h).trans (length_of_skipSpace hspace)) ?_
  intro step steps
  simp only [skipOpen, hspace, h, if_true, show ((0x7b : UInt8) = 0x5b) = False by decide, if_false]

theorem Leads.openObject (hspace : skipSpace input = 0x7b :: inside)
    (h : skipSpace inside = b :: rest) (hb : b ≠ 0x7d) {after : List UInt8}
    (hname : skipName (b :: rest) = .ok after) :
    Leads ⟨true, opened, input⟩ ⟨true, .object :: opened, after⟩ := by
  refine .of_step ?_ ?_
  · have := length_of_skipSpace hspace
    have := length_of_skipSpace h
    have := length_skipName hname
    simp only [List.length_cons] at this ⊢
    omega
  · intro step steps
    simp only [skipOpen, hspace, h, hb, if_true, if_false,
      show ((0x7b : UInt8) = 0x5b) = False by decide, hname]
    rfl

theorem Leads.nextItem (hspace : skipSpace input = 0x2c :: rest) :
    Leads ⟨false, .array :: opened, input⟩ ⟨true, .array :: opened, rest⟩ := by
  refine .of_step (length_of_skipSpace hspace) ?_
  intro step steps
  simp only [skipOpen, hspace, if_true]

theorem Leads.nextMember (hspace : skipSpace input = 0x2c :: inside)
    (h : skipName inside = .ok rest) :
    Leads ⟨false, .object :: opened, input⟩ ⟨true, .object :: opened, rest⟩ := by
  refine .of_step ((length_skipName h).trans (length_of_skipSpace hspace)) ?_
  intro step steps
  simp only [skipOpen, hspace, if_true, h]
  rfl

theorem Leads.closeArray (hspace : skipSpace input = 0x5d :: rest) :
    Leads ⟨false, .array :: opened, input⟩ ⟨false, opened, rest⟩ := by
  refine .of_step (length_of_skipSpace hspace) ?_
  intro step steps
  simp only [skipOpen, hspace, if_true, show ((0x5d : UInt8) = 0x2c) = False by decide, if_false]

theorem Leads.closeObject (hspace : skipSpace input = 0x7d :: rest) :
    Leads ⟨false, .object :: opened, input⟩ ⟨false, opened, rest⟩ := by
  refine .of_step (length_of_skipSpace hspace) ?_
  intro step steps
  simp only [skipOpen, hspace, if_true, show ((0x7d : UInt8) = 0x2c) = False by decide, if_false]

/-- What is passed over when some arrays and objects are open leads to their end, whatever else is
open around them. -/
theorem leads_of_skipOpen {steps : List UInt8} {before : Bool} {inner : List Open}
    (h : skipOpen steps before inner input = .ok rest) :
    Leads ⟨before, inner ++ opened, input⟩ ⟨false, opened, rest⟩ := by
  fun_induction skipOpen steps before inner input with
  | case1 | case2 | case3 | case6 | case11 | case15 => cases h
  | case4 _ _ _ _ _ _ hspace hclose ih => exact (Leads.emptyArray _ hspace hclose).trans (ih h)
  | case5 _ _ _ _ _ _ _ hfirst hb hspace ih =>
    exact (Leads.openArray _ hspace hfirst hb).trans (ih h)
  | case7 _ _ _ _ _ _ hspace _ hclose ih => exact (Leads.emptyObject _ hspace hclose).trans (ih h)
  | case8 _ _ _ _ _ _ _ hfirst hb hspace _ ih =>
    obtain ⟨after, hname, h⟩ := ok_of_bind h
    exact (Leads.openObject _ hspace hfirst hb hname).trans (ih after h)
  | case9 _ _ _ _ _ _ hspace harray hobject ih =>
    obtain ⟨after, hscalar, h⟩ := ok_of_bind h
    exact (Leads.scalar _ hspace harray hobject hscalar).trans (ih after h)
  | case10 =>
    cases h
    exact fun steps hs => ⟨steps, hs, rfl⟩
  | case12 _ _ _ _ _ hspace ih => exact (Leads.nextItem _ hspace).trans (ih h)
  | case13 _ _ _ _ _ hspace ih =>
    obtain ⟨after, hname, h⟩ := ok_of_bind h
    exact (Leads.nextMember _ hspace hname).trans (ih after h)
  | case14 _ _ inner _ _ _ hspace _ ih =>
    cases inner with
    | array => exact (Leads.closeArray _ hspace).trans (ih h)
    | object => exact (Leads.closeObject _ hspace).trans (ih h)

theorem skipValue_iff :
    skipValue input = .ok rest ↔ ∀ opened, Leads ⟨true, opened, input⟩ ⟨false, opened, rest⟩ := by
  constructor
  · exact fun h opened => leads_of_skipOpen opened h
  · intro h
    obtain ⟨steps, hs, he⟩ := h [] (0 :: input) (Nat.lt_succ_self _)
    obtain ⟨step, steps, rfl⟩ := List.exists_cons_of_length_pos (Nat.zero_lt_of_lt hs)
    exact he

/-- A reader that leaves what is left when its value is passed over. -/
def Passes {α : Type} (read : List UInt8 → Except Fault (α × List UInt8)) : Prop :=
  ∀ {input a rest}, read input = .ok (a, rest) → skipValue input = .ok rest

theorem skipValue_of_skipSpace (h : skipValue (skipSpace input) = .ok rest) :
    skipValue input = .ok rest :=
  skipValue_iff.2 fun opened => .of_skipSpace opened (skipValue_iff.1 h opened)

/-! ## Arrays -/

theorem leads_of_firstItem {more : Bool} (hspace : skipSpace input = 0x5b :: inside)
    (h : readNextItem true inside = .ok (more, rest)) :
    Leads ⟨true, opened, input⟩
      (if more then ⟨true, .array :: opened, rest⟩ else ⟨false, opened, rest.drop 1⟩) := by
  unfold readNextItem at h
  split at h
  · cases h
  · rename_i b after hfirst
    rw [if_pos rfl] at h
    split_ifs at h with hb
    · cases h
      subst hb
      exact .emptyArray _ hspace hfirst
    · cases h
      exact .openArray _ hspace hfirst hb

theorem leads_of_nextItem {more : Bool} (h : readNextItem false input = .ok (more, rest)) :
    Leads ⟨false, .array :: opened, input⟩
      (if more then ⟨true, .array :: opened, rest⟩ else ⟨false, opened, rest.drop 1⟩) := by
  unfold readNextItem at h
  split at h
  · cases h
  · rename_i b after hspace
    rw [if_neg Bool.false_ne_true] at h
    split_ifs at h with hb hcomma
    · cases h
      subst hb
      exact .closeArray _ hspace
    · subst hcomma
      split at h
      · cases h
      · rename_i b' after' hnext
        split_ifs at h
        cases h
        refine (Leads.nextItem _ hspace).trans (.of_skipSpace _ ?_)
        rw [hnext]
        exact fun steps hs => ⟨steps, hs, rfl⟩

theorem leads_of_readItems {item : List UInt8 → Except Fault (Json × List UInt8)}
    (hitem : Passes item) {steps : List UInt8} {done items : List Json}
    (h : readItems item steps false done input = .ok (items, rest)) :
    Leads ⟨false, .array :: opened, input⟩ ⟨false, opened, rest⟩ := by
  induction steps generalizing done input with
  | nil => cases h
  | cons step steps ih =>
    obtain ⟨⟨more, after⟩, hnext, h⟩ := ok_of_bind h
    have hleads := leads_of_nextItem opened hnext
    cases more with
    | true =>
      obtain ⟨⟨v, after'⟩, hv, h⟩ := ok_of_bind h
      exact (hleads.trans (skipValue_iff.1 (hitem hv) _)).trans (ih h)
    | false =>
      cases h
      exact hleads

theorem skipValue_array {item : List UInt8 → Except Fault (Json × List UInt8)} (hitem : Passes item)
    {steps : List UInt8} {done items : List Json} (hspace : skipSpace input = 0x5b :: inside)
    (h : readItems item steps true done inside = .ok (items, rest)) :
    skipValue input = .ok rest := by
  refine skipValue_iff.2 fun opened => ?_
  cases steps with
  | nil => cases h
  | cons step steps =>
    obtain ⟨⟨more, after⟩, hnext, h⟩ := ok_of_bind h
    have hleads := leads_of_firstItem opened hspace hnext
    cases more with
    | true =>
      obtain ⟨⟨v, after'⟩, hv, h⟩ := ok_of_bind h
      exact (hleads.trans (skipValue_iff.1 (hitem hv) _)).trans (leads_of_readItems opened hitem h)
    | false =>
      cases h
      exact hleads

/-! ## Objects -/

/-- What reads a member after its name reads a colon and a value. -/
def Regular {σ : Type} (member : σ → String → List UInt8 → Except Fault (σ × List UInt8)) : Prop :=
  ∀ {s name input s' rest}, member s name input = .ok (s', rest) →
    ∃ value, readColon input = .ok ((), value) ∧ skipValue value = .ok rest

theorem skipName_of_readText (hspace : skipSpace input = 0x22 :: inside) {name : String}
    {after value : List UInt8} (hname : readText inside = .ok (name, after))
    (hcolon : readColon after = .ok ((), value)) : skipName input = .ok value := by
  rw [skipName, hspace]
  dsimp only
  rw [if_pos rfl, skipText_of_readText hname]
  simp only [bind, Except.bind, hcolon]

section Members

variable {name : String} {after value : List UInt8}

theorem leads_of_firstName (hspace : skipSpace input = 0x7b :: inside)
    (h : readNextName true inside = .ok (true, rest)) (hname : readText rest = .ok (name, after))
    (hcolon : readColon after = .ok ((), value)) :
    Leads ⟨true, opened, input⟩ ⟨true, .object :: opened, value⟩ := by
  unfold readNextName at h
  split at h
  · cases h
  · rename_i b more hfirst
    rw [if_pos rfl] at h
    split_ifs at h with hb hquote
    · cases h
    · cases h
      subst hquote
      have hskip := skipName_of_readText (skipSpace_cons rfl _) hname hcolon
      exact .openObject _ hspace hfirst hb hskip

theorem leads_of_noName (hspace : skipSpace input = 0x7b :: inside)
    (h : readNextName true inside = .ok (false, rest)) :
    Leads ⟨true, opened, input⟩ ⟨false, opened, rest⟩ := by
  unfold readNextName at h
  split at h
  · cases h
  · rename_i b more hfirst
    rw [if_pos rfl] at h
    split_ifs at h with hb hquote
    · cases h
      subst hb
      exact .emptyObject _ hspace hfirst
    · cases h

theorem leads_of_nextName (h : readNextName false input = .ok (true, rest))
    (hname : readText rest = .ok (name, after)) (hcolon : readColon after = .ok ((), value)) :
    Leads ⟨false, .object :: opened, input⟩ ⟨true, .object :: opened, value⟩ := by
  unfold readNextName at h
  split at h
  · cases h
  · rename_i b more hspace
    rw [if_neg Bool.false_ne_true] at h
    split_ifs at h with hb hcomma
    · cases h
    · subst hcomma
      split at h
      · cases h
      · rename_i b' more' hnext
        split_ifs at h with hquote
        cases h
        subst hquote
        exact .nextMember _ hspace (skipName_of_readText hnext hname hcolon)

theorem leads_of_lastName (h : readNextName false input = .ok (false, rest)) :
    Leads ⟨false, .object :: opened, input⟩ ⟨false, opened, rest⟩ := by
  unfold readNextName at h
  split at h
  · cases h
  · rename_i b more hspace
    rw [if_neg Bool.false_ne_true] at h
    split_ifs at h with hb hcomma
    · cases h
      subst hb
      exact .closeObject _ hspace
    · split at h
      · cases h
      · split_ifs at h
        cases h

variable {σ : Type} {member : σ → String → List UInt8 → Except Fault (σ × List UInt8)}

theorem leads_of_readMembers (hmember : Regular member) {steps : List UInt8} {s s' : σ}
    (h : readMembers member steps false s input = .ok (s', rest)) :
    Leads ⟨false, .object :: opened, input⟩ ⟨false, opened, rest⟩ := by
  induction steps generalizing s input with
  | nil => cases h
  | cons step steps ih =>
    obtain ⟨⟨more, after⟩, hnext, h⟩ := ok_of_bind h
    cases more with
    | true =>
      obtain ⟨⟨name, colon⟩, hname, h⟩ := ok_of_bind h
      obtain ⟨⟨s'', after'⟩, hs, h⟩ := ok_of_bind h
      obtain ⟨value, hcolon, hvalue⟩ := hmember hs
      have hleads := leads_of_nextName opened hnext hname hcolon
      exact (hleads.trans (skipValue_iff.1 hvalue _)).trans (ih h)
    | false =>
      cases h
      exact leads_of_lastName opened hnext

theorem skipValue_object (hmember : Regular member) {steps : List UInt8} {s s' : σ}
    (hspace : skipSpace input = 0x7b :: inside)
    (h : readMembers member steps true s inside = .ok (s', rest)) :
    skipValue input = .ok rest := by
  refine skipValue_iff.2 fun opened => ?_
  cases steps with
  | nil => cases h
  | cons step steps =>
    obtain ⟨⟨more, after⟩, hnext, h⟩ := ok_of_bind h
    cases more with
    | true =>
      obtain ⟨⟨name, colon⟩, hname, h⟩ := ok_of_bind h
      obtain ⟨⟨s'', after'⟩, hs, h⟩ := ok_of_bind h
      obtain ⟨value, hcolon, hvalue⟩ := hmember hs
      have hleads := leads_of_firstName opened hspace hnext hname hcolon
      exact (hleads.trans (skipValue_iff.1 hvalue _)).trans (leads_of_readMembers opened hmember h)
    | false =>
      cases h
      exact leads_of_noName opened hspace hnext

end Members

/-! ## Values -/

theorem skipValue_scalar (hspace : skipSpace input = b :: inside) (harray : b ≠ 0x5b)
    (hobject : b ≠ 0x7b) (h : readScalar b inside = .ok (v, rest)) :
    skipValue input = .ok rest :=
  skipValue_iff.2 fun _ => .scalar _ hspace harray hobject (skipScalar_of_readScalar h)

theorem regular_takeMember {item : List UInt8 → Except Fault (Json × List UInt8)}
    (hitem : Passes item) :
    Regular (takeMember item) := by
  intro s name input s' rest h
  obtain ⟨⟨⟨⟩, value⟩, hcolon, h⟩ := ok_of_bind h
  obtain ⟨⟨v, after⟩, hv, h⟩ := ok_of_bind h
  cases h
  exact ⟨value, hcolon, hitem hv⟩

/-- A value that is read is passed over up to the same place. -/
theorem passes_readValue (room : Nat) : Passes (readValue room) := by
  intro input v rest h
  induction room generalizing input v rest with
  | zero =>
    unfold readValue readValueWith at h
    split at h
    · cases h
    · rename_i b inside hspace
      split_ifs at h with harray hobject
      exact skipValue_scalar hspace harray hobject h
  | succ room ih =>
    unfold readValue readValueWith at h
    split at h
    · cases h
    · rename_i b inside hspace
      split_ifs at h with harray hobject
      · subst harray
        obtain ⟨⟨items, after⟩, hitems, h⟩ := ok_of_bind h
        cases h
        exact skipValue_array ih hspace hitems
      · subst hobject
        obtain ⟨⟨members, after⟩, hmembers, h⟩ := ok_of_bind h
        cases h
        exact skipValue_object (regular_takeMember ih) hspace hmembers
      · exact skipValue_scalar hspace harray hobject h

end PeerRpc.Json
