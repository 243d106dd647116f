import PeerRpc.Proofs.Json.Skipping
import PeerRpc.Proofs.Json.Terms

/-!
# Scalars as they are written

What the reading of a scalar gives is determined by the bytes of the scalar: whatever stands after
them is left, and has no influence (`exists_gives_readScalar`). The passing over takes every scalar
of the grammar (`skipScalar_bytes`).
-/

namespace PeerRpc.Json

/-- Whatever stands after some bytes, their reading gives the same and leaves what stands after. -/
def Gives {α : Type} (read : List UInt8 → Except Fault (α × List UInt8)) (b : List UInt8)
    (x : Except Fault α) : Prop :=
  ∀ {rest : List UInt8}, Parted rest → read (b ++ rest) = x.map fun a => (a, rest)

variable {rest : List UInt8}

/-! ## Numbers -/

theorem Parted.of_cons {b : UInt8} (h : Parted (b :: rest)) :
    Decimal.digitOf? b = none ∧ b ≠ 0x2e ∧ isExponentMark b = false := by
  rcases h b rfl with hspace | rfl | rfl | rfl
  · simp only [isSpace, Bool.or_eq_true, decide_eq_true_eq] at hspace
    rcases hspace with ((rfl | rfl) | rfl) | rfl <;> exact ⟨rfl, by decide, rfl⟩
  all_goals exact ⟨rfl, by decide, rfl⟩

theorem Parted.digitOf?_eq_none (h : Parted rest) :
    ∀ b, rest.head? = some b → Decimal.digitOf? b = none := by
  intro b hb
  cases rest with
  | nil => cases hb
  | cons b' rest =>
    cases hb
    exact h.of_cons.1

theorem Figures.run_bytes (n : Figures)
    (hr : ∀ b, rest.head? = some b → Decimal.digitOf? b = none) :
    Decimal.run (n.bytes ++ rest) = (n.digits, rest) :=
  run_digits n.digits n.lt hr

theorem Figures.bytes_eq_cons (n : Figures) :
    ∃ b m, n.bytes = b :: m ∧ 48 ≤ b.toNat ∧ b.toNat ≤ 57 := by
  obtain ⟨d, ds, hds⟩ := List.exists_cons_of_ne_nil n.ne_nil
  have hd : d < 10 := n.lt d (hds ▸ List.mem_cons_self)
  rw [bytes, hds]
  refine ⟨_, _, rfl, ?_, ?_⟩ <;>
  · rw [UInt8.toNat_ofNat']
    omega

theorem exponentSign_bytes (sign : Option Bool) (n : Figures) (rest : List UInt8) :
    exponentSign (Power.signBytes sign ++ n.bytes ++ rest) =
      (sign.getD false, n.bytes ++ rest) := by
  match sign with
  | some true => rfl
  | some false => rfl
  | none =>
    obtain ⟨b, m, hb, hdigit⟩ := n.bytes_eq_cons
    have hne := ne_of_digit hdigit
    rw [Power.signBytes, List.nil_append, hb, List.cons_append, exponentSign,
      if_neg (hne _ (by decide)), if_neg (hne _ (by decide))]
    rfl

theorem isExponentMark_capital (capital : Bool) :
    isExponentMark (if capital then 0x45 else 0x65) = true := by
  cases capital <;> rfl

/-- The number with the exponent that the figures of a power stand for. -/
def powered (negative : Bool) (significand : Nat) (exponent : Int) (e : Power) :
    Except Fault Json :=
  match Decimal.valueWithin? maxExponent e.figures.digits with
  | none =>
    if significand ≠ 0 && !e.sign.getD false then .error .malformed
    else .ok (.double (.zero negative))
  | some power =>
    (scaled negative significand
      (if e.sign.getD false then exponent - power else exponent + power)).map .double

theorem gives_readExponent_none (negative : Bool) (significand : Nat) (exponent : Int) :
    Gives (readExponent negative significand exponent) []
      ((scaled negative significand exponent).map .double) := by
  intro rest hr
  cases rest with
  | nil =>
    rw [List.append_nil, readExponent]
    cases scaled negative significand exponent <;> rfl
  | cons b rest =>
    rw [List.nil_append, readExponent, if_neg (by simp [hr.of_cons.2.2])]
    cases scaled negative significand exponent <;> rfl

theorem gives_readExponent_some (negative : Bool) (significand : Nat) (exponent : Int)
    (e : Power) :
    Gives (readExponent negative significand exponent) e.bytes
      (powered negative significand exponent e) := by
  intro rest hr
  rw [Power.bytes, List.cons_append, readExponent, if_pos (isExponentMark_capital _),
    exponentSign_bytes]
  dsimp only
  rw [e.figures.run_bytes hr.digitOf?_eq_none]
  obtain ⟨d, ds, hds⟩ := List.exists_cons_of_ne_nil e.figures.ne_nil
  unfold powered
  rw [hds]
  dsimp only
  cases Decimal.valueWithin? maxExponent (d :: ds) with
  | none =>
    dsimp only
    split_ifs <;> rfl
  | some power =>
    dsimp only
    cases scaled negative significand
      (if e.sign.getD false then exponent - power else exponent + power) <;> rfl

theorem exists_gives_readExponent (negative : Bool) (significand : Nat) (exponent : Int)
    (power : Option Power) :
    ∃ x, Gives (readExponent negative significand exponent) (Numeral.powerBytes power) x := by
  cases power with
  | none => exact ⟨_, gives_readExponent_none negative significand exponent⟩
  | some e => exact ⟨_, gives_readExponent_some negative significand exponent e⟩

/-- An exponent starts with no digit. -/
theorem digitOf?_powerBytes (power : Option Power) (hr : Parted rest) :
    ∀ b, (Numeral.powerBytes power ++ rest).head? = some b → Decimal.digitOf? b = none := by
  cases power with
  | none => exact hr.digitOf?_eq_none
  | some e =>
    intro b hb
    cases hb
    cases e.capital <;> rfl

theorem digitOf?_fractionBytes (fraction : Option Figures) (power : Option Power)
    (hr : Parted rest) : ∀ b,
      (Numeral.fractionBytes fraction ++ (Numeral.powerBytes power ++ rest)).head? = some b →
        Decimal.digitOf? b = none := by
  cases fraction with
  | none => exact digitOf?_powerBytes power hr
  | some n =>
    intro b hb
    cases hb
    rfl

/-- What is read when neither a fraction nor an exponent follows the digits. -/
theorem readAfterWhole_of_parted (negative : Bool) (significand dropped : Nat)
    (hr : Parted rest) :
    readAfterWhole negative significand dropped rest =
      if dropped ≠ 0 then readExponent negative significand dropped rest
      else if !negative then .ok (.int significand, rest)
      else if significand = 0 || UInt64.size / 2 < significand then
        readExponent negative significand 0 rest
      else .ok (.int (-significand), rest) := by
  cases rest with
  | nil => rfl
  | cons b rest =>
    obtain ⟨-, hdot, hmark⟩ := hr.of_cons
    simp only [readAfterWhole, hmark, hdot, ne_eq, not_false_eq_true, decide_true, Bool.not_false,
      Bool.and_true, if_true]

theorem exists_gives_readAfterWhole (negative : Bool) (significand dropped : Nat)
    (fraction : Option Figures) (power : Option Power) :
    ∃ x, Gives (readAfterWhole negative significand dropped)
      (Numeral.fractionBytes fraction ++ Numeral.powerBytes power) x := by
  cases fraction with
  | some n =>
    obtain ⟨x, hx⟩ := exists_gives_readExponent negative (gather significand n.digits).1
      (dropped - (n.digits.length - (gather significand n.digits).2.length : Nat)) power
    refine ⟨x, fun {rest} hr => ?_⟩
    rw [← hx hr, List.append_assoc]
    have hrun := n.run_bytes (digitOf?_powerBytes power hr)
    obtain ⟨d, ds, hds⟩ := List.exists_cons_of_ne_nil n.ne_nil
    rw [hds] at hrun ⊢
    change readAfterWhole negative significand dropped (0x2e :: (n.bytes ++ _)) = _
    simp only [readAfterWhole, ne_eq, not_true_eq_false, decide_false, Bool.false_and, if_true,
      Bool.false_eq_true, if_false, hrun]
  | none =>
    cases power with
    | some e =>
      refine ⟨_, fun {rest} hr =>
        Eq.trans ?_ (gives_readExponent_some negative significand dropped e hr)⟩
      have hdot : (if e.capital then (0x45 : UInt8) else 0x65) ≠ 0x2e := by
        cases e.capital <;> decide
      change readAfterWhole negative significand dropped (_ :: _) = _
      simp only [readAfterWhole, isExponentMark_capital, Bool.not_true, Bool.and_false,
        Bool.false_eq_true, if_false, hdot]
      rfl
    | none =>
      refine ⟨if dropped ≠ 0 then (scaled negative significand dropped).map .double
        else if !negative then .ok (.int significand)
        else if significand = 0 || UInt64.size / 2 < significand then
          (scaled negative significand 0).map .double
        else .ok (.int (-significand)), fun {rest} hr => ?_⟩
      change readAfterWhole negative significand dropped rest = _
      rw [readAfterWhole_of_parted negative significand dropped hr]
      split_ifs
      · exact gives_readExponent_none negative significand dropped hr
      · rfl
      · exact gives_readExponent_none negative significand 0 hr
      · rfl

theorem exists_gives_readNumber (negative : Bool) (n : Numeral) :
    ∃ x, Gives (readNumber negative) n.bytes x := by
  obtain ⟨x, hx⟩ := exists_gives_readAfterWhole negative (gather 0 n.whole.digits).1
    (gather 0 n.whole.digits).2.length n.fraction n.power
  refine ⟨x, fun {rest} hr => ?_⟩
  have hrun := n.whole.run_bytes (digitOf?_fractionBytes n.fraction n.power hr)
  rw [← hx hr, Numeral.bytes, readNumber]
  simp only [List.append_assoc]
  rw [hrun]
  split
  · rename_i he
    exact absurd (Prod.mk.inj he).1 n.whole.ne_nil
  · rename_i he
    exact absurd (Prod.mk.inj he).1 n.whole.ne_nil
  · rename_i he
    have hzero := (Prod.mk.inj he).1
    have := n.leading (by rw [hzero]; rfl)
    rw [hzero] at this
    cases this
  · rename_i he
    obtain ⟨rfl, rfl⟩ := Prod.mk.inj he
    rfl

theorem Figures.skipSomeDigits_bytes (n : Figures)
    (hr : ∀ b, rest.head? = some b → Decimal.digitOf? b = none) :
    skipSomeDigits (n.bytes ++ rest) = .ok rest := by
  obtain ⟨d, ds, hds⟩ := List.exists_cons_of_ne_nil n.ne_nil
  rw [skipSomeDigits, n.run_bytes hr, hds]

theorem skipExponent_powerBytes (power : Option Power) (hr : Parted rest) :
    skipExponent (Numeral.powerBytes power ++ rest) = .ok rest := by
  cases power with
  | none =>
    cases rest with
    | nil => rfl
    | cons b rest =>
      change skipExponent (b :: rest) = _
      rw [skipExponent, if_neg (by simp [hr.of_cons.2.2])]
  | some e =>
    change skipExponent (_ :: (Power.signBytes e.sign ++ e.figures.bytes ++ rest)) = _
    rw [skipExponent, if_pos (isExponentMark_capital _), exponentSign_bytes]
    exact e.figures.skipSomeDigits_bytes hr.digitOf?_eq_none

theorem ne_dot_of_powerBytes (power : Option Power) (hr : Parted rest) :
    ∀ b, (Numeral.powerBytes power ++ rest).head? = some b → b ≠ 0x2e := by
  intro b hb
  cases power with
  | none =>
    cases rest with
    | nil => cases hb
    | cons b' rest =>
      cases hb
      exact hr.of_cons.2.1
  | some e =>
    cases hb
    cases e.capital <;> decide

theorem skipFraction_of_ne_dot {input : List UInt8} (h : ∀ b, input.head? = some b → b ≠ 0x2e) :
    skipFraction input = skipExponent input := by
  cases input with
  | nil => rfl
  | cons b input => rw [skipFraction, if_neg (h b rfl)]

theorem skipFraction_bytes (fraction : Option Figures) (power : Option Power)
    (hr : Parted rest) :
    skipFraction (Numeral.fractionBytes fraction ++ (Numeral.powerBytes power ++ rest)) =
      .ok rest := by
  cases fraction with
  | none =>
    change skipFraction (Numeral.powerBytes power ++ rest) = _
    rw [skipFraction_of_ne_dot (ne_dot_of_powerBytes power hr), skipExponent_powerBytes power hr]
  | some n =>
    change skipFraction (0x2e :: (n.bytes ++ _)) = _
    rw [skipFraction, if_pos rfl, n.skipSomeDigits_bytes (digitOf?_powerBytes power hr)]
    exact skipExponent_powerBytes power hr

theorem skipNumber_bytes (n : Numeral) (hr : Parted rest) :
    skipNumber (n.bytes ++ rest) = .ok rest := by
  have hrun := n.whole.run_bytes (digitOf?_fractionBytes n.fraction n.power hr)
  rw [Numeral.bytes, List.append_assoc, List.append_assoc,
    skipNumber_of_run hrun n.whole.ne_nil n.leading]
  exact skipFraction_bytes n.fraction n.power hr

/-! ## Texts -/

theorem HexDigit.hexOf?_byte (d : HexDigit) : hexOf? d.byte = some d.value :=
  (Option.some_get d.isSome).symm

theorem readHex_digits (a b c d : HexDigit) (rest : List UInt8) :
    readHex (a.byte :: b.byte :: c.byte :: d.byte :: rest) = .ok (Piece.code a b c d, rest) := by
  simp only [readHex, HexDigit.hexOf?_byte]
  rfl

theorem readEscape_short (e : Short) (rest : List UInt8) :
    readEscape (e.byte :: rest) = .ok (e.char, rest) := by
  cases e <;> rfl

theorem skipEscape_short (e : Short) (rest : List UInt8) :
    skipEscape (e.byte :: rest) = .ok rest := by
  cases e <;> rfl

theorem skipEscape_unit (a b c d : HexDigit) (rest : List UInt8) :
    skipEscape (0x75 :: a.byte :: b.byte :: c.byte :: d.byte :: rest) = .ok rest := by
  rw [skipEscape, if_pos rfl, readHex_digits]
  rfl

theorem readEscape_unit (a b c d : HexDigit) (rest : List UInt8) :
    readEscape (0x75 :: a.byte :: b.byte :: c.byte :: d.byte :: rest) =
      if Piece.isLow (Piece.code a b c d) then .error .malformed
      else if Piece.isHigh (Piece.code a b c d) then readLowHalf (Piece.code a b c d) rest
      else .ok (Char.ofNat (Piece.code a b c d), rest) := by
  change (readHex _ >>= _) = _
  rw [readHex_digits]
  simp only [bind, Except.bind, Piece.isLow, Piece.isHigh, Bool.and_eq_true, decide_eq_true_eq]

/-- The second half of a character must be the next escape. -/
theorem readLowHalf_unit (high : Nat) (a b c d : HexDigit) (rest : List UInt8) :
    readLowHalf high (0x5c :: 0x75 :: a.byte :: b.byte :: c.byte :: d.byte :: rest) =
      if Piece.isLow (Piece.code a b c d) then .ok (Piece.paired high (Piece.code a b c d), rest)
      else .error .malformed := by
  change (readHex _ >>= _) = _
  rw [readHex_digits]
  simp only [bind, Except.bind, Piece.isLow, Bool.and_eq_true, decide_eq_true_eq]
  rfl

theorem ne_of_isOrdinary {b : UInt8} (h : isOrdinary b = true) :
    b ≠ 0x22 ∧ b ≠ 0x5c ∧ ¬b < 0x20 := by
  simpa [isOrdinary, and_assoc] using h

theorem readLowHalf_of_ne_unit (high : Nat) {n : List Piece}
    (h : ∀ a b c d n', n = .unit a b c d :: n' → False) (rest : List UInt8) :
    readLowHalf high (written n ++ 0x22 :: rest) = .error .malformed := by
  match n with
  | [] => rfl
  | .plain b hb :: n => exact if_pos (ne_of_isOrdinary hb).2.1
  | .short e :: n => cases e <;> rfl
  | .unit a b c d :: n => exact (h a b c d n rfl).elim

theorem written_cons (p : Piece) (n : List Piece) (rest : List UInt8) :
    written (p :: n) ++ rest = p.bytes ++ (written n ++ rest) := by
  rw [written, List.flatMap_cons, List.append_assoc]
  rfl

theorem readTextBytes_error {input : List UInt8} {fault : Fault}
    (h : readEscape input = .error fault) (step : UInt8) (steps done : List UInt8) :
    readTextBytes (step :: steps) done (0x5c :: input) = .error fault := by
  rw [readTextBytes, if_neg (by decide), if_pos rfl, h]
  rfl

/-- What the reading of a text gives after some bytes, if what is left of it stands for bytes. -/
def closed (done rest : List UInt8) (bytes : Option (List UInt8)) :
    Except Fault (List UInt8 × List UInt8) :=
  bytes.elim (.error .malformed) fun bytes => .ok (done.reverse ++ bytes, rest)

theorem closed_map (first done rest : List UInt8) (bytes : Option (List UInt8)) :
    closed done rest (bytes.map (first ++ ·)) = closed (first.reverse ++ done) rest bytes := by
  cases bytes <;> simp [closed]

theorem length_written_lt (p : Piece) (n : List Piece) :
    (written n).length < (written (p :: n)).length := by
  have hp : 0 < p.bytes.length := by cases p <;> exact Nat.succ_pos _
  rw [written, written, List.flatMap_cons, List.length_append]
  omega

/-- The bytes of a text are read up to its closing quote, unless a half of a character stands
alone. -/
theorem readTextBytes_written (n : List Piece) {steps : List UInt8}
    (hs : (written n).length < steps.length) (done rest : List UInt8) :
    readTextBytes steps done (written n ++ 0x22 :: rest) = closed done rest (unescaped? n) := by
  fun_induction unescaped? n generalizing steps done with
  | case1 =>
    obtain ⟨step, steps, rfl⟩ := List.exists_cons_of_length_pos (Nat.zero_lt_of_lt hs)
    simp [written, readTextBytes, closed]
  | case2 b hb n ih =>
    obtain ⟨step, steps, rfl⟩ := List.exists_cons_of_length_pos (Nat.zero_lt_of_lt hs)
    have hs' := (length_written_lt _ n).trans_le (Nat.le_of_lt_succ hs)
    rw [written_cons, Piece.bytes, readTextBytes_ordinary (by simpa using hb) (by simp)]
    exact (ih hs' _).trans (closed_map [b] done rest _).symm
  | case3 e n ih =>
    obtain ⟨step, steps, rfl⟩ := List.exists_cons_of_length_pos (Nat.zero_lt_of_lt hs)
    have hs' := (length_written_lt _ n).trans_le (Nat.le_of_lt_succ hs)
    rw [written_cons, Piece.bytes, closed_map]
    exact (@readTextBytes_escape _ [e.byte] _ (readEscape_short e _) step steps done).trans
      (ih hs' _)
  | case4 a b c d n hlow =>
    obtain ⟨step, steps, rfl⟩ := List.exists_cons_of_length_pos (Nat.zero_lt_of_lt hs)
    rw [written_cons]
    refine readTextBytes_error ?_ step steps done
    exact (readEscape_unit a b c d _).trans (if_pos hlow)
  | case5 a b c d hlow hhigh a' b' c' d' n hlow' ih =>
    obtain ⟨step, steps, rfl⟩ := List.exists_cons_of_length_pos (Nat.zero_lt_of_lt hs)
    have hs' := (length_written_lt _ n).trans ((length_written_lt _ _).trans_le
      (Nat.le_of_lt_succ hs))
    rw [written_cons, written_cons, closed_map, ← ih hs']
    refine @readTextBytes_escape _ (0x75 :: a.byte :: b.byte :: c.byte :: d.byte ::
      (Piece.unit a' b' c' d').bytes) _ ?_ step steps done
    refine (readEscape_unit a b c d _).trans ?_
    rw [if_neg hlow, if_pos hhigh]
    exact (readLowHalf_unit _ a' b' c' d' _).trans (if_pos hlow')
  | case6 a b c d hlow hhigh a' b' c' d' n hlow' =>
    obtain ⟨step, steps, rfl⟩ := List.exists_cons_of_length_pos (Nat.zero_lt_of_lt hs)
    rw [written_cons, written_cons]
    refine readTextBytes_error ((readEscape_unit a b c d _).trans ?_) step steps done
    rw [if_neg hlow, if_pos hhigh]
    exact (readLowHalf_unit _ a' b' c' d' _).trans (if_neg hlow')
  | case7 a b c d n hlow hhigh hlone =>
    obtain ⟨step, steps, rfl⟩ := List.exists_cons_of_length_pos (Nat.zero_lt_of_lt hs)
    rw [written_cons]
    refine readTextBytes_error ((readEscape_unit a b c d _).trans ?_) step steps done
    rw [if_neg hlow, if_pos hhigh]
    exact readLowHalf_of_ne_unit _ hlone rest
  | case8 a b c d n hlow hhigh ih =>
    obtain ⟨step, steps, rfl⟩ := List.exists_cons_of_length_pos (Nat.zero_lt_of_lt hs)
    have hs' := (length_written_lt _ n).trans_le (Nat.le_of_lt_succ hs)
    rw [written_cons, closed_map, ← ih hs']
    refine @readTextBytes_escape _ [0x75, a.byte, b.byte, c.byte, d.byte] _ ?_ step steps done
    exact (readEscape_unit a b c d _).trans ((if_neg hlow).trans (if_neg hhigh))

/-- The text that is written, or the fault that the reading of it reports. -/
def textOf (n : List Piece) : Except Fault String :=
  (text? n).elim (.error .malformed) .ok

/-- A text between its quotes is read as the text that is written, if it is one. -/
theorem readText_written (n : List Piece) (rest : List UInt8) :
    readText (written n ++ 0x22 :: rest) = (textOf n).map fun s => (s, rest) := by
  rw [readText, readTextBytes_written n (by simp), textOf, text?, closed]
  cases unescaped? n with
  | none => rfl
  | some bytes =>
    simp only [Option.elim_some, List.reverse_nil, List.nil_append, bind, Except.bind,
      Option.bind_some]
    cases Text.ofUtf8? bytes <;> rfl

theorem skipText_written (n : List Piece) {steps : List UInt8}
    (hs : (written n).length < steps.length) (rest : List UInt8) :
    skipText steps (written n ++ 0x22 :: rest) = .ok rest := by
  induction n generalizing steps with
  | nil =>
    obtain ⟨step, steps, rfl⟩ := List.exists_cons_of_length_pos (Nat.zero_lt_of_lt hs)
    rfl
  | cons p n ih =>
    obtain ⟨step, steps, rfl⟩ := List.exists_cons_of_length_pos (Nat.zero_lt_of_lt hs)
    rw [written_cons, ← ih ((length_written_lt p n).trans_le (Nat.le_of_lt_succ hs))]
    cases p with
    | plain b hb =>
      obtain ⟨hquote, hslash, hcontrol⟩ := ne_of_isOrdinary hb
      exact skipText_cons hquote hslash hcontrol step steps _
    | short e => exact skipText_escape (skipEscape_short e _) step steps
    | unit a b c d => exact skipText_escape (skipEscape_unit a b c d _) step steps

/-! ## Scalars -/

theorem Numeral.bytes_eq_cons (n : Numeral) :
    ∃ b m, n.bytes = b :: m ∧ 48 ≤ b.toNat ∧ b.toNat ≤ 57 := by
  obtain ⟨b, m, hb, hdigit⟩ := n.whole.bytes_eq_cons
  exact ⟨b, _, by rw [bytes, hb, List.cons_append], hdigit⟩

/-- A scalar starts with no blank, no bracket and no brace, and only null with an `n`. -/
theorem Scalar.bytes_eq_cons (s : Scalar) :
    ∃ b m, s.bytes = b :: m ∧ isSpace b = false ∧ b ≠ 0x5b ∧ b ≠ 0x5d ∧ b ≠ 0x7b ∧
      (b = 0x6e → s = .null) := by
  match s with
  | .null => exact ⟨_, _, rfl, rfl, by decide, by decide, by decide, fun _ => rfl⟩
  | .bool true =>
    exact ⟨_, _, rfl, rfl, by decide, by decide, by decide, fun h => absurd h (by decide)⟩
  | .bool false =>
    exact ⟨_, _, rfl, rfl, by decide, by decide, by decide, fun h => absurd h (by decide)⟩
  | .number true n =>
    exact ⟨_, _, rfl, rfl, by decide, by decide, by decide, fun h => absurd h (by decide)⟩
  | .number false n =>
    obtain ⟨b, m, hb, hdigit⟩ := n.bytes_eq_cons
    have hne := ne_of_digit hdigit
    exact ⟨b, m, hb, by simp [isSpace, hne], hne _ (by decide), hne _ (by decide),
      hne _ (by decide), fun h => absurd h (hne _ (by decide))⟩
  | .text n =>
    exact ⟨_, _, rfl, rfl, by decide, by decide, by decide, fun h => absurd h (by decide)⟩

/-- What the reading of a scalar gives is determined by its bytes. -/
theorem exists_gives_readScalar (s : Scalar) :
    ∃ x, ∀ {b : UInt8} {m : List UInt8}, s.bytes = b :: m → Gives (readScalar b) m x := by
  match s with
  | .null =>
    refine ⟨.ok .null, ?_⟩
    rintro _ _ ⟨⟩ rest -
    rfl
  | .bool true =>
    refine ⟨.ok (.bool true), ?_⟩
    rintro _ _ ⟨⟩ rest -
    rfl
  | .bool false =>
    refine ⟨.ok (.bool false), ?_⟩
    rintro _ _ ⟨⟩ rest -
    rfl
  | .number true n =>
    obtain ⟨x, hx⟩ := exists_gives_readNumber true n
    refine ⟨x, ?_⟩
    rintro _ _ ⟨⟩ rest hr
    exact hx hr
  | .number false n =>
    obtain ⟨x, hx⟩ := exists_gives_readNumber false n
    refine ⟨x, fun {b m} hb rest hr => ?_⟩
    obtain ⟨b', m', hb', hdigit⟩ := n.bytes_eq_cons
    cases hb.symm.trans hb'
    rw [readScalar_of_digit hdigit, ← hx hr, hb']
    rfl
  | .text n =>
    refine ⟨(textOf n).map .string, ?_⟩
    rintro _ _ ⟨⟩ rest -
    change (readText (written n ++ [0x22] ++ rest) >>= _) = _
    rw [List.append_assoc, List.singleton_append, readText_written]
    cases textOf n <;> rfl

/-- Every scalar is passed over. -/
theorem skipScalar_bytes {s : Scalar} {b : UInt8} {m : List UInt8} (hb : s.bytes = b :: m)
    (hr : Parted rest) : skipScalar b (m ++ rest) = .ok rest := by
  match s with
  | .null =>
    cases hb
    rfl
  | .bool true =>
    cases hb
    rfl
  | .bool false =>
    cases hb
    rfl
  | .number true n =>
    cases hb
    exact skipNumber_bytes n hr
  | .number false n =>
    obtain ⟨b', m', hb', hdigit⟩ := n.bytes_eq_cons
    cases hb.symm.trans hb'
    rw [skipScalar_of_digit hdigit, ← skipNumber_bytes n hr, hb']
    rfl
  | .text n =>
    cases hb
    change skipText (0 :: (written n ++ [0x22] ++ rest)) (written n ++ [0x22] ++ rest) = _
    rw [List.append_assoc]
    exact skipText_written n (by simp) rest

end PeerRpc.Json
