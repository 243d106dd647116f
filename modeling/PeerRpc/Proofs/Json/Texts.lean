import PeerRpc.Json.Reader
import PeerRpc.Proofs.Text.Utf8

/-!
# Reading back a text

A text is written between quotes, some of its characters as escapes. Reading from after the opening
quote gives the text back, and what follows the closing quote (`readText_flatMap_escaped`).
-/

namespace PeerRpc.Json

open Text (utf8OfChars)

/-- Bytes that stand for themselves in a text. -/
def isOrdinary (b : UInt8) : Bool :=
  b ≠ 0x22 && b ≠ 0x5c && !(b < 0x20)

theorem readTextBytes_ordinary {bs : List UInt8} (hb : ∀ b ∈ bs, isOrdinary b = true)
    {steps : List UInt8} (hs : bs.length ≤ steps.length) (done more : List UInt8) :
    readTextBytes steps done (bs ++ more) =
      readTextBytes (steps.drop bs.length) (bs.reverse ++ done) more := by
  induction bs generalizing steps done with
  | nil => rfl
  | cons b bs ih =>
    have h := hb b List.mem_cons_self
    simp only [isOrdinary, Bool.and_eq_true, Bool.not_eq_true', decide_eq_true_eq,
      decide_eq_false_iff_not] at h
    obtain ⟨⟨h1, h2⟩, h3⟩ := h
    cases steps with
    | nil => simp at hs
    | cons step steps =>
      rw [List.cons_append, readTextBytes]
      simp only [h1, h2, h3, if_false]
      rw [ih (fun b hb' => hb b (List.mem_cons_of_mem _ hb')) (by simpa using hs)]
      simp

theorem readTextBytes_escape {c : Char} {es more : List UInt8}
    (h : readEscape (es ++ more) = .ok (c, more)) (step : UInt8) (steps done : List UInt8) :
    readTextBytes (step :: steps) done (0x5c :: es ++ more) =
      readTextBytes steps ((String.utf8EncodeChar c).reverse ++ done) more := by
  rw [List.cons_append, readTextBytes]
  simp only [show (0x5c : UInt8) ≠ 0x22 by decide, if_false, if_true, h]
  rfl

theorem toNat_eq_of_byte {c : Char} {n : Nat} (hc : c.toNat < 128) (hn : n < 128)
    (h : UInt8.ofNat c.toNat = UInt8.ofNat n) : c = Char.ofNat n := by
  have h := congrArg UInt8.toNat h
  rw [UInt8.toNat_ofNat', UInt8.toNat_ofNat'] at h
  rw [← Char.ofNat_toNat c]
  exact congrArg Char.ofNat (by omega)

theorem isOrdinary_of_char {c : Char} (hquote : c ≠ '"') (hslash : c ≠ '\\')
    (hcontrol : ¬c.toNat < 0x20) : ∀ b ∈ String.utf8EncodeChar c, isOrdinary b = true := by
  intro b hb
  have hne : b ≠ 0x22 ∧ b ≠ 0x5c ∧ ¬b < 0x20 := by
    by_cases h : c.toNat < 128
    · rw [Text.utf8EncodeChar_of_lt h, List.mem_singleton] at hb
      subst hb
      refine ⟨fun he => hquote ?_, fun he => hslash ?_, fun hlt => hcontrol ?_⟩
      · exact toNat_eq_of_byte h (by decide) he
      · exact toNat_eq_of_byte h (by decide) he
      · have hlt : (UInt8.ofNat c.toNat).toNat < 32 := hlt
        rw [UInt8.toNat_ofNat'] at hlt
        omega
    · have hle := Text.le_of_mem_utf8EncodeChar (Nat.le_of_not_lt h) hb
      refine ⟨?_, ?_, ?_⟩
      · rintro rfl
        revert hle
        decide
      · rintro rfl
        revert hle
        decide
      · intro hlt
        have : b.toNat < 32 := hlt
        omega
  simp [isOrdinary, hne]

theorem readEscape_hex {n : Nat} (hn : n < 0x20) (more : List UInt8) :
    readEscape (utf8OfChars ['u', '0', '0', Text.hexDigit (n / 16), Text.hexDigit (n % 16)] ++ more) =
      .ok (Char.ofNat n, more) := by
  interval_cases n <;> rfl

/-- A character is read back from what is written for it. -/
theorem readTextBytes_escaped (c : Char) (steps : List UInt8)
    (hs : (utf8OfChars (escaped c)).length ≤ steps.length) (done more : List UInt8) :
    ∃ steps', steps.length ≤ steps'.length + (utf8OfChars (escaped c)).length ∧
      readTextBytes steps done (utf8OfChars (escaped c) ++ more) =
        readTextBytes steps' ((String.utf8EncodeChar c).reverse ++ done) more := by
  have hescape : ∀ es, escaped c = '\\' :: es → readEscape (utf8OfChars es ++ more) = .ok (c, more) →
      ∃ steps', steps.length ≤ steps'.length + (utf8OfChars (escaped c)).length ∧
        readTextBytes steps done (utf8OfChars (escaped c) ++ more) =
          readTextBytes steps' ((String.utf8EncodeChar c).reverse ++ done) more := by
    intro es he h
    have hbytes : utf8OfChars (escaped c) = 0x5c :: utf8OfChars es := by rw [he]; rfl
    rw [hbytes] at hs ⊢
    cases steps with
    | nil => simp at hs
    | cons step steps =>
      refine ⟨steps, ?_, readTextBytes_escape h step steps done⟩
      simp only [List.length_cons]
      omega
  by_cases h1 : c = '"'
  · subst h1
    exact hescape ['"'] rfl rfl
  by_cases h2 : c = '\\'
  · subst h2
    exact hescape ['\\'] rfl rfl
  have hcode : ∀ n, c.toNat = n → c = Char.ofNat n := fun n hn => by rw [← hn, Char.ofNat_toNat]
  by_cases h3 : c.toNat = 8
  · rw [hcode 8 h3] at hescape ⊢
    exact hescape ['b'] rfl rfl
  by_cases h4 : c.toNat = 12
  · rw [hcode 12 h4] at hescape ⊢
    exact hescape ['f'] rfl rfl
  by_cases h5 : c = '\n'
  · subst h5
    exact hescape ['n'] rfl rfl
  by_cases h6 : c = '\r'
  · subst h6
    exact hescape ['r'] rfl rfl
  by_cases h7 : c = '\t'
  · subst h7
    exact hescape ['t'] rfl rfl
  by_cases h8 : c.toNat < 0x20
  · refine hescape ['u', '0', '0', Text.hexDigit (c.toNat / 16), Text.hexDigit (c.toNat % 16)] ?_ ?_
    · simp [escaped, h1, h2, h3, h4, h5, h6, h7, h8]
    · rw [readEscape_hex h8, Char.ofNat_toNat]
  · have hplain : escaped c = [c] := by simp [escaped, h1, h2, h3, h4, h5, h6, h7, h8]
    have hbytes : utf8OfChars (escaped c) = String.utf8EncodeChar c := by
      rw [hplain, Text.utf8OfChars_cons, Text.utf8OfChars_nil, List.append_nil]
    rw [hbytes] at hs ⊢
    refine ⟨steps.drop (String.utf8EncodeChar c).length, ?_, ?_⟩
    · rw [List.length_drop]
      omega
    · exact readTextBytes_ordinary (isOrdinary_of_char h1 h2 h8) hs done more

theorem readTextBytes_flatMap_escaped (cs : List Char) {steps : List UInt8}
    (hs : (utf8OfChars (cs.flatMap escaped)).length < steps.length) (done rest : List UInt8) :
    readTextBytes steps done (utf8OfChars (cs.flatMap escaped) ++ 0x22 :: rest) =
      .ok (done.reverse ++ utf8OfChars cs, rest) := by
  induction cs generalizing steps done with
  | nil =>
    cases steps with
    | nil => simp at hs
    | cons step steps => simp [readTextBytes]
  | cons c cs ih =>
    rw [List.flatMap_cons, Text.utf8OfChars_append, List.length_append] at hs
    obtain ⟨steps', hlen, he⟩ := readTextBytes_escaped c steps (by omega) done
      (utf8OfChars (cs.flatMap escaped) ++ 0x22 :: rest)
    rw [List.flatMap_cons, Text.utf8OfChars_append, List.append_assoc, he, ih (by omega)]
    simp

/-- A text is read back from after its opening quote. -/
theorem readText_flatMap_escaped (s : String) (rest : List UInt8) :
    readText (utf8OfChars (s.toList.flatMap escaped) ++ 0x22 :: rest) = .ok (s, rest) := by
  unfold readText
  rw [readTextBytes_flatMap_escaped s.toList (by simp)]
  simp only [bind, Except.bind, List.reverse_nil, List.nil_append]
  rw [Text.ofUtf8?_utf8OfChars, String.ofList_toList]

theorem utf8OfChars_textChars (s : String) :
    utf8OfChars (textChars s) = 0x22 :: utf8OfChars (s.toList.flatMap escaped) ++ [0x22] := by
  rw [textChars, Text.utf8OfChars_append, Text.utf8OfChars_cons]
  rfl

end PeerRpc.Json
