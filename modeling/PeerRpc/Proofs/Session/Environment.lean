import PeerRpc.Proofs.Frame.Grammar
import PeerRpc.Proofs.Text.Blank
import PeerRpc.Session.Config

/-!
# Settings from the environment

Three variables set up a session. Each of them is looked up and read on its own and decides one setting:
two are sizes, whose numerals are told here by their shape (`SpellsSize`), and the third one switches
cancelling off if its value is one of a few words.

* `settings_of_environment`: a size is the one that its variable spells, whatever blanks stand around
  it, and else the default, and no size is zero. The words that switch cancelling off do so only as they
  stand, without blanks around them.
-/

namespace PeerRpc.Session

namespace Config

open Text (AllBlank AlikeInside)

/-- The variables that are looked up. -/
def lookedUp : List String :=
  ["LSPWIRE_MAX_MESSAGE_SIZE", "LSPWIRE_READ_CHUNK_SIZE", "LSPWIRE_CANCEL_ON_ABANDON"]

/-! ## Sizes -/

/-- A text spells a size: blanks, perhaps a plus sign, the digits of a number above zero that fits 64
bits, and blanks. -/
def SpellsSize (s : String) (n : Nat) : Prop :=
  ∃ before sign digits after : List Char,
    s.toList = before ++ (sign ++ digits) ++ after ∧ AllBlank before ∧ AllBlank after ∧
    (sign = [] ∨ sign = ['+']) ∧ digits ≠ [] ∧ (∀ c ∈ digits, '0' ≤ c ∧ c ≤ '9') ∧
    Decimal.value (digits.map fun c => c.toNat - '0'.toNat) = n ∧ 0 < n ∧ n < UInt64.size

/-- A size is the one that the value of a variable spells, or a default if it spells none or there is
no value. -/
def Chosen (value : Option String) (default size : Nat) : Prop :=
  (∃ s ∈ value, SpellsSize s size) ∨ (∀ s ∈ value, ∀ n, ¬SpellsSize s n) ∧ size = default

/-- Some characters without the plus sign in front of them. -/
def unsigned (cs : List Char) : List Char :=
  if cs.head? = some '+' then cs.drop 1 else cs

variable {s t : String} {n default : Nat} {cs digits : List Char} {value value' : Option String}

/-- A size is read as the length of a payload is, but with a sign, and without zero. -/
theorem size?_eq (s : String) :
    size? s = (Frame.length? (String.ofList (unsigned (Text.trimChars s.toList)))).filter (0 < ·) := by
  have hsigned : ∀ cs, sizeDigits cs = if (unsigned cs).isEmpty ||
      (unsigned cs).any (fun c => !('0' ≤ c && c ≤ '9')) then none else some (unsigned cs) :=
    fun _ => rfl
  rw [size?, hsigned, Frame.length?, String.toList_ofList]
  generalize unsigned (Text.trimChars s.toList) = digits
  split_ifs with hbad
  · rfl
  · change (Decimal.valueWithin? _ _).bind _ = _
    cases Decimal.valueWithin? (UInt64.size - 1) (digits.map fun c => c.toNat - 48) with
    | none => rfl
    | some n => simp [Option.filter]

theorem exists_sign (cs : List Char) :
    ∃ sign, (sign = [] ∨ sign = ['+']) ∧ cs = sign ++ unsigned cs := by
  unfold unsigned
  split_ifs with hplus
  · refine ⟨['+'], .inr rfl, ?_⟩
    cases cs with
    | nil => cases hplus
    | cons c cs =>
      obtain rfl := Option.some.inj hplus
      rfl
  · exact ⟨[], .inl rfl, rfl⟩

theorem isBlank_of_numeral {sign : List Char} (hsign : sign = [] ∨ sign = ['+'])
    (hdigits : ∀ c ∈ digits, '0' ≤ c ∧ c ≤ '9') : ∀ c ∈ sign ++ digits, Text.isBlank c = false := by
  intro c hc
  rcases List.mem_append.1 hc with hc | hc
  · rcases hsign with rfl | rfl
    · cases hc
    · rw [List.mem_singleton.1 hc]
      decide
  · obtain ⟨hlow, hhigh⟩ := hdigits c hc
    exact Frame.isBlank_of_digit
      ⟨UInt32.le_iff_toNat_le.1 hlow, UInt32.le_iff_toNat_le.1 hhigh⟩

theorem unsigned_append {sign : List Char} (hsign : sign = [] ∨ sign = ['+'])
    (hdigits : ∀ c ∈ digits, '0' ≤ c ∧ c ≤ '9') : unsigned (sign ++ digits) = digits := by
  rcases hsign with rfl | rfl
  · refine if_neg fun hplus => ?_
    have hdigit := hdigits '+' (List.mem_of_head? hplus)
    exact absurd hdigit.1 (by decide)
  · rfl

theorem size?_eq_some_iff : size? s = some n ↔ SpellsSize s n := by
  rw [size?_eq, Option.filter_eq_some_iff, Frame.Field.length?_eq_some_iff]
  constructor
  · rintro ⟨⟨hne, hdigits, hword, rfl⟩, hpos⟩
    obtain ⟨before, after, hbefore, hafter, hs⟩ := Text.exists_blanks_around s.toList
    obtain ⟨sign, hsign, hcore⟩ := exists_sign (Text.trimChars s.toList)
    rw [hcore] at hs
    exact ⟨before, sign, _, after, hs, hbefore, hafter, hsign, hne, hdigits, rfl,
      of_decide_eq_true hpos, hword⟩
  · rintro ⟨before, sign, digits, after, hs, hbefore, hafter, hsign, hne, hdigits, rfl, hpos, hword⟩
    rw [hs, Text.trimChars_around hbefore hafter,
      Text.trimChars_eq_self (isBlank_of_numeral hsign hdigits), unsigned_append hsign hdigits]
    exact ⟨⟨hne, hdigits, hword, rfl⟩, decide_eq_true hpos⟩

/-- A size is chosen by the value of its variable alone. -/
theorem chosen_getD (value : Option String) (default : Nat) :
    Chosen value default ((value.bind size?).getD default) := by
  cases hsize : value.bind size? with
  | none =>
    refine .inr ⟨fun s hs n hn => ?_, rfl⟩
    rw [Option.mem_def.1 hs, Option.bind_some, size?_eq_some_iff.2 hn] at hsize
    cases hsize
  | some n =>
    obtain ⟨s, hs, hn⟩ := Option.bind_eq_some_iff.1 hsize
    exact .inl ⟨s, hs, size?_eq_some_iff.1 hn⟩

theorem one_le_of_chosen (h : Chosen value default n) (hdefault : 1 ≤ default) : 1 ≤ n := by
  rcases h with ⟨s, -, hs⟩ | ⟨-, rfl⟩
  · obtain ⟨-, -, -, -, -, -, -, -, -, -, -, hpos, -⟩ := hs
    exact hpos
  · exact hdefault

theorem size?_congr (h : AlikeInside s t) : size? s = size? t := by
  obtain ⟨core, hs, ht⟩ := h
  rw [size?_eq, size?_eq, hs.trimChars_eq, ht.trimChars_eq]

theorem bind_size?_congr (h : Option.Rel AlikeInside value value') :
    value.bind size? = value'.bind size? := by
  cases h with
  | some h => exact size?_congr h
  | none => rfl

/-! ## Words that switch off -/

/-- The value of a variable switches something off. -/
def SwitchesOff (value : Option String) : Prop :=
  ∃ s ∈ value, isOff s = true

theorem toLower_of_isBlank {c : Char} (h : Text.isBlank c = true) : c.toLower = c := by
  refine dif_neg fun hupper => ?_
  have hlow : 65 ≤ c.toNat := UInt32.le_iff_toNat_le.1 hupper.1
  have hhigh : c.toNat ≤ 90 := UInt32.le_iff_toNat_le.1 hupper.2
  simp only [Text.isBlank, Bool.or_eq_true, Bool.and_eq_true, decide_eq_true_eq, beq_iff_eq] at h
  omega

/-- There are no blanks in the words that switch something off. -/
theorem trim_of_isOff (h : isOff s = true) : Text.trim s = s := by
  have hletters : ∀ word ∈ ["0", "false", "no"].map String.toList, ∀ c ∈ word,
      Text.isBlank c = false := by
    simp [Text.isBlank]
  have hword := List.mem_map_of_mem (f := String.toList) (of_decide_eq_true h)
  rw [String.toList_ofList] at hword
  have hnone : ∀ c ∈ s.toList, Text.isBlank c = false := by
    intro c hc
    by_contra hblank
    have hlower := toLower_of_isBlank (Bool.eq_true_of_not_eq_false hblank)
    exact hblank (hletters _ hword c (List.mem_map.2 ⟨c, hc, hlower⟩))
  rw [Text.trim, Text.trimChars_eq_self hnone, String.ofList_toList]

theorem cancelOnAbandon_eq_false_iff (lookup : String → Option String) :
    (ofEnvironment lookup).cancelOnAbandon = false ↔
      SwitchesOff (lookup "LSPWIRE_CANCEL_ON_ABANDON") := by
  change ((lookup "LSPWIRE_CANCEL_ON_ABANDON").map fun s => !isOff s).getD true = false ↔ _
  cases lookup "LSPWIRE_CANCEL_ON_ABANDON" with
  | none => simp [SwitchesOff]
  | some s => simp [SwitchesOff]

/-- The environment is looked up for each of the variables, and each of them decides one setting. The
sizes are those that the values of their variables spell, or else their defaults, and are not zero.
Cancelling is switched off by the words for it, and by no value with blanks around it. If blanks are put
around the values or taken away there, the sizes stay, and all settings stay just if both values or
neither of them switch cancelling off. -/
theorem settings_of_environment (lookup : String → Option String) :
    Chosen (lookup "LSPWIRE_MAX_MESSAGE_SIZE") Frame.defaultLimit
        (ofEnvironment lookup).maxMessageSize ∧
      Chosen (lookup "LSPWIRE_READ_CHUNK_SIZE") 8192 (ofEnvironment lookup).readChunkSize ∧
      1 ≤ (ofEnvironment lookup).maxMessageSize ∧ 1 ≤ (ofEnvironment lookup).readChunkSize ∧
      ((ofEnvironment lookup).cancelOnAbandon = false ↔
        SwitchesOff (lookup "LSPWIRE_CANCEL_ON_ABANDON")) ∧
      (∀ s ∈ lookup "LSPWIRE_CANCEL_ON_ABANDON", Text.trim s ≠ s →
        (ofEnvironment lookup).cancelOnAbandon = true) ∧
      ∀ other, (∀ key ∈ lookedUp, Option.Rel AlikeInside (lookup key) (other key)) →
        (ofEnvironment other).maxMessageSize = (ofEnvironment lookup).maxMessageSize ∧
        (ofEnvironment other).readChunkSize = (ofEnvironment lookup).readChunkSize ∧
        (ofEnvironment other = ofEnvironment lookup ↔
          (SwitchesOff (other "LSPWIRE_CANCEL_ON_ABANDON") ↔
            SwitchesOff (lookup "LSPWIRE_CANCEL_ON_ABANDON"))) := by
  have hmax := chosen_getD (lookup "LSPWIRE_MAX_MESSAGE_SIZE") Frame.defaultLimit
  have hchunk := chosen_getD (lookup "LSPWIRE_READ_CHUNK_SIZE") 8192
  refine ⟨hmax, hchunk, one_le_of_chosen hmax (by decide), one_le_of_chosen hchunk (by decide),
    cancelOnAbandon_eq_false_iff lookup, fun s hs hblank => ?_, fun other halike => ?_⟩
  · refine Bool.eq_true_of_not_eq_false fun hoff => ?_
    obtain ⟨s', hs', hword⟩ := (cancelOnAbandon_eq_false_iff lookup).1 hoff
    obtain rfl := Option.mem_unique hs hs'
    exact hblank (trim_of_isOff hword)
  · have hmax' : (ofEnvironment other).maxMessageSize = (ofEnvironment lookup).maxMessageSize :=
      congrArg (Option.getD · _) (bind_size?_congr (halike _ (by simp [lookedUp]))).symm
    have hchunk' : (ofEnvironment other).readChunkSize = (ofEnvironment lookup).readChunkSize :=
      congrArg (Option.getD · _) (bind_size?_congr (halike _ (by simp [lookedUp]))).symm
    rw [← cancelOnAbandon_eq_false_iff, ← cancelOnAbandon_eq_false_iff]
    refine ⟨hmax', hchunk', fun h => by rw [h], fun h => ?_⟩
    have hcancel : (ofEnvironment other).cancelOnAbandon = (ofEnvironment lookup).cancelOnAbandon :=
      Bool.not_inj (Bool.eq_iff_iff.2 (by simpa using h))
    exact (Config.mk.injEq ..).mpr ⟨hmax', hchunk', hcancel⟩

/-- A size with blanks around it, a size of zero, and a word that switches off. Without the blanks the
settings are the same. -/
theorem settings_of_padded_size :
    let lookup := fun key => [("LSPWIRE_MAX_MESSAGE_SIZE", " +2048\t"),
      ("LSPWIRE_READ_CHUNK_SIZE", "0"), ("LSPWIRE_CANCEL_ON_ABANDON", "No")].lookup key
    let other := fun key => [("LSPWIRE_MAX_MESSAGE_SIZE", "+2048"),
      ("LSPWIRE_READ_CHUNK_SIZE", "0"), ("LSPWIRE_CANCEL_ON_ABANDON", "No")].lookup key
    (∀ key ∈ lookedUp, Option.Rel AlikeInside (lookup key) (other key)) ∧
      ofEnvironment lookup = ⟨2048, 8192, false⟩ ∧ ofEnvironment other = ofEnvironment lookup := by
  intro lookup other
  have halike : ∀ key ∈ lookedUp, Option.Rel AlikeInside (lookup key) (other key) := by
    simp only [lookedUp, List.forall_mem_cons]
    refine ⟨.some (Text.alikeInside_iff.2 (by decide +kernel)), .some (Text.alikeInside_iff.2 rfl),
      .some (Text.alikeInside_iff.2 rfl), List.forall_mem_nil _⟩
  obtain ⟨-, -, hsettings⟩ := (settings_of_environment lookup).2.2.2.2.2.2 other halike
  exact ⟨halike, by decide +kernel, hsettings.2 Iff.rfl⟩

/-- The word that switches cancelling off does not do so with a blank behind it. -/
theorem blank_keeps_cancelling :
    ¬∀ lookup other : String → Option String,
      (∀ key ∈ lookedUp, Option.Rel AlikeInside (lookup key) (other key)) →
      ofEnvironment other = ofEnvironment lookup := by
  intro h
  let setTo (word : String) (key : String) := [("LSPWIRE_CANCEL_ON_ABANDON", word)].lookup key
  have halike : ∀ key ∈ lookedUp, Option.Rel AlikeInside (setTo "false" key) (setTo "false " key) := by
    simp only [lookedUp, List.forall_mem_cons]
    exact ⟨.none, .none, .some (Text.alikeInside_iff.2 (by decide +kernel)), List.forall_mem_nil _⟩
  have hsettings := h (setTo "false") (setTo "false ") halike
  exact absurd hsettings (by decide +kernel)

end Config

end PeerRpc.Session
