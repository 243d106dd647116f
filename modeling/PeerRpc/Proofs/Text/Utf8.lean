import Mathlib
import PeerRpc.Text.Basic

/-!
# Reading back the bytes of a text

The bytes of characters are those of the text made of them, and reading them gives it back
(`ofUtf8?_utf8OfChars`); bytes that can be read are those of the text read
(`utf8OfChars_of_ofUtf8?`). A character below 128 is its own byte; all bytes of any other character
are 128 or more.
-/

namespace PeerRpc.Text

@[simp] theorem utf8OfChars_nil : utf8OfChars [] = [] := rfl

@[simp] theorem utf8OfChars_cons (c : Char) (cs : List Char) :
    utf8OfChars (c :: cs) = String.utf8EncodeChar c ++ utf8OfChars cs := rfl

@[simp] theorem utf8OfChars_append (cs ds : List Char) :
    utf8OfChars (cs ++ ds) = utf8OfChars cs ++ utf8OfChars ds := by
  simp [utf8OfChars]

theorem ofUtf8?_utf8OfChars (cs : List Char) : ofUtf8? (utf8OfChars cs) = some (String.ofList cs) := by
  have he : (⟨(utf8OfChars cs).toArray⟩ : ByteArray) = cs.utf8Encode := by
    apply ByteArray.ext
    simp [List.utf8Encode, utf8OfChars]
  have hv : (⟨(utf8OfChars cs).toArray⟩ : ByteArray).IsValidUTF8 := by
    rw [he]
    exact ByteArray.isValidUTF8_utf8Encode
  unfold ofUtf8? String.fromUTF8?
  rw [dif_pos hv, Option.some.injEq, ← String.toByteArray_inj, String.toByteArray_ofList, ← he]
  rfl

theorem utf8OfChars_of_ofUtf8? {bytes : List UInt8} {s : String} (h : ofUtf8? bytes = some s) :
    utf8OfChars s.toList = bytes := by
  unfold ofUtf8? String.fromUTF8? at h
  split_ifs at h with hv
  have hs := congrArg String.toByteArray (Option.some.inj h)
  have hbytes : (⟨bytes.toArray⟩ : ByteArray) = s.toList.utf8Encode := by
    rw [← String.toByteArray_ofList, String.ofList_toList]
    exact hs
  have := congrArg (fun b : ByteArray => b.data.toList) hbytes
  simpa [List.utf8Encode, utf8OfChars] using this.symm

theorem utf8EncodeChar_of_lt {c : Char} (h : c.toNat < 128) :
    String.utf8EncodeChar c = [UInt8.ofNat c.toNat] := by
  have hv : c.val.toNat ≤ 0x7f := Nat.le_of_lt_succ h
  unfold String.utf8EncodeChar
  exact if_pos hv

theorem le_of_mem_utf8EncodeChar {c : Char} (h : 128 ≤ c.toNat) {b : UInt8}
    (hb : b ∈ String.utf8EncodeChar c) : 128 ≤ b.toNat := by
  have hv : ¬ c.val.toNat ≤ 0x7f := Nat.not_le_of_lt h
  have hmax := c.val.toNat_lt
  unfold String.utf8EncodeChar at hb
  dsimp only at hb
  rw [if_neg hv] at hb
  split_ifs at hb <;> simp only [List.mem_cons, List.not_mem_nil, or_false] at hb <;>
    rcases hb with rfl | rfl | rfl | rfl <;> simp only [UInt8.toNat_ofNat'] <;> omega

theorem utf8OfChars_of_lt {cs : List Char} (h : ∀ c ∈ cs, c.toNat < 128) :
    utf8OfChars cs = cs.map fun c => UInt8.ofNat c.toNat := by
  induction cs with
  | nil => rfl
  | cons c cs ih =>
    rw [utf8OfChars_cons, utf8EncodeChar_of_lt (h c (by simp)),
      ih fun d hd => h d (List.mem_cons_of_mem _ hd)]
    rfl

/-- The byte of a character below 128 stands in a text's bytes only for that character. -/
theorem mem_utf8OfChars_iff {c : Char} (h : c.toNat < 128) {cs : List Char} :
    UInt8.ofNat c.toNat ∈ utf8OfChars cs ↔ c ∈ cs := by
  unfold utf8OfChars
  rw [List.mem_flatMap]
  constructor
  · rintro ⟨d, hd, hb⟩
    by_cases hlt : d.toNat < 128
    · rw [utf8EncodeChar_of_lt hlt, List.mem_singleton] at hb
      have he := congrArg UInt8.toNat hb
      rw [UInt8.toNat_ofNat', UInt8.toNat_ofNat'] at he
      have : c.toNat = d.toNat := by omega
      rwa [Char.toNat_inj.1 this]
    · have := le_of_mem_utf8EncodeChar (Nat.le_of_not_lt hlt) hb
      rw [UInt8.toNat_ofNat'] at this
      omega
  · intro hc
    exact ⟨c, hc, by rw [utf8EncodeChar_of_lt h]; exact List.mem_singleton.2 rfl⟩

end PeerRpc.Text
