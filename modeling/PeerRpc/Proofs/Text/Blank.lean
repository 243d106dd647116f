import Mathlib
import PeerRpc.Text.Basic

/-!
# Texts between blanks

Cutting off the blanks at both ends of a text gives back what stands between them: a text is what is
left with blanks around it (`around_trim`), and two texts are left with the same just if they differ
only by blanks around it (`alikeInside_iff`).
-/

namespace PeerRpc.Text

/-- Blanks and nothing else. -/
def AllBlank (cs : List Char) : Prop :=
  ∀ c ∈ cs, isBlank c = true

/-- A text that is another one with blanks put before and behind it. -/
def Around (core s : String) : Prop :=
  ∃ before after, AllBlank before ∧ AllBlank after ∧ s.toList = before ++ core.toList ++ after

/-- Two texts that become each other when blanks are put before and behind them or are taken away
there. -/
def AlikeInside (s t : String) : Prop :=
  ∃ core, Around core s ∧ Around core t

variable {cs before after : List Char} {core s t : String}

theorem trimChars_around (hbefore : AllBlank before) (hafter : AllBlank after) (cs : List Char) :
    trimChars (before ++ cs ++ after) = trimChars cs := by
  unfold trimChars
  rw [List.append_assoc, List.dropWhile_append_of_pos hbefore, List.dropWhile_append]
  split_ifs with hempty
  · rw [List.isEmpty_iff.1 hempty, List.dropWhile_eq_nil_iff.2 hafter]
  · rw [List.reverse_append, List.dropWhile_append_of_pos fun c hc => hafter c (List.mem_reverse.1 hc)]

theorem exists_blanks_around (cs : List Char) :
    ∃ before after, AllBlank before ∧ AllBlank after ∧ cs = before ++ trimChars cs ++ after := by
  let front := cs.dropWhile isBlank
  refine ⟨cs.takeWhile isBlank, (front.reverse.takeWhile isBlank).reverse,
    fun c hc => List.mem_takeWhile_imp hc,
    fun c hc => List.mem_takeWhile_imp (List.mem_reverse.1 hc), ?_⟩
  have hfront : trimChars cs ++ (front.reverse.takeWhile isBlank).reverse = front := by
    rw [trimChars, ← List.reverse_append, List.takeWhile_append_dropWhile, List.reverse_reverse]
  rw [List.append_assoc, hfront, List.takeWhile_append_dropWhile]

theorem trimChars_eq_self (h : ∀ c ∈ cs, isBlank c = false) : trimChars cs = cs := by
  obtain ⟨before, after, hbefore, hafter, hcs⟩ := exists_blanks_around cs
  have hnone : ∀ {ds : List Char}, AllBlank ds → (∀ c ∈ ds, c ∈ cs) → ds = [] := by
    intro ds hds hmem
    refine List.eq_nil_iff_forall_not_mem.2 fun c hc => ?_
    exact Bool.false_ne_true ((h c (hmem c hc)).symm.trans (hds c hc))
  have hb : before = [] := hnone hbefore fun c hc => by
    rw [hcs]
    exact List.mem_append_left _ (List.mem_append_left _ hc)
  have ha : after = [] := hnone hafter fun c hc => by
    rw [hcs]
    exact List.mem_append_right _ hc
  rw [hb, ha, List.nil_append, List.append_nil] at hcs
  exact hcs.symm

theorem Around.trimChars_eq (h : Around core s) : trimChars s.toList = trimChars core.toList := by
  obtain ⟨before, after, hbefore, hafter, hs⟩ := h
  rw [hs, trimChars_around hbefore hafter]

theorem around_trim (s : String) : Around (trim s) s := by
  obtain ⟨before, after, hbefore, hafter, hs⟩ := exists_blanks_around s.toList
  exact ⟨before, after, hbefore, hafter, by rwa [trim, String.toList_ofList]⟩

theorem alikeInside_iff : AlikeInside s t ↔ trim s = trim t := by
  constructor
  · rintro ⟨core, hs, ht⟩
    rw [trim, trim, hs.trimChars_eq, ht.trimChars_eq]
  · intro h
    exact ⟨trim s, around_trim s, h ▸ around_trim t⟩

end PeerRpc.Text
