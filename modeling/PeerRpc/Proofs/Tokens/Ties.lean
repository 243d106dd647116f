import Mathlib
import PeerRpc.Proofs.Tokens.Rewriting

/-!
# Edits that start together

The buffer applies edits that start at the same place in the order in which they are listed, each to
what those before it have left there. An edit that takes something out therefore takes out what an
edit listed before it has put in, in place of the numbers that it was meant for
(`inserted_number_taken_out`). If of the edits that start together only the first one listed takes
anything out, all edits happen at once.

* `rebuilt_from_the_end`: what the edits of a delta do to the array, whatever their order.
-/

namespace PeerRpc.Tokens

/-- The edits that start at an index, as they are listed. -/
def startingAt (edits : List Edit) (i : Nat) : List Edit :=
  edits.filter fun e => e.first = i

/-- The numbers from the place of an edit on, after the edit. -/
def cutIn (tail : List UInt32) (e : Edit) : List UInt32 :=
  e.inserted ++ tail.drop e.deleteCount.toNat

/-- The numbers from an index on after edits that act one after the other: those that start behind
the index have been made, then those that start there are made as they are listed. -/
def rebuiltFrom (edits : List Edit) : Nat → List UInt32 → List UInt32
  | i, [] => (startingAt edits i).foldl cutIn []
  | i, n :: rest => (startingAt edits i).foldl cutIn (n :: rebuiltFrom edits (i + 1) rest)

/-- An array after edits that act one after the other, from its end to its beginning. -/
def rebuilt (edits : List Edit) (data : List UInt32) : List UInt32 :=
  rebuiltFrom edits 0 data

/-- Of edits that start together only the first one listed takes anything out. -/
def DeleteFirst (edits : List Edit) : Prop :=
  edits.Pairwise fun e e' => e.first = e'.first → e'.deleteCount = 0

instance (edits : List Edit) : Decidable (DeleteFirst edits) :=
  inferInstanceAs (Decidable (List.Pairwise _ _))

variable {edits : List Edit} {e : Edit} {i : Nat}

theorem mem_startingAt : e ∈ startingAt edits i ↔ e ∈ edits ∧ e.first = i := by
  simp [startingAt]

namespace Buffer

/-! ## One place after the other -/

/-- Sorting keeps the order of edits that start together. -/
theorem startingAt_fromTheEnd (edits : List Edit) (i : Nat) :
    startingAt (fromTheEnd edits) i = startingAt edits i := by
  have hequal : (startingAt edits i).Pairwise fun a b => decide (b.start ≤ a.start) = true := by
    apply List.pairwise_of_forall_mem_list
    intro a ha b hb
    rw [mem_startingAt] at ha hb
    rw [Edit.first_inj (ha.2.trans hb.2.symm), decide_eq_true_eq]
    exact UInt32.le_refl _
  have hsublist : (startingAt edits i).Sublist (fromTheEnd edits) :=
    List.sublist_mergeSort start_trans start_total hequal List.filter_sublist
  have hkept : startingAt (startingAt edits i) i = startingAt edits i := by
    simp [startingAt]
  have hperm : (startingAt (fromTheEnd edits) i).Perm (startingAt edits i) :=
    (perm_fromTheEnd edits).filter _
  refine (List.Sublist.eq_of_length ?_ hperm.length_eq.symm).symm
  have h := hsublist.filter fun e => e.first = i
  rwa [← startingAt, hkept, ← startingAt] at h

/-- Of sorted edits those that start at an index come right behind those that start later. -/
theorem filter_le_first {l : List Edit} (h : l.Pairwise fun e e' => e'.first ≤ e.first) (i : Nat) :
    l.filter (fun e => i ≤ e.first) = l.filter (fun e => i + 1 ≤ e.first) ++ startingAt l i := by
  induction l with
  | nil => rfl
  | cons e l ih =>
    obtain ⟨he, hl⟩ := List.pairwise_cons.1 h
    have hlater : e.first ≤ i → l.filter (fun e => i + 1 ≤ e.first) = [] := by
      intro hle
      simp only [List.filter_eq_nil_iff, decide_eq_true_eq]
      intro e' he'
      have := he e' he'
      omega
    rcases Nat.lt_trichotomy e.first i with hlt | heq | hgt
    · rw [startingAt] at ih ⊢
      rw [List.filter_cons_of_neg (by simpa using hlt), List.filter_cons_of_neg (by simp; omega),
        List.filter_cons_of_neg (by simpa using hlt.ne), ih hl]
    · rw [startingAt] at ih ⊢
      rw [List.filter_cons_of_pos (by simp [heq]), List.filter_cons_of_neg (by simp [heq]),
        List.filter_cons_of_pos (by simp [heq]), ih hl, hlater heq.le, List.nil_append,
        List.nil_append]
    · rw [startingAt] at ih ⊢
      rw [List.filter_cons_of_pos (by simp; omega), List.filter_cons_of_pos (by simpa using hgt),
        List.filter_cons_of_neg (by simpa using hgt.ne'), ih hl, List.cons_append]

theorem applyEdit_append {before : List UInt32} (h : e.first = before.length)
    (tail : List UInt32) : applyEdit (before ++ tail) e = before ++ cutIn tail e := by
  have hstart : editStart (before ++ tail).length e = before.length := by
    rw [editStart, ← h, List.length_append, ← h]
    exact Nat.min_eq_left (Nat.le_add_right _ _)
  rw [applyEdit, hstart, editStop, hstart, splice, List.take_left, List.append_assoc, cutIn,
    Edit.inserted]
  congr 2
  rw [List.length_append]
  rcases Nat.le_total e.deleteCount.toNat tail.length with hle | hle
  · rw [Nat.min_eq_left (by omega), List.drop_append, List.drop_eq_nil_of_le (by omega)]
    simp
  · rw [Nat.min_eq_right (by omega), List.drop_eq_nil_of_le (by simp), List.drop_eq_nil_of_le hle]

theorem foldl_applyEdit_append {before : List UInt32} {es : List Edit}
    (h : ∀ e ∈ es, e.first = before.length) (tail : List UInt32) :
    es.foldl applyEdit (before ++ tail) = before ++ es.foldl cutIn tail := by
  induction es generalizing tail with
  | nil => rfl
  | cons e es ih =>
    rw [List.foldl_cons, List.foldl_cons, applyEdit_append (h e List.mem_cons_self),
      ih fun e' he' => h e' (List.mem_cons_of_mem _ he')]

/-- The edits from an index on rebuild the numbers from there on and leave those before alone. -/
theorem foldl_applyEdit_from (before after : List UInt32)
    (hin : ∀ e ∈ edits, e.first ≤ before.length + after.length) :
    ((fromTheEnd edits).filter fun e => before.length ≤ e.first).foldl applyEdit (before ++ after) =
      before ++ rebuiltFrom edits before.length after := by
  have hhere : ∀ e ∈ startingAt edits before.length, e.first = before.length :=
    fun e he => (mem_startingAt.1 he).2
  rw [filter_le_first (pairwise_fromTheEnd edits), startingAt_fromTheEnd, List.foldl_append]
  induction after generalizing before with
  | nil =>
    have hnone : (fromTheEnd edits).filter (fun e => before.length + 1 ≤ e.first) = [] := by
      simp only [List.filter_eq_nil_iff, decide_eq_true_eq]
      intro e he
      have := hin e ((perm_fromTheEnd edits).subset he)
      rw [List.length_nil] at this
      omega
    rw [hnone, List.foldl_nil, foldl_applyEdit_append hhere, rebuiltFrom]
  | cons n rest ih =>
    have hlength : (before ++ [n]).length = before.length + 1 := List.length_append
    have hnext : ((fromTheEnd edits).filter fun e => before.length + 1 ≤ e.first).foldl applyEdit
        (before ++ n :: rest) = before ++ n :: rebuiltFrom edits (before.length + 1) rest := by
      have h := ih (before ++ [n]) (fun e he => by
        have := hin e he
        rw [List.length_cons] at this
        omega) fun e he => (mem_startingAt.1 he).2
      rw [← List.foldl_append, ← startingAt_fromTheEnd,
        ← filter_le_first (pairwise_fromTheEnd edits), hlength] at h
      rw [List.append_cons, h, ← List.append_cons]
    rw [hnext, foldl_applyEdit_append hhere, rebuiltFrom]

/-- The edits of a delta rebuild the array from its end, whatever they take out. -/
theorem data_applyDelta {b : Buffer} (hin : ∀ e ∈ edits, e.first ≤ b.data.length) :
    (b.applyDelta edits).data = rebuilt edits b.data := by
  have h := foldl_applyEdit_from [] b.data (by simpa using hin)
  simpa [applyDelta, rebuilt] using h

/-- Edits that all start together act on the numbers from there on, as they are listed. -/
theorem data_applyDelta_of_same {b : Buffer} (hsame : ∀ e ∈ edits, e.first = i)
    (hi : i ≤ b.data.length) :
    (b.applyDelta edits).data = b.data.take i ++ edits.foldl cutIn (b.data.drop i) := by
  have hstarting : ∀ es : List Edit, (∀ e ∈ es, e.first = i) → startingAt es i = es := by
    intro es hes
    rw [startingAt, List.filter_eq_self]
    simpa using hes
  have hsorted : fromTheEnd edits = edits := by
    have h := startingAt_fromTheEnd edits i
    rwa [hstarting edits hsame,
      hstarting _ fun e he => hsame e ((perm_fromTheEnd edits).subset he)] at h
  have hlength : (b.data.take i).length = i := by simpa using hi
  have h : edits.foldl applyEdit (b.data.take i ++ b.data.drop i) =
      b.data.take i ++ edits.foldl cutIn (b.data.drop i) :=
    foldl_applyEdit_append (fun e he => by rw [hlength, hsame e he]) _
  rw [List.take_append_drop] at h
  rw [applyDelta, hsorted]
  exact h

end Buffer

/-! ## All at once -/

/-- How many numbers the first listed one of the edits that start at an index takes out. -/
def takenAt (edits : List Edit) (i : Nat) : Nat :=
  ((startingAt edits i).head?.map fun e => e.deleteCount.toNat).getD 0

/-- Of the numbers from an index on, so many are taken out by edits that start before it. -/
structure Reach (edits : List Edit) (i k : Nat) : Prop where
  stop_le : ∀ e ∈ edits, e.first < i → e.stop ≤ i + k
  attained : 0 < k → ∃ e ∈ edits, e.first < i ∧ e.stop = i + k

/-- Edits that take nothing out put their numbers in front of each other. -/
theorem foldl_cutIn_of_plain {es : List Edit} (h : ∀ e ∈ es, e.deleteCount = 0)
    (tail : List UInt32) : es.foldl cutIn tail = es.reverse.flatMap Edit.inserted ++ tail := by
  induction es generalizing tail with
  | nil => rfl
  | cons e es ih =>
    rw [List.foldl_cons, ih fun e' he' => h e' (List.mem_cons_of_mem _ he'), cutIn,
      h e List.mem_cons_self]
    simp

/-- One edit that takes something out, among others: it finds in front what those listed before it
have put in. -/
theorem foldl_cutIn_of_split {before after : List Edit}
    (h : ∀ e' ∈ before ++ after, e'.deleteCount = 0) (tail : List UInt32) :
    (before ++ e :: after).foldl cutIn tail =
      after.reverse.flatMap Edit.inserted ++ (e.inserted ++
        (before.reverse.flatMap Edit.inserted ++ tail).drop e.deleteCount.toNat) := by
  rw [List.foldl_append, List.foldl_cons,
    foldl_cutIn_of_plain fun e' he' => h e' (List.mem_append_left _ he'),
    foldl_cutIn_of_plain fun e' he' => h e' (List.mem_append_right _ he'), cutIn]

theorem DeleteFirst.startingAt_eq_cons (h : DeleteFirst edits) {es : List Edit}
    (hes : startingAt edits i = e :: es) : ∀ e' ∈ es, e'.deleteCount = 0 := by
  have hlisted : DeleteFirst (startingAt edits i) := h.sublist List.filter_sublist
  have hsame : ∀ e' ∈ e :: es, e'.first = i := fun e' he' => (mem_startingAt.1 (hes ▸ he')).2
  rw [hes] at hlisted
  intro e' he'
  apply (List.pairwise_cons.1 hlisted).1 e' he'
  rw [hsame e List.mem_cons_self, hsame e' (List.mem_cons_of_mem _ he')]

theorem foldl_startingAt (h : DeleteFirst edits) (tail : List UInt32) :
    (startingAt edits i).foldl cutIn tail =
      insertedAt edits.reverse i ++ tail.drop (takenAt edits i) := by
  rw [insertedAt, List.filter_reverse, ← startingAt, takenAt]
  cases hes : startingAt edits i with
  | nil => rfl
  | cons e es =>
    have hplain := h.startingAt_eq_cons hes
    rw [← List.nil_append (e :: es), foldl_cutIn_of_split hplain]
    simp

theorem stop_le_takenAt (h : DeleteFirst edits) (he : e ∈ edits) (hfirst : e.first = i) :
    e.stop ≤ i + takenAt edits i := by
  have hmem := mem_startingAt.2 ⟨he, hfirst⟩
  have hstop : e.stop = i + e.deleteCount.toNat := by rw [← hfirst]; rfl
  rw [hstop, takenAt]
  cases hes : startingAt edits i with
  | nil => simp [hes] at hmem
  | cons e' es =>
    rw [hes] at hmem
    rcases List.mem_cons.1 hmem with rfl | hmem
    · simp
    · simp [h.startingAt_eq_cons hes e hmem]

theorem exists_of_takenAt_pos (hpos : 0 < takenAt edits i) :
    ∃ e ∈ edits, e.first = i ∧ e.stop = i + takenAt edits i := by
  rw [takenAt] at hpos ⊢
  cases hes : startingAt edits i with
  | nil => simp [hes] at hpos
  | cons e es =>
    obtain ⟨he, hfirst⟩ := mem_startingAt.1 (hes ▸ List.mem_cons_self : e ∈ startingAt edits i)
    refine ⟨e, he, hfirst, ?_⟩
    rw [← hfirst]
    rfl

section Apart

variable {k : Nat}

/-- No edit starts where an edit before it still takes something out. -/
theorem Reach.startingAt_eq_nil (hapart : edits.Pairwise Edit.Apart) (hk : Reach edits i k)
    (hpos : 0 < k) : startingAt edits i = [] := by
  obtain ⟨e, he, hfirst, hstop⟩ := hk.attained hpos
  rw [startingAt, List.filter_eq_nil_iff]
  intro e' he'
  rw [decide_eq_true_eq]
  intro hfirst'
  have hne : e ≠ e' := by
    rintro rfl
    omega
  have hle := e'.first_le_stop
  have : Std.Symm Edit.Apart := ⟨fun _ _ => Edit.Apart.symm⟩
  rcases hapart.forall he he' hne with hor | hor <;> omega

/-- From an index to the next. -/
theorem Reach.next (h : DeleteFirst edits) (hapart : edits.Pairwise Edit.Apart)
    (hk : Reach edits i k) :
    isDeleted edits i = decide (0 < k + takenAt edits i) ∧
      Reach edits (i + 1) (k + takenAt edits i - 1) := by
  have hle : ∀ e ∈ edits, e.first ≤ i → e.stop ≤ i + (k + takenAt edits i) := by
    intro e he hfirst
    rcases hfirst.lt_or_eq with hlt | heq
    · have := hk.stop_le e he hlt
      omega
    · have := stop_le_takenAt h he heq
      omega
  have hattained : 0 < k + takenAt edits i →
      ∃ e ∈ edits, e.first ≤ i ∧ e.stop = i + (k + takenAt edits i) := by
    intro hpos
    rcases Nat.eq_zero_or_pos k with rfl | hkpos
    · obtain ⟨e, he, hfirst, hstop⟩ := exists_of_takenAt_pos (by omega : 0 < takenAt edits i)
      exact ⟨e, he, hfirst.le, by omega⟩
    · have htaken : takenAt edits i = 0 := by rw [takenAt, hk.startingAt_eq_nil hapart hkpos]; rfl
      obtain ⟨e, he, hfirst, hstop⟩ := hk.attained hkpos
      exact ⟨e, he, hfirst.le, by omega⟩
  refine ⟨?_, ⟨fun e he hfirst => ?_, fun hpos => ?_⟩⟩
  · rw [isDeleted, Bool.eq_iff_iff, List.any_eq_true, decide_eq_true_eq]
    constructor
    · rintro ⟨e, he, hin⟩
      simp only [Bool.and_eq_true, decide_eq_true_eq] at hin
      have := hle e he hin.1
      omega
    · intro hpos
      obtain ⟨e, he, hfirst, hstop⟩ := hattained hpos
      refine ⟨e, he, ?_⟩
      simp only [Bool.and_eq_true, decide_eq_true_eq]
      omega
  · have := hle e he (by omega)
    omega
  · obtain ⟨e, he, hfirst, hstop⟩ := hattained (by omega)
    exact ⟨e, he, by omega, by omega⟩

theorem Reach.drop_foldl_startingAt (h : DeleteFirst edits) (hapart : edits.Pairwise Edit.Apart)
    (hk : Reach edits i k) (tail : List UInt32) :
    ((startingAt edits i).foldl cutIn tail).drop k =
      insertedAt edits.reverse i ++ tail.drop (k + takenAt edits i) := by
  rcases Nat.eq_zero_or_pos k with rfl | hpos
  · rw [foldl_startingAt h, List.drop_zero, Nat.zero_add]
  · have hnone := hk.startingAt_eq_nil hapart hpos
    rw [insertedAt, List.filter_reverse, ← startingAt, takenAt, hnone]
    rfl

/-- What is rebuilt from an index on, less what edits before it take out of that, is what is
rewritten. -/
theorem drop_rebuiltFrom (h : DeleteFirst edits) (hapart : edits.Pairwise Edit.Apart)
    {after : List UInt32} (hk : Reach edits i k) :
    (rebuiltFrom edits i after).drop k = rewrittenFrom edits.reverse i after := by
  induction after generalizing i k with
  | nil =>
    rw [rebuiltFrom, hk.drop_foldl_startingAt h hapart, rewrittenFrom, List.drop_nil, List.append_nil]
  | cons n rest ih =>
    obtain ⟨hdeleted, hnext⟩ := hk.next h hapart
    have hdeleted' : isDeleted edits.reverse i = decide (0 < k + takenAt edits i) :=
      List.any_reverse.trans hdeleted
    rw [rebuiltFrom, hk.drop_foldl_startingAt h hapart, rewrittenFrom, hdeleted', ← ih hnext,
      List.append_assoc]
    congr 1
    rcases Nat.eq_zero_or_pos (k + takenAt edits i) with hzero | hpos
    · simp [hzero]
    · obtain ⟨m, hm⟩ := Nat.exists_eq_add_one.2 hpos
      simp [hm]

end Apart

theorem rebuilt_eq_rewritten (h : DeleteFirst edits) (hapart : edits.Pairwise Edit.Apart)
    (data : List UInt32) : rebuilt edits data = rewritten edits.reverse data := by
  have hstart : Reach edits 0 0 :=
    ⟨fun e _ hlt => absurd hlt (Nat.not_lt_zero _), fun hlt => absurd hlt (Nat.lt_irrefl 0)⟩
  exact drop_rebuiltFrom h hapart hstart

/-- The edits of a delta do not reach behind the end of the array or into one another, but may start
together. The array is then rebuilt from its end, and of edits that start together each acts on what
those listed before it have left. If only the first listed one of them takes anything out, this is
as if all edits had happened at once, the numbers of the one listed last in front. If all edits
start together and one of them takes something out, it takes out first what those listed before it
have put in. -/
theorem rebuilt_from_the_end (b : Buffer) (edits : List Edit)
    (hin : ∀ e ∈ edits, e.stop ≤ b.data.length) (hapart : edits.Pairwise Edit.Apart) :
    (b.applyDelta edits).data = rebuilt edits b.data ∧
      (DeleteFirst edits → (b.applyDelta edits).data = rewritten edits.reverse b.data) ∧
      ∀ before e after, edits = before ++ e :: after →
        (∀ e' ∈ before ++ after, e'.first = e.first ∧ e'.deleteCount = 0) →
        (b.applyDelta edits).data = b.data.take e.first ++
          (after.reverse.flatMap Edit.inserted ++ (e.inserted ++
            (before.reverse.flatMap Edit.inserted ++ b.data.drop e.first).drop
              e.deleteCount.toNat)) := by
  have hfirst : ∀ e ∈ edits, e.first ≤ b.data.length :=
    fun e he => e.first_le_stop.trans (hin e he)
  have hdata := Buffer.data_applyDelta hfirst
  refine ⟨hdata, fun h => hdata.trans (rebuilt_eq_rewritten h hapart b.data), ?_⟩
  rintro before e after rfl hothers
  have hsame : ∀ e' ∈ before ++ e :: after, e'.first = e.first := by
    intro e' he'
    rcases List.mem_append.1 he' with hm | hm
    · exact (hothers e' (List.mem_append_left _ hm)).1
    · rcases List.mem_cons.1 hm with rfl | hm
      · rfl
      · exact (hothers e' (List.mem_append_right _ hm)).1
  have he := hfirst e (List.mem_append_right _ List.mem_cons_self)
  rw [Buffer.data_applyDelta_of_same hsame he,
    foldl_cutIn_of_split fun e' he' => (hothers e' he').2]

/-- Two edits start at the second number, and the one that takes something out is listed first. -/
theorem rebuilt_in_good_order :
    let b : Buffer := ⟨⟨[], []⟩, [1, 2, 3, 4], none⟩
    let edits : List Edit := [⟨1, 2, some [8]⟩, ⟨3, 0, some [7]⟩, ⟨1, 0, some [9]⟩]
    (∀ e ∈ edits, e.stop ≤ b.data.length) ∧ edits.Pairwise Edit.Apart ∧ DeleteFirst edits ∧
      (b.applyDelta edits).data = [1, 9, 8, 7, 4] := by
  intro b edits
  have hin : ∀ e ∈ edits, e.stop ≤ b.data.length := by decide
  have hapart : edits.Pairwise Edit.Apart := by decide
  have horder : DeleteFirst edits := by decide
  have hdata := (rebuilt_from_the_end b edits hin hapart).2.1 horder
  exact ⟨hin, hapart, horder, hdata.trans (by decide)⟩

/-- An edit takes out the number that an edit listed before it puts in at the same place, and the
number that it was meant for stays. In whatever order edits happen at once, this is not what
comes out. -/
theorem inserted_number_taken_out :
    ¬∀ (b : Buffer) (edits : List Edit), (∀ e ∈ edits, e.stop ≤ b.data.length) →
      edits.Pairwise Edit.Apart →
      ∃ edits' : List Edit, edits'.Perm edits ∧ (b.applyDelta edits).data = rewritten edits' b.data := by
  intro h
  obtain ⟨edits', hperm, hdata⟩ := h ⟨⟨[], []⟩, [1, 2], none⟩ [⟨0, 0, some [9]⟩, ⟨0, 1, none⟩]
    (by decide) (by decide)
  have hafter : ((⟨⟨[], []⟩, [1, 2], none⟩ : Buffer).applyDelta
      [⟨0, 0, some [9]⟩, ⟨0, 1, none⟩]).data = [1, 2] := by cbv
  rw [hafter] at hdata
  rcases List.perm_pair.1 hperm with rfl | rfl
  · exact absurd hdata (by decide)
  · exact absurd hdata (by decide)

end PeerRpc.Tokens
