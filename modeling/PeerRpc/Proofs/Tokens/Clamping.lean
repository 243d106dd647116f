import Mathlib
import PeerRpc.Proofs.Tokens.Rewriting

/-!
# Edits that reach behind the end

An edit that reaches behind the end of the array is cut off there. The buffer cuts each edit off at
the end that the array has by then, though, not at the end that it had before the delta. Behind the
old end stands what edits with later starts have put in, and an edit takes some of it out, or puts
something behind it, according to how far it reaches (`cutBehind`).

* `rebuilt_with_overhang`: what a delta does to the array whose edits, cut off at the old end, would
  not reach into one another. The edits happen at once exactly if what stands behind the old end
  in the end is what they put there.
-/

namespace PeerRpc.Tokens

namespace Edit

/-- The edit with its range cut off at the end of an array of a length. -/
def clamped (length : Nat) (e : Edit) : Edit where
  start := .ofNat (min e.first length)
  deleteCount := .ofNat (min e.stop length - min e.first length)
  data := e.data

variable {length : Nat} {e : Edit}

@[simp] theorem first_clamped (length : Nat) (e : Edit) :
    (e.clamped length).first = min e.first length := by
  apply UInt32.toNat_ofNat_of_lt'
  exact (Nat.min_le_left _ _).trans_lt e.start.toNat_lt

@[simp] theorem stop_clamped (length : Nat) (e : Edit) :
    (e.clamped length).stop = min e.stop length := by
  have hcount : (e.clamped length).deleteCount.toNat = min e.stop length - min e.first length := by
    apply UInt32.toNat_ofNat_of_lt'
    have hstop : e.stop = e.first + e.deleteCount.toNat := rfl
    refine lt_of_le_of_lt ?_ e.deleteCount.toNat_lt
    omega
  have hstop : (e.clamped length).stop =
      (e.clamped length).first + (e.clamped length).deleteCount.toNat := rfl
  have := e.first_le_stop
  rw [hstop, hcount, first_clamped]
  omega

theorem clamped_of_le (h : e.stop ≤ length) : e.clamped length = e := by
  have hfirst := e.first_le_stop
  have hcount : e.stop = e.first + e.deleteCount.toNat := rfl
  rw [clamped, Nat.min_eq_left h, Nat.min_eq_left (hfirst.trans h),
    show e.stop - e.first = e.deleteCount.toNat by omega, first, UInt32.ofNat_toNat,
    UInt32.ofNat_toNat]

end Edit

section Descending

variable {length : Nat} {es : List Edit}

theorem Descending.clamped (h : Descending es) (hin : ∀ e ∈ es, e.first < length) :
    Descending (es.map (Edit.clamped length)) := by
  refine List.pairwise_map.2 (List.Pairwise.imp_of_mem (fun {e e'} he he' ⟨hstop, hfirst⟩ => ?_) h)
  have := hin e he
  rw [Edit.first_clamped, Edit.first_clamped, Edit.stop_clamped]
  omega

theorem Descending.nodup (h : Descending es) : (es.map (·.start)).Nodup := by
  refine List.pairwise_map.2 (h.imp fun {e e'} ⟨_, hfirst⟩ he => ?_)
  rw [Edit.first, Edit.first, he] at hfirst
  exact Nat.lt_irrefl _ hfirst

end Descending

/-! ## Before and behind the end -/

/-- The edits that start before the end of an array of a length, in the order of their starts. -/
def inner (length : Nat) (edits : List Edit) : List Edit :=
  (Buffer.fromTheEnd edits).reverse.filter fun e => e.first < length

/-- The edits that start at the end of an array of a length or behind it, in the order of their
starts. -/
def outer (length : Nat) (edits : List Edit) : List Edit :=
  (Buffer.fromTheEnd edits).reverse.filter fun e => length ≤ e.first

/-- The edits of a delta, cut off at the end of an array of a length, in the order of their
starts. -/
def clampedEdits (length : Nat) (edits : List Edit) : List Edit :=
  (Buffer.fromTheEnd edits).reverse.map (Edit.clamped length)

/-- How many numbers behind the end of an array of a length are taken out by edits that start before
it. -/
def overhang (length : Nat) (edits : List Edit) : Nat :=
  (edits.map fun e => e.stop - length).sum

/-- What stands behind the old end after an edit that starts there or later. -/
def cutBehind (length : Nat) (e : Edit) (tail : List UInt32) : List UInt32 :=
  tail.take (e.first - length) ++ e.inserted ++ tail.drop (e.stop - length)

/-- What stands behind the old end after all edits. -/
def leftBehind (length : Nat) (edits : List Edit) : List UInt32 :=
  ((outer length edits).foldr (cutBehind length) []).drop (overhang length (inner length edits))

/-- What the edits that start at the old end or behind it put in, in the order of their starts. -/
def putBehind (length : Nat) (edits : List Edit) : List UInt32 :=
  (outer length edits).flatMap Edit.inserted

/-- No edit reaches behind the end that starts before another one has put something in there. -/
def Settled (length : Nat) (edits : List Edit) : Prop :=
  ∀ e ∈ edits, ∀ e' ∈ edits, e.first < e'.first → length ≤ e'.first → e'.inserted ≠ [] →
    e.stop ≤ length

instance (length : Nat) (edits : List Edit) : Decidable (Settled length edits) :=
  inferInstanceAs (Decidable (∀ _ ∈ _, ∀ _ ∈ _, _))

namespace Buffer

variable {edits es : List Edit} {data tail : List UInt32} {e : Edit} {length : Nat}

/-! ## One edit -/

theorem applyEdit_clamped (data : List UInt32) (e : Edit) :
    applyEdit data (e.clamped data.length) = applyEdit data e := by
  have hstart : editStart data.length (e.clamped data.length) = editStart data.length e := by
    rw [editStart, editStart]
    have := e.first_clamped data.length
    simp only [Edit.first] at this
    omega
  have hstop : editStop data.length (e.clamped data.length) = editStop data.length e := by
    have hs := e.stop_clamped data.length
    have hf := e.first_clamped data.length
    have hle := e.first_le_stop
    simp only [Edit.first, Edit.stop] at hs hf hle
    rw [editStop, editStop, hstart, editStart]
    omega
  rw [applyEdit, applyEdit, hstart, hstop]
  rfl

/-- An edit that starts before the end of some numbers takes away those behind it that it
reaches. -/
theorem applyEdit_append_of_le (h : e.first ≤ data.length) (tail : List UInt32) :
    applyEdit (data ++ tail) e = applyEdit data e ++ tail.drop (e.stop - data.length) := by
  have hstop : e.stop = e.first + e.deleteCount.toNat := rfl
  have hstart : ∀ n, data.length ≤ n → editStart n e = e.first :=
    fun n hn => Nat.min_eq_left (h.trans hn)
  rw [applyEdit, applyEdit, editStop, editStop, hstart _ le_rfl,
    hstart _ (by rw [List.length_append]; omega), splice, splice, List.take_append_of_le_length h,
    List.append_assoc _ (data.drop _), List.drop_append, ← hstop, List.length_append]
  congr 2
  · rcases Nat.le_total e.stop data.length with hle | hle
    · rw [Nat.min_eq_left hle, Nat.min_eq_left (by omega)]
    · rw [List.drop_eq_nil_of_le (by omega), List.drop_eq_nil_of_le (by omega)]
  · rcases Nat.le_total e.stop (data.length + tail.length) with hle | hle
    · rw [Nat.min_eq_left hle]
    · rw [List.drop_eq_nil_of_le (by omega), List.drop_eq_nil_of_le (by omega)]

/-- An edit that starts at the end of some numbers or behind it leaves them as they are. -/
theorem applyEdit_append_of_ge (h : data.length ≤ e.first) (tail : List UInt32) :
    applyEdit (data ++ tail) e = data ++ cutBehind data.length e tail := by
  have hstop : e.stop = e.first + e.deleteCount.toNat := rfl
  have hfirst : editStart (data ++ tail).length e = min e.first (data.length + tail.length) := by
    rw [editStart, List.length_append]
    rfl
  rw [applyEdit, editStop, hfirst, splice, cutBehind, List.length_append, List.take_append,
    List.take_of_length_le (by omega), List.drop_append, List.drop_eq_nil_of_le (by omega),
    List.nil_append, List.append_assoc, List.append_assoc, List.append_assoc]
  congr 2
  · rcases Nat.le_total e.first (data.length + tail.length) with hle | hle
    · rw [Nat.min_eq_left hle]
    · rw [List.take_of_length_le (by omega), List.take_of_length_le (by omega)]
  · congr 1
    rcases Nat.le_total e.stop (data.length + tail.length) with hle | hle
    · rw [Nat.min_eq_left (by omega : e.first ≤ _), Nat.min_eq_left (by omega), ← hstop]
    · rw [List.drop_eq_nil_of_le (by omega), List.drop_eq_nil_of_le (by omega)]

theorem first_le_length_applyEdit (h : e.first ≤ data.length) :
    e.first ≤ (applyEdit data e).length := by
  have hstart : editStart data.length e = e.first := Nat.min_eq_left h
  rw [applyEdit, hstart, splice, List.length_append, List.length_append, List.length_take]
  omega

/-! ## Edits that start before the end -/

theorem foldl_applyEdit_append_of_le (hd : Descending es) (hin : ∀ e ∈ es, e.stop ≤ data.length)
    (tail : List UInt32) : es.foldl applyEdit (data ++ tail) = es.foldl applyEdit data ++ tail := by
  induction es generalizing data with
  | nil => rfl
  | cons e es ih =>
    obtain ⟨hbefore, hd⟩ := List.pairwise_cons.1 hd
    have he := hin e List.mem_cons_self
    have hfirst := e.first_le_stop.trans he
    have hlength := first_le_length_applyEdit hfirst
    rw [List.foldl_cons, List.foldl_cons, applyEdit_append_of_le hfirst,
      Nat.sub_eq_zero_of_le he, List.drop_zero]
    exact ih hd fun e' he' => (hbefore e' he').1.trans hlength

/-- Of edits from the last to the first only the first one made can reach behind the end. -/
theorem foldl_applyEdit_overhang (hd : Descending es) (hin : ∀ e ∈ es, e.first < data.length)
    (tail : List UInt32) :
    es.foldl applyEdit (data ++ tail) =
      rewritten (es.map (Edit.clamped data.length)) data ++
        tail.drop (overhang data.length es) := by
  cases es with
  | nil =>
    rw [List.foldl_nil, List.map_nil, rewritten_nil]
    rfl
  | cons e es =>
    obtain ⟨hbefore, hd'⟩ := List.pairwise_cons.1 hd
    have hfirst := (hin e List.mem_cons_self).le
    have hlength := first_le_length_applyEdit hfirst
    have hstop : ∀ e' ∈ es, e'.stop ≤ data.length :=
      fun e' he' => (hbefore e' he').1.trans hfirst
    have hsame : es.map (Edit.clamped data.length) = es :=
      (List.map_congr_left fun e' he' => Edit.clamped_of_le (hstop e' he')).trans (List.map_id es)
    have hover : overhang data.length (e :: es) = e.stop - data.length := by
      have hzero : ∀ n ∈ es.map fun e => e.stop - data.length, n = 0 := by
        intro n hn
        obtain ⟨e', he', rfl⟩ := List.mem_map.1 hn
        exact Nat.sub_eq_zero_of_le (hstop e' he')
      rw [overhang, List.map_cons, List.sum_cons, List.sum_eq_zero hzero, Nat.add_zero]
    have hmade : (e.clamped data.length :: es).foldl applyEdit data =
        rewritten (e.clamped data.length :: es) data := by
      have hclamped := hd.clamped hin
      rw [List.map_cons, hsame] at hclamped
      refine (foldl_applyEdit hclamped ?_).1
      rw [List.forall_mem_cons, Edit.stop_clamped]
      exact ⟨Nat.min_le_right _ _, hstop⟩
    rw [List.foldl_cons, applyEdit_clamped] at hmade
    rw [List.foldl_cons, applyEdit_append_of_le hfirst,
      foldl_applyEdit_append_of_le hd' fun e' he' => (hbefore e' he').1.trans hlength, hmade,
      List.map_cons, hsame, hover]

/-! ## Edits that start at the end or behind it -/

theorem foldl_applyEdit_behind (h : ∀ e ∈ es, data.length ≤ e.first) :
    es.reverse.foldl applyEdit data = data ++ es.foldr (cutBehind data.length) [] := by
  rw [List.foldl_reverse]
  induction es with
  | nil => exact (List.append_nil data).symm
  | cons e es ih =>
    rw [List.foldr_cons, List.foldr_cons, ih fun e' he' => h e' (List.mem_cons_of_mem e he'),
      applyEdit_append_of_ge (h e List.mem_cons_self)]

/-- Where no edit reaches behind the end after something has been put in there, nothing of that is
lost and everything is in order. -/
theorem foldr_cutBehind (hfrom : ∀ e ∈ es, length ≤ e.first)
    (h : es.Pairwise fun e e' => e'.inserted ≠ [] → e.stop ≤ length) :
    es.foldr (cutBehind length) [] = es.flatMap Edit.inserted := by
  induction es with
  | nil => rfl
  | cons e es ih =>
    obtain ⟨he, hes⟩ := List.pairwise_cons.1 h
    have hstart := hfrom e List.mem_cons_self
    rw [List.foldr_cons, List.flatMap_cons, ih (fun e' he' => hfrom e' (List.mem_cons_of_mem e he'))
      hes, cutBehind]
    by_cases hall : ∀ e' ∈ es, e'.inserted = []
    · rw [List.flatMap_eq_nil_iff.2 hall]
      simp
    · push Not at hall
      obtain ⟨e', he', hne⟩ := hall
      have hstop := he e' he' hne
      have hle := e.first_le_stop
      rw [show e.first - length = 0 by omega, show e.stop - length = 0 by omega, List.take_zero,
        List.drop_zero, List.nil_append]

/-! ## All edits -/

theorem mem_ascending : e ∈ (fromTheEnd edits).reverse ↔ e ∈ edits := by
  rw [List.mem_reverse]
  exact (perm_fromTheEnd edits).mem_iff

theorem mem_inner : e ∈ inner length edits ↔ e ∈ edits ∧ e.first < length := by
  rw [inner, List.mem_filter, mem_ascending, decide_eq_true_eq]

theorem mem_outer : e ∈ outer length edits ↔ e ∈ edits ∧ length ≤ e.first := by
  rw [outer, List.mem_filter, mem_ascending, decide_eq_true_eq]

/-- In the order of their starts, the edits before the end come before those behind it. -/
theorem inner_append_outer (length : Nat) (edits : List Edit) :
    inner length edits ++ outer length edits = (fromTheEnd edits).reverse := by
  have hsorted := List.pairwise_reverse.2 (pairwise_fromTheEnd edits)
  unfold inner outer
  generalize (fromTheEnd edits).reverse = all at hsorted ⊢
  induction all with
  | nil => rfl
  | cons e es ih =>
    obtain ⟨he, hes⟩ := List.pairwise_cons.1 hsorted
    by_cases hlt : e.first < length
    · rw [List.filter_cons_of_pos (by simpa using hlt), List.filter_cons_of_neg (by simpa using hlt),
        List.cons_append, ih hes]
    · have hge := Nat.not_lt.1 hlt
      have hnone : es.filter (fun e => e.first < length) = [] := by
        rw [List.filter_eq_nil_iff]
        intro e' he'
        have := he e' he'
        simp only [decide_eq_true_eq]
        omega
      have hall : es.filter (fun e => length ≤ e.first) = es := by
        rw [List.filter_eq_self]
        intro e' he'
        have := he e' he'
        simp only [decide_eq_true_eq]
        omega
      rw [List.filter_cons_of_neg (by simpa using hlt), List.filter_cons_of_pos (by simpa using hge),
        hnone, hall, List.nil_append]

/-- The edits that start before the end do not reach into one another. -/
theorem descending_inner (hs : (edits.map (·.start)).Nodup)
    (hapart : (edits.map (Edit.clamped length)).Pairwise Edit.Apart) :
    Descending (inner length edits).reverse := by
  have hperm := perm_fromTheEnd edits
  have hne : (fromTheEnd edits).Pairwise fun e e' => e.start ≠ e'.start :=
    List.pairwise_map.1 ((hperm.map Edit.start).nodup_iff.2 hs)
  have hclamped := ((hperm.map _).pairwise_iff fun h => Edit.Apart.symm h).2 hapart
  rw [inner, List.filter_reverse, List.reverse_reverse]
  have hall := ((pairwise_fromTheEnd edits).and (hne.and (List.pairwise_map.1 hclamped))).filter
    fun e => e.first < length
  refine List.Pairwise.imp_of_mem (fun {e e'} he he' ⟨hle, hne, hapart⟩ => ?_) hall
  have hfirst : e.first < length := by simpa using (List.mem_filter.1 he).2
  have hlt : e'.first < e.first := lt_of_le_of_ne hle fun h => hne (Edit.first_inj h).symm
  have := e.first_le_stop
  refine ⟨?_, hlt⟩
  rw [Edit.Apart, Edit.stop_clamped, Edit.stop_clamped, Edit.first_clamped, Edit.first_clamped]
    at hapart
  omega

/-- Edits that put something in at the end do so behind all other edits. -/
theorem rewrittenFrom_append_outer {os : List Edit} {i : Nat} (hlength : i + data.length = length)
    (hes : ∀ e ∈ es, e.first < length)
    (hos : ∀ e ∈ os, e.first = length ∧ e.stop = length) :
    rewrittenFrom (es ++ os) i data = rewrittenFrom es i data ++ os.flatMap Edit.inserted := by
  have hinserted : ∀ j, insertedAt (es ++ os) j = insertedAt es j ++ insertedAt os j := by
    intro j
    rw [insertedAt, List.filter_append, List.flatMap_append]
    rfl
  induction data generalizing i with
  | nil =>
    obtain rfl : i = length := hlength
    have hall : os.filter (fun e => e.first = i) = os := by
      rw [List.filter_eq_self]
      exact fun e he => decide_eq_true (hos e he).1
    rw [rewrittenFrom, rewrittenFrom, hinserted, insertedAt, insertedAt, hall]
  | cons n rest ih =>
    rw [List.length_cons] at hlength
    have hnone : insertedAt os i = [] := by
      apply insertedAt_eq_nil
      intro e he
      have := (hos e he).1
      omega
    have hdeleted : isDeleted (es ++ os) i = isDeleted es i := by
      have hfalse : isDeleted os i = false := by
        rw [isDeleted, List.any_eq_false]
        intro e he
        have := (hos e he).1
        simp only [Bool.and_eq_true, decide_eq_true_eq]
        omega
      rw [isDeleted, List.any_append]
      show (isDeleted es i || isDeleted os i) = _
      rw [hfalse, Bool.or_false]
    rw [rewrittenFrom, rewrittenFrom, ih (by omega), hinserted, hnone, hdeleted, List.append_nil,
      List.append_assoc _ (rewrittenFrom es (i + 1) rest)]

theorem rewritten_clampedEdits (edits : List Edit) (data : List UInt32) :
    rewritten (clampedEdits data.length edits) data =
      rewritten ((inner data.length edits).map (Edit.clamped data.length)) data ++
        putBehind data.length edits := by
  have hputs : ((outer data.length edits).map (Edit.clamped data.length)).flatMap Edit.inserted =
      putBehind data.length edits := by
    rw [List.flatMap_map]
    rfl
  rw [clampedEdits, ← inner_append_outer data.length, List.map_append, ← hputs]
  apply rewrittenFrom_append_outer (Nat.zero_add _)
  · intro e he
    obtain ⟨e', he', rfl⟩ := List.mem_map.1 he
    have := (mem_inner.1 he').2
    rw [Edit.first_clamped]
    omega
  · intro e he
    obtain ⟨e', he', rfl⟩ := List.mem_map.1 he
    have := (mem_outer.1 he').2
    have := e'.first_le_stop
    rw [Edit.first_clamped, Edit.stop_clamped]
    omega

/-- Edits before the old end happen at once, and take away what they reach behind it. -/
theorem data_applyDelta_overhang {b : Buffer} (hs : (edits.map (·.start)).Nodup)
    (hapart : (edits.map (Edit.clamped b.data.length)).Pairwise Edit.Apart) :
    (b.applyDelta edits).data =
      rewritten ((inner b.data.length edits).map (Edit.clamped b.data.length)) b.data ++
        leftBehind b.data.length edits := by
  have hsplit : fromTheEnd edits =
      (outer b.data.length edits).reverse ++ (inner b.data.length edits).reverse := by
    rw [← List.reverse_append, inner_append_outer, List.reverse_reverse]
  have hover : overhang b.data.length (inner b.data.length edits).reverse =
      overhang b.data.length (inner b.data.length edits) := by
    rw [overhang, List.map_reverse, List.sum_reverse]
    rfl
  have hd := descending_inner hs hapart
  have hin : ∀ e ∈ (inner b.data.length edits).reverse, e.first < b.data.length :=
    fun e he => (mem_inner.1 (List.mem_reverse.1 he)).2
  have hmade : (b.applyDelta edits).data = (fromTheEnd edits).foldl applyEdit b.data := rfl
  rw [hmade, hsplit, List.foldl_append, foldl_applyEdit_behind fun e he => (mem_outer.1 he).2,
    foldl_applyEdit_overhang hd hin, hover, leftBehind,
    rewritten_congr (hd.clamped hin).nodup ((List.reverse_perm _).map _)]

theorem leftBehind_of_settled (hs : (edits.map (·.start)).Nodup) (h : Settled length edits) :
    leftBehind length edits = putBehind length edits := by
  have hsorted : (outer length edits).Pairwise fun e e' => e.first < e'.first := by
    have hne : (fromTheEnd edits).Pairwise fun e e' => e.start ≠ e'.start :=
      List.pairwise_map.1 (((perm_fromTheEnd edits).map Edit.start).nodup_iff.2 hs)
    refine (List.pairwise_reverse.2 (((pairwise_fromTheEnd edits).and hne).imp ?_)).filter _
    exact fun {e e'} ⟨hle, hne⟩ => lt_of_le_of_ne hle fun h => hne (Edit.first_inj h).symm
  have hleft : (outer length edits).foldr (cutBehind length) [] = putBehind length edits := by
    refine foldr_cutBehind (fun e he => (mem_outer.1 he).2)
      (hsorted.imp_of_mem fun {e e'} he he' hlt hne => ?_)
    have he' := mem_outer.1 he'
    exact h e (mem_outer.1 he).1 e' he'.1 hlt he'.2 hne
  rw [leftBehind, hleft]
  by_cases hall : ∀ e' ∈ outer length edits, e'.inserted = []
  · rw [putBehind, List.flatMap_eq_nil_iff.2 hall, List.drop_nil]
  · push Not at hall
    obtain ⟨e', he', hne⟩ := hall
    have he' := mem_outer.1 he'
    have hzero : ∀ n ∈ (inner length edits).map fun e => e.stop - length, n = 0 := by
      intro n hn
      obtain ⟨e, he, rfl⟩ := List.mem_map.1 hn
      have he := mem_inner.1 he
      exact Nat.sub_eq_zero_of_le (h e he.1 e' he'.1 (he.2.trans_le he'.2) he'.2 hne)
    rw [overhang, List.sum_eq_zero hzero, List.drop_zero]

end Buffer

/-- The edits of a delta start at different places and, cut off at the end of the array, do not
reach into one another. Those that start before the end then happen at once, and behind them stands
what is left there of what the others put in. The whole delta happens at once exactly if that is
all of it, in the order of the starts. It is if no edit reaches behind the end that starts before
another one has put something in there. -/
theorem rebuilt_with_overhang (b : Buffer) (edits : List Edit)
    (hs : (edits.map (·.start)).Nodup)
    (hapart : (edits.map (Edit.clamped b.data.length)).Pairwise Edit.Apart) :
    (b.applyDelta edits).data =
        rewritten ((inner b.data.length edits).map (Edit.clamped b.data.length)) b.data ++
          leftBehind b.data.length edits ∧
      ((b.applyDelta edits).data = rewritten (clampedEdits b.data.length edits) b.data ↔
        leftBehind b.data.length edits = putBehind b.data.length edits) ∧
      (Settled b.data.length edits →
        (b.applyDelta edits).data = rewritten (clampedEdits b.data.length edits) b.data) := by
  have hdata := Buffer.data_applyDelta_overhang hs hapart
  have hiff : (b.applyDelta edits).data = rewritten (clampedEdits b.data.length edits) b.data ↔
      leftBehind b.data.length edits = putBehind b.data.length edits := by
    rw [hdata, Buffer.rewritten_clampedEdits, List.append_cancel_left_eq]
  exact ⟨hdata, hiff, fun h => hiff.2 (Buffer.leftBehind_of_settled hs h)⟩

/-- One edit starts far behind the end, one right there, and one in front of it. -/
theorem rebuilt_with_settled_end :
    let b : Buffer := ⟨⟨[], []⟩, [1, 2, 3, 4], none⟩
    let edits : List Edit := [⟨9, 3, some [8, 7]⟩, ⟨1, 2, some [6]⟩, ⟨4, 0, some [5]⟩]
    (edits.map (·.start)).Nodup ∧ (edits.map (Edit.clamped b.data.length)).Pairwise Edit.Apart ∧
      Settled b.data.length edits ∧ (b.applyDelta edits).data = [1, 6, 4, 5, 8, 7] := by
  intro b edits
  have hs : (edits.map (·.start)).Nodup := by decide
  have hapart : (edits.map (Edit.clamped b.data.length)).Pairwise Edit.Apart := by decide
  have hsettled : Settled b.data.length edits := by decide
  have hdata := (rebuilt_with_overhang b edits hs hapart).2.2 hsettled
  exact ⟨hs, hapart, hsettled, hdata.trans (by cbv)⟩

/-- Two edits put something in behind the end, and what the first of them puts there comes out
last. -/
theorem put_behind_in_wrong_order :
    ¬∀ (b : Buffer) (edits : List Edit), (∃ e ∈ edits, b.data.length < e.stop) →
      (edits.map (·.start)).Nodup →
      (edits.map (Edit.clamped b.data.length)).Pairwise Edit.Apart →
      (b.applyDelta edits).data = rewritten (clampedEdits b.data.length edits) b.data := by
  intro h
  have hdata := h ⟨⟨[], []⟩, [1, 2], none⟩ [⟨5, 0, some [8]⟩, ⟨6, 0, some [9]⟩] (by decide) (by decide)
    (by decide)
  have hafter : ((⟨⟨[], []⟩, [1, 2], none⟩ : Buffer).applyDelta
      [⟨5, 0, some [8]⟩, ⟨6, 0, some [9]⟩]).data = [1, 2, 9, 8] := by cbv
  have hmeant : rewritten (clampedEdits 2 [⟨5, 0, some [8]⟩, ⟨6, 0, some [9]⟩]) [1, 2] =
      [1, 2, 8, 9] := by cbv
  rw [hafter] at hdata
  exact absurd (hdata.trans hmeant) (by decide)

end PeerRpc.Tokens
