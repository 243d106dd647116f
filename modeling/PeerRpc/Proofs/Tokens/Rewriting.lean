import Mathlib
import PeerRpc.Tokens.Buffer

/-!
# All edits at once

A delta names places in the array that it was computed against, and its edits are meant to happen
all at once: `rewritten` walks over that array and puts in, leaves out or keeps every number. The
buffer applies the edits one after the other, each to what the others have left. If no edit reaches
into another one the two agree (`applyDelta_of_fits`), in whatever order the edits are listed.

* `follows_server`: a buffer that is given results has the server's array after each of them.
-/

namespace PeerRpc.Tokens

namespace Edit

/-- The index of the first number that an edit takes out. -/
def first (e : Edit) : Nat :=
  e.start.toNat

/-- The index behind the last number that an edit takes out. -/
def stop (e : Edit) : Nat :=
  e.start.toNat + e.deleteCount.toNat

/-- The numbers that an edit puts in. -/
def inserted (e : Edit) : List UInt32 :=
  e.data.getD []

/-- By how much an edit makes the array longer. -/
def growth (e : Edit) : Int :=
  e.inserted.length - e.deleteCount.toNat

/-- The ranges of two edits have nothing in common: one of them ends before the other begins. An
edit that only puts something in has an empty range, which may lie at the end of another range but
not inside it. -/
def Apart (e e' : Edit) : Prop :=
  e.stop ≤ e'.first ∨ e'.stop ≤ e.first

instance (e e' : Edit) : Decidable (e.Apart e') :=
  inferInstanceAs (Decidable (_ ∨ _))

theorem Apart.symm {e e' : Edit} (h : e.Apart e') : e'.Apart e :=
  Or.symm h

theorem first_le_stop (e : Edit) : e.first ≤ e.stop :=
  Nat.le_add_right _ _

theorem first_inj {e e' : Edit} (h : e.first = e'.first) : e.start = e'.start :=
  UInt32.toNat_inj.1 h

end Edit

/-! ## The array that the server has -/

/-- What some edits put before the number at an index. -/
def insertedAt (edits : List Edit) (i : Nat) : List UInt32 :=
  (edits.filter fun e => e.first = i).flatMap Edit.inserted

/-- Whether one of some edits takes out the number at an index. -/
def isDeleted (edits : List Edit) (i : Nat) : Bool :=
  edits.any fun e => e.first ≤ i && i < e.stop

/-- The numbers from an index on after all edits, whose places are those before any of them. -/
def rewrittenFrom (edits : List Edit) : Nat → List UInt32 → List UInt32
  | i, [] => insertedAt edits i
  | i, n :: rest =>
    insertedAt edits i ++ (if isDeleted edits i then [] else [n]) ++
      rewrittenFrom edits (i + 1) rest

/-- An array after all edits at once. -/
def rewritten (edits : List Edit) (data : List UInt32) : List UInt32 :=
  rewrittenFrom edits 0 data

/-- Edits that can be made at once to an array of a length. -/
structure Fits (length : Nat) (edits : List Edit) : Prop where
  /-- No two edits start at the same place. -/
  starts : (edits.map (·.start)).Nodup
  /-- No edit reaches behind the end. -/
  inside : ∀ e ∈ edits, e.stop ≤ length
  /-- No edit reaches into another one. -/
  apart : edits.Pairwise Edit.Apart

instance (length : Nat) (edits : List Edit) : Decidable (Fits length edits) :=
  decidable_of_iff
    ((edits.map (·.start)).Nodup ∧ (∀ e ∈ edits, e.stop ≤ length) ∧ edits.Pairwise Edit.Apart)
    ⟨fun h => ⟨h.1, h.2.1, h.2.2⟩, fun h => ⟨h.starts, h.inside, h.apart⟩⟩

/-- The array of the server after a result, the one before being given. -/
def served (data : List UInt32) : Result → List UInt32
  | .first full => full.data
  | .second delta => rewritten delta.edits data

/-- The name under which the client asks for edits to a result. -/
def nameOf : Result → Option String
  | .first full => full.resultId
  | .second delta => delta.resultId

/-- The same result, its edits perhaps listed in another order. -/
inductive Relisted : Result → Result → Prop
  | full (full : Full) : Relisted (.first full) (.first full)
  | delta (resultId : Option String) {edits edits' : List Edit} (h : edits.Perm edits') :
    Relisted (.second ⟨resultId, edits⟩) (.second ⟨resultId, edits'⟩)

/-! ## Edits from the end -/

/-- Edits from the last to the first: each ends before those before it begin. -/
def Descending (edits : List Edit) : Prop :=
  edits.Pairwise fun e e' => e'.stop ≤ e.first ∧ e'.first < e.first

section Rewriting

variable {edits : List Edit} {e : Edit} {i : Nat}

theorem insertedAt_eq_nil (h : ∀ e ∈ edits, e.first ≠ i) : insertedAt edits i = [] := by
  have hnone : edits.filter (fun e => e.first = i) = [] := by
    rw [List.filter_eq_nil_iff]
    exact fun e he => by simpa using h e he
  rw [insertedAt, hnone, List.flatMap_nil]

theorem isDeleted_eq_false (h : ∀ e ∈ edits, e.stop ≤ i) : isDeleted edits i = false := by
  rw [isDeleted, List.any_eq_false]
  intro e he
  have := h e he
  simp only [Bool.and_eq_true, decide_eq_true_eq]
  omega

theorem insertedAt_cons_self (e : Edit) (h : ∀ e' ∈ edits, e'.first ≠ e.first) :
    insertedAt (e :: edits) e.first = e.inserted := by
  rw [insertedAt, List.filter_cons_of_pos (by simp), List.flatMap_cons]
  exact (congrArg _ (insertedAt_eq_nil h)).trans (List.append_nil _)

theorem insertedAt_cons_of_ne (edits : List Edit) (h : e.first ≠ i) :
    insertedAt (e :: edits) i = insertedAt edits i := by
  rw [insertedAt, List.filter_cons_of_neg (by simpa using h), insertedAt]

theorem isDeleted_cons (e : Edit) (edits : List Edit) (i : Nat) :
    isDeleted (e :: edits) i = ((e.first ≤ i && i < e.stop) || isDeleted edits i) :=
  rfl

/-- Where no edit puts anything in, only the numbers up to some index are missing. -/
theorem rewrittenFrom_eq_drop {stop : Nat} (hins : ∀ j, i ≤ j → insertedAt edits j = [])
    (hdel : ∀ j, i ≤ j → isDeleted edits j = decide (j < stop)) (data : List UInt32) :
    rewrittenFrom edits i data = data.drop (stop - i) := by
  induction data generalizing i with
  | nil => rw [rewrittenFrom, hins i le_rfl, List.drop_nil]
  | cons n rest ih =>
    rw [rewrittenFrom, hins i le_rfl, hdel i le_rfl, List.nil_append,
      ih (fun j hj => hins j (by omega)) fun j hj => hdel j (by omega)]
    by_cases hi : i < stop
    · rw [decide_eq_true hi, if_pos rfl, List.nil_append,
        show stop - i = (stop - (i + 1)) + 1 by omega,
        List.drop_succ_cons]
    · rw [decide_eq_false hi, if_neg Bool.false_ne_true, show stop - i = 0 by omega,
        show stop - (i + 1) = 0 by omega]
      rfl

/-- Behind all edits nothing changes. -/
theorem rewrittenFrom_of_behind (hfirst : ∀ e ∈ edits, e.first < i)
    (hstop : ∀ e ∈ edits, e.stop ≤ i)
    (data : List UInt32) : rewrittenFrom edits i data = data := by
  have hins : ∀ j, i ≤ j → insertedAt edits j = [] := by
    intro j hj
    refine insertedAt_eq_nil fun e he => ?_
    have := hfirst e he
    omega
  have hdel : ∀ j, i ≤ j → isDeleted edits j = decide (j < 0) :=
    fun j hj => (isDeleted_eq_false fun e he => (hstop e he).trans hj).trans (by simp)
  rw [rewrittenFrom_eq_drop hins hdel, Nat.zero_sub, List.drop_zero]

theorem rewritten_nil (data : List UInt32) : rewritten [] data = data :=
  rewrittenFrom_of_behind (by simp) (by simp) data

/-- From the place of the last edit on only this edit changes anything. -/
theorem rewrittenFrom_last (hfirst : ∀ e' ∈ edits, e'.first < e.first)
    (hstop : ∀ e' ∈ edits, e'.stop ≤ e.first) {data : List UInt32}
    (hle : e.stop ≤ e.first + data.length) :
    rewrittenFrom (e :: edits) e.first data = e.inserted ++ data.drop (e.stop - e.first) := by
  have hself : insertedAt (e :: edits) e.first = e.inserted :=
    insertedAt_cons_self e fun e' he' => (hfirst e' he').ne
  have hdel : ∀ j, e.first ≤ j → isDeleted (e :: edits) j = decide (j < e.stop) := by
    intro j hj
    rw [isDeleted_cons, isDeleted_eq_false fun e' he' => (hstop e' he').trans hj]
    simp [hj]
  cases data with
  | nil => rw [rewrittenFrom, hself, List.drop_nil, List.append_nil]
  | cons n rest =>
    have hrest : rewrittenFrom (e :: edits) (e.first + 1) rest =
        rest.drop (e.stop - (e.first + 1)) := by
      refine rewrittenFrom_eq_drop (fun j hj => ?_) (fun j hj => hdel j (by omega)) rest
      rw [insertedAt_cons_of_ne edits (by omega)]
      exact insertedAt_eq_nil fun e' he' => by have := hfirst e' he'; omega
    rw [rewrittenFrom, hself, hrest, hdel _ le_rfl, List.append_assoc]
    by_cases hi : e.first < e.stop
    · rw [decide_eq_true hi, if_pos rfl, List.nil_append,
        show e.stop - e.first = (e.stop - (e.first + 1)) + 1 by omega, List.drop_succ_cons]
    · rw [decide_eq_false hi, if_neg Bool.false_ne_true, show e.stop - e.first = 0 by omega,
        show e.stop - (e.first + 1) = 0 by omega]
      rfl

/-- The last edit can be made before the others. -/
theorem rewrittenFrom_cons (hfirst : ∀ e' ∈ edits, e'.first < e.first)
    (hstop : ∀ e' ∈ edits, e'.stop ≤ e.first) {before after : List UInt32}
    (hi : i + before.length = e.first) (hle : e.stop ≤ e.first + after.length) :
    rewrittenFrom (e :: edits) i (before ++ after) =
      rewrittenFrom edits i (before ++ (e.inserted ++ after.drop (e.stop - e.first))) := by
  induction before generalizing i with
  | nil =>
    obtain rfl : i = e.first := by simpa using hi
    rw [List.nil_append, List.nil_append, rewrittenFrom_last hfirst hstop hle,
      rewrittenFrom_of_behind hfirst hstop]
  | cons n before ih =>
    rw [List.length_cons] at hi
    have hdel : isDeleted (e :: edits) i = isDeleted edits i := by
      rw [isDeleted_cons, decide_eq_false (by omega), Bool.false_and, Bool.false_or]
    rw [List.cons_append, List.cons_append, rewrittenFrom, rewrittenFrom, hdel,
      insertedAt_cons_of_ne edits (by omega), ih (by omega)]

end Rewriting

namespace Buffer

/-! ## One edit after the other -/

variable {edits edits' : List Edit} {data : List UInt32}

theorem editStart_eq {e : Edit} (h : e.stop ≤ data.length) :
    editStart data.length e = e.first :=
  Nat.min_eq_left (e.first_le_stop.trans h)

theorem applyEdit_eq {e : Edit} (h : e.stop ≤ data.length) :
    applyEdit data e = data.take e.first ++ (e.inserted ++ data.drop e.stop) := by
  have hstop : editStop data.length e = e.stop := by
    rw [editStop, editStart_eq h]
    exact Nat.min_eq_left h
  rw [applyEdit, editStart_eq h, hstop, splice, List.append_assoc]
  rfl

theorem length_applyEdit {e : Edit} (h : e.stop ≤ data.length) :
    ((applyEdit data e).length : Int) = data.length + e.growth := by
  have hfirst := e.first_le_stop
  have hcount : e.stop = e.first + e.deleteCount.toNat := rfl
  rw [applyEdit_eq h, Edit.growth]
  simp only [List.length_append, List.length_take, List.length_drop]
  omega

theorem foldl_applyEdit (hd : Descending edits) (hin : ∀ e ∈ edits, e.stop ≤ data.length) :
    edits.foldl applyEdit data = rewritten edits data ∧
      ((edits.foldl applyEdit data).length : Int) = data.length + (edits.map Edit.growth).sum := by
  induction edits generalizing data with
  | nil => exact ⟨(rewritten_nil data).symm, by simp⟩
  | cons e edits ih =>
    obtain ⟨hbefore, hd⟩ := List.pairwise_cons.1 hd
    have he := hin e List.mem_cons_self
    have hfirst := e.first_le_stop.trans he
    have hlength := length_applyEdit he
    -- The other edits end before this one begins, so they find the numbers where they were.
    have hin' : ∀ e' ∈ edits, e'.stop ≤ (applyEdit data e).length := by
      intro e' he'
      have := (hbefore e' he').1
      rw [applyEdit_eq he, List.length_append, List.length_take]
      omega
    obtain ⟨heq, hsum⟩ := ih hd hin'
    rw [List.foldl_cons]
    constructor
    · have hsplit : data = data.take e.first ++ data.drop e.first :=
        (List.take_append_drop _ _).symm
      have htake : 0 + (data.take e.first).length = e.first := by
        rw [List.length_take]
        omega
      have hdrop : e.stop ≤ e.first + (data.drop e.first).length := by
        rw [List.length_drop]
        omega
      have hcons := rewrittenFrom_cons (fun e' he' => (hbefore e' he').2)
        (fun e' he' => (hbefore e' he').1) htake hdrop
      rw [← hsplit, List.drop_drop, Nat.add_sub_cancel' e.first_le_stop, ← applyEdit_eq he] at hcons
      exact heq.trans hcons.symm
    · rw [hsum, hlength, List.map_cons, List.sum_cons, add_assoc]

/-! ## The order of the edits -/

theorem perm_fromTheEnd (edits : List Edit) : (fromTheEnd edits).Perm edits :=
  List.mergeSort_perm _ _

theorem start_trans (a b c : Edit) (hab : decide (b.start ≤ a.start) = true)
    (hbc : decide (c.start ≤ b.start) = true) : decide (c.start ≤ a.start) = true := by
  rw [decide_eq_true_eq] at *
  exact UInt32.le_trans hbc hab

theorem start_total (a b : Edit) :
    (decide (b.start ≤ a.start) || decide (a.start ≤ b.start)) = true := by
  rw [Bool.or_eq_true, decide_eq_true_eq, decide_eq_true_eq]
  exact UInt32.le_total _ _

theorem pairwise_fromTheEnd (edits : List Edit) :
    (fromTheEnd edits).Pairwise fun e e' => e'.first ≤ e.first := by
  have h := List.pairwise_mergeSort start_trans start_total edits
  exact h.imp fun h => UInt32.le_iff_toNat_le.1 (of_decide_eq_true h)

/-- Edits that start at different places have one order from the end. -/
theorem fromTheEnd_congr (hs : (edits.map (·.start)).Nodup) (h : edits.Perm edits') :
    fromTheEnd edits = fromTheEnd edits' := by
  refine List.Perm.eq_of_pairwise (fun e e' he he' hle hge => ?_) (pairwise_fromTheEnd edits)
    (pairwise_fromTheEnd edits')
    (((perm_fromTheEnd edits).trans h).trans (perm_fromTheEnd edits').symm)
  have he := (perm_fromTheEnd edits).subset he
  have he' := (h.symm.subset ((perm_fromTheEnd edits').subset he'))
  exact List.inj_on_of_nodup_map hs he he' (Edit.first_inj (le_antisymm hge hle))

theorem descending_fromTheEnd {length : Nat} (h : Fits length edits) :
    Descending (fromTheEnd edits) := by
  have hperm := perm_fromTheEnd edits
  have happart := (hperm.pairwise_iff fun h => Edit.Apart.symm h).2 h.apart
  have hne : (fromTheEnd edits).Pairwise fun e e' => e.start ≠ e'.start :=
    List.pairwise_map.1 ((hperm.map Edit.start).nodup_iff.2 h.starts)
  refine ((pairwise_fromTheEnd edits).and (happart.and hne)).imp fun {e e'} ⟨hle, hapart, hne⟩ => ?_
  have hlt : e'.first < e.first := by
    refine lt_of_le_of_ne hle fun he => ?_
    exact hne (Edit.first_inj he).symm
  have := e.first_le_stop
  refine ⟨hapart.resolve_left fun hstop => ?_, hlt⟩
  omega

theorem insertedAt_congr (hs : (edits.map (·.start)).Nodup) (h : edits.Perm edits') (i : Nat) :
    insertedAt edits i = insertedAt edits' i := by
  have hfilter : edits.filter (fun e => e.first = i) = edits'.filter (fun e => e.first = i) := by
    have hsame : ∀ e e', e ∈ edits.filter (fun e => e.first = i) →
        e' ∈ edits'.filter (fun e => e.first = i) → e = e' := by
      intro e e' he he'
      rw [List.mem_filter, decide_eq_true_eq] at he he'
      exact List.inj_on_of_nodup_map hs he.1 (h.symm.subset he'.1)
        (Edit.first_inj (he.2.trans he'.2.symm))
    have htrivial : ∀ l : List Edit, l.Pairwise fun _ _ => True :=
      fun l => List.pairwise_of_forall fun _ _ => trivial
    exact List.Perm.eq_of_pairwise (fun e e' he he' _ _ => hsame e e' he he') (htrivial _)
      (htrivial _) (h.filter _)
  rw [insertedAt, insertedAt, hfilter]

/-- Edits that are made at once need not be listed in any order. -/
theorem rewritten_congr (hs : (edits.map (·.start)).Nodup) (h : edits.Perm edits')
    (data : List UInt32) : rewritten edits data = rewritten edits' data := by
  have hdel : ∀ i, isDeleted edits i = isDeleted edits' i := fun i => h.any_eq
  have hfrom : ∀ i, rewrittenFrom edits i data = rewrittenFrom edits' i data := by
    induction data with
    | nil => exact fun i => insertedAt_congr hs h i
    | cons n rest ih =>
      intro i
      rw [rewrittenFrom, rewrittenFrom, insertedAt_congr hs h i, hdel, ih]
  exact hfrom 0

/-! ## Results -/

variable {b : Buffer}

theorem take_commonLength (as bs : List UInt32) :
    as.take (commonLength as bs) = bs.take (commonLength as bs) := by
  fun_induction commonLength as bs with
  | case1 as b bs ih => rw [List.take_succ_cons, List.take_succ_cons, ih]
  | case2 => rfl
  | case3 => rfl

/-- A full result replaces the array, whatever it was. -/
theorem data_applyFull (b : Buffer) (data : List UInt32) : (b.applyFull data).data = data := by
  rw [applyFull]
  dsimp only
  rw [take_commonLength, List.take_append_drop]

/-- The edits of a delta that fits happen all at once. -/
theorem applyDelta_of_fits (h : Fits b.data.length edits) :
    (b.applyDelta edits).data = rewritten edits b.data ∧
      ((b.applyDelta edits).data.length : Int) = b.data.length + (edits.map Edit.growth).sum := by
  have hperm := perm_fromTheEnd edits
  obtain ⟨heq, hsum⟩ := foldl_applyEdit (descending_fromTheEnd h)
    fun e he => h.inside e (hperm.subset he)
  refine ⟨heq.trans (rewritten_congr h.starts hperm.symm b.data).symm, hsum.trans ?_⟩
  rw [(hperm.map Edit.growth).sum_eq]

-- An edit that only puts something in must not stand inside the range of another one: what it puts
-- in would be taken out again, and the end of that range would be kept.
example :
    let edits : List Edit := [⟨0, 3, none⟩, ⟨1, 0, some [9]⟩]
    ((Buffer.mk ⟨[], []⟩ [0, 1, 2, 3] none).applyDelta edits).data = [2, 3] ∧
      rewritten edits [0, 1, 2, 3] = [9, 3] := by cbv

theorem data_apply {r : Result} (h : ∀ delta, r = .second delta → Fits b.data.length delta.edits) :
    (b.apply r).data = served b.data r := by
  cases r with
  | first full => exact data_applyFull _ _
  | second delta =>
    exact (applyDelta_of_fits (b := { b with resultId := delta.resultId }) (h delta rfl)).1

theorem resultId_apply (b : Buffer) (r : Result) : (b.apply r).resultId = nameOf r := by
  cases r <;> rfl

theorem legend_apply (b : Buffer) (r : Result) : (b.apply r).legend = b.legend := by
  cases r <;> rfl

theorem apply_congr {r r' : Result} (hr : Relisted r r')
    (h : ∀ delta, r = .second delta → Fits b.data.length delta.edits) : b.apply r' = b.apply r := by
  cases hr with
  | full => rfl
  | delta resultId hperm =>
    rw [apply, apply, applyDelta, applyDelta, fromTheEnd_congr (h _ rfl).starts hperm]

/-- Each delta among some results fits the array to which the buffer applies it. -/
def AllFit (b : Buffer) (results : List Result) : Prop :=
  ∀ before delta after, results = before ++ .second delta :: after →
    Fits (before.foldl apply b).data.length delta.edits

theorem AllFit.nil (b : Buffer) : b.AllFit [] :=
  fun before _ _ h => absurd h (by simp)

theorem AllFit.cons {r : Result} {results : List Result}
    (hr : ∀ delta, r = .second delta → Fits b.data.length delta.edits)
    (h : (b.apply r).AllFit results) : b.AllFit (r :: results) := by
  intro before delta after he
  cases before with
  | nil => exact hr delta (List.cons.inj he).1
  | cons r' before =>
    obtain ⟨rfl, he'⟩ := List.cons.inj he
    exact h before delta after he'

theorem AllFit.head {r : Result} {results : List Result} (h : b.AllFit (r :: results)) :
    ∀ delta, r = .second delta → Fits b.data.length delta.edits :=
  fun delta hr => h [] delta results (by rw [hr, List.nil_append])

theorem AllFit.tail {r : Result} {results : List Result} (h : b.AllFit (r :: results)) :
    (b.apply r).AllFit results :=
  fun before delta after hr => h (r :: before) delta after (by rw [hr, List.cons_append])

theorem AllFit.left {before after : List Result} (h : b.AllFit (before ++ after)) :
    b.AllFit before :=
  fun as delta bs hr => h as delta (bs ++ after) (by rw [hr, List.append_assoc, List.cons_append])

theorem data_foldl_apply {results : List Result} (h : b.AllFit results) :
    (results.foldl apply b).data = results.foldl served b.data := by
  induction results generalizing b with
  | nil => rfl
  | cons r results ih => rw [List.foldl_cons, List.foldl_cons, ih h.tail, data_apply h.head]

theorem resultId_foldl_apply (b : Buffer) (results : List Result) :
    (results.foldl apply b).resultId = (results.getLast?.map nameOf).getD b.resultId := by
  induction results using List.reverseRecOn with
  | nil => rfl
  | append_singleton results r _ =>
    rw [List.foldl_append, List.getLast?_concat]
    exact resultId_apply _ r

theorem legend_foldl_apply (b : Buffer) (results : List Result) :
    (results.foldl apply b).legend = b.legend := by
  induction results generalizing b with
  | nil => rfl
  | cons r results ih => rw [List.foldl_cons, ih, legend_apply]

theorem foldl_apply_congr {results results' : List Result}
    (hr : List.Forall₂ Relisted results results')
    (h : b.AllFit results) : results'.foldl apply b = results.foldl apply b := by
  induction hr generalizing b with
  | nil => rfl
  | cons hr _ ih => rw [List.foldl_cons, List.foldl_cons, apply_congr hr h.head, ih h.tail]

end Buffer

/-- A buffer is given results one after the other, and every delta fits the array that the buffer
has by then. After each of them the buffer has the server's array: that of the result if it was a
full one, and else the one before with all the edits made at once. The array grows by what the edits
put in less what they take out, the name is that of the last result, and the legend stays. It makes
no difference in which order the deltas list their edits. -/
theorem follows_server (b : Buffer) (results : List Result) (h : b.AllFit results) :
    (∀ before after, results = before ++ after →
      (before.foldl Buffer.apply b).data = before.foldl served b.data ∧
      (before.foldl Buffer.apply b).resultId = (before.getLast?.map nameOf).getD b.resultId ∧
      (before.foldl Buffer.apply b).legend = b.legend) ∧
    (∀ before delta after, results = before ++ .second delta :: after →
      (((before ++ [.second delta]).foldl Buffer.apply b).data.length : Int) =
        (before.foldl Buffer.apply b).data.length + (delta.edits.map Edit.growth).sum) ∧
    ∀ results', List.Forall₂ Relisted results results' →
      results'.foldl Buffer.apply b = results.foldl Buffer.apply b := by
  refine ⟨fun before after hr => ?_, fun before delta after hr => ?_, fun results' hr => ?_⟩
  · subst hr
    exact ⟨Buffer.data_foldl_apply h.left, Buffer.resultId_foldl_apply b before,
      Buffer.legend_foldl_apply b before⟩
  · rw [List.foldl_append]
    have hfits := h before delta after hr
    exact (Buffer.applyDelta_of_fits
      (b := { before.foldl Buffer.apply b with resultId := delta.resultId }) hfits).2
  · exact Buffer.foldl_apply_congr hr h

/-- The first token is replaced by two, the last one is taken out, and another one is put at the
end. The edits are not listed from the end. -/
theorem follows_server_of_three_edits :
    let b := Buffer.empty ⟨["type"], []⟩
    let edits : List Edit :=
      [⟨0, 5, some [0, 0, 1, 0, 0, 0, 1, 1, 4, 0]⟩, ⟨15, 0, some [1, 0, 2, 0, 0]⟩, ⟨10, 5, none⟩]
    let results : List Result :=
      [.first ⟨some "1", [0, 0, 1, 0, 0, 0, 2, 1, 1, 0, 0, 2, 1, 2, 0]⟩, .second ⟨none, edits⟩]
    b.AllFit results ∧
      (results.foldl Buffer.apply b).data =
        [0, 0, 1, 0, 0, 0, 1, 1, 4, 0, 0, 2, 1, 1, 0, 1, 0, 2, 0, 0] ∧
      (results.foldl Buffer.apply b).resultId = none := by
  intro b edits results
  have hfit : b.AllFit results := by
    refine .cons (fun delta h => nomatch h) (.cons (fun delta h => ?_) (.nil _))
    obtain rfl := OneOfTwo.second.inj h
    decide
  obtain ⟨hdata, hname, -⟩ := (follows_server b results hfit).1 results [] (List.append_nil _).symm
  exact ⟨hfit, hdata.trans (by decide), hname.trans rfl⟩

end PeerRpc.Tokens
