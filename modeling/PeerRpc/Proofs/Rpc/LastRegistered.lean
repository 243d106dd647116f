import Mathlib
import PeerRpc.Proofs.Rpc.Registration
import PeerRpc.Rpc.Catalog

/-!
# The last registration of a method

Whatever has been registered before, a registry decodes a call as the last registration of the
call's kind and name says, and it knows no method that was not registered
(`decoded_by_last_registration`). So registrations with the same last ones make registries that
cannot be told apart, although the records of what was replaced may differ.
-/

namespace PeerRpc.Rpc

/-! ## Tables of entries -/

namespace Entry

variable {α : Type} {e : Entry α} {es : List (Entry α)} {name : String}

/-- The table into which some entries have been put, the first of them first. -/
def putAll (es : List (Entry α)) : List (Entry α) :=
  es.foldl (fun table e => put e table) []

theorem putAll_concat (es : List (Entry α)) (e : Entry α) : putAll (es ++ [e]) = put e (putAll es) :=
  List.foldl_concat ..

/-- A table gives the last entry of a name that was put into it. -/
theorem find?_putAll : find? name (putAll es) = find? name es.reverse := by
  induction es using List.reverseRecOn with
  | nil => rfl
  | append_singleton es e ih =>
    rw [putAll_concat, find?_put, List.reverse_append, List.reverse_singleton,
      List.singleton_append, find?_cons, ih]

theorem isSome_find?_iff : (find? name es).isSome ↔ name ∈ es.map (·.name) := by
  simp [find?]

theorem names_put : (put e es).map (·.name) =
    if e.name ∈ es.map (·.name) then es.map (·.name) else es.map (·.name) ++ [e.name] := by
  induction es with
  | nil => rfl
  | cons e' es ih =>
    rw [put]
    by_cases h : e'.name = e.name
    · rw [if_pos h, List.map_cons, List.map_cons, h, if_pos List.mem_cons_self]
    · have hmem : e.name ∈ (e' :: es).map (·.name) ↔ e.name ∈ es.map (·.name) := by
        rw [List.map_cons, List.mem_cons, or_iff_right (Ne.symm h)]
      rw [if_neg h, List.map_cons, ih, if_congr hmem rfl rfl]
      split_ifs <;> rfl

theorem nodup_names_putAll (es : List (Entry α)) : ((putAll es).map (·.name)).Nodup := by
  induction es using List.reverseRecOn with
  | nil => exact List.nodup_nil
  | append_singleton es e ih =>
    rw [putAll_concat, names_put]
    split_ifs with h
    · exact ih
    · rw [List.nodup_append]
      exact ⟨ih, List.nodup_singleton _, fun a ha b hb he => h (List.mem_singleton.1 hb ▸ he ▸ ha)⟩

/-- Tables that give the same for every name have the same names. -/
theorem names_perm {es' : List (Entry α)}
    (h : ∀ name, find? name (putAll es) = find? name (putAll es')) :
    ((putAll es).map (·.name)).Perm ((putAll es').map (·.name)) := by
  rw [List.perm_ext_iff_of_nodup (nodup_names_putAll es) (nodup_names_putAll es')]
  intro name
  rw [← isSome_find?_iff, ← isSome_find?_iff, h]

end Entry

/-! ## Registrations of one kind -/

namespace Registration

/-- An element of a list behind which no element has a property. -/
def Last {β : Type*} (p : β → Prop) (xs : List β) (x : β) : Prop :=
  ∃ before after, xs = before ++ x :: after ∧ ∀ y ∈ after, ¬p y

theorem not_last_nil {β : Type*} {p : β → Prop} {x : β} : ¬Last p [] x := by
  rintro ⟨before, after, hxs, -⟩
  simp at hxs

theorem last_concat {β : Type*} {p : β → Prop} {xs : List β} {x y : β} :
    Last p (xs ++ [y]) x ↔ y = x ∨ ¬p y ∧ Last p xs x := by
  constructor
  · rintro ⟨before, after, hxs, hafter⟩
    rcases List.eq_nil_or_concat' after with rfl | ⟨after, z, rfl⟩
    · exact .inl (List.singleton_inj.1 (List.append_inj_right' hxs rfl))
    · rw [← List.cons_append, ← List.append_assoc] at hxs
      obtain ⟨rfl, hz⟩ := List.append_inj' hxs rfl
      obtain rfl := List.singleton_inj.1 hz
      refine .inr ⟨hafter y (by simp), before, after, rfl, fun z hz => hafter z ?_⟩
      exact List.mem_append_left _ hz
  · rintro (rfl | ⟨hy, before, after, rfl, hafter⟩)
    · exact ⟨xs, [], rfl, nofun⟩
    · refine ⟨before, after ++ [y], by simp, fun z hz => ?_⟩
      rcases List.mem_append.1 hz with hz | hz
      · exact hafter z hz
      · exact List.mem_singleton.1 hz ▸ hy

variable {R N α : Type}

/-- What a registration puts among the requests. -/
def requestEntry? : Registration R N → Option (Entry R)
  | request m make => some ⟨m.name, fun p => (m.params.decode p).map make⟩
  | notification _ _ => none

/-- What a registration puts among the notifications. -/
def notificationEntry? : Registration R N → Option (Entry N)
  | request _ _ => none
  | notification m make => some ⟨m.name, fun p => (m.params.decode p).map make⟩

theorem requestName?_eq (x : Registration R N) :
    x.requestName? = x.requestEntry?.map (·.name) := by
  cases x <;> rfl

theorem notificationName?_eq (x : Registration R N) :
    x.notificationName? = x.notificationEntry?.map (·.name) := by
  cases x <;> rfl

/-- Of some registrations, the last one of a request method's name is the one of this method. -/
def LastRequest (xs : List (Registration R N)) (m : RequestMethod) (make : m.Params → R) : Prop :=
  Last (fun x => x.requestName? = some m.name) xs (request m make)

/-- Of some registrations, the last one of a notification method's name is the one of this
method. -/
def LastNotification (xs : List (Registration R N)) (m : NotificationMethod)
    (make : m.Params → N) : Prop :=
  Last (fun x => x.notificationName? = some m.name) xs (notification m make)

/-- For each kind and each name the last registration is the same. -/
structure SameLast (xs ys : List (Registration R N)) : Prop where
  request : ∀ m make, LastRequest xs m make ↔ LastRequest ys m make
  notification : ∀ m make, LastNotification xs m make ↔ LastNotification ys m make

theorem last_cons {β : Type*} {p : β → Prop} {xs : List β} {x z : β}
    (h : x = z → ∃ y ∈ xs, p y) : Last p (x :: xs) z ↔ Last p xs z := by
  constructor
  · rintro ⟨before, after, hxs, hafter⟩
    rcases List.cons_eq_append_iff.1 hxs with ⟨rfl, hz⟩ | ⟨before, rfl, rfl⟩
    · obtain ⟨rfl, rfl⟩ := List.cons.inj hz
      obtain ⟨y, hy, hp⟩ := h rfl
      exact absurd hp (hafter y hy)
    · exact ⟨before, after, rfl, hafter⟩
  · rintro ⟨before, after, rfl, hafter⟩
    exact ⟨x :: before, after, rfl, hafter⟩

/-- A registration that is replaced later might as well be left out. -/
theorem sameLast_of_replaced {xs : List (Registration R N)} {x y : Registration R N} (hy : y ∈ xs)
    (hr : y.requestName? = x.requestName?) (hn : y.notificationName? = x.notificationName?) :
    SameLast (x :: xs) xs where
  request m make := last_cons fun hx => ⟨y, hy, by rw [hr, hx]; rfl⟩
  notification m make := last_cons fun hx => ⟨y, hy, by rw [hn, hx]; rfl⟩

/-! ## What a table gives -/

section Tables

variable {entryOf? : Registration R N → Option (Entry α)} {xs : List (Registration R N)}
  {name : String} {e : Entry α}

/-- The table of the entries of one kind. -/
def table (entryOf? : Registration R N → Option (Entry α)) (xs : List (Registration R N)) :
    List (Entry α) :=
  Entry.putAll (xs.filterMap entryOf?)

theorem find?_table_concat (xs : List (Registration R N)) (x : Registration R N) :
    Entry.find? name (table entryOf? (xs ++ [x])) =
      if (entryOf? x).map (·.name) = some name then entryOf? x
      else Entry.find? name (table entryOf? xs) := by
  rw [table, Entry.find?_putAll, List.filterMap_append, List.reverse_append, table,
    Entry.find?_putAll]
  cases h : entryOf? x with
  | none => simp [h]
  | some e => simp [h]

/-- A table gives for a name the entry of the last registration that has one of this name. -/
theorem find?_table : Entry.find? name (table entryOf? xs) = some e ↔
    ∃ x, Last (fun y => (entryOf? y).map (·.name) = some name) xs x ∧ entryOf? x = some e ∧
      e.name = name := by
  induction xs using List.reverseRecOn with
  | nil =>
    exact ⟨nofun, fun ⟨x, hx, _⟩ => absurd hx not_last_nil⟩
  | append_singleton xs y ih =>
    simp only [find?_table_concat, last_concat]
    by_cases hy : (entryOf? y).map (·.name) = some name
    · rw [if_pos hy]
      constructor
      · intro he
        rw [he] at hy
        exact ⟨y, .inl rfl, he, Option.some.inj hy⟩
      · rintro ⟨x, rfl | ⟨hn, -⟩, he, -⟩
        · exact he
        · exact absurd hy hn
    · rw [if_neg hy, ih]
      constructor
      · rintro ⟨x, hx, he, hname⟩
        exact ⟨x, .inr ⟨hy, hx⟩, he, hname⟩
      · rintro ⟨x, rfl | ⟨-, hx⟩, he, hname⟩
        · rw [he] at hy
          exact absurd (congrArg some hname) hy
        · exact ⟨x, hx, he, hname⟩

theorem find?_table_eq_none : Entry.find? name (table entryOf? xs) = none ↔
    ∀ x ∈ xs, (entryOf? x).map (·.name) ≠ some name := by
  induction xs using List.reverseRecOn with
  | nil => exact ⟨fun _ => nofun, fun _ => rfl⟩
  | append_singleton xs y ih =>
    simp only [find?_table_concat, List.forall_mem_append, List.forall_mem_singleton, ← ih]
    by_cases hy : (entryOf? y).map (·.name) = some name
    · obtain ⟨e, he, -⟩ := Option.map_eq_some_iff.1 hy
      rw [if_pos hy, he]
      exact iff_of_false nofun fun h => h.2 (he ▸ hy)
    · rw [if_neg hy, and_iff_left hy]

/-- Only the registrations that have an entry of a name matter for it. -/
theorem find?_table_filter :
    Entry.find? name (table entryOf? (xs.filter fun x => (entryOf? x).map (·.name) = some name)) =
      Entry.find? name (table entryOf? xs) := by
  induction xs using List.reverseRecOn with
  | nil => rfl
  | append_singleton xs y ih =>
    rw [List.filter_append, find?_table_concat]
    by_cases hy : (entryOf? y).map (·.name) = some name
    · rw [List.filter_singleton, decide_eq_true hy, cond_true, find?_table_concat, if_pos hy,
        if_pos hy]
    · rw [List.filter_singleton, decide_eq_false hy, cond_false, List.append_nil, ih, if_neg hy]

end Tables

theorem eq_request_of_requestEntry? {x : Registration R N} {e : Entry R}
    (h : x.requestEntry? = some e) :
    ∃ m make, x = request m make ∧ e = ⟨m.name, fun p => (m.params.decode p).map make⟩ := by
  cases x with
  | request m make => exact ⟨m, make, rfl, (Option.some.inj h).symm⟩
  | notification m make => cases h

theorem eq_notification_of_notificationEntry? {x : Registration R N} {e : Entry N}
    (h : x.notificationEntry? = some e) :
    ∃ m make, x = notification m make ∧ e = ⟨m.name, fun p => (m.params.decode p).map make⟩ := by
  cases x with
  | request m make => cases h
  | notification m make => exact ⟨m, make, rfl, (Option.some.inj h).symm⟩

theorem find?_requests {xs : List (Registration R N)} {name : String} {e : Entry R} :
    Entry.find? name (table requestEntry? xs) = some e ↔
      ∃ m make, LastRequest xs m make ∧ m.name = name ∧
        e = ⟨m.name, fun p => (m.params.decode p).map make⟩ := by
  rw [find?_table]
  constructor
  · rintro ⟨x, hx, he, rfl⟩
    obtain ⟨m, make, rfl, rfl⟩ := eq_request_of_requestEntry? he
    simp only [← requestName?_eq] at hx
    exact ⟨m, make, hx, rfl, rfl⟩
  · rintro ⟨m, make, hx, rfl, rfl⟩
    unfold LastRequest at hx
    simp only [requestName?_eq] at hx
    exact ⟨_, hx, rfl, rfl⟩

theorem find?_notifications {xs : List (Registration R N)} {name : String} {e : Entry N} :
    Entry.find? name (table notificationEntry? xs) = some e ↔
      ∃ m make, LastNotification xs m make ∧ m.name = name ∧
        e = ⟨m.name, fun p => (m.params.decode p).map make⟩ := by
  rw [find?_table]
  constructor
  · rintro ⟨x, hx, he, rfl⟩
    obtain ⟨m, make, rfl, rfl⟩ := eq_notification_of_notificationEntry? he
    simp only [← notificationName?_eq] at hx
    exact ⟨m, make, hx, rfl, rfl⟩
  · rintro ⟨m, make, hx, rfl, rfl⟩
    unfold LastNotification at hx
    simp only [notificationName?_eq] at hx
    exact ⟨_, hx, rfl, rfl⟩

end Registration

/-! ## Registries -/

namespace Registry

open Registration (LastRequest LastNotification SameLast table requestEntry? notificationEntry?)

variable {R N : Type}

/-- The registry that some registrations make, the first of them made first. -/
def ofList (xs : List (Registration R N)) : Registry R N :=
  empty.registerAll xs

theorem ofList_concat (xs : List (Registration R N)) (x : Registration R N) :
    ofList (xs ++ [x]) = (ofList xs).register x :=
  List.foldl_concat ..

theorem table_concat {α : Type} {entryOf? : Registration R N → Option (Entry α)}
    (xs : List (Registration R N)) (x : Registration R N) : table entryOf? (xs ++ [x]) =
      (entryOf? x).elim (table entryOf? xs) fun e => Entry.put e (table entryOf? xs) := by
  rw [table, List.filterMap_append]
  cases h : entryOf? x with
  | none => simp [h, table]
  | some e => simp [h, table, Entry.putAll_concat]

/-- The tables of a registry hold what the registrations of their kind have put in. -/
theorem tables_ofList (xs : List (Registration R N)) :
    (ofList xs).requests = table requestEntry? xs ∧
      (ofList xs).notifications = table notificationEntry? xs := by
  induction xs using List.reverseRecOn with
  | nil => exact ⟨rfl, rfl⟩
  | append_singleton xs x ih =>
    rw [ofList_concat, table_concat, table_concat, ← ih.1, ← ih.2]
    cases x <;> exact ⟨rfl, rfl⟩

/-- Two registries know the same methods and decode all calls alike. -/
structure Indistinguishable (r r' : Registry R N) : Prop where
  hasRequest : ∀ name, r.hasRequest name = r'.hasRequest name
  hasNotification : ∀ name, r.hasNotification name = r'.hasNotification name
  decodeRequest : ∀ name params, r.decodeRequest name params = r'.decodeRequest name params
  decodeNotification : ∀ name params,
    r.decodeNotification name params = r'.decodeNotification name params
  describe : r.describe = r'.describe

/-- The order in which names were registered does not show in a description. -/
theorem describeNames_of_perm {names names' : List String} (h : names.Perm names') :
    describeNames names = describeNames names' := by
  have hle : ∀ a b : String, (!decide (b < a)) = decide (a ≤ b) := by
    intro a b
    rw [← decide_not, decide_eq_decide, String.not_lt]
  have hsort : (names.mergeSort fun a b => !(b < a)) = names'.mergeSort fun a b => !(b < a) := by
    simp only [hle]
    refine List.Perm.eq_of_sortedLE List.sortedLE_mergeSort List.sortedLE_mergeSort ?_
    exact (List.mergeSort_perm ..).trans (h.trans (List.mergeSort_perm ..).symm)
  rw [describeNames, describeNames, hsort]

/-- What registrations of one kind mean for the calls of this kind: a method is known if it was
registered, a call of any other method is refused, and registrations of another kind or name make no
difference. -/
structure Follows {α : Type} (name? : Registration R N → Option String)
    (has : Registry R N → String → Bool)
    (decode : Registry R N → String → Option Json → Except CallFault α)
    (xs : List (Registration R N)) : Prop where
  unregistered : ∀ name, has (ofList xs) name = false ↔ ∀ x ∈ xs, name? x ≠ some name
  unknown : ∀ name params n, decode (ofList xs) name params = .error (.unknownMethod n) ↔
    n = name ∧ has (ofList xs) name = false
  alone : ∀ name params, decode (ofList xs) name params =
    decode (ofList (xs.filter fun x => name? x = some name)) name params

/-- It follows for calls that are decoded through a table of entries. -/
theorem Follows.of_table {α : Type} {entryOf? : Registration R N → Option (Entry α)}
    {name? : Registration R N → Option String} {has : Registry R N → String → Bool}
    {decode : Registry R N → String → Option Json → Except CallFault α}
    (hname : ∀ x, name? x = (entryOf? x).map (·.name))
    (hhas : ∀ xs name, has (ofList xs) name = (Entry.find? name (table entryOf? xs)).isSome)
    (hdecode : ∀ xs, decode (ofList xs) = Entry.decode (table entryOf? xs))
    (xs : List (Registration R N)) : Follows name? has decode xs where
  unregistered name := by
    rw [hhas, Option.isSome_eq_false_iff, Option.isNone_iff_eq_none,
      Registration.find?_table_eq_none]
    simp only [hname]
  unknown name params n := by
    rw [hhas, hdecode, Entry.decode]
    cases Entry.find? name (table entryOf? xs) with
    | none =>
      refine ⟨fun h => ?_, fun h => h.1 ▸ rfl⟩
      cases h
      exact ⟨rfl, rfl⟩
    | some e =>
      refine iff_of_false (fun h => ?_) nofun
      cases he : e.make params <;> simp [he, Except.mapError] at h
  alone name params := by
    simp only [hname]
    rw [hdecode, hdecode, Entry.decode, Entry.decode, Registration.find?_table_filter]

variable {xs ys : List (Registration R N)}

theorem follows_requests (xs : List (Registration R N)) :
    Follows Registration.requestName? hasRequest decodeRequest xs :=
  .of_table Registration.requestName?_eq
    (fun xs name => by rw [hasRequest, (tables_ofList xs).1])
    (fun xs => by
      funext name params
      rw [decodeRequest, (tables_ofList xs).1]) xs

theorem follows_notifications (xs : List (Registration R N)) :
    Follows Registration.notificationName? hasNotification decodeNotification xs :=
  .of_table Registration.notificationName?_eq
    (fun xs name => by rw [hasNotification, (tables_ofList xs).2])
    (fun xs => by
      funext name params
      rw [decodeNotification, (tables_ofList xs).2]) xs

theorem decodeRequest_of_last {m : RequestMethod} {make : m.Params → R}
    (h : LastRequest xs m make) (params : Option Json) :
    (ofList xs).decodeRequest m.name params =
      ((m.params.decode params).map make).mapError (.badParams m.name) := by
  rw [decodeRequest, (tables_ofList xs).1, Entry.decode,
    Registration.find?_requests.2 ⟨m, make, h, rfl, rfl⟩]

theorem decodeNotification_of_last {m : NotificationMethod} {make : m.Params → N}
    (h : LastNotification xs m make) (params : Option Json) :
    (ofList xs).decodeNotification m.name params =
      ((m.params.decode params).map make).mapError (.badParams m.name) := by
  rw [decodeNotification, (tables_ofList xs).2, Entry.decode,
    Registration.find?_notifications.2 ⟨m, make, h, rfl, rfl⟩]

/-- Two tables that give the same for every name cannot be told apart. -/
theorem indistinguishable_of_tables
    (hr : ∀ name, Entry.find? name (table requestEntry? xs) =
      Entry.find? name (table requestEntry? ys))
    (hn : ∀ name, Entry.find? name (table notificationEntry? xs) =
      Entry.find? name (table notificationEntry? ys)) :
    Indistinguishable (ofList xs) (ofList ys) where
  hasRequest name := by
    rw [hasRequest, hasRequest, (tables_ofList xs).1, (tables_ofList ys).1, hr]
  hasNotification name := by
    rw [hasNotification, hasNotification, (tables_ofList xs).2, (tables_ofList ys).2, hn]
  decodeRequest name params := by
    rw [decodeRequest, decodeRequest, (tables_ofList xs).1, (tables_ofList ys).1, Entry.decode,
      Entry.decode, hr]
  decodeNotification name params := by
    rw [decodeNotification, decodeNotification, (tables_ofList xs).2, (tables_ofList ys).2,
      Entry.decode, Entry.decode, hn]
  describe := by
    have hrequests : describeNames ((ofList xs).requests.map (·.name)) =
        describeNames ((ofList ys).requests.map (·.name)) := by
      rw [(tables_ofList xs).1, (tables_ofList ys).1]
      exact describeNames_of_perm (Entry.names_perm hr)
    have hnotifications : describeNames ((ofList xs).notifications.map (·.name)) =
        describeNames ((ofList ys).notifications.map (·.name)) := by
      rw [(tables_ofList xs).2, (tables_ofList ys).2]
      exact describeNames_of_perm (Entry.names_perm hn)
    unfold Registry.describe
    rw [hrequests, hnotifications]

theorem indistinguishable_of_sameLast (h : SameLast xs ys) :
    Indistinguishable (ofList xs) (ofList ys) := by
  refine indistinguishable_of_tables (fun name => ?_) fun name => ?_
  · refine Option.ext fun e => ?_
    rw [Registration.find?_requests, Registration.find?_requests]
    simp only [h.request]
  · refine Option.ext fun e => ?_
    rw [Registration.find?_notifications, Registration.find?_notifications]
    simp only [h.notification]

end Registry

open Registration Registry in
/-- After any registrations, a call of a method that was never registered for its kind is refused,
and no other call is. A call is decoded by the last registration of its kind and name alone, and
absent parameters count as null: what the registration makes of the parameters, or the fault in
them. Registrations with the same last ones make registries that cannot be told apart. -/
theorem decoded_by_last_registration {R N : Type} (xs : List (Registration R N)) :
    let r := Registry.ofList xs
    (Follows requestName? hasRequest decodeRequest xs ∧
      (∀ name, r.hasRequest name = true ↔ ∃ m make, LastRequest xs m make ∧ m.name = name) ∧
      ∀ m make, LastRequest xs m make → ∀ params,
        r.decodeRequest m.name params = match m.params.read (params.getD .null) with
          | .ok p => .ok (make p)
          | .error fault => .error (.badParams m.name fault)) ∧
    (Follows notificationName? hasNotification decodeNotification xs ∧
      (∀ name, r.hasNotification name = true ↔
        ∃ m make, LastNotification xs m make ∧ m.name = name) ∧
      ∀ m make, LastNotification xs m make → ∀ params,
        r.decodeNotification m.name params = match m.params.read (params.getD .null) with
          | .ok p => .ok (make p)
          | .error fault => .error (.badParams m.name fault)) ∧
    ∀ ys, SameLast xs ys → Indistinguishable r (Registry.ofList ys) := by
  intro r
  have hrequest : ∀ name, r.hasRequest name = true ↔
      ∃ m make, LastRequest xs m make ∧ m.name = name := by
    intro name
    rw [hasRequest, (tables_ofList xs).1, Option.isSome_iff_exists]
    simp only [find?_requests]
    exact ⟨fun ⟨_, m, make, h, hname, _⟩ => ⟨m, make, h, hname⟩,
      fun ⟨m, make, h, hname⟩ => ⟨_, m, make, h, hname, rfl⟩⟩
  have hnotification : ∀ name, r.hasNotification name = true ↔
      ∃ m make, LastNotification xs m make ∧ m.name = name := by
    intro name
    rw [hasNotification, (tables_ofList xs).2, Option.isSome_iff_exists]
    simp only [find?_notifications]
    exact ⟨fun ⟨_, m, make, h, hname, _⟩ => ⟨m, make, h, hname⟩,
      fun ⟨m, make, h, hname⟩ => ⟨_, m, make, h, hname, rfl⟩⟩
  refine ⟨⟨follows_requests xs, hrequest, fun m make h params => ?_⟩,
    ⟨follows_notifications xs, hnotification, fun m make h params => ?_⟩,
    fun ys h => indistinguishable_of_sameLast h⟩
  · rw [decodeRequest_of_last h, Coder.decode]
    cases m.params.read (params.getD .null) <;> rfl
  · rw [decodeNotification_of_last h, Coder.decode]
    cases m.params.read (params.getD .null) <;> rfl

open Registration in
/-- A request is registered again, with a notification of another name between. Its first
registration does not show. -/
theorem decoded_by_second_registration :
    let first : Registration Nat Nat := .request Catalog.shutdown fun () => 1
    let other : Registration Nat Nat := .notification Catalog.exit fun () => 2
    let second : Registration Nat Nat := .request Catalog.shutdown fun () => 3
    let r := Registry.ofList [first, other, second]
    r.decodeRequest "shutdown" none = .ok 3 ∧
      r.decodeRequest "exit" none = .error (.unknownMethod "exit") ∧
      r.decodeNotification "exit" (some .null) = .ok 2 ∧
      Registry.Indistinguishable r (Registry.ofList [other, second]) := by
  intro first other second r
  have hsecond : LastRequest [first, other, second] Catalog.shutdown fun () => 3 :=
    ⟨[first, other], [], rfl, nofun⟩
  have hother : LastNotification [first, other, second] Catalog.exit fun () => 2 :=
    ⟨[first], [second], rfl, by simp [second, notificationName?]⟩
  obtain ⟨⟨hrequests, -, hrequest⟩, ⟨-, -, hnotification⟩, hsame⟩ :=
    decoded_by_last_registration [first, other, second]
  refine ⟨hrequest _ _ hsecond none, ?_, hnotification _ _ hother (some .null), hsame _ ?_⟩
  · refine (hrequests.unknown "exit" none "exit").2 ⟨rfl, (hrequests.unregistered "exit").2 ?_⟩
    decide
  · exact sameLast_of_replaced (y := second) (by simp) rfl rfl

end PeerRpc.Rpc
