import PeerRpc.Rpc.Registry

/-!
# Methods registered one after the other

An application builds its registry from registrations. Requests and notifications do not touch each
other, and a registration is found until another one of its kind and name takes its place
(`Registry.decodeRequest_registerAll`, `Registry.decodeNotification_registerAll`).
-/

namespace PeerRpc.Rpc

/-! ## Entries -/

namespace Entry

variable {α : Type} {e : Entry α} {es : List (Entry α)} {name : String}

@[simp] theorem find?_nil : find? name ([] : List (Entry α)) = none :=
  rfl

@[simp] theorem find?_cons : find? name (e :: es) = if e.name = name then some e else find? name es := by
  rw [find?, List.find?_cons, find?]
  by_cases h : e.name = name <;> simp [h]

/-- An entry that is put in is found under its name, and hides no entry of another name. -/
theorem find?_put : find? name (put e es) = if e.name = name then some e else find? name es := by
  induction es with
  | nil => rw [put, find?_cons]
  | cons e' es ih =>
    rw [put]
    by_cases hsame : e'.name = e.name
    · rw [if_pos hsame, find?_cons, find?_cons]
      by_cases hname : e.name = name
      · rw [if_pos hname, if_pos hname]
      · rw [if_neg hname, if_neg hname, if_neg (hsame ▸ hname)]
    · rw [if_neg hsame, find?_cons, find?_cons, ih]
      by_cases hname : e.name = name
      · rw [if_neg fun h => hsame (h.trans hname.symm), if_pos hname, if_pos hname]
      · rw [if_neg hname, if_neg hname]

theorem decode_put (params : Option Json) :
    decode (put e es) name params =
      if e.name = name then (e.make params).mapError (.badParams name)
      else decode es name params := by
  unfold decode
  rw [find?_put]
  by_cases h : e.name = name <;> simp only [h, if_true, if_false]

end Entry

/-! ## Registrations -/

/-- A method that an application registers, with what makes a value from its parameters. -/
inductive Registration (R N : Type) where
  | request (m : RequestMethod) (make : m.Params → R)
  | notification (m : NotificationMethod) (make : m.Params → N)

namespace Registration

variable {R N : Type}

/-- The name under which a request method is registered. -/
def requestName? : Registration R N → Option String
  | request m _ => some m.name
  | notification _ _ => none

/-- The name under which a notification method is registered. -/
def notificationName? : Registration R N → Option String
  | request _ _ => none
  | notification m _ => some m.name

end Registration

namespace Registry

variable {R N : Type}

/-- The registry with one more registration. -/
def register (r : Registry R N) : Registration R N → Registry R N
  | .request m make => r.registerRequest m make
  | .notification m make => r.registerNotification m make

/-- The registry after some registrations, the first of them made first. -/
def registerAll (r : Registry R N) (xs : List (Registration R N)) : Registry R N :=
  xs.foldl register r

variable {r : Registry R N} {name : String} {params : Option Json}

theorem decodeRequest_registerRequest (m : RequestMethod) (make : m.Params → R) :
    (r.registerRequest m make).decodeRequest m.name params =
      ((m.params.decode params).map make).mapError (.badParams m.name) := by
  rw [decodeRequest, registerRequest, Entry.decode_put, if_pos rfl]

theorem decodeNotification_registerNotification (m : NotificationMethod) (make : m.Params → N) :
    (r.registerNotification m make).decodeNotification m.name params =
      ((m.params.decode params).map make).mapError (.badParams m.name) := by
  rw [decodeNotification, registerNotification, Entry.decode_put, if_pos rfl]

theorem decodeRequest_register {x : Registration R N} (h : x.requestName? ≠ some name) :
    (r.register x).decodeRequest name params = r.decodeRequest name params := by
  cases x with
  | request m make =>
    have hname : m.name ≠ name := fun he => h (congrArg some he)
    rw [register, decodeRequest, registerRequest, Entry.decode_put, if_neg hname, decodeRequest]
  | notification m make => rfl

theorem decodeNotification_register {x : Registration R N} (h : x.notificationName? ≠ some name) :
    (r.register x).decodeNotification name params = r.decodeNotification name params := by
  cases x with
  | request m make => rfl
  | notification m make =>
    have hname : m.name ≠ name := fun he => h (congrArg some he)
    rw [register, decodeNotification, registerNotification, Entry.decode_put, if_neg hname,
      decodeNotification]

/-- Registrations that do not replace a request method leave it as it is. -/
theorem decodeRequest_registerAll {xs : List (Registration R N)}
    (h : ∀ x ∈ xs, x.requestName? ≠ some name) :
    (r.registerAll xs).decodeRequest name params = r.decodeRequest name params := by
  induction xs generalizing r with
  | nil => rfl
  | cons x xs ih =>
    have hrest := ih (r := r.register x) fun y hy => h y (List.mem_cons_of_mem _ hy)
    exact hrest.trans (decodeRequest_register (h x List.mem_cons_self))

/-- Registrations that do not replace a notification method leave it as it is. -/
theorem decodeNotification_registerAll {xs : List (Registration R N)}
    (h : ∀ x ∈ xs, x.notificationName? ≠ some name) :
    (r.registerAll xs).decodeNotification name params = r.decodeNotification name params := by
  induction xs generalizing r with
  | nil => rfl
  | cons x xs ih =>
    have hrest := ih (r := r.register x) fun y hy => h y (List.mem_cons_of_mem _ hy)
    exact hrest.trans (decodeNotification_register (h x List.mem_cons_self))

end Registry

end PeerRpc.Rpc
