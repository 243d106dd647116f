import PeerRpc.Proofs.Shape.Returns
import PeerRpc.Shape.Union

/-!
# Unions and their forms

A union is read by its forms in the order of declaration. `Earliest` says what the earliest form that
accepts a value makes of it, and `Exhausted` which fault there is when none does, for any number of
forms. Both unions follow them (`OneOfTwo.follows`, `OneOfThree.follows`). Since nothing is written
around a value of a union, it is read back unless an earlier form accepts what is written for it.

* `earliest_form_wins`: what is read, what fails, what is read back, and that a union of three forms
  is a union of two, one of which is a union of two.
-/

namespace PeerRpc

/-- One form of a union. -/
structure Form (υ : Type) where
  /-- How messages name the form's type. -/
  name : String
  /-- The value of the union that a JSON value stands for if it has this form. -/
  read : Json → Except Json.Fault υ

namespace Form

variable {υ ε : Type} {f : Form υ} {forms earlier later : List (Form υ)} {v : Json} {x y : υ}
  {u : UnionFault}

/-- The form whose values are those of a type, made values of the union. -/
def ofShape (α : Type) [Shape α] (make : α → υ) : Form υ where
  name := Shape.name α
  read v := (Shape.decode v).map make

/-- A JSON value has the form. -/
def Accepts (f : Form υ) (v : Json) : Prop :=
  ∃ x, f.read v = .ok x

theorem toOption_read_eq_some_iff : (f.read v).toOption = some x ↔ f.read v = .ok x := by
  cases f.read v <;> simp [Except.toOption]

theorem toOption_read_eq_none_iff : (f.read v).toOption = none ↔ ¬f.Accepts v := by
  unfold Accepts
  cases f.read v <;> simp [Except.toOption]

/-! ## The earliest form that accepts a value -/

/-- The earliest of some forms that accepts a value reads `x`. -/
def Earliest (forms : List (Form υ)) (v : Json) (x : υ) : Prop :=
  ∃ earlier f later, forms = earlier ++ f :: later ∧ f.read v = .ok x ∧
    ∀ g ∈ earlier, ¬g.Accepts v

theorem earliest_iff :
    Earliest forms v x ↔ (forms.findSome? fun f => (f.read v).toOption) = some x := by
  rw [List.findSome?_eq_some_iff]
  simp only [toOption_read_eq_some_iff, toOption_read_eq_none_iff]
  rfl

theorem Earliest.head (h : f.read v = .ok x) (forms : List (Form υ)) :
    Earliest (f :: forms) v x :=
  ⟨[], f, forms, rfl, h, nofun⟩

theorem Earliest.tail (hf : ¬f.Accepts v) (h : Earliest forms v x) : Earliest (f :: forms) v x := by
  obtain ⟨before, g, after, rfl, hg, hbefore⟩ := h
  exact ⟨f :: before, g, after, rfl, hg, List.forall_mem_cons.2 ⟨hf, hbefore⟩⟩

theorem Earliest.unique (hx : Earliest forms v x) (hy : Earliest forms v y) : x = y := by
  rw [earliest_iff] at hx hy
  exact Option.some.inj (hx.symm.trans hy)

theorem Earliest.append (h : Earliest earlier v x) (later : List (Form υ)) :
    Earliest (earlier ++ later) v x := by
  obtain ⟨before, f, after, rfl, hf, hbefore⟩ := h
  exact ⟨before, f, after ++ later, by simp, hf, hbefore⟩

theorem Earliest.exists_mem (h : Earliest forms v x) : ∃ f ∈ forms, f.read v = .ok x := by
  obtain ⟨before, f, after, rfl, hf, -⟩ := h
  exact ⟨f, by simp, hf⟩

theorem exists_earliest (h : ∃ f ∈ forms, f.Accepts v) : ∃ x, Earliest forms v x := by
  obtain ⟨f, hmem, x, hf⟩ := h
  have hsome : (forms.findSome? fun f => (f.read v).toOption).isSome := by
    rw [List.isSome_findSome?]
    exact List.any_eq_true.2 ⟨f, hmem, by rw [toOption_read_eq_some_iff.2 hf]; rfl⟩
  obtain ⟨y, hy⟩ := Option.isSome_iff_exists.1 hsome
  exact ⟨y, earliest_iff.2 hy⟩

/-- None of some forms accepts a value; the fault names them in order, and its cause is why the last of
them does not. -/
structure Exhausted (forms : List (Form υ)) (v : Json) (u : UnionFault) : Prop where
  refused : ∀ f ∈ forms, ¬f.Accepts v
  attempted_eq : u.attempted = forms.map Form.name
  last_eq : ∃ f ∈ forms.getLast?, f.read v = .error u.last

theorem Exhausted.unique {u' : UnionFault} (h : Exhausted forms v u) (h' : Exhausted forms v u') :
    u = u' := by
  obtain ⟨f, hf, hlast⟩ := h.last_eq
  obtain ⟨f', hf', hlast'⟩ := h'.last_eq
  obtain rfl := Option.mem_unique hf hf'
  obtain ⟨attempted, last⟩ := u
  obtain ⟨attempted', last'⟩ := u'
  obtain rfl : attempted = attempted' := h.attempted_eq.trans h'.attempted_eq.symm
  cases hlast.symm.trans hlast'
  rfl

theorem Exhausted.not_earliest (h : Exhausted forms v u) (x : υ) : ¬Earliest forms v x := by
  intro hx
  obtain ⟨f, hmem, hf⟩ := hx.exists_mem
  exact h.refused f hmem ⟨x, hf⟩

/-! ## Readers that follow some forms -/

/-- A reader gives what the earliest of some forms that accepts a value reads, and fails if and only
if none does; the fault of the forms is put as one of the reader's by `cite`. -/
structure Follows (forms : List (Form υ)) (cite : UnionFault → ε) (read : Json → Except ε υ) :
    Prop where
  ok_iff : ∀ v x, read v = .ok x ↔ Earliest forms v x
  error_iff : ∀ v e, read v = .error e ↔ ∃ u, Exhausted forms v u ∧ e = cite u
  fails_iff : ∀ v, (∃ e, read v = .error e) ↔ ∀ f ∈ forms, ¬f.Accepts v

theorem Follows.of_cases {cite : UnionFault → ε} {read : Json → Except ε υ}
    (h : ∀ v, (∃ x, read v = .ok x ∧ Earliest forms v x) ∨
      ∃ u, read v = .error (cite u) ∧ Exhausted forms v u) : Follows forms cite read where
  ok_iff v x := by
    rcases h v with ⟨y, hread, hy⟩ | ⟨u, hread, hu⟩
    · rw [hread, Except.ok.injEq]
      exact ⟨fun he => he ▸ hy, hy.unique⟩
    · rw [hread]
      exact ⟨nofun, fun hx => absurd hx (hu.not_earliest x)⟩
  error_iff v e := by
    rcases h v with ⟨y, hread, hy⟩ | ⟨u, hread, hu⟩
    · rw [hread]
      exact ⟨nofun, fun ⟨u, hu, _⟩ => absurd hy (hu.not_earliest y)⟩
    · rw [hread, Except.error.injEq]
      exact ⟨fun he => ⟨u, hu, he.symm⟩, fun ⟨u', hu', he⟩ => by rw [he, hu.unique hu']⟩
  fails_iff v := by
    rcases h v with ⟨y, hread, hy⟩ | ⟨u, hread, hu⟩
    · obtain ⟨f, hmem, hf⟩ := hy.exists_mem
      rw [hread]
      exact ⟨nofun, fun hrefused => absurd ⟨y, hf⟩ (hrefused f hmem)⟩
    · exact ⟨fun _ => hu.refused, fun _ => ⟨_, hread⟩⟩

theorem Follows.mapError {δ : Type} {cite : UnionFault → ε} {read : Json → Except ε υ}
    (h : Follows forms cite read) (g : ε → δ) :
    Follows forms (g ∘ cite) fun v => (read v).mapError g := by
  refine .of_cases fun v => ?_
  cases hread : read v with
  | ok x => exact .inl ⟨x, rfl, (h.ok_iff v x).1 hread⟩
  | error e =>
    obtain ⟨u, hu, rfl⟩ := (h.error_iff v e).1 hread
    exact .inr ⟨u, rfl, hu⟩

/-! ## What is read back -/

variable (earlier) in
/-- A reader that follows some forms reads what one of them accepts as this one does if and only if no
earlier one accepts it, provided that no earlier one would read the same. Otherwise it reads what the
earliest of the earlier ones reads. -/
theorem Follows.read_own {cite : UnionFault → ε} {read : Json → Except ε υ}
    (h : Follows (earlier ++ f :: later) cite read) (hf : f.read v = .ok x)
    (hne : ∀ g ∈ earlier, g.read v ≠ .ok x) :
    (read v = .ok x ↔ ∀ g ∈ earlier, ¬g.Accepts v) ∧
      ((∃ g ∈ earlier, g.Accepts v) → ∃ y, Earliest earlier v y ∧ read v = .ok y) := by
  have htaken : (∃ g ∈ earlier, g.Accepts v) → ∃ y, Earliest earlier v y ∧ read v = .ok y := by
    intro haccepts
    obtain ⟨y, hy⟩ := exists_earliest haccepts
    exact ⟨y, hy, (h.ok_iff v y).2 (hy.append _)⟩
  refine ⟨⟨fun hread g hg haccepts => ?_, fun hrefused => ?_⟩, htaken⟩
  · obtain ⟨y, hy, hread'⟩ := htaken ⟨g, hg, haccepts⟩
    cases hread.symm.trans hread'
    obtain ⟨g', hmem, hg'⟩ := hy.exists_mem
    exact hne g' hmem hg'
  · exact (h.ok_iff v x).2 ⟨earlier, f, later, rfl, hf, hrefused⟩

/-- Which values of a union are read back: those for which something is written that no form before
their own accepts. Another one is read as the earliest of these forms reads it. -/
def ReturnsUnlessTaken [Shape υ] (forms : List (Form υ)) (index : υ → Nat) : Prop :=
  ∀ x : υ,
    let before := forms.take (index x)
    let written := (Shape.encode x).sorted
    (Shape.decode written = .ok x ↔ ∀ f ∈ before, ¬f.Accepts written) ∧
      ((∃ f ∈ before, f.Accepts written) →
        ∃ y, Earliest before written y ∧ Shape.decode written = .ok y)

end Form

/-- Every value of a type is read back from what is written for it. -/
def Shape.RoundTrips (α : Type) [Shape α] : Prop :=
  ∀ a : α, decode (encode a).sorted = .ok a

theorem Shape.Returns.roundTrips {α : Type} [Shape α] {bound : Nat} (h : Returns α bound) :
    RoundTrips α :=
  h.decode_eq

variable {α β γ : Type}

/-- Which of its forms a value has. -/
def OneOfTwo.index : OneOfTwo α β → Nat
  | first _ => 0
  | second _ => 1

/-- Which of its forms a value has. -/
def OneOfThree.index : OneOfThree α β γ → Nat
  | first _ => 0
  | second _ => 1
  | third _ => 2

/-- The value with the second and the third form as the second one. -/
def OneOfThree.nestRight : OneOfThree α β γ → OneOfTwo α (OneOfTwo β γ)
  | first a => .first a
  | second b => .second (.first b)
  | third c => .second (.second c)

/-- The value with the first and the second form as the first one. -/
def OneOfThree.nestLeft : OneOfThree α β γ → OneOfTwo (OneOfTwo α β) γ
  | first a => .first (.first a)
  | second b => .first (.second b)
  | third c => .second c

variable [Shape α] [Shape β] [Shape γ]

variable (α β) in
/-- The forms of a union of two. -/
def OneOfTwo.forms : List (Form (OneOfTwo α β)) :=
  [.ofShape α .first, .ofShape β .second]

variable (α β γ) in
/-- The forms of a union of three. -/
def OneOfThree.forms : List (Form (OneOfThree α β γ)) :=
  [.ofShape α .first, .ofShape β .second, .ofShape γ .third]

namespace Form

variable {υ : Type} {v : Json} {make : α → υ} {x : υ}

theorem read_ofShape_of_ok {a : α} (h : Shape.decode v = .ok a) (make : α → υ) :
    (ofShape α make).read v = .ok (make a) := by
  simp only [ofShape, h, Except.map]

theorem read_ofShape_of_error {fault : Json.Fault}
    (h : (Shape.decode v : Except Json.Fault α) = .error fault) (make : α → υ) :
    (ofShape α make).read v = .error fault := by
  simp only [ofShape, h, Except.map]

theorem not_accepts_ofShape {fault : Json.Fault}
    (h : (Shape.decode v : Except Json.Fault α) = .error fault) (make : α → υ) :
    ¬(ofShape α make).Accepts v := by
  rintro ⟨x, hx⟩
  cases (read_ofShape_of_error h make).symm.trans hx

theorem exists_of_read_ofShape (h : (ofShape α make).read v = .ok x) : ∃ a, x = make a := by
  cases hd : (Shape.decode v : Except Json.Fault α) with
  | ok a =>
    cases (read_ofShape_of_ok hd make).symm.trans h
    exact ⟨a, rfl⟩
  | error fault => cases (read_ofShape_of_error hd make).symm.trans h

end Form

open Form

/-! ## Both unions -/

theorem OneOfTwo.follows : Follows (forms α β) id ofJson := by
  refine .of_cases fun v => ?_
  unfold ofJson
  cases ha : (Shape.decode v : Except Json.Fault α) with
  | ok a => exact .inl ⟨_, rfl, .head (read_ofShape_of_ok ha _) _⟩
  | error fault =>
    have hrefused := not_accepts_ofShape ha (OneOfTwo.first (β := β))
    cases hb : (Shape.decode v : Except Json.Fault β) with
    | ok b => exact .inl ⟨_, rfl, .tail hrefused (.head (read_ofShape_of_ok hb _) _)⟩
    | error last =>
      refine .inr ⟨_, rfl, ?_, rfl, _, rfl, read_ofShape_of_error hb _⟩
      simp only [forms, List.forall_mem_cons]
      exact ⟨hrefused, not_accepts_ofShape hb _, nofun⟩

theorem OneOfThree.follows : Follows (forms α β γ) id ofJson := by
  refine .of_cases fun v => ?_
  unfold ofJson
  cases ha : (Shape.decode v : Except Json.Fault α) with
  | ok a => exact .inl ⟨_, rfl, .head (read_ofShape_of_ok ha _) _⟩
  | error fault =>
    have hfirst := not_accepts_ofShape ha (OneOfThree.first (β := β) (γ := γ))
    cases hb : (Shape.decode v : Except Json.Fault β) with
    | ok b => exact .inl ⟨_, rfl, .tail hfirst (.head (read_ofShape_of_ok hb _) _)⟩
    | error fault' =>
      have hsecond := not_accepts_ofShape hb (OneOfThree.second (α := α) (γ := γ))
      cases hc : (Shape.decode v : Except Json.Fault γ) with
      | ok c =>
        exact .inl ⟨_, rfl, .tail hfirst (.tail hsecond (.head (read_ofShape_of_ok hc _) _))⟩
      | error last =>
        refine .inr ⟨_, rfl, ?_, rfl, _, rfl, read_ofShape_of_error hc _⟩
        simp only [forms, List.forall_mem_cons]
        exact ⟨hfirst, hsecond, not_accepts_ofShape hc _, nofun⟩

theorem OneOfTwo.decode_follows :
    Follows (forms α β) UnionFault.toFault Shape.decode :=
  OneOfTwo.follows.mapError UnionFault.toFault

theorem OneOfThree.decode_follows :
    Follows (forms α β γ) UnionFault.toFault Shape.decode :=
  OneOfThree.follows.mapError UnionFault.toFault

theorem OneOfTwo.returnsUnlessTaken (ha : Shape.RoundTrips α) (hb : Shape.RoundTrips β) :
    ReturnsUnlessTaken (forms α β) index := by
  intro x
  cases x with
  | first a => exact decode_follows.read_own [] (read_ofShape_of_ok (ha a) _) nofun
  | second b =>
    refine decode_follows.read_own [_] (read_ofShape_of_ok (hb b) _) ?_
    intro f hf hread
    obtain rfl := List.mem_singleton.1 hf
    obtain ⟨a, ha⟩ := exists_of_read_ofShape hread
    cases ha

theorem OneOfThree.returnsUnlessTaken (ha : Shape.RoundTrips α) (hb : Shape.RoundTrips β)
    (hc : Shape.RoundTrips γ) : ReturnsUnlessTaken (forms α β γ) index := by
  intro x
  cases x with
  | first a => exact decode_follows.read_own [] (read_ofShape_of_ok (ha a) _) nofun
  | second b =>
    refine decode_follows.read_own [_] (read_ofShape_of_ok (hb b) _) ?_
    intro f hf hread
    obtain rfl := List.mem_singleton.1 hf
    obtain ⟨a, ha⟩ := exists_of_read_ofShape hread
    cases ha
  | third c =>
    refine decode_follows.read_own [_, _] (read_ofShape_of_ok (hc c) _) ?_
    intro f hf hread
    rcases List.mem_pair.1 hf with rfl | rfl
    · obtain ⟨a, ha⟩ := exists_of_read_ofShape hread
      cases ha
    · obtain ⟨b, hb⟩ := exists_of_read_ofShape hread
      cases hb

/-! ## Three forms as two -/

theorem OneOfTwo.toOption_ofJson (v : Json) :
    (ofJson v : Except _ (OneOfTwo α β)).toOption =
      ((Shape.decode v).toOption.map first).or ((Shape.decode v).toOption.map second) := by
  unfold ofJson
  cases (Shape.decode v : Except Json.Fault α) with
  | ok a => rfl
  | error fault => cases (Shape.decode v : Except Json.Fault β) <;> rfl

theorem OneOfThree.toOption_ofJson (v : Json) :
    (ofJson v : Except _ (OneOfThree α β γ)).toOption =
      (((Shape.decode v).toOption.map first).or ((Shape.decode v).toOption.map second)).or
        ((Shape.decode v).toOption.map third) := by
  unfold ofJson
  cases (Shape.decode v : Except Json.Fault α) with
  | ok a => rfl
  | error fault =>
    cases (Shape.decode v : Except Json.Fault β) with
    | ok b => rfl
    | error fault' => cases (Shape.decode v : Except Json.Fault γ) <;> rfl

theorem OneOfTwo.toOption_decode (v : Json) :
    (Shape.decode v : Except _ (OneOfTwo α β)).toOption =
      (ofJson v : Except _ (OneOfTwo α β)).toOption := by
  change ((ofJson v : Except _ (OneOfTwo α β)).mapError UnionFault.toFault).toOption = _
  cases (ofJson v : Except _ (OneOfTwo α β)) <;> rfl

theorem OneOfThree.map_nestRight (v : Json) :
    (ofJson v : Except _ (OneOfThree α β γ)).toOption.map nestRight =
      (OneOfTwo.ofJson v).toOption := by
  rw [toOption_ofJson, OneOfTwo.toOption_ofJson, OneOfTwo.toOption_decode, OneOfTwo.toOption_ofJson]
  simp only [Option.map_or, Option.map_map, Option.or_assoc]
  rfl

theorem OneOfThree.map_nestLeft (v : Json) :
    (ofJson v : Except _ (OneOfThree α β γ)).toOption.map nestLeft =
      (OneOfTwo.ofJson v).toOption := by
  rw [toOption_ofJson, OneOfTwo.toOption_ofJson, OneOfTwo.toOption_decode, OneOfTwo.toOption_ofJson]
  simp only [Option.map_or, Option.map_map]
  rfl

/-- A value is read by the earliest form, in the order of declaration, that accepts it, and refused
if and only if none does; the fault names the forms in order and says why the last one does not. What
is written for a value of the union is read back if and only if no form before the value's own accepts
it, and otherwise as the earliest of these reads it, provided that each form's values are read back on
their own. A union of three forms accepts the same values, as the same forms, as a union of two one of
which is a union of two. -/
theorem earliest_form_wins (α β γ : Type) [Shape α] [Shape β] [Shape γ] :
    (Follows (OneOfTwo.forms α β) id OneOfTwo.ofJson ∧
      Follows (OneOfTwo.forms α β) UnionFault.toFault Shape.decode) ∧
    (Follows (OneOfThree.forms α β γ) id OneOfThree.ofJson ∧
      Follows (OneOfThree.forms α β γ) UnionFault.toFault Shape.decode) ∧
    (Shape.RoundTrips α → Shape.RoundTrips β →
      ReturnsUnlessTaken (OneOfTwo.forms α β) OneOfTwo.index ∧
      (Shape.RoundTrips γ → ReturnsUnlessTaken (OneOfThree.forms α β γ) OneOfThree.index)) ∧
    ∀ v,
      (OneOfThree.ofJson v : Except _ (OneOfThree α β γ)).toOption.map OneOfThree.nestRight =
        (OneOfTwo.ofJson v : Except _ (OneOfTwo α (OneOfTwo β γ))).toOption ∧
      (OneOfThree.ofJson v : Except _ (OneOfThree α β γ)).toOption.map OneOfThree.nestLeft =
        (OneOfTwo.ofJson v : Except _ (OneOfTwo (OneOfTwo α β) γ)).toOption := by
  refine ⟨⟨OneOfTwo.follows, OneOfTwo.decode_follows⟩,
    ⟨OneOfThree.follows, OneOfThree.decode_follows⟩, fun ha hb => ?_, fun v => ?_⟩
  · exact ⟨OneOfTwo.returnsUnlessTaken ha hb, OneOfThree.returnsUnlessTaken ha hb⟩
  · exact ⟨OneOfThree.map_nestRight v, OneOfThree.map_nestLeft v⟩

/-- A unit is written as null, which an absent number accepts before it; a text is left to the third
form. -/
theorem unit_read_as_absent :
    (Shape.RoundTrips (Option UInt32) ∧ Shape.RoundTrips Unit ∧ Shape.RoundTrips String) ∧
    Shape.decode (Shape.encode (.second () : OneOfThree (Option UInt32) Unit String)).sorted =
      .ok (.first none : OneOfThree (Option UInt32) Unit String) ∧
    Shape.decode (Shape.encode (.third "a" : OneOfThree (Option UInt32) Unit String)).sorted =
      .ok (.third "a" : OneOfThree (Option UInt32) Unit String) := by
  have hnumber : Shape.RoundTrips (Option UInt32) :=
    (Shape.returns_option Shape.returns_uint32 fun _ => Json.noConfusion).roundTrips
  have hunit : Shape.RoundTrips Unit := Shape.returns_unit.roundTrips
  have htext : Shape.RoundTrips String := Shape.returns_string.roundTrips
  obtain ⟨-, -, hreturns, -⟩ := earliest_form_wins (Option UInt32) Unit String
  have hthree := (hreturns hnumber hunit).2 htext
  refine ⟨⟨hnumber, hunit, htext⟩, ?_, ?_⟩
  · obtain ⟨y, hy, hdecode⟩ := (hthree (.second ())).2 ⟨_, List.mem_singleton_self _, _, rfl⟩
    obtain ⟨f, hf, hread⟩ := hy.exists_mem
    obtain rfl := List.mem_singleton.1 hf
    cases hread
    exact hdecode
  · have hno : (Shape.decode (.string "a") : Except Json.Fault (Option UInt32)) =
        .error (.wrongType (.string "a") "u32") := rfl
    have hnone : (Shape.decode (.string "a") : Except Json.Fault Unit) =
        .error (.wrongType (.string "a") "unit") := rfl
    refine (hthree (.third "a")).1.2 ?_
    intro f hf
    rcases List.mem_pair.1 hf with rfl | rfl
    · exact not_accepts_ofShape hno _
    · exact not_accepts_ofShape hnone _

end PeerRpc
