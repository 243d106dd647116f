import PeerRpc.Shape.Basic

/-!
# Unions without a mark

Many fields of a message hold one of two or three forms, and nothing in the value says which. Such
a value is read as the first form, in the order of declaration, that accepts it; it is written as
the form it has, with nothing around it. The order is therefore part of the type.
-/

namespace PeerRpc

/-- A value of one of two forms. -/
inductive OneOfTwo (α β : Type) where
  /-- A value of the first form. -/
  | first (a : α)
  /-- A value of the second form. -/
  | second (b : β)
deriving DecidableEq, Repr

/-- A value of one of three forms. -/
inductive OneOfThree (α β γ : Type) where
  /-- A value of the first form. -/
  | first (a : α)
  /-- A value of the second form. -/
  | second (b : β)
  /-- A value of the third form. -/
  | third (c : γ)
deriving DecidableEq, Repr

/-- No form of a union accepts a value. -/
structure UnionFault where
  /-- The names of the forms, in the order in which they were tried. -/
  attempted : List String
  /-- Why the last of them does not accept the value. -/
  last : Json.Fault

namespace UnionFault

/-- The fault as a cause for which a value is refused. -/
def toFault (u : UnionFault) : Json.Fault :=
  .noAlternative u.attempted u.last

/-- The wording of the fault. -/
def message (u : UnionFault) : String :=
  u.toFault.message

end UnionFault

variable {α β γ : Type} [Shape α] [Shape β] [Shape γ]

/-- Reads a value of the first form that accepts it. -/
def OneOfTwo.ofJson (v : Json) : Except UnionFault (OneOfTwo α β) :=
  match Shape.decode (α := α) v with
  | .ok a => .ok (.first a)
  | .error _ =>
    match Shape.decode (α := β) v with
    | .ok b => .ok (.second b)
    | .error last => .error ⟨[Shape.name α, Shape.name β], last⟩

/-- Reads a value of the first form that accepts it. -/
def OneOfThree.ofJson (v : Json) : Except UnionFault (OneOfThree α β γ) :=
  match Shape.decode (α := α) v with
  | .ok a => .ok (.first a)
  | .error _ =>
    match Shape.decode (α := β) v with
    | .ok b => .ok (.second b)
    | .error _ =>
      match Shape.decode (α := γ) v with
      | .ok c => .ok (.third c)
      | .error last => .error ⟨[Shape.name α, Shape.name β, Shape.name γ], last⟩

instance : Shape (OneOfTwo α β) where
  name := "lspwire_protocol::union::TwoOf<" ++ Shape.name α ++ ", " ++ Shape.name β ++ ">"
  decode v := (OneOfTwo.ofJson v).mapError UnionFault.toFault
  encode
    | .first a => Shape.encode a
    | .second b => Shape.encode b

instance : Shape (OneOfThree α β γ) where
  name :=
    "lspwire_protocol::union::ThreeOf<" ++ Shape.name α ++ ", " ++ Shape.name β ++ ", " ++
      Shape.name γ ++ ">"
  decode v := (OneOfThree.ofJson v).mapError UnionFault.toFault
  encode
    | .first a => Shape.encode a
    | .second b => Shape.encode b
    | .third c => Shape.encode c

end PeerRpc
