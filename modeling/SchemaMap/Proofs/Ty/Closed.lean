import SchemaMap.Proofs.Ty.Throughout

/-!
# Closed types

A type is closed over some declarations when it is known at every depth, every
schema in it is a handle of a declared schema with one argument for each
parameter, and every enumeration in it has its declared variants.  The type of a
type expression is closed over the declarations that it is resolved with
(`Denotes.closed`).
-/

namespace SchemaMap

namespace Ty

/-- The type itself is known, and is what the name in it is declared as. -/
def IsDeclared (declared : String → Kind → Prop) : Ty → Prop
  | .schema name arguments parameters fields =>
      parameters = [] ∧ fields = [] ∧
        ∃ schema parent, declared name (.schema schema parent) ∧
        arguments.length = schema.parameters.length
  | .enumeration name variants => declared name (.enumeration variants)
  | .unknown => False
  | _ => True

/-- All parts of the type are known and declared. -/
def Closed (declared : String → Kind → Prop) (type : Ty) : Prop :=
  ∀ part : Ty, part.OccursIn type → part.IsDeclared declared

variable {declared : String → Kind → Prop}

/--
A type is closed exactly when its head is declared and its children are closed.
-/
theorem closed_iff {type : Ty} :
    type.Closed declared ↔
      type.IsDeclared declared ∧
        ∀ child ∈ type.children, child.Closed declared :=
  throughout_iff

/--
A type that is closed over some declarations is closed over those that give
schemas and enumerations the same.
-/
theorem Closed.mono {other : String → Kind → Prop} {type : Ty}
    (closed : type.Closed declared)
    (schemas : ∀ name schema parent, declared name (.schema schema parent) →
      ∃ content above, other name (.schema content above) ∧
        content.parameters = schema.parameters)
    (enumerations : ∀ name variants, declared name (.enumeration variants) →
      other name (.enumeration variants)) :
    type.Closed other := by
  intro part occurs
  have isDeclared := closed part occurs
  cases part with
  | schema name arguments parameters fields =>
      rcases isDeclared with ⟨bare, empty, schema, parent, known, arity⟩
      rcases schemas name schema parent known with ⟨content, above, found, same⟩
      exact ⟨bare, empty, content, above, found, by rw [same, arity]⟩
  | enumeration name variants => exact enumerations name variants isDeclared
  | unknown => exact isDeclared
  | _ => trivial

theorem structural_isDeclared : Structural (IsDeclared declared) := by
  constructor <;> intros <;> trivial

end Ty

/-! ## Types that are written -/

section

variable {declared : String → Kind → Prop} {unit : String → PhysicalUnit → Prop}
  {parameters : List (String × Ty)}

theorem provides_isDeclared :
    Provides declared unit (Ty.IsDeclared declared) where
  structural := Ty.structural_isDeclared
  applied := by
    intro name arguments type applied
    cases applied with
    | schema known arity => exact ⟨rfl, rfl, _, _, known, arity⟩
    | enumeration known => exact known
  measured := fun _ _ _ => trivial

/--
A type expression stands for a closed type, if the parameters in reach do.
-/
theorem Denotes.closed
    (bound : ∀ name type, parameters.lookup name = some type →
      type.Closed declared)
    (expression : TypeExpr) {type : Ty}
    (denotes : Denotes declared unit parameters expression type) :
    type.Closed declared :=
  Denotes.throughout provides_isDeclared bound expression denotes

/-- Expressions denote closed types under closed parameters. -/
theorem Denotes.allClosed
    (bound : ∀ name type, parameters.lookup name = some type →
      type.Closed declared)
    (expressions : List TypeExpr) {types : List Ty}
    (each : List.Forall₂ (Denotes declared unit parameters) expressions types) :
    ∀ type ∈ types, type.Closed declared :=
  Denotes.allThroughout provides_isDeclared bound expressions each

end

end SchemaMap
