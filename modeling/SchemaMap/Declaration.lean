import SchemaMap.Expr.Equality
import SchemaMap.TypeExpr

/-!
# Declarations

A program is a list of declarations: schemas, enumerations, dimensions, units,
lookup tables, transforms with their mapping rules, and pipelines of transforms.
-/

namespace SchemaMap

/-- A field of a schema. -/
structure FieldDeclaration where
  name : String
  type : TypeExpr
  span : Span := .unknown
deriving BEq

/--
A record type, possibly with parameters and with fields taken over from another
one.
-/
structure SchemaDeclaration where
  name : String
  parameters : List String := []
  parent : Option (Located String) := none
  fields : List FieldDeclaration
  span : Span := .unknown
deriving BEq

/-- A type with finitely many values. -/
structure EnumDeclaration where
  name : String
  variants : List (Located String)
  span : Span := .unknown
deriving BEq

/-- A physical dimension. -/
structure DimensionDeclaration where
  name : String
  span : Span := .unknown
deriving BEq

/--
A unit.  Its expression defines it; without one it is the base unit of its
dimension; with neither it is a pure number.  The scale multiplies what the
definition gives.
-/
structure UnitDeclaration where
  name : String
  dimension : Option (Located String) := none
  definition : Option UnitExpr := none
  scale : Option Float := none
  span : Span := .unknown
deriving BEq

/-- A table from keys to values. -/
structure LookupDeclaration where
  name : String
  keys : List TypeExpr
  value : TypeExpr
  span : Span := .unknown
deriving BEq

/-- An input of a transform. -/
structure SourceDeclaration where
  name : Option String := none
  type : TypeExpr
deriving BEq

/-- A value for a field of the target. -/
structure Rule where
  target : List (Located String)
  value : Expr
  span : Span := .unknown
deriving BEq

/-- A mapping from sources to a target. -/
structure TransformDeclaration where
  name : String
  sources : List SourceDeclaration
  target : TypeExpr
  rules : List Rule
  span : Span := .unknown
deriving BEq

/-- Transforms applied one after the other. -/
structure PipelineDeclaration where
  name : String
  steps : List (Located String)
  span : Span := .unknown
deriving BEq

/-- A declaration of a program. -/
inductive Declaration where
  | schema (declaration : SchemaDeclaration)
  | enumeration (declaration : EnumDeclaration)
  | dimension (declaration : DimensionDeclaration)
  | unit (declaration : UnitDeclaration)
  | lookup (declaration : LookupDeclaration)
  | transform (declaration : TransformDeclaration)
  | pipeline (declaration : PipelineDeclaration)
deriving BEq

/-- A program is the list of its declarations. -/
abbrev Program := List Declaration

/-- The target of a rule as text. -/
def Rule.targetText (rule : Rule) : String :=
  Text.join "." (rule.target.map Located.value)

namespace Declaration

/-- The name that is declared. -/
def name : Declaration → String
  | .schema declaration => declaration.name
  | .enumeration declaration => declaration.name
  | .dimension declaration => declaration.name
  | .unit declaration => declaration.name
  | .lookup declaration => declaration.name
  | .transform declaration => declaration.name
  | .pipeline declaration => declaration.name

/-- The position of the declaration. -/
def span : Declaration → Span
  | .schema declaration => declaration.span
  | .enumeration declaration => declaration.span
  | .dimension declaration => declaration.span
  | .unit declaration => declaration.span
  | .lookup declaration => declaration.span
  | .transform declaration => declaration.span
  | .pipeline declaration => declaration.span

/-- The same declaration at another position. -/
def moved (target : Span) : Declaration → Declaration
  | .schema declaration => .schema { declaration with span := target }
  | .enumeration declaration => .enumeration { declaration with span := target }
  | .dimension declaration => .dimension { declaration with span := target }
  | .unit declaration => .unit { declaration with span := target }
  | .lookup declaration => .lookup { declaration with span := target }
  | .transform declaration => .transform { declaration with span := target }
  | .pipeline declaration => .pipeline { declaration with span := target }

end Declaration

/-! ## Declarations of other names -/

section

variable {α : Type} {key : α → String} {declarations : List α} {name : String}
  {declaration : α}

/-- The declarations of other names. -/
def without (key : α → String) (declarations : List α) (name : String) :
    List α :=
  declarations.filter fun declaration => key declaration != name

theorem mem_without_iff :
    declaration ∈ without key declarations name ↔
      declaration ∈ declarations ∧ key declaration ≠ name := by
  simp [without]

/-- One declaration less is left after one that was found. -/
theorem length_without_lt
    (found : declarations.find? (fun candidate => key candidate == name) =
      some declaration) :
    (without key declarations name).length < declarations.length := by
  unfold without
  rw [List.length_filter_lt_length_iff_exists]
  refine ⟨declaration, List.mem_of_find?_eq_some found, ?_⟩
  have named := List.find?_some found
  simpa using named

end

end SchemaMap
