import SchemaMap.Symbol.Kind
import SchemaMap.Ty.Union
import SchemaMap.UnitTable

/-!
# Resolution of type expressions

The type that a type expression stands for, given what the declared names and
units are.  Inside a schema its parameters come before declared names, except
where a name is given arguments.
-/

namespace SchemaMap

/-- What the names in type expressions stand for. -/
structure Names where
  kind : String → Option Kind
  unit : String → Except Fault PhysicalUnit

namespace Names

/-- The type of a declared name with arguments. -/
def named (names : Names) (name : String) (arguments : List Ty) (span : Span) :
    Except Fault Ty :=
  match names.kind name with
  | none => .error ⟨.undeclaredType name, span⟩
  | some (.schema schema _) =>
      if arguments.length = schema.parameters.length then
        .ok (.handle name arguments)
      else
        .error
          ⟨.genericArity name schema.parameters.length arguments.length, span⟩
  | some (.enumeration variants) =>
      if arguments.isEmpty then
        .ok (.enumeration name variants)
      else
        .error ⟨.genericArity name 0 arguments.length, span⟩
  | some kind => .error ⟨.notAType name kind.text, span⟩

/-- The type of a bare name: a parameter, or else a declared name. -/
def bare (names : Names) (parameters : List (String × Ty)) (name : String)
    (span : Span) :
    Except Fault Ty :=
  match parameters.lookup name with
  | some parameter => .ok parameter
  | none => names.named name [] span

/-- The unit of a unit expression. -/
def quantity (names : Names) (unit : UnitExpr) : Except Fault Ty :=
  ((unit.evaluate (m := Id) names.unit).run).map .quantity

mutual

/-- The type of a type expression. -/
def resolve (names : Names) (parameters : List (String × Ty)) :
    TypeExpr → Except Fault Ty
  | .primitive _ base => .ok (.primitive base)
  | .schemaName span name => names.bare parameters name span
  | .enumName span name => names.bare parameters name span
  | .array _ element => (resolve names parameters element).map .array
  | .optional _ inner => (resolve names parameters inner).map Ty.optionalOf
  | .quantity _ unit => names.quantity unit
  | .tuple _ items => (resolveAll names parameters items).map .tuple
  | .union _ members => (resolveAll names parameters members).map Ty.unionOf
  | .generic span name arguments => do
      let arguments ← resolveAll names parameters arguments
      names.named name arguments span
termination_by structural type => type

/-- The types of a list of type expressions, or the first fault among them. -/
def resolveAll (names : Names) (parameters : List (String × Ty)) :
    List TypeExpr → Except Fault (List Ty)
  | [] => .ok []
  | type :: rest => do
      let first ← resolve names parameters type
      let others ← resolveAll names parameters rest
      return first :: others
termination_by structural types => types

end

/-- The types of the keys of a lookup table and of its values. -/
def lookup (names : Names) (declaration : LookupDeclaration) :
    Except Fault (List Ty × Ty) := do
  let keys ← names.resolveAll [] declaration.keys
  let value ← names.resolve [] declaration.value
  return (keys, value)

/-- The types of the sources of a transform and of its target. -/
def signature (names : Names) (declaration : TransformDeclaration) :
    Except Fault Signature := do
  let types ←
    names.resolveAll [] (declaration.sources.map SourceDeclaration.type)
  let target ← names.resolve [] declaration.target
  return { sources :=
    (declaration.sources.map SourceDeclaration.name).zip types, target :=
      target }

end Names

end SchemaMap
