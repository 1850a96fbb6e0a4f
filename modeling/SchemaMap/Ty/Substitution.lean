import SchemaMap.Ty.Basic

/-!
# Substitution

Type variables are replaced by name, all at once, wherever they occur in a type;
a variable without a replacement stays.  The fields of a schema are seen through
the arguments of its parameters.
-/

namespace SchemaMap

/-- A type for each of some names. -/
abbrev Bindings := Dictionary String Ty

namespace Ty

mutual

/-- The type with its variables replaced. -/
def substitute (bindings : Bindings) : Ty → Ty
  | .primitive base => .primitive base
  | .schema name arguments parameters fields =>
      .schema name (substituteAll bindings arguments) parameters
        (substituteFields bindings fields)
  | .enumeration name variants => .enumeration name variants
  | .array element => .array (substitute bindings element)
  | .optional inner => .optional (substitute bindings inner)
  | .quantity unit => .quantity unit
  | .tuple items => .tuple (substituteAll bindings items)
  | .union members => .union (substituteAll bindings members)
  | .function parameters result =>
      .function (substituteAll bindings parameters) (substitute bindings result)
  | .parameter name id => (bindings.get? name).getD (.parameter name id)
  | .never => .never
  | .unknown => .unknown
termination_by structural type => type

/-- The types of a list with their variables replaced. -/
def substituteAll (bindings : Bindings) : List Ty → List Ty
  | [] => []
  | type :: rest => substitute bindings type :: substituteAll bindings rest
termination_by structural types => types

/-- Named types with their variables replaced. -/
def substituteFields (bindings : Bindings) :
    List (String × Ty) → List (String × Ty)
  | [] => []
  | (name, type) :: rest =>
      (name, substitute bindings type) :: substituteFields bindings rest
termination_by structural fields => fields

end

theorem substituteAll_eq_map (bindings : Bindings) (types : List Ty) :
    substituteAll bindings types = types.map (substitute bindings) := by
  induction types with
  | nil => rfl
  | cons type rest ih => simp [substituteAll, ih]

theorem substituteFields_eq_map (bindings : Bindings)
    (fields : List (String × Ty)) :
    substituteFields bindings fields =
      fields.map (fun field => (field.1, substitute bindings field.2)) := by
  induction fields with
  | nil => rfl
  | cons field rest ih => simp [substituteFields, ih]

end Ty

namespace Schema

/--
The argument of each parameter; of a repeated parameter the last argument
counts.
-/
def bindings (schema : Schema) (arguments : List Ty) : Bindings :=
  .ofList (schema.parameters.zip arguments)

/-- The fields as they are seen through a handle with the given arguments. -/
def fieldsAt (schema : Schema) (arguments : List Ty) : List (String × Ty) :=
  schema.fields.map
    (fun field => (field.1, field.2.substitute (schema.bindings arguments)))

/--
The type of a field as it is seen through a handle with the given arguments.
-/
def fieldAt? (schema : Schema) (arguments : List Ty) (name : String) :
    Option Ty :=
  (schema.field? name).map (·.substitute (schema.bindings arguments))

end Schema

end SchemaMap
