import SchemaMap.PhysicalUnit.Basic
import SchemaMap.Vocabulary.Primitive

/-!
# Types

The types that expressions and declarations have.  A schema in a type is a
handle: its name and the arguments of its parameters.  The fields that belong to
the name are kept with the declaration, as a `Schema`, so that a schema may
mention itself.
-/

namespace SchemaMap

/-- The type of a value. -/
inductive Ty where
  | primitive (base : Primitive)
  | schema (name : String) (arguments : List Ty) (parameters : List String)
      (fields : List (String × Ty))
  | enumeration (name : String) (variants : List String)
  | array (element : Ty)
  | optional (inner : Ty)
  | quantity (unit : PhysicalUnit)
  | tuple (items : List Ty)
  | union (members : List Ty)
  | function (parameters : List Ty) (result : Ty)
  | parameter (name : String) (id : Nat)
  /-- The type without values, of `null`: it goes everywhere. -/
  | never
  /-- The type of every value: everything goes into it. -/
  | unknown

namespace Ty

/-- A schema by its name and the arguments of its parameters. -/
def handle (name : String) (arguments : List Ty) : Ty :=
  .schema name arguments [] []

def string : Ty := .primitive .string

def int : Ty := .primitive .int

def float : Ty := .primitive .float

def bool : Ty := .primitive .bool

/-- The type with room for a missing value; a type that has it already stays. -/
def optionalOf : Ty → Ty
  | .optional inner => .optional inner
  | type => .optional type

/-- A type is made optional once. -/
theorem optionalOf_optionalOf (type : Ty) :
    type.optionalOf.optionalOf = type.optionalOf := by
  cases type <;> rfl

/-- The type of a value that is known to be there. -/
def present : Ty → Ty
  | .optional inner => inner
  | type => type

def isOptional : Ty → Bool
  | .optional _ => true
  | _ => false

def isUnknown : Ty → Bool
  | .unknown => true
  | _ => false

/-- The element type of an array. -/
def element? : Ty → Option Ty
  | .array element => some element
  | _ => none

/-- The unit of a quantity. -/
def unit? : Ty → Option PhysicalUnit
  | .quantity unit => some unit
  | _ => none

end Ty

/-- A schema with the fields that its name stands for. -/
structure Schema where
  name : String
  arguments : List Ty := []
  parameters : List String := []
  fields : List (String × Ty) := []

namespace Schema

/-- The schema as a type, fields and all. -/
def toTy (schema : Schema) : Ty :=
  .schema schema.name schema.arguments schema.parameters schema.fields

/-- The type of a field, in terms of the schema's own parameters. -/
def field? (schema : Schema) (name : String) : Option Ty :=
  (schema.fields.find? (fun field => field.1 == name)).map Prod.snd

end Schema

end SchemaMap
