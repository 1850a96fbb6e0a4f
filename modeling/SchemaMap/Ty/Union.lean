import SchemaMap.Ty.Equality

/-!
# Unions

A union is built from its members without repetition: a member that is itself a
union gives its own members, a type that is there already is left out, and a
single type needs no union.
-/

namespace SchemaMap.Ty

/-- What a type contributes to a union. -/
def parts : Ty → List Ty
  | .union members => members
  | type => [type]

/-- Add a type at the end unless an equal one is there. -/
def addDistinct (types : List Ty) (type : Ty) : List Ty :=
  if anyEqual types type then types else types ++ [type]

/-- The union of some types. -/
def unionOf (members : List Ty) : Ty :=
  match (members.flatMap parts).foldl addDistinct [] with
  | [] => .never
  | [type] => type
  | types => .union types

/-- The type of a value that has one of two types. -/
def join (left right : Ty) : Ty :=
  if equal left right then left else unionOf [left, right]

/--
The type of a value that has one of the given types, joined from the left.
-/
def joinAll : List Ty → Ty
  | [] => .never
  | first :: rest => rest.foldl join first

end SchemaMap.Ty
